import AnonCred.Credential.Ownership

/-!
# Issuing credentials

The owner of a pseudonym `(a, b)` proves to the issuer that it knows the secret. The issuer answers
with the tags `A = b ^ s2` and `B = (a * A) ^ s1`, and proves for each tag that the exponent is the
one of its public key.
-/

namespace AnonCred

/-- The tags `a` and `b` of a pseudonym, and the commitments of the two proofs about them. -/
structure IssuanceCommitments (E : Type) where
  x11 : E
  x12 : E
  x21 : E
  x22 : E
  a : E
  b : E
deriving DecidableEq, Repr

/-- An issuer's session with one user: its key, the verifier and the pseudonym that a challenge is
pending for, and the provers of the tags once the user is accepted. -/
structure Issuer (E : Type) where
  key : IssuerKey
  verifier : Knowledge.Verifier E
  pending : Option (Pseudonym E)
  provers : Option (Equality.Prover E × Equality.Prover E)
deriving DecidableEq

namespace Issuer

variable {E : Type} [DecidableEq E] (G : CyclicGroup E)

omit [DecidableEq E] in
def start (key : IssuerKey) : Issuer E := ⟨key, .start .sigma, none, none⟩

/-- What an issuer says in its refusals. -/
def texts : Ownership.Texts where
  base := "pseudonym base"
  value := "pseudonym value"
  expected := "an authentication challenge"
  failed := .pseudonymAuthentication

/-- A challenge for the owner of a pseudonym. -/
def challenge (I : Issuer E) (nym : Pseudonym E) (x : E) : Draw (Except Error Nat × Issuer E) :=
  Ownership.challenge G texts (fun verifier pending => { I with verifier, pending }) I.verifier
    I.pending nym x

omit [DecidableEq E] in
/-- The tags of a pseudonym, and provers for them that have committed. -/
def tag (key : IssuerKey) (nym : Pseudonym E) :
    Drawn (IssuanceCommitments E × Equality.Prover E × Equality.Prover E) := do
  let tagA := G.exp nym.b key.s2
  let tagged := G.compose nym.a tagA
  let tagB := G.exp tagged key.s1
  let first ← Equality.Prover.start G key.s2 G.generator nym.b
  let second ← Equality.Prover.start G key.s1 G.generator tagged
  let ((x11, x12), first) ← callDrawn (first.randomData G)
  let ((x21, x22), second) ← callDrawn (second.randomData G)
  pure (⟨x11, x12, x21, x22, tagA, tagB⟩, first, second)

/-- The tags with the commitments, if the answer to the challenge is accepted. -/
def verify (I : Issuer E) (z : Nat) :
    Draw (Except Error (IssuanceCommitments E) × Issuer E) :=
  Ownership.verify G texts (fun verifier pending => { I with verifier, pending }) I.verifier
    I.pending z fun nym next => do
      match ← (tag G I.key nym).run with
      | .error error => pure (.error error, next)
      | .ok (commitments, provers) => pure (.ok commitments, { next with provers := some provers })

omit [DecidableEq E] in
/-- The answers to the challenges about the two tags. -/
def respond (I : Issuer E) (e1 e2 : Nat) : Except Error (Nat × Nat) × Issuer E :=
  settle { I with provers := none } <|
    match I.provers with
    | none => .error (.outOfOrder "issuance commitments" "not authenticated")
    | some (first, second) => do
      let z1 ← (first.respond G e1).1
      let z2 ← (second.respond G e2).1
      pure ((z1, z2), { I with provers := none })

end Issuer

end AnonCred

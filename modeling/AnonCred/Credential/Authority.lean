import AnonCred.Credential.Ownership

/-!
# The certification authority

A user proves to the authority that it knows the secret of a master pseudonym. The authority then
signs a copy of the pseudonym, raised to a random exponent.
-/

namespace AnonCred

/-- A session of the authority with one user: its key, its verifier, and the pseudonym that a
challenge is pending for. -/
structure Authority (E : Type) where
  key : Ecdsa.SecretKey
  verifier : Knowledge.Verifier E
  pending : Option (Pseudonym E)
deriving DecidableEq

namespace Authority

variable {E : Type} [DecidableEq E] (G : CyclicGroup E)

omit [DecidableEq E] in
/-- A session that waits for a pseudonym. -/
def start (key : Ecdsa.SecretKey) : Authority E := ⟨key, .start .sigma, none⟩

/-- What the authority says in its refusals. -/
def texts : Ownership.Texts where
  base := "master pseudonym base"
  value := "master pseudonym value"
  expected := "a challenge"
  failed := .masterPseudonym

/-- A challenge for the owner of a pseudonym. -/
def challenge (A : Authority E) (nym : Pseudonym E) (x : E) :
    Draw (Except Error Nat × Authority E) :=
  Ownership.challenge G texts (fun verifier pending => { A with verifier, pending }) A.verifier
    A.pending nym x

/-- A pseudonym raised to an exponent, and signed. -/
def certify (key : Ecdsa.SecretKey) (nym : Pseudonym E) (r : Nat) :
    Except Error (Certificate E) := do
  let blindedA := G.exp nym.a r
  let blindedB := G.exp nym.b r
  let signature ← Ecdsa.sign key (Certificate.digest G blindedA blindedB)
  pure ⟨blindedA, blindedB, signature⟩

/-- The certificate, if the answer to the challenge is accepted. -/
def verify (A : Authority E) (z : Nat) : Draw (Except Error (Certificate E) × Authority E) :=
  Ownership.verify G texts (fun verifier pending => { A with verifier, pending }) A.verifier
    A.pending z fun nym next => do
      let r ← G.randomUnit
      pure (certify G A.key nym r, next)

end Authority

end AnonCred

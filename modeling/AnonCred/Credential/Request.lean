import AnonCred.Credential.Issuer

/-!
# Asking for a credential

The user blinds the issuer's two proofs with one exponent `γ`, and puts the blinded pseudonym, the
blinded tags and the two transcripts together into a credential.
-/

namespace AnonCred

/-- A request for a credential on a pseudonym: the issuer's key, the blinding exponent, the
blinding verifiers of the two proofs, and whether both have sent their challenges. -/
structure CredentialRequest (E : Type) where
  nym : Pseudonym E
  issuer : IssuerPublicKey E
  gamma : Nat
  first : Blinding.Verifier E
  second : Blinding.Verifier E
  challenged : Bool
deriving DecidableEq

namespace CredentialRequest

variable {E : Type} (G : CyclicGroup E)

/-- A request with a given blinding exponent. -/
def ofGamma (nym : Pseudonym E) (issuer : IssuerPublicKey E) (gamma : Nat) :
    Except Error (CredentialRequest E) := do
  let first ← Blinding.Verifier.start G gamma
  let second ← Blinding.Verifier.start G gamma
  pure ⟨nym, issuer, gamma, first, second, false⟩

/-- What the issuer claims of the first tag. -/
def firstClaim (Q : CredentialRequest E) (c : IssuanceCommitments E) : Equality.Claim E :=
  ⟨G.generator, Q.nym.b, Q.issuer.h2, c.a, c.x11, c.x12⟩

/-- What the issuer claims of the second tag. -/
def secondClaim (Q : CredentialRequest E) (c : IssuanceCommitments E) : Equality.Claim E :=
  ⟨G.generator, G.compose Q.nym.a c.a, Q.issuer.h1, c.b, c.x21, c.x22⟩

/-- The challenges to the issuer. -/
def challenges (Q : CredentialRequest E) (c : IssuanceCommitments E) :
    Draw (Except Error (Nat × Nat) × CredentialRequest E) := do
  let (answer, first) ← Q.first.challenge G (Q.firstClaim G c)
  match answer with
  | .error error => pure (.error error, { Q with first })
  | .ok e1 => do
    let (answer, second) ← Q.second.challenge G (Q.secondClaim G c)
    match answer with
    | .error error => pure (.error error, { Q with first, second })
    | .ok e2 => pure (.ok (e1, e2), { Q with first, second, challenged := true })

/-- The credential of two blinded proofs. -/
def assemble (Q : CredentialRequest E) (first second : Blinding.Blinded E) : Credential E where
  base := G.exp Q.nym.a Q.gamma
  value := first.g2
  tagA := first.t2
  tagB := second.t2
  t1 := first.transcript
  t2 := second.transcript

/-- The credential, if both answers of the issuer are accepted. The request is used up. -/
def finish [DecidableEq E] (Q : CredentialRequest E) (z1 z2 : Nat) :
    Except Error (Credential E) := do
  if Q.challenged = false then throw (.outOfOrder "issuance challenges" "not started")
  let first ← (Q.first.verify G z1).1
  let second ← (Q.second.verify G z2).1
  match first, second with
  | some first, some second =>
    let credential := Q.assemble G first second
    if credential.ValidFor G Q.issuer then pure credential
    else throw (.verification .inconsistentTranscripts)
  | _, _ => throw (.verification .issuerProof)

end CredentialRequest

end AnonCred

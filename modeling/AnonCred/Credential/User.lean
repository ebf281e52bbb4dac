import AnonCred.Credential.Request

/-!
# Users

A user has one secret, and proves that its pseudonyms share it.
-/

namespace AnonCred

/-- A user: its secret. -/
structure User where
  secret : Nat
deriving DecidableEq

namespace User

variable {E : Type} (G : CyclicGroup E)

def ofSecret (secret : Nat) : Except Error User := do
  G.checkScalar secret "user secret"
  pure ⟨secret⟩

/-- A pseudonym on a random base other than the identity. -/
def pseudonym [DecidableEq E] (U : User) : Draw (Pseudonym E) := do
  let a ← Draw.accepted G.randomElement fun a => !G.isIdentity a
  pure ⟨a, G.exp a U.secret⟩

/-- Proves to the authority, or to an issuer, that a pseudonym is the user's. -/
def ownershipProver (U : User) (nym : Pseudonym E) : Drawn (Knowledge.Prover E) :=
  Knowledge.Prover.start G .sigma U.secret nym.a

/-- Proves that a pseudonym and a certified one are the user's. -/
def registrationProver (U : User) (nym : Pseudonym E) (certificate : Certificate E) :
    Except Error (Equality.Prover E) :=
  Equality.Prover.start G U.secret nym.a certificate.blindedA

/-- Proves that a pseudonym and a credential are the user's. -/
def transferProver (U : User) (nym : Pseudonym E) (credential : Credential E) :
    Except Error (Equality.Prover E) :=
  Equality.Prover.start G U.secret nym.a credential.base

/-- Asks an issuer for a credential on a pseudonym, under a random blinding exponent. -/
def credentialRequest (_U : User) (nym : Pseudonym E) (issuer : IssuerPublicKey E) :
    Drawn (CredentialRequest E) := do
  let gamma ← G.randomUnit
  CredentialRequest.ofGamma G nym issuer gamma

end User

end AnonCred

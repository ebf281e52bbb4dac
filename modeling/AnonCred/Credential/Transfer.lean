import AnonCred.Credential.Pseudonym
import AnonCred.Credential.SessionKey

/-!
# Accepting credentials

An organization accepts a credential of another one for a pseudonym with the same secret, and hands
out a session key for it.
-/

namespace AnonCred

/-- An organization's session with the holder of a credential: the verifier, and the credential
that a challenge is pending for. -/
structure CredentialVerifier (E : Type) where
  verifier : Equality.Verifier E
  pending : Option (Credential E)
deriving DecidableEq

namespace CredentialVerifier

variable {E : Type} [DecidableEq E] (G : CyclicGroup E)

omit [DecidableEq E] in
def start : CredentialVerifier E := ⟨.ready, none⟩

/-- The statement is refused, and the session stays as it is, if a part is the identity. -/
def checkStatement (nym : Pseudonym E) (credential : Credential E) : Except Error Unit := do
  G.checkPair nym.a nym.b "pseudonym base" "pseudonym value"
  G.checkPair credential.base credential.value "blinded credential base" "blinded credential value"

omit [DecidableEq E] in
/-- That the pseudonym has the secret of the credential. -/
def claim (nym : Pseudonym E) (credential : Credential E) (x1 x2 : E) : Equality.Claim E :=
  ⟨nym.a, credential.base, nym.b, credential.value, x1, x2⟩

/-- A challenge for the holder of a credential. -/
def challenge (V : CredentialVerifier E) (nym : Pseudonym E) (credential : Credential E)
    (x1 x2 : E) : Draw (Except Error Nat × CredentialVerifier E) :=
  match checkStatement G nym credential with
  | .error error => pure (.error error, V)
  | .ok () => do
    let (answer, verifier) ← V.verifier.challenge G (claim nym credential x1 x2)
    match answer with
    | .error error => pure (.error error, { V with verifier })
    | .ok e => pure (.ok e, ⟨verifier, some credential⟩)

/-- Whether the answer and the pending credential are accepted. -/
def accept (V : CredentialVerifier E) (z : Nat) (issuer : IssuerPublicKey E) :
    Except Error Bool × CredentialVerifier E :=
  match V.pending with
  | none => (.error (.outOfOrder "an authentication challenge" "no pending proof"), V)
  | some credential =>
    let (answer, verifier) := V.verifier.verify G z
    (answer.map (· && decide (credential.ValidFor G issuer)), ⟨verifier, none⟩)

/-- A session key, if the answer and the pending credential are accepted; only then one is asked
for. -/
def verify {m : Type → Type} [Monad m] (generate : m (Except Error SessionKey))
    (V : CredentialVerifier E) (z : Nat) (issuer : IssuerPublicKey E) :
    m (Except Error (Option SessionKey) × CredentialVerifier E) :=
  match V.accept G z issuer with
  | (.error error, next) => pure (.error error, next)
  | (.ok false, next) => pure (.ok none, next)
  | (.ok true, next) => do
    let key ← generate
    pure (key.map some, next)

end CredentialVerifier

end AnonCred

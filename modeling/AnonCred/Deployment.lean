import AnonCred.Config
import AnonCred.Credential.Authority
import AnonCred.Credential.KeyStore
import AnonCred.Credential.Registration
import AnonCred.Credential.Transfer
import AnonCred.Credential.User

/-!
# All parties together

One user goes all the way: the authority certifies it, two organizations register a pseudonym each,
the first one issues a credential for the first pseudonym, and the second one takes the credential
for the second pseudonym and hands out a session key. `Deployment.run` plays every party, and each
step of the way is a function of its own.
-/

namespace AnonCred

/-- A signing key: numbers of its width are drawn until one is a key. -/
def Ecdsa.SecretKey.random : Draw Ecdsa.SecretKey :=
  Draw.untilSome do
    let bytes ← Draw.bytes Ecdsa.width
    pure (Ecdsa.SecretKey.ofNat? bytes.toNat)

namespace Deployment

variable {E : Type} [DecidableEq E] (G : CyclicGroup E)

/-! ## Registration keys -/

/-- So many random registration keys. -/
def makeKeys : Nat → Draw (List String)
  | 0 => pure []
  | n + 1 => do
    let bytes ← Draw.bytes 16
    return bytes.toHex :: (← makeKeys n)

/-- At least two registration keys: those that are known, and random ones for the rest. -/
def enoughKeys (known : List String) : Draw (List String) := do
  let made ← makeKeys (2 - known.length)
  pure (known ++ made)

/-! ## The steps -/

/-- The authority certifies a pseudonym of the user. -/
def certify (user : User) (key : Ecdsa.SecretKey) : Drawn (Certificate E) := do
  let nym ← user.pseudonym G
  let prover ← user.ownershipProver G nym
  let (x, prover) ← callDrawn (prover.randomData G)
  let (e, authority) ← callDrawn ((Authority.start key).challenge G nym x)
  let (response, _) ← call (prover.respond G ⟨e, none⟩)
  let (certificate, _) ← callDrawn (authority.verify G response.z)
  pure certificate

/-- An organization registers a pseudonym of the user for a registration key. -/
def register (user : User) (authority : Ecdsa.PublicKey) (certificate : Certificate E)
    (key : String) (store : RegistrationStore) : Drawn (Pseudonym E × RegistrationStore) := do
  let nym ← user.pseudonym G
  let (registrar, store) ← call (Registrar.start authority store key)
  let prover ← user.registrationProver G nym certificate
  let ((x1, x2), prover) ← callDrawn (prover.randomData G)
  let (e, registrar) ← callDrawn (registrar.challenge G nym certificate x1 x2)
  let (z, _) ← call (prover.respond G e)
  let (accepted, _) ← call (registrar.verify G z)
  if accepted then pure (nym, store) else throw (.verification .pseudonymRegistration)

/-- An organization issues a credential for a pseudonym. -/
def issue (user : User) (nym : Pseudonym E) (key : IssuerKey) : Drawn (Credential E) := do
  let prover ← user.ownershipProver G nym
  let (x, prover) ← callDrawn (prover.randomData G)
  let (e, issuer) ← callDrawn ((Issuer.start key).challenge G nym x)
  let (response, _) ← call (prover.respond G ⟨e, none⟩)
  let (commitments, issuer) ← callDrawn (issuer.verify G response.z)
  let request ← user.credentialRequest G nym (key.publicKey G)
  let ((e1, e2), request) ← callDrawn (request.challenges G commitments)
  let ((z1, z2), _) ← call (issuer.respond G e1 e2)
  request.finish G z1 z2

/-- An organization takes a credential for a pseudonym, and hands out a session key if it accepts
both. -/
def transfer (user : User) (nym : Pseudonym E) (credential : Credential E)
    (issuer : IssuerPublicKey E) (sessionKeys : SessionKey.Random) : Drawn (Option SessionKey) := do
  let prover ← user.transferProver G nym credential
  let ((x1, x2), prover) ← callDrawn (prover.randomData G)
  let (e, verifier) ← callDrawn (CredentialVerifier.start.challenge G nym credential x1 x2)
  let (z, _) ← call (prover.respond G e)
  let (sessionKey, _) ← callDrawn (verifier.verify G sessionKeys.generate z issuer)
  pure sessionKey

/-! ## All of them -/

/-- Registers two pseudonyms, for the first two of the keys. -/
def registerTwo (user : User) (authority : Ecdsa.PublicKey) (certificate : Certificate E)
    (keys : List String) (store : RegistrationStore) : Drawn (Pseudonym E × Pseudonym E) := do
  let (first, store) ← register G user authority certificate (keys.getD 0 "") store
  let (second, _) ← register G user authority certificate (keys.getD 1 "") store
  pure (first, second)

/-- The whole way of a user with a secret. The first organization issues the credential. -/
def run (config : Config) (secret : Nat) : Drawn (Option SessionKey) := do
  let organizationKeys ← KeyStore.random G config.organizations
  let registrationKeys ← enoughKeys config.registrationKeys
  let sessionKeys ← SessionKey.Random.ofLength config.sessionKeyBytes.toNat
  let user ← User.ofSecret G secret
  let authorityKey ← Ecdsa.SecretKey.random
  let certificate ← certify G user authorityKey
  let (issuerNym, verifierNym) ← registerTwo G user authorityKey.publicKey certificate
    registrationKeys (.ofList registrationKeys)
  let issuerKey ← organizationKeys.secretKey (config.organizations.headD "")
  let credential ← issue G user issuerNym issuerKey
  transfer G user verifierNym credential (issuerKey.publicKey G) sessionKeys

end Deployment

end AnonCred

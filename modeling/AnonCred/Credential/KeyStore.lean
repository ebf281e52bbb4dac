import AnonCred.Credential.Pseudonym

/-!
# The keys of organizations

A store maps the name of an organization to its secret key; storing a key again replaces it.
-/

namespace AnonCred

/-- Names and their keys, each name once. -/
structure KeyStore where
  entries : List (String × IssuerKey)
deriving DecidableEq

namespace KeyStore

def empty : KeyStore := ⟨[]⟩

/-- Stores a key, in place of an older one. -/
def insert (S : KeyStore) (organization : String) (key : IssuerKey) : KeyStore :=
  ⟨(organization, key) :: S.entries.filter (·.1 ≠ organization)⟩

def find? (S : KeyStore) (organization : String) : Option IssuerKey :=
  S.entries.lookup organization

/-- The secret key of an organization. -/
def secretKey (S : KeyStore) (organization : String) : Except Error IssuerKey :=
  match S.find? organization with
  | some key => .ok key
  | none => .error (.collaborator (.noKeys organization))

variable {E : Type} (G : CyclicGroup E)

/-- The public key of an organization. -/
def publicKey (S : KeyStore) (organization : String) : Except Error (IssuerPublicKey E) := do
  let key ← S.secretKey organization
  pure (key.publicKey G)

/-- Adds a random key for each name, in order. -/
def addRandom (S : KeyStore) : List String → Draw KeyStore
  | [] => pure S
  | organization :: rest => do
    let key ← IssuerKey.random G
    (S.insert organization key).addRandom rest

/-- Random keys for a list of names. -/
def random (organizations : List String) : Draw KeyStore := empty.addRandom G organizations

theorem find?_insert_self (S : KeyStore) (organization : String) (key : IssuerKey) :
    (S.insert organization key).find? organization = some key := by
  simp [insert, find?]

end KeyStore

end AnonCred

import AnonCred.Credential.Pseudonym

/-!
# Registering pseudonyms

An organization takes a new pseudonym from whoever holds a registration key, once for each key, and
shows that it knows the same secret for the pseudonym as for a certified one.
-/

namespace AnonCred

/-! ## Registration keys -/

/-- The registration keys that are not spent, each once. -/
structure RegistrationStore where
  keys : List String
deriving DecidableEq, Repr

namespace RegistrationStore

def empty : RegistrationStore := ⟨[]⟩

/-- Adds a key; one that is there already stays once. -/
def insert (S : RegistrationStore) (key : String) : RegistrationStore :=
  if key ∈ S.keys then S else ⟨S.keys ++ [key]⟩

def ofList (keys : List String) : RegistrationStore := keys.foldl insert empty

/-- Spends a key: whether it was there, and the store without it. -/
def consume (S : RegistrationStore) (key : String) : Bool × RegistrationStore :=
  (decide (key ∈ S.keys), ⟨S.keys.filter (· ≠ key)⟩)

def size (S : RegistrationStore) : Nat := S.keys.length

def isEmpty (S : RegistrationStore) : Bool := S.size == 0

theorem mem_insert {S : RegistrationStore} {key other : String} :
    other ∈ (S.insert key).keys ↔ other = key ∨ other ∈ S.keys := by
  unfold insert
  split
  · next h =>
    constructor
    · exact Or.inr
    · rintro (rfl | h')
      · exact h
      · exact h'
  · simp [or_comm]

theorem mem_consume {S : RegistrationStore} {key other : String} :
    other ∈ (S.consume key).2.keys ↔ other ∈ S.keys ∧ other ≠ key := by
  simp [consume]

theorem nodup_insert {S : RegistrationStore} (h : S.keys.Nodup) (key : String) :
    (S.insert key).keys.Nodup := by
  unfold insert
  split
  · exact h
  · next hk =>
    rw [List.nodup_append]
    refine ⟨h, by simp, ?_⟩
    intro a ha b hb
    rw [List.mem_singleton.mp hb]
    rintro rfl
    exact hk ha

theorem nodup_consume {S : RegistrationStore} (h : S.keys.Nodup) (key : String) :
    (S.consume key).2.keys.Nodup := h.filter _

end RegistrationStore

/-! ## The session -/

/-- An organization's session with one user: the key of the authority, and the verifier while the
session is open. -/
structure Registrar (E : Type) where
  authorityKey : Ecdsa.PublicKey
  verifier : Option (Equality.Verifier E)
deriving DecidableEq

namespace Registrar

variable {E : Type} [DecidableEq E] (G : CyclicGroup E)

omit [DecidableEq E] in
/-- Opens a session for a registration key, and spends the key. -/
def start (authorityKey : Ecdsa.PublicKey) (store : RegistrationStore) (key : String) :
    Except Error (Registrar E) × RegistrationStore :=
  match store.consume key with
  | (true, store) => (.ok ⟨authorityKey, some .ready⟩, store)
  | (false, store) => (.error .registrationDenied, store)

omit [DecidableEq E] in
/-- The session that is over. -/
def ended (R : Registrar E) : Registrar E := { R with verifier := none }

omit [DecidableEq E] in
/-- The verifier of an open session. -/
def openVerifier (R : Registrar E) : Except Error (Equality.Verifier E) :=
  match R.verifier with
  | some verifier => .ok verifier
  | none => .error (.outOfOrder "an open registration" "session ended")

/-- The certificate is signed and nothing in the statement is the identity. -/
def checkStatement (R : Registrar E) (nym : Pseudonym E) (certificate : Certificate E) :
    Except Error Unit := do
  certificate.verify G R.authorityKey
  G.checkPair nym.a nym.b "pseudonym base" "pseudonym value"
  G.checkPair certificate.blindedA certificate.blindedB "certified base" "certified value"

omit [DecidableEq E] in
/-- That the pseudonym has the secret of the certified one. -/
def claim (nym : Pseudonym E) (certificate : Certificate E) (x1 x2 : E) : Equality.Claim E :=
  ⟨nym.a, certificate.blindedA, nym.b, certificate.blindedB, x1, x2⟩

/-- A challenge for the owner of a certified pseudonym. -/
def challenge (R : Registrar E) (nym : Pseudonym E) (certificate : Certificate E) (x1 x2 : E) :
    Draw (Except Error Nat × Registrar E) :=
  settleDrawn R.ended do
    let verifier ← R.openVerifier
    R.checkStatement G nym certificate
    let (e, verifier) ← callDrawn (verifier.challenge G (claim nym certificate x1 x2))
    pure (e, { R with verifier := some verifier })

/-- Whether the pseudonym is registered. -/
def verify (R : Registrar E) (z : Nat) : Except Error Bool × Registrar E :=
  settle R.ended do
    let verifier ← R.openVerifier
    let accepted ← (verifier.verify G z).1
    pure (accepted, R.ended)

end Registrar

end AnonCred

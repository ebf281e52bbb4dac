import AnonCred.Error
import AnonCred.Random

/-!
# Session keys

What an organization hands out for a credential. Where the keys come from is up to the
organization: a generator is any computation that answers with a key or is refused.
-/

namespace AnonCred

/-- A key: its bytes. -/
structure SessionKey where
  bytes : Bytes
deriving DecidableEq

namespace SessionKey

/-- The key in hexadecimal. -/
def toHex (key : SessionKey) : String := Bytes.toHex key.bytes

/-- The description, which only says how long the key is. -/
def describe (key : SessionKey) : String := s!"SessionKey({key.bytes.length} bytes)"

/-! ## Generators -/

/-- A source of random keys of one length. -/
structure Random where
  length : Nat
deriving DecidableEq, Repr

/-- Keys of a given length; there are none without bytes. -/
def Random.ofLength (length : Nat) : Except Error Random :=
  if length = 0 then .error (.params .emptySessionKeys) else .ok ⟨length⟩

/-- A random key. It is made in one piece, so the run stops if it would be longer than any piece of
memory can be. -/
def Random.generate (R : Random) : Draw (Except Error SessionKey) :=
  if Bytes.maxLength < R.length then failure
  else do
    let bytes ← Draw.bytes R.length
    pure (.ok ⟨bytes⟩)

/-- Hands out the keys of a list in order, and is refused after the last. -/
def next : StateM (List SessionKey) (Except Error SessionKey) := do
  match ← get with
  | [] => pure (.error (.collaborator (.failed "no session key left")))
  | key :: rest =>
    set rest
    pure (.ok key)

end SessionKey

end AnonCred

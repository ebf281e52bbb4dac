/-!
# Secret numbers

A secret number does not show its value when it is described, and can be wiped.
-/

namespace AnonCred

/-- A number that is not to be shown. -/
structure SecretScalar where
  value : Nat
deriving DecidableEq

namespace SecretScalar

/-- The description, which says nothing of the value. -/
def describe (_secret : SecretScalar) : String := "SecretScalar(..)"

/-- The secret after it is wiped. -/
def wipe (_secret : SecretScalar) : SecretScalar := ⟨0⟩

end SecretScalar

end AnonCred

import AnonCred.Group
import AnonCred.Hash.Sha2

/-!
# Digests of group elements

The elements of a list are hashed in their byte form, each behind its length in eight bytes, so
that no two lists are hashed from the same bytes.
-/

namespace AnonCred.CyclicGroup

variable {E : Type} (G : CyclicGroup E)

/-- One element as it enters the hash. -/
def frame (x : E) : Bytes := Bytes.ofNatWidth 8 (G.encode x).length ++ G.encode x

/-- The bytes that are hashed for a list of elements. -/
def hashInput (xs : List E) : Bytes := xs.flatMap G.frame

/-- The digest of a list of elements. -/
def digest (xs : List E) : Bytes := Sha2.sha512.hash (G.hashInput xs)

/-- The digest as a number. It is not reduced. -/
def hashNat (xs : List E) : Nat := (G.digest xs).toNat

end AnonCred.CyclicGroup

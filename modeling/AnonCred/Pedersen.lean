import AnonCred.Group
import AnonCred.Session

/-!
# Commitments

A commitment to `v` under `h` is `g ^ v * h ^ r` with a random `r`. The receiver chose `h` as a
power of the generator, and the exponent is its trapdoor. The committer opens a commitment by
showing `v` and `r`.
-/

namespace AnonCred.Pedersen

variable {E : Type} (G : CyclicGroup E)

/-- The commitment to a value with a given randomizer. -/
def commitment (h : E) (value r : Nat) : E := G.compose (G.power value) (G.exp h r)

/-- What opens a commitment. -/
structure Opening where
  value : Nat
  r : Nat
deriving DecidableEq, Repr

/-! ## The receiver -/

/-- The receiver of a commitment, with the commitment once there is one. -/
structure Receiver (E : Type) where
  trapdoor : Nat
  h : E
  commitment : Option E
deriving DecidableEq

namespace Receiver

/-- The receiver with a given trapdoor. -/
def ofTrapdoor (trapdoor : Nat) : Receiver E := ⟨trapdoor, G.power trapdoor, none⟩

/-- The same, for a trapdoor that may not be reduced. -/
def withTrapdoor (trapdoor : Nat) : Except Error (Receiver E) := do
  G.checkScalar trapdoor "commitment trapdoor"
  pure (ofTrapdoor G trapdoor)

/-- A receiver with a random trapdoor. -/
def random : Draw (Receiver E) := do
  let trapdoor ← G.randomScalar
  pure (ofTrapdoor G trapdoor)

/-- Takes a commitment, in place of an older one. -/
def setCommitment (R : Receiver E) (c : E) : Except Error (Receiver E) := do
  G.validate c
  pure { R with commitment := some c }

/-- Whether an opening is reduced and opens the commitment taken. -/
def check [DecidableEq E] (R : Receiver E) (opening : Opening) : Except Error Bool :=
  match R.commitment with
  | none => .error (.outOfOrder "a commitment" "empty")
  | some c =>
    .ok (decide (opening.value < G.order ∧ opening.r < G.order ∧
      Pedersen.commitment G R.h opening.value opening.r = c))

end Receiver

/-! ## The committer -/

/-- The committer, with what opens its last commitment. -/
structure Committer (E : Type) where
  h : E
  opening : Option Opening
deriving DecidableEq

namespace Committer

/-- A committer under an `h` that is an element of the group. -/
def ofBase (h : E) : Except Error (Committer E) := do
  G.validate h
  pure ⟨h, none⟩

/-- A commitment to a value. -/
def commit (K : Committer E) (value : Nat) : Drawn (E × Committer E) := do
  G.checkScalar value "committed value"
  let r ← G.randomScalar
  pure (commitment G K.h value r, { K with opening := some ⟨value, r⟩ })

/-- What opens the last commitment. -/
def decommitment (K : Committer E) : Except Error Opening :=
  match K.opening with
  | some opening => .ok opening
  | none => .error (.outOfOrder "a prior commit" "uncommitted")

end Committer

/-- Whether a number is the trapdoor of `h`. -/
def isTrapdoor [DecidableEq E] (h : E) (trapdoor : Nat) : Bool := decide (G.power trapdoor = h)

end AnonCred.Pedersen

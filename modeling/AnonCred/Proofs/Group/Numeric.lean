import AnonCred.Proofs.Group.Residues

/-!
# Groups of numbers with any parameters

Some groups are made without the checks of `ofParams`, or from numbers that pass for primes. What a
verifier accepts in such a group still consists of members, and where there is a member there are
the laws of a group: the generator is the only parameter that could break them, and any member can
stand in for it.

* `CyclicGroup.Numeric` — the groups of numbers, whatever their parameters
* `CyclicGroup.Numeric.lawful_rebase` — with a member as the generator they are lawful
-/

namespace AnonCred

namespace CyclicGroup

/-- The same operations on the same members, with another generator. -/
def rebase {E : Type} (G : CyclicGroup E) (x : E) : CyclicGroup E := { G with generator := x }

/-- The groups of numbers, of any modulus, order and generator. -/
inductive Numeric : CyclicGroup Nat → Prop
  | schnorr (S : SchnorrGroup) : Numeric S.group
  | residues (R : ResidueGroup) : Numeric R.group

end CyclicGroup

open CyclicGroup

theorem SchnorrGroup.ofResidues_rebase {S : SchnorrGroup} (hq : 0 < S.q) {x : Nat}
    (hx : S.group.Member x) : (S.group.rebase x).OfResidues S.p := by
  obtain ⟨hpos, hlt, -⟩ := member_iff.mp hx
  exact ofResidues (S := { S with g := x }) (Nat.lt_of_le_of_lt hpos hlt) hq hx

theorem ResidueGroup.ofResidues_rebase {R : ResidueGroup} (horder : 0 < R.order) {x : Nat}
    (hx : R.group.Member x) : (R.group.rebase x).OfResidues R.n := by
  obtain ⟨hpos, hlt, -⟩ := validate_eq_ok.mp hx
  exact ofResidues (R := { R with g := x }) (Nat.lt_of_le_of_lt hpos hlt) horder hx

/-- With a member as the generator the laws of a group hold. -/
theorem CyclicGroup.Numeric.lawful_rebase {G : CyclicGroup Nat} (hG : G.Numeric)
    (horder : 0 < G.order) {x : Nat} (hx : G.Member x) : (G.rebase x).Lawful := by
  cases hG with
  | schnorr S => exact (SchnorrGroup.ofResidues_rebase horder hx).lawful
  | residues R => exact (ResidueGroup.ofResidues_rebase horder hx).lawful

end AnonCred

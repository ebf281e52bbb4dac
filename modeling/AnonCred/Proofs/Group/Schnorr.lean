import Mathlib.RingTheory.RootsOfUnity.PrimitiveRoots
import Mathlib.FieldTheory.Finite.Basic
import AnonCred.Group.Schnorr
import AnonCred.Proofs.Group.Modular

/-!
# Schnorr groups keep the laws of a group

What `ofParams` checks is enough for the laws: the members are the residues `x` with `x ^ q = 1`
modulo `p`, and the generator is one of them. Whether `p` is prime does not matter.

* `lawful_of_ofParams` — every group that `ofParams` makes is lawful
* `exists_pow_eq` — over a prime modulus and of prime order it holds nothing but the powers of each
  member other than one
-/

namespace AnonCred.SchnorrGroup

open CyclicGroup

variable {S : SchnorrGroup}

/-! ## Operations as residues -/

theorem exp_eq (x k : Nat) : S.group.exp x k = x ^ k % S.p := Arith.modPow_eq x k S.p

theorem compose_eq (x y : Nat) : S.group.compose x y = x * y % S.p := rfl

theorem member_iff {x : Nat} : S.group.Member x ↔ 0 < x ∧ x < S.p ∧ x ^ S.q % S.p = 1 :=
  validate_eq_ok

theorem ofResidues (hp : 1 < S.p) (hq : 0 < S.q) (hg : S.group.Member S.g) :
    S.group.OfResidues S.p where
  one_lt := hp
  order_pos := hq
  identity_eq := rfl
  compose_eq := compose_eq
  exp_eq := exp_eq
  member_iff := member_iff
  member_generator := hg

theorem ofResidues_of_wellFormed (hwell : WellFormed S.p S.q S.g) : S.group.OfResidues S.p := by
  have hp := hwell.three_lt
  have hg := hwell.one_lt
  exact ofResidues (by omega) hwell.order_pos
    (member_iff.mpr ⟨by omega, hwell.lt_modulus, hwell.power_order⟩)

variable {p q g : Nat}

theorem wellFormed_of_ofParams (h : ofParams p q g = .ok S) : WellFormed S.p S.q S.g := by
  obtain ⟨hwell, rfl⟩ := ofParams_eq_ok.mp h
  exact hwell

/-- The group that is built in passes the checks, too. -/
theorem wellFormed_rfc5114 : WellFormed rfc5114.p rfc5114.q rfc5114.g where
  odd := by decide +kernel
  three_lt := by decide +kernel
  order_pos := by decide +kernel
  order_dvd := by decide +kernel
  one_lt := by decide +kernel
  lt_modulus := by decide +kernel
  power_order := by
    have hpower : Arith.modPow rfc5114.g rfc5114.q rfc5114.p = 1 := by decide +kernel
    rwa [Arith.modPow_eq] at hpower

theorem ofResidues_of_ofParams (h : ofParams p q g = .ok S) : S.group.OfResidues S.p :=
  ofResidues_of_wellFormed (wellFormed_of_ofParams h)

/-- The group that `ofParams` makes is lawful. -/
theorem lawful_of_ofParams (h : ofParams p q g = .ok S) : S.group.Lawful :=
  (ofResidues_of_ofParams h).lawful

theorem params_of_ofParams (h : ofParams p q g = .ok S) : S.p = p ∧ S.q = q ∧ S.g = g := by
  obtain ⟨-, rfl⟩ := ofParams_eq_ok.mp h
  exact ⟨rfl, rfl, rfl⟩

theorem order_of_ofParams (h : ofParams p q g = .ok S) : S.group.order = q :=
  (params_of_ofParams h).2.1

/-! ## Prime modulus -/

section Field

variable [S.group.Lawful]

/-- A member as an element of the ring of residues. -/
def residue (x : S.group.Element) : ZMod S.p := ((x : Nat) : ZMod S.p)

theorem residue_pow (x : S.group.Element) (k : Nat) : residue (x ^ k) = residue x ^ k := by
  unfold residue
  rw [Element.coe_pow, exp_eq, ZMod.natCast_mod, Nat.cast_pow]

theorem residue_one : residue (1 : S.group.Element) = 1 := Nat.cast_one

omit [S.group.Lawful] in
theorem residue_injective : Function.Injective (residue (S := S)) := by
  intro x y hxy
  have hmod := (ZMod.natCast_eq_natCast_iff' _ _ _).mp hxy
  rw [Nat.mod_eq_of_lt (member_iff.mp x.member).2.1,
    Nat.mod_eq_of_lt (member_iff.mp y.member).2.1] at hmod
  exact Element.ext hmod

/-- Over a prime modulus there are no members but the powers of a member of full order: an
equation of degree `q` has at most `q` roots in a field. -/
theorem exists_pow_eq (hp : S.p.Prime) (hq : S.group.order.Prime) {x : S.group.Element} (hx : x ≠ 1)
    (y : S.group.Element) : ∃ k < S.group.order, x ^ k = y := by
  have := Fact.mk hp
  have : NeZero S.group.order := ⟨hq.ne_zero⟩
  have hroot : IsPrimitiveRoot (residue x) S.group.order := by
    rw [IsPrimitiveRoot.iff_def]
    refine ⟨by rw [← residue_pow, Element.pow_order, residue_one], ?_⟩
    intro k hk
    rw [← residue_pow, ← residue_one] at hk
    exact (Element.pow_eq_one_iff hq hx).mp (residue_injective hk)
  have hy : residue y ^ S.group.order = 1 := by
    rw [← residue_pow, Element.pow_order, residue_one]
  obtain ⟨k, hlt, hk⟩ := hroot.eq_pow_of_pow_eq_one hy
  exact ⟨k, hlt, residue_injective (by rw [residue_pow, hk])⟩

theorem existsUnique_pow (hp : S.p.Prime) (hq : S.group.order.Prime) {x : S.group.Element}
    (hx : x ≠ 1) (y : S.group.Element) : ∃! k, k < S.group.order ∧ x ^ k = y := by
  obtain ⟨k, hlt, rfl⟩ := exists_pow_eq hp hq hx y
  refine ⟨k, ⟨hlt, rfl⟩, ?_⟩
  rintro k' ⟨hlt', hpow⟩
  exact ((Element.pow_eq_pow_iff hq hx).mp hpow).eq_of_lt_of_lt hlt' hlt

end Field

/-! ## A small group -/

/-- The squares modulo 23. -/
def squares23 : SchnorrGroup := ⟨23, 11, 4, "Schnorr-5"⟩

theorem ofParams_squares23 : ofParams 23 11 4 = .ok squares23 := by decide +kernel

end AnonCred.SchnorrGroup

import Mathlib.Data.ZMod.Basic
import Mathlib.Tactic.LinearCombination
import AnonCred.Group.Curve
import AnonCred.Proofs.Arith

/-!
# The operations stay on the curve

Nobody checks a point again once it is there, so the operations have to lead from points of the
curve to points of the curve. In Jacobian coordinates the equation is
`Y² = X³ - 3 * X * Z⁴ + b * Z⁶`, and doubling and addition keep it as polynomials: that holds modulo
any number, and `p` does not have to be prime. One inversion leads back; where there is none the
result is infinity.

* `contains_iff` — the equation as one in `ZMod p`
* `Jacobian.On.double`, `Jacobian.On.addAffine` — what the steps of a multiple keep
* `hasPoint_add`, `hasPoint_smul`, `hasPoint_neg` — the operations of the group
-/

namespace AnonCred.Curve

/-! ## Points of a curve -/

/-- The points of a curve: infinity, and the pairs that it contains. -/
def HasPoint (C : Curve) : Point → Prop
  | .infinity => True
  | .affine x y => C.Contains x y

instance (C : Curve) (P : Point) : Decidable (C.HasPoint P) := by
  unfold HasPoint; cases P <;> infer_instance

/-- What is asked of the numbers that make a curve: the modulus is above three, a reduced coordinate
fits its bytes, and the generator is a point. -/
structure WellFormed (C : Curve) : Prop where
  three_lt : 3 < C.p
  p_le : C.p ≤ Bytes.capacity C.width
  contains_base : C.Contains C.baseX C.baseY

variable {C : Curve} {x y : Nat}

/-! ## Residues -/

section Residues

theorem cast_mul (x y : Nat) : ((C.mul x y : Nat) : ZMod C.p) = x * y := by
  rw [mul, ZMod.natCast_mod, Nat.cast_mul]

theorem cast_sub (x : Nat) (h : y < C.p) : ((C.sub x y : Nat) : ZMod C.p) = x - y := by
  rw [sub, ZMod.natCast_mod, Nat.cast_add, Nat.cast_sub h.le, ZMod.natCast_self, zero_sub,
    sub_eq_add_neg]

variable (hp : 3 < C.p)

include hp

theorem mod_lt (x : Nat) : x % C.p < C.p := Nat.mod_lt x (by omega)

theorem mul_lt (x y : Nat) : C.mul x y < C.p := mod_lt hp _

theorem sub_lt (x y : Nat) : C.sub x y < C.p := mod_lt hp _

/-- The equation of the curve is one between residues. -/
theorem contains_iff :
    C.Contains x y ↔
      x < C.p ∧ y < C.p ∧ (y : ZMod C.p) ^ 2 = (x : ZMod C.p) ^ 3 - 3 * x + C.b := by
  have hequation : y * y % C.p = (x * x * x + (C.p - 3) * x + C.b) % C.p ↔
      (y : ZMod C.p) ^ 2 = (x : ZMod C.p) ^ 3 - 3 * x + C.b := by
    rw [← Nat.ModEq, ← ZMod.natCast_eq_natCast_iff]
    push_cast [Nat.cast_sub hp.le, ZMod.natCast_self]
    constructor <;> intro h <;> linear_combination h
  rw [Contains, hequation]

end Residues

/-! ## Jacobian coordinates -/

/-- The equation of the curve in Jacobian coordinates, of which the first two are reduced. -/
structure Jacobian.On (C : Curve) (P : Jacobian) : Prop where
  x_lt : P.x < C.p
  y_lt : P.y < C.p
  equation : (P.y : ZMod C.p) ^ 2 =
    (P.x : ZMod C.p) ^ 3 - 3 * P.x * (P.z : ZMod C.p) ^ 4 + C.b * (P.z : ZMod C.p) ^ 6

section Jacobian

variable (hp : 3 < C.p) {P : Jacobian} {Q : Point}

include hp

theorem Jacobian.on_infinity : Jacobian.On C ⟨1, 1, 0⟩ where
  x_lt := Nat.lt_trans (by decide) hp
  y_lt := Nat.lt_trans (by decide) hp
  equation := by simp

theorem Jacobian.on_toJacobian (h : C.HasPoint Q) : Jacobian.On C (toJacobian Q) := by
  cases Q with
  | infinity => exact Jacobian.on_infinity hp
  | affine x y =>
    obtain ⟨hx, hy, hequation⟩ := (contains_iff hp).mp h
    refine ⟨hx, hy, ?_⟩
    simp only [toJacobian, Nat.cast_one]
    linear_combination hequation

theorem Jacobian.On.double (h : Jacobian.On C P) : Jacobian.On C (C.double P) where
  x_lt := sub_lt hp _ _
  y_lt := sub_lt hp _ _
  equation := by
    simp only [Curve.double, cast_sub _ (sub_lt hp _ _), cast_sub _ (mul_lt hp _ _),
      cast_sub _ (mod_lt hp _), cast_mul, ZMod.natCast_mod, Nat.cast_mul, Nat.cast_add,
      Nat.cast_ofNat]
    linear_combination 64 * (P.y : ZMod C.p) ^ 6 * h.equation

/-- The line through both points meets the curve in a third one: `hchord` says that the points at
its two ends, `dx` and `dy` apart, are on the curve. -/
theorem Jacobian.On.addAffine (h : Jacobian.On C P) (hQ : C.HasPoint Q) :
    Jacobian.On C (C.addAffine P Q) := by
  cases Q with
  | infinity => exact h
  | affine x y =>
    obtain ⟨-, -, hequation⟩ := (contains_iff hp).mp hQ
    simp only [Curve.addAffine]
    generalize hdx : C.sub (C.mul x (C.mul P.z P.z)) P.x = dx
    generalize hdy : C.sub (C.mul y (C.mul P.z (C.mul P.z P.z))) P.y = dy
    split
    · exact Jacobian.on_toJacobian hp hQ
    split
    · split
      · exact h.double hp
      · exact Jacobian.on_infinity hp
    have hx : (dx : ZMod C.p) = x * (P.z * P.z) - P.x := by
      rw [← hdx, cast_sub _ h.x_lt, cast_mul, cast_mul]
    have hy : (dy : ZMod C.p) = y * (P.z * (P.z * P.z)) - P.y := by
      rw [← hdy, cast_sub _ h.y_lt, cast_mul, cast_mul, cast_mul]
    have hchord : 2 * P.y * (dy : ZMod C.p) + dy ^ 2 =
        3 * P.x ^ 2 * dx + 3 * P.x * dx ^ 2 + dx ^ 3 - 3 * dx * P.z ^ 4 := by
      rw [hx, hy]
      linear_combination P.z ^ 6 * hequation - h.equation
    refine ⟨sub_lt hp _ _, sub_lt hp _ _, ?_⟩
    simp only [cast_sub _ (sub_lt hp _ _), cast_sub _ (mul_lt hp _ _), cast_sub _ (mod_lt hp _),
      cast_mul, ZMod.natCast_mod, Nat.cast_mul, Nat.cast_ofNat]
    linear_combination (dx : ZMod C.p) ^ 6 * h.equation -
      (3 * P.x * dx ^ 2 + dx ^ 3 - dy ^ 2) * dx ^ 3 * hchord

theorem Jacobian.On.multiple (hQ : C.HasPoint Q) (k : Nat) : Jacobian.On C (C.multiple Q k) := by
  induction k using Nat.strongRecOn with
  | _ k ih =>
    rw [Curve.multiple]
    split
    · exact Jacobian.on_infinity hp
    · have htwice := (ih (k / 2) (by omega)).double hp
      dsimp only
      split
      · exact htwice.addAffine hp hQ
      · exact htwice

theorem hasPoint_ofJacobian (h : Jacobian.On C P) : C.HasPoint (C.ofJacobian P) := by
  unfold ofJacobian
  split
  · trivial
  · next w hw =>
    have hinverse : (P.z : ZMod C.p) * w = 1 := by
      have hmod := (Arith.mul_modEq_of_inverse? (by omega) hw).2
      exact_mod_cast (ZMod.natCast_eq_natCast_iff _ _ _).mpr hmod
    refine (contains_iff hp).mpr ⟨mul_lt hp _ _, mul_lt hp _ _, ?_⟩
    simp only [cast_mul]
    have hpow (n : Nat) : ((P.z : ZMod C.p) * w) ^ n = 1 := by rw [hinverse, one_pow]
    linear_combination w ^ 6 * h.equation - 3 * P.x * w ^ 2 * hpow 4 + C.b * hpow 6

end Jacobian

/-! ## The operations of the group -/

section Operations

variable (hp : 3 < C.p) {P Q : Point}

include hp

theorem hasPoint_add (hP : C.HasPoint P) (hQ : C.HasPoint Q) : C.HasPoint (C.add P Q) :=
  hasPoint_ofJacobian hp ((Jacobian.on_toJacobian hp hP).addAffine hp hQ)

theorem hasPoint_smul (hP : C.HasPoint P) (k : Nat) : C.HasPoint (C.smul P k) :=
  hasPoint_ofJacobian hp (Jacobian.On.multiple hp hP _)

theorem hasPoint_neg (hP : C.HasPoint P) : C.HasPoint (C.neg P) := by
  cases P with
  | infinity => trivial
  | affine x y =>
    obtain ⟨hx, hy, hequation⟩ := (contains_iff hp).mp hP
    refine (contains_iff hp).mpr ⟨hx, sub_lt hp _ _, ?_⟩
    rw [cast_sub _ hy]
    linear_combination hequation

end Operations

end AnonCred.Curve

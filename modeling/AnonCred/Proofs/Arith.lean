import Mathlib.Data.Int.ModEq
import Mathlib.Data.Nat.ModEq
import AnonCred.Arith

/-!
# Inverses modulo a number

Euclid's algorithm carries two numbers and a coefficient for each. Modulo `n` a number is always its
coefficient times `a`, so where it ends with one the coefficient is an inverse of `a`.

* `bezout_modEq` — what a step of the algorithm keeps
* `unitInverse_eq_ok` — an inverse is found wherever there is one, and it is the reduced one
-/

namespace AnonCred.Arith

variable {a b n : Nat}

/-! ## Euclid's algorithm -/

theorem bezout_fst (r next : Nat) (s t : Int) : (bezout r next s t).1 = r.gcd next := by
  fun_induction bezout r next s t with
  | case1 r s t => exact (Nat.gcd_zero_right r).symm
  | case2 r next s t _ ih => rw [ih, Nat.gcd_comm, ← Nat.gcd_rec, Nat.gcd_comm]

/-- The remainder is its new coefficient times `a`. -/
theorem step_modEq {r next : Nat} {s t : Int} (hr : s * a ≡ r [ZMOD n])
    (hnext : t * a ≡ next [ZMOD n]) :
    (s - (r / next : Nat) * t) * a ≡ (r % next : Nat) [ZMOD n] := by
  calc (s - (r / next : Nat) * t) * a
      = s * a - (r / next : Nat) * (t * a) := by rw [sub_mul, mul_assoc]
    _ ≡ r - (r / next : Nat) * next [ZMOD n] := hr.sub (hnext.mul_left _)
    _ = (r % next : Nat) := by
      rw [← Nat.cast_mul, sub_eq_iff_eq_add, ← Nat.cast_add, Nat.mod_add_div']

theorem bezout_modEq (r next : Nat) (s t : Int) (hr : s * a ≡ r [ZMOD n])
    (hnext : t * a ≡ next [ZMOD n]) :
    (bezout r next s t).2 * a ≡ (bezout r next s t).1 [ZMOD n] := by
  fun_induction bezout r next s t with
  | case1 r s t => exact hr
  | case2 r next s t _ ih => exact ih hnext (step_modEq hr hnext)

/-! ## The inverse -/

/-- A number that is found is an inverse, and is reduced. -/
theorem mul_modEq_of_inverse? (hn : 0 < n) (h : inverse? a n = some b) :
    b < n ∧ a * b ≡ 1 [MOD n] := by
  unfold inverse? at h
  dsimp only at h
  split at h
  · next hgcd =>
    rw [Option.some.injEq] at h
    have hpos : (0 : Int) < n := Int.natCast_pos.mpr hn
    have hcast : (b : Int) = (bezout (a % n) n 1 0).2 % n := by
      rw [← h, Int.toNat_of_nonneg (Int.emod_nonneg _ hpos.ne')]
    have hfirst : (1 : Int) * a ≡ (a % n : Nat) [ZMOD n] := by
      rw [one_mul, Int.natCast_mod]
      exact (Int.mod_modEq _ _).symm
    have hsecond : (0 : Int) * a ≡ n [ZMOD n] := by
      rw [zero_mul]
      exact (Int.modEq_zero_iff_dvd.mpr dvd_rfl).symm
    have hone := bezout_modEq (a % n) n 1 0 hfirst hsecond
    rw [hgcd] at hone
    constructor
    · rw [← Int.ofNat_lt, hcast]
      exact Int.emod_lt_of_pos _ hpos
    · rw [← Int.natCast_modEq_iff, Nat.cast_mul, hcast, mul_comm]
      exact ((Int.mod_modEq _ _).mul_right _).trans hone
  · cases h

theorem inverse?_isSome (h : a.Coprime n) : (inverse? a n).isSome := by
  unfold inverse?
  dsimp only
  rw [bezout_fst, ← Nat.gcd_rec, Nat.gcd_comm, if_pos h.gcd_eq_one]
  rfl

/-- The inverse of a unit is the one reduced number that there is. -/
theorem unitInverse_eq_ok (hn : 0 < n) :
    unitInverse a n = .ok b ↔ b < n ∧ a * b ≡ 1 [MOD n] := by
  have hunit : unitInverse a n = .ok b ↔ inverse? a n = some b := by
    unfold unitInverse
    split <;> simp_all
  rw [hunit]
  refine ⟨mul_modEq_of_inverse? hn, ?_⟩
  rintro ⟨hlt, hone⟩
  have hcoprime : a.Coprime n := Nat.Coprime.coprime_mul_right (by
    rw [Nat.Coprime, hone.gcd_eq, Nat.gcd_one_left])
  obtain ⟨b', hb'⟩ := Option.isSome_iff_exists.mp (inverse?_isSome hcoprime)
  obtain ⟨hlt', hone'⟩ := mul_modEq_of_inverse? hn hb'
  have hsame : b' ≡ b [MOD n] :=
    Nat.ModEq.cancel_left_of_coprime hcoprime.symm (hone'.trans hone.symm)
  rw [hb', hsame.eq_of_lt_of_lt hlt' hlt]

end AnonCred.Arith

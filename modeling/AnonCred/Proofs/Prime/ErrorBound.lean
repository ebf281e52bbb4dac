import Mathlib.Data.Fintype.BigOperators
import Mathlib.Data.Nat.Find
import Mathlib.Data.Set.Card
import AnonCred.Proofs.Prime
import AnonCred.Proofs.Prime.SignRoots

/-!
# How often the primality test errs

The answer `true` for a composite number is an error. One round errs on a witness that passes.

Of the powers `2 ^ i` with `i < s` for which `-1` is a power modulo `n`, take the greatest, and let
`m` be that power times the odd part of `n - 1`. A witness that passes has an `m`-th power of `1` or
`-1`: where its `-1` comes up with a smaller power of two, it is squared to a `1`. So the witnesses
that pass are in `signRoots n m`, along with `1`, which is no witness; and that group is at most a
quarter of the units.

The rounds are independent: a tuple of witnesses leads to an error where each of them passes.

* `card_liars_le` — less than a quarter of the witnesses pass
* `error_bound` — the part of the tuples of witnesses on which the test errs
-/

namespace AnonCred.Prime

open Draw

variable {n k : Nat}

/-! ## The group of the witnesses that pass -/

/-- There is a greatest power of two, up to a bound, for which minus one is a power. -/
theorem exists_greatest_root (n : Nat) {s : Nat} (hs : 0 < s) :
    ∃ j < s, (∃ x : (ZMod n)ˣ, x ^ 2 ^ j = -1) ∧
      ∀ i < s, (∃ x : (ZMod n)ˣ, x ^ 2 ^ i = -1) → i ≤ j := by
  classical
  let Rooted (i : Nat) : Prop := ∃ x : (ZMod n)ˣ, x ^ 2 ^ i = -1
  have hzero : Rooted 0 := ⟨-1, by rw [pow_zero, pow_one]⟩
  have hle : Nat.findGreatest Rooted (s - 1) ≤ s - 1 := Nat.findGreatest_le _
  exact ⟨Nat.findGreatest Rooted (s - 1), by omega, Nat.findGreatest_spec (Nat.zero_le _) hzero,
    fun i hi hroot => Nat.le_findGreatest (by omega) hroot⟩

/-- A witness that passes is a unit. -/
theorem unit_of_witnessPasses (hn : 2 < n) (hodd : Odd n) {a : Nat}
    (h : witnessPasses n a = true) : ∃ u : (ZMod n)ˣ, (u : ZMod n) = a ∧
      (u ^ oddPart n = 1 ∨ ∃ i < twos n, u ^ (2 ^ i * oddPart n) = -1) := by
  have hpos : 0 < oddPart n := (odd_oddPart (by omega)).pos
  rcases (witnessPasses_iff hn hodd a).mp h with hone | ⟨i, hi, hminus⟩
  · obtain ⟨u, hu⟩ := IsUnit.of_pow_eq_one hone hpos.ne'
    refine ⟨u, hu, .inl ?_⟩
    ext
    rw [Units.val_pow_eq_pow_val, hu, hone, Units.val_one]
  · have hexponent : 2 ^ i * oddPart n ≠ 0 := (Nat.mul_pos (Nat.two_pow_pos i) hpos).ne'
    obtain ⟨u, hu⟩ := (isUnit_pow_iff hexponent).mp (hminus ▸ isUnit_one.neg)
    refine ⟨u, hu, .inr ⟨i, hi, ?_⟩⟩
    ext
    rw [Units.val_pow_eq_pow_val, hu, hminus, Units.val_neg, Units.val_one]

/-- All witnesses that pass are in one group of units. -/
theorem exists_signRoots (hn : 2 < n) (hodd : Odd n) :
    ∃ m, 2 * m ∣ n - 1 ∧ (∃ x : (ZMod n)ˣ, x ^ m = -1) ∧
      ∀ a, witnessPasses n a = true → ∃ u ∈ signRoots n m, (u : ZMod n) = a := by
  have hpart : Odd (oddPart n) := odd_oddPart (by omega)
  obtain ⟨j, hj, ⟨x, hx⟩, hgreatest⟩ := exists_greatest_root n (twos_pos (by omega) hodd)
  refine ⟨2 ^ j * oddPart n, ?_, ⟨x, by rw [pow_mul, hx, hpart.neg_one_pow]⟩, fun a ha => ?_⟩
  · rw [pred_eq (by omega), ← mul_assoc, ← pow_succ']
    exact Nat.mul_dvd_mul_right (pow_dvd_pow 2 hj) _
  · obtain ⟨u, hu, hone | ⟨i, hi, hminus⟩⟩ := unit_of_witnessPasses hn hodd ha
    · exact ⟨u, .inl (by rw [mul_comm, pow_mul, hone, one_pow]), hu⟩
    · have hle : i ≤ j := hgreatest i hi ⟨u ^ oddPart n, by rw [← pow_mul, mul_comm, hminus]⟩
      have hpow : u ^ (2 ^ j * oddPart n) = (-1) ^ 2 ^ (j - i) := by
        rw [← hminus, ← pow_mul, mul_right_comm, ← pow_add, Nat.add_sub_cancel' hle]
      refine ⟨u, ?_, hu⟩
      rw [mem_signRoots, hpow]
      exact neg_one_pow_eq_or _ _

/-! ## One witness -/

/-- The witnesses in the range of the draws that pass. -/
def liars (n : Nat) : Finset Nat := (Finset.Icc 2 (n - 2)).filter fun a => witnessPasses n a = true

theorem mem_liars {a : Nat} : a ∈ liars n ↔ (2 ≤ a ∧ a ≤ n - 2) ∧ witnessPasses n a = true := by
  rw [liars, Finset.mem_filter, Finset.mem_Icc]

/-- With one more element, which is no witness, the witnesses that pass go into a group. -/
theorem card_liars_lt {m : Nat} (hn : 2 < n)
    (hmem : ∀ a, witnessPasses n a = true → ∃ u ∈ signRoots n m, (u : ZMod n) = a) :
    (liars n).card < Nat.card (signRoots n m) := by
  have : NeZero n := ⟨by omega⟩
  let residue (u : (ZMod n)ˣ) : Nat := (u : ZMod n).val
  have hcover : ((insert 1 (liars n) : Finset Nat) : Set Nat) ⊆
      residue '' (signRoots n m : Set (ZMod n)ˣ) := by
    intro a ha
    rw [Finset.mem_coe, Finset.mem_insert, mem_liars] at ha
    rcases ha with rfl | ⟨⟨-, hle⟩, hpasses⟩
    · have := Fact.mk (show 1 < n by omega)
      exact ⟨1, one_mem _, ZMod.val_one n⟩
    · obtain ⟨u, hu, hvalue⟩ := hmem a hpasses
      refine ⟨u, hu, ?_⟩
      show (u : ZMod n).val = a
      rw [hvalue, ZMod.val_natCast_of_lt (by omega)]
  have hone : 1 ∉ liars n := fun h => absurd (mem_liars.mp h).1.1 (by decide)
  calc (liars n).card < (insert 1 (liars n)).card := by rw [Finset.card_insert_of_notMem hone]; omega
    _ = ((insert 1 (liars n) : Finset Nat) : Set Nat).ncard := (Set.ncard_coe_finset _).symm
    _ ≤ (residue '' (signRoots n m : Set (ZMod n)ˣ)).ncard := Set.ncard_le_ncard hcover
    _ ≤ (signRoots n m : Set (ZMod n)ˣ).ncard := Set.ncard_image_le
    _ = Nat.card (signRoots n m) := (Nat.card_coe_set_eq _).symm

/-- For a composite number without a small factor less than a quarter of the witnesses pass. -/
theorem card_liars_le (hn : 1 < n) (hodd : Odd n) (hcomposite : ¬n.Prime)
    (hfree : ∀ p ≤ 251, p.Prime → ¬p ∣ n) : 4 * (liars n).card ≤ n - 3 := by
  have htwo : 2 < n := by
    rcases hodd with ⟨j, rfl⟩
    omega
  have : NeZero n := ⟨by omega⟩
  have hfour (p : Nat) (hp : p.Prime) (hdvd : p ∣ n) : 4 ≤ p := by
    by_contra hlt
    exact hfree p (by omega) hp hdvd
  obtain ⟨m, hm, ⟨x, hx⟩, hmem⟩ := exists_signRoots htwo hodd
  have hindex := four_le_index hn hcomposite hfour hx hm
  have hlt := card_liars_lt htwo hmem
  have hunits : Nat.card (signRoots n m) * (signRoots n m).index < n := by
    rw [Subgroup.card_mul_index, Nat.card_eq_fintype_card, ZMod.card_units_eq_totient]
    exact Nat.totient_lt n hn
  have hquarter : 4 * ((liars n).card + 1) < n :=
    calc 4 * ((liars n).card + 1) ≤ (signRoots n m).index * Nat.card (signRoots n m) :=
          Nat.mul_le_mul hindex hlt
      _ < n := by rwa [mul_comm]
  omega

/-! ## Tuples of witnesses -/

theorem possible_range {a : Nat} (hn : 2 < n) :
    (Draw.range 2 (n - 1)).Possible a ↔ a ∈ Finset.Icc 2 (n - 2) := by
  rw [Finset.mem_Icc]
  constructor
  · rintro ⟨source, next, h⟩
    have hbounds := range_bounds h
    omega
  · rintro ⟨hlow, hhigh⟩
    exact (steerable_range hlow (by omega)).possible

theorem mem_of_witnesses {source next : Source} {w : Fin k → Nat} (hn : 2 < n)
    (h : witnesses n k source = some (w, next)) (i : Fin k) : w i ∈ Finset.Icc 2 (n - 2) := by
  induction k generalizing source with
  | zero => exact i.elim0
  | succ k ih =>
    obtain ⟨a, middle, rest, ha, hrest, rfl⟩ := witnesses_succ.mp h
    cases i using Fin.cases with
    | zero => exact (possible_range hn).mp ⟨source, middle, ha⟩
    | succ i => exact ih hrest i

theorem steerable_witnesses {w : Fin k → Nat} (hw : ∀ i, w i ∈ Finset.Icc 2 (n - 2)) :
    Steerable (witnesses n k) w := by
  induction k with
  | zero =>
    rw [Subsingleton.elim w Fin.elim0]
    exact .pure _
  | succ k ih =>
    have hfirst := Finset.mem_Icc.mp (hw 0)
    rw [← Fin.cons_self_tail w]
    exact (steerable_range hfirst.1 (by omega)).bind ((ih fun i => hw i.succ).bind (.pure _))

theorem possible_witnesses (hn : 2 < n) {w : Fin k → Nat} :
    (witnesses n k).Possible w ↔ ∀ i, w i ∈ Finset.Icc 2 (n - 2) :=
  ⟨fun ⟨_, _, h⟩ => mem_of_witnesses hn h, fun hw => (steerable_witnesses hw).possible⟩

/-- These witnesses are drawn on some stream on which the test with as many rounds takes `n` for a
prime. -/
def Fools (n : Nat) (w : Fin k → Nat) : Prop :=
  ∃ source next after, witnesses n k source = some (w, next) ∧
    isProbablePrime n k source = some (true, after)

/-- Where the table says nothing, the test is led to accept by the witnesses that all pass. -/
theorem fools_iff (hn : 2 < n) (htable : trialDivision n = none) {w : Fin k → Nat} :
    Fools n w ↔ ∀ i, w i ∈ liars n := by
  have hverdict {source next : Source} (h : witnesses n k source = some (w, next)) :
      ∃ after, isProbablePrime n k source =
        some (decide (∀ i, witnessPasses n (w i) = true), after) := by
    rw [isProbablePrime_of_none (by omega) htable]
    exact millerRabin_drawn h
  constructor
  · rintro ⟨source, next, after, hdrawn, haccepted⟩ i
    obtain ⟨after', h⟩ := hverdict hdrawn
    rw [haccepted, Option.some.injEq, Prod.mk.injEq] at h
    exact Finset.mem_filter.mpr ⟨mem_of_witnesses hn hdrawn i, of_decide_eq_true h.1.symm i⟩
  · intro hw
    have hall (i : Fin k) := Finset.mem_filter.mp (hw i)
    obtain ⟨source, next, hdrawn⟩ := (possible_witnesses hn).mpr fun i => (hall i).1
    obtain ⟨after, h⟩ := hverdict hdrawn
    rw [decide_eq_true fun i => (hall i).2] at h
    exact ⟨source, next, after, hdrawn, h⟩

theorem ncard_tuples (A : Finset Nat) (k : Nat) :
    {w : Fin k → Nat | ∀ i, w i ∈ A}.ncard = A.card ^ k := by
  have hfinset : {w : Fin k → Nat | ∀ i, w i ∈ A} = (Fintype.piFinset fun _ : Fin k => A) := by
    ext w
    simp
  rw [hfinset, Set.ncard_coe_finset, Fintype.card_piFinset_const]

/-- The witnesses for an odd composite number without a factor in the table are drawn from
`[2, n - 2]`. At most a quarter of them pass a round; and of the `(n - 3) ^ k` tuples that `k` rounds
can draw, at most one in `4 ^ k` makes the test take the number for a prime. -/
theorem error_bound (hodd : Odd n) (hn : 1 < n) (hcomposite : ¬n.Prime)
    (hfree : ∀ p ≤ 251, p.Prime → ¬p ∣ n) :
    (∀ a, (Draw.range 2 (n - 1)).Possible a ↔ a ∈ Finset.Icc 2 (n - 2)) ∧
      4 * ((Finset.Icc 2 (n - 2)).filter fun a => witnessPasses n a = true).card ≤ n - 3 ∧
      ∀ k, {w : Fin k → Nat | (witnesses n k).Possible w}.ncard = (n - 3) ^ k ∧
        4 ^ k * {w : Fin k → Nat | Fools n w}.ncard ≤ (n - 3) ^ k := by
  have htwo : 2 < n := by
    rcases hodd with ⟨j, rfl⟩
    omega
  have hcard := card_liars_le hn hodd hcomposite hfree
  refine ⟨fun a => possible_range htwo, hcard, fun k => ⟨?_, ?_⟩⟩
  · simp only [possible_witnesses htwo]
    rw [ncard_tuples, Nat.card_Icc, show n - 2 + 1 - 2 = n - 3 by omega]
  · simp only [fools_iff htwo (trialDivision_eq_none.mpr hfree)]
    rw [ncard_tuples, ← mul_pow]
    exact Nat.pow_le_pow_left hcard k

/-- The smallest composite number without a factor in the table. -/
theorem error_bound_square :
    Odd 66049 ∧ ¬Nat.Prime 66049 ∧ (∀ p ≤ 251, p.Prime → ¬p ∣ 66049) ∧
      4 * ((Finset.Icc 2 (66049 - 2)).filter fun a => witnessPasses 66049 a = true).card
        ≤ 66049 - 3 ∧
      4 ^ rounds * {w : Fin rounds → Nat | Fools 66049 w}.ncard ≤ (66049 - 3) ^ rounds := by
  have hodd : Odd 66049 := by decide
  have hcomposite : ¬Nat.Prime 66049 := by norm_num
  have hfree : ∀ p ≤ 251, p.Prime → ¬p ∣ 66049 :=
    trialDivision_eq_none.mp (by decide +kernel)
  obtain ⟨-, hround, htest⟩ := error_bound hodd (by decide) hcomposite hfree
  exact ⟨hodd, hcomposite, hfree, hround, (htest rounds).2⟩

end AnonCred.Prime

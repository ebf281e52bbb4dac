import Mathlib.FieldTheory.Finite.Basic
import Mathlib.Tactic.NormNum.Prime
import AnonCred.Prime
import AnonCred.Proofs.Random

/-!
# What the primality test answers

The table decides about every number that it shares a factor with, and draws nothing for it. About
the others the witnesses decide. With `n - 1 = 2 ^ s * d` a witness passes where `a ^ d` is `1` or
one of its first `s` squarings is `-1`; the loop over the squarings stops earlier than that, but
only where it can: after a `1` there is no `-1` any more.

Modulo a prime `-1` is the only root of `1` besides `1`, so that every witness passes. The table
ends with 251 and the next prime is 257, so below `257 ^ 2` what the table leaves is prime.

* `witnessPasses_iff` — one round, as a condition on powers of the witness
* `witnessPasses_of_prime` — modulo a prime every witness passes
* `trialDivision_of_prime`, `trialDivision_of_dvd`, `trialDivision_eq_none` — the table
* `millerRabin_drawn` — the verdict, from the witnesses that the rounds draw
* `verdict_exact` — primes, multiples of primes in the table, and numbers below `257 ^ 2`
-/

namespace AnonCred.Prime

open Draw

variable {n : Nat}

/-! ## The factors of two -/

theorem splitTwos_eq (hn : n ≠ 0) :
    n = 2 ^ (splitTwos n).1 * (splitTwos n).2 ∧ Odd (splitTwos n).2 := by
  fun_induction splitTwos n with
  | case1 => exact absurd rfl hn
  | case2 n _ heven ih =>
    obtain ⟨heq, hodd⟩ := ih (by omega)
    refine ⟨?_, hodd⟩
    rw [pow_succ, mul_right_comm, ← heq]
    omega
  | case3 n _ hodd =>
    rw [pow_zero, one_mul]
    exact ⟨rfl, Nat.odd_iff.mpr (by omega)⟩

/-- How often two divides the predecessor of a number. -/
def twos (n : Nat) : Nat := (splitTwos (n - 1)).1

/-- What is left of the predecessor of a number without its factors of two. -/
def oddPart (n : Nat) : Nat := (splitTwos (n - 1)).2

theorem pred_eq (hn : 1 < n) : n - 1 = 2 ^ twos n * oddPart n :=
  (splitTwos_eq (by omega)).1

theorem odd_oddPart (hn : 1 < n) : Odd (oddPart n) := (splitTwos_eq (by omega)).2

theorem twos_pos (hn : 1 < n) (hodd : Odd n) : 0 < twos n := by
  refine Nat.pos_of_ne_zero fun hzero => ?_
  have hpred := pred_eq hn
  rw [hzero, pow_zero, one_mul] at hpred
  have heven := Nat.even_iff.mp (hodd.tsub_odd odd_one)
  have hpart := Nat.odd_iff.mp (odd_oddPart hn)
  omega

/-! ## One round -/

theorem natCast_eq_neg_one_iff {x : Nat} (hx : x < n) : (x : ZMod n) = -1 ↔ x = n - 1 := by
  have hpred : ((n - 1 : Nat) : ZMod n) = -1 := by
    rw [Nat.cast_sub (by omega), ZMod.natCast_self, Nat.cast_one, zero_sub]
  rw [← hpred, ZMod.natCast_eq_natCast_iff', Nat.mod_eq_of_lt hx, Nat.mod_eq_of_lt (by omega)]

theorem natCast_eq_one_iff {x : Nat} (hn : 1 < n) (hx : x < n) : (x : ZMod n) = 1 ↔ x = 1 := by
  rw [← Nat.cast_one, ZMod.natCast_eq_natCast_iff', Nat.mod_eq_of_lt hx, Nat.mod_eq_of_lt hn]

theorem modPow_lt (hn : 0 < n) (a k : Nat) : Arith.modPow a k n < n := by
  rw [Arith.modPow_eq]
  exact Nat.mod_lt _ hn

theorem natCast_modPow (a k : Nat) : (Arith.modPow a k n : ZMod n) = (a : ZMod n) ^ k := by
  rw [Arith.modPow_eq, ZMod.natCast_mod]
  exact Nat.cast_pow a k

theorem one_ne_neg_one (hn : 2 < n) : (1 : ZMod n) ≠ -1 := by
  have := Fact.mk hn
  exact (ZMod.neg_one_ne_one).symm

/-- The loop over the squarings finds `-1` where it is one of them. -/
theorem reachesMinusOne_iff (hn : 2 < n) (k x : Nat) :
    reachesMinusOne n k x = true ↔ ∃ i < k, (x : ZMod n) ^ 2 ^ (i + 1) = -1 := by
  induction k generalizing x with
  | zero => simp [reachesMinusOne]
  | succ k ih =>
    have hlt := modPow_lt (Nat.zero_lt_of_lt hn) x 2
    have hlater (i : Nat) :
        (x : ZMod n) ^ 2 ^ (i + 1) = (Arith.modPow x 2 n : ZMod n) ^ 2 ^ i := by
      rw [natCast_modPow, ← pow_mul, pow_succ']
    rw [reachesMinusOne]
    split
    · next hminus =>
      refine iff_of_true rfl ⟨0, Nat.succ_pos k, ?_⟩
      rw [hlater, pow_zero, pow_one]
      exact (natCast_eq_neg_one_iff hlt).mpr hminus
    · next hminus =>
      split
      · next hone =>
        -- after a one there are only ones
        refine iff_of_false Bool.false_ne_true ?_
        rintro ⟨i, -, hi⟩
        rw [hlater, hone, Nat.cast_one, one_pow] at hi
        exact one_ne_neg_one hn hi
      · rw [ih]
        constructor
        · rintro ⟨i, hi, hpow⟩
          exact ⟨i + 1, by omega, by rw [hlater]; exact hpow⟩
        · rintro ⟨i, hi, hpow⟩
          rw [hlater] at hpow
          cases i with
          | zero =>
            rw [pow_zero, pow_one] at hpow
            exact absurd ((natCast_eq_neg_one_iff hlt).mp hpow) hminus
          | succ i => exact ⟨i, by omega, hpow⟩

/-- A witness passes where its power to the odd part is one, or becomes `-1` before it has been
squared as often as two divides `n - 1`. -/
theorem witnessPasses_iff (hn : 2 < n) (hodd : Odd n) (a : Nat) :
    witnessPasses n a = true ↔
      (a : ZMod n) ^ oddPart n = 1 ∨ ∃ i < twos n, (a : ZMod n) ^ (2 ^ i * oddPart n) = -1 := by
  have hlt := modPow_lt (Nat.zero_lt_of_lt hn) a (oddPart n)
  have htwos := twos_pos (by omega) hodd
  have hpasses : witnessPasses n a =
      (Arith.modPow a (oddPart n) n == 1 || Arith.modPow a (oddPart n) n == n - 1 ||
        reachesMinusOne n (twos n - 1) (Arith.modPow a (oddPart n) n)) := rfl
  have hpower (i : Nat) : (a : ZMod n) ^ (2 ^ i * oddPart n) =
      (Arith.modPow a (oddPart n) n : ZMod n) ^ 2 ^ i := by
    rw [natCast_modPow, ← pow_mul, mul_comm]
  rw [hpasses, Bool.or_eq_true, Bool.or_eq_true, beq_iff_eq, beq_iff_eq, reachesMinusOne_iff hn,
    ← natCast_eq_one_iff (by omega) hlt, ← natCast_eq_neg_one_iff hlt, natCast_modPow, or_assoc]
  refine or_congr_right ⟨?_, ?_⟩
  · rintro (hzero | ⟨i, hi, hpow⟩)
    · exact ⟨0, htwos, by rw [pow_zero, one_mul, hzero]⟩
    · exact ⟨i + 1, by omega, by rw [hpower, natCast_modPow]; exact hpow⟩
  · rintro ⟨i, hi, hpow⟩
    rw [hpower, natCast_modPow] at hpow
    cases i with
    | zero => exact .inl (by rwa [pow_zero, pow_one] at hpow)
    | succ i => exact .inr ⟨i, by omega, hpow⟩

/-- Without zero divisors the powers of a root of one run through `-1`, or start with one. -/
theorem pow_two_pow_eq_one {R : Type} [CommRing R] [IsDomain R] {x : R} {s : Nat}
    (h : x ^ 2 ^ s = 1) : x = 1 ∨ ∃ i < s, x ^ 2 ^ i = -1 := by
  induction s with
  | zero => exact .inl (by rwa [pow_zero, pow_one] at h)
  | succ s ih =>
    rw [pow_succ, pow_mul, sq_eq_one_iff] at h
    rcases h with hone | hminus
    · rcases ih hone with hx | ⟨i, hi, hpow⟩
      · exact .inl hx
      · exact .inr ⟨i, by omega, hpow⟩
    · exact .inr ⟨s, Nat.lt_succ_self s, hminus⟩

theorem witnessPasses_of_prime (hprime : n.Prime) (hn : 2 < n) {a : Nat} (hpos : 0 < a)
    (hlt : a < n) : witnessPasses n a = true := by
  have := Fact.mk hprime
  have hunit : (a : ZMod n) ≠ 0 := by
    rw [Ne, ZMod.natCast_eq_zero_iff]
    exact Nat.not_dvd_of_pos_of_lt hpos hlt
  have hfermat : ((a : ZMod n) ^ oddPart n) ^ 2 ^ twos n = 1 := by
    rw [← pow_mul, mul_comm, ← pred_eq (by omega)]
    exact ZMod.pow_card_sub_one_eq_one hunit
  rw [witnessPasses_iff hn (hprime.odd_of_ne_two (by omega))]
  refine (pow_two_pow_eq_one hfermat).imp_right ?_
  rintro ⟨i, hi, hpow⟩
  exact ⟨i, hi, by rwa [mul_comm, pow_mul]⟩

/-! ## The table -/

theorem prime_of_mem_smallPrimes : ∀ p ∈ smallPrimes, p.Prime := by
  simp only [smallPrimes, List.forall_mem_cons, List.not_mem_nil]
  norm_num

/-- The table is complete up to 256: the next prime is 257. -/
theorem mem_smallPrimes {p : Nat} (hprime : p.Prime) (hlt : p < 257) : p ∈ smallPrimes := by
  have hall : ∀ p < 257, p ∈ smallPrimes ∨ p < 2 ∨ ∃ m < 17, 2 ≤ m ∧ m ∣ p ∧ m ≠ p := by
    decide +kernel
  rcases hall p hlt with hmem | hsmall | ⟨m, -, htwo, hdvd, hne⟩
  · exact hmem
  · exact absurd hprime.two_le (by omega)
  · exact absurd ((Nat.dvd_prime_two_le hprime htwo).mp hdvd) hne

theorem le_of_mem_smallPrimes : ∀ p ∈ smallPrimes, p ≤ 251 := by decide

/-- What the entry `p` of the table says about `n`. -/
def judge (n p : Nat) : Option Bool :=
  if n = p then some true else if n % p = 0 then some false else none

theorem trialDivision_eq_findSome? (n : Nat) :
    trialDivision n = smallPrimes.findSome? (judge n) := rfl

theorem judge_eq_none {p : Nat} : judge n p = none ↔ ¬p ∣ n := by
  unfold judge
  rw [Nat.dvd_iff_mod_eq_zero]
  split
  · next heq => simp [heq]
  · split <;> simp_all

/-- The table says nothing exactly about the numbers without a small factor. -/
theorem trialDivision_eq_none :
    trialDivision n = none ↔ ∀ p ≤ 251, p.Prime → ¬p ∣ n := by
  rw [trialDivision_eq_findSome?, List.findSome?_eq_none_iff]
  simp only [judge_eq_none]
  constructor
  · intro h p hle hprime
    exact h p (mem_smallPrimes hprime (by omega))
  · intro h p hp
    exact h p (le_of_mem_smallPrimes p hp) (prime_of_mem_smallPrimes p hp)

/-- Where the table decides, the entry that does so divides the number. -/
theorem exists_judge {verdict : Bool} (h : trialDivision n = some verdict) :
    ∃ p ≤ 251, p.Prime ∧ p ∣ n ∧ judge n p = some verdict := by
  rw [trialDivision_eq_findSome?] at h
  obtain ⟨p, hp, hjudge⟩ := List.exists_of_findSome?_eq_some h
  refine ⟨p, le_of_mem_smallPrimes p hp, prime_of_mem_smallPrimes p hp, ?_, hjudge⟩
  by_contra hdvd
  rw [judge_eq_none.mpr hdvd] at hjudge
  cases hjudge

/-- The table is never wrong. -/
theorem trialDivision_sound {verdict : Bool} (h : trialDivision n = some verdict) :
    verdict = decide n.Prime := by
  obtain ⟨p, -, hprime, hdvd, hjudge⟩ := exists_judge h
  unfold judge at hjudge
  split at hjudge
  · next heq =>
    rw [heq, decide_eq_true hprime]
    exact (Option.some.inj hjudge).symm
  · next hne =>
    have hcomposite : ¬n.Prime := fun hn' =>
      hne ((Nat.prime_dvd_prime_iff_eq hprime hn').mp hdvd).symm
    rw [if_pos (Nat.mod_eq_zero_of_dvd hdvd)] at hjudge
    rw [decide_eq_false hcomposite]
    exact (Option.some.inj hjudge).symm

theorem trialDivision_of_dvd {p : Nat} (hle : p ≤ 251) (hprime : p.Prime) (hdvd : p ∣ n) :
    trialDivision n = some (decide n.Prime) := by
  cases h : trialDivision n with
  | none => exact absurd hdvd (trialDivision_eq_none.mp h p hle hprime)
  | some verdict => rw [trialDivision_sound h]

theorem trialDivision_of_prime (hprime : n.Prime) (hn : 251 < n) : trialDivision n = none := by
  refine trialDivision_eq_none.mpr fun p hle hp hdvd => ?_
  have heq := (Nat.prime_dvd_prime_iff_eq hp hprime).mp hdvd
  omega

/-- Below `257 ^ 2` a number without a small factor has no factor that could be the smallest. -/
theorem prime_of_trialDivision_eq_none (hn : 2 ≤ n) (hlt : n < 257 ^ 2)
    (h : trialDivision n = none) : n.Prime := by
  by_contra hcomposite
  have hfactor : n.minFac.Prime := Nat.minFac_prime (by omega)
  have hsmall : n.minFac < 257 := by
    refine lt_of_pow_lt_pow_left₀ 2 (by decide) (Nat.lt_of_le_of_lt ?_ hlt)
    exact Nat.minFac_sq_le_self (by omega) hcomposite
  have hle := le_of_mem_smallPrimes _ (mem_smallPrimes hfactor hsmall)
  exact trialDivision_eq_none.mp h n.minFac hle hfactor (Nat.minFac_dvd n)

/-! ## The rounds -/

/-- So many witnesses, drawn one after another. -/
def witnesses (n : Nat) : (k : Nat) → Draw (Fin k → Nat)
  | 0 => pure Fin.elim0
  | k + 1 => do
    let a ← Draw.range 2 (n - 1)
    let rest ← witnesses n k
    pure (Fin.cons a rest)

theorem witnesses_succ {k : Nat} {source next : Source} {w : Fin (k + 1) → Nat} :
    witnesses n (k + 1) source = some (w, next) ↔
      ∃ a middle rest, Draw.range 2 (n - 1) source = some (a, middle) ∧
        witnesses n k middle = some (rest, next) ∧ w = Fin.cons a rest := by
  rw [witnesses, bind_eq_some]
  simp only [bind_eq_some, pure_eq_some]
  constructor
  · rintro ⟨a, middle, ha, rest, after, hrest, rfl, rfl⟩
    exact ⟨a, middle, rest, ha, hrest, rfl⟩
  · rintro ⟨a, middle, rest, ha, hrest, rfl⟩
    exact ⟨a, middle, ha, rest, next, hrest, rfl, rfl⟩

/-- The verdict of so many rounds is that on the witnesses they would draw: the draws that are
saved after a witness that does not pass could not change it. -/
theorem millerRabin_drawn {k : Nat} {source next : Source} {w : Fin k → Nat}
    (h : witnesses n k source = some (w, next)) :
    ∃ after, millerRabin n k source = some (decide (∀ i, witnessPasses n (w i) = true), after) := by
  induction k generalizing source with
  | zero => exact ⟨source, by rw [decide_eq_true (fun i => i.elim0)]; rfl⟩
  | succ k ih =>
    obtain ⟨a, middle, rest, ha, hrest, rfl⟩ := witnesses_succ.mp h
    rw [millerRabin, bind_of_eq_some ha]
    simp only [Fin.forall_fin_succ, Fin.cons_zero, Fin.cons_succ]
    cases hpasses : witnessPasses n a with
    | false => exact ⟨middle, by simp; rfl⟩
    | true => simpa using ih hrest

/-- Modulo a prime the rounds are nothing but their draws. -/
theorem millerRabin_of_prime (hprime : n.Prime) (hn : 2 < n) (k : Nat) :
    millerRabin n k = (fun _ => true) <$> witnesses n k := by
  funext source
  induction k generalizing source with
  | zero => rfl
  | succ k ih =>
    rw [millerRabin, witnesses, map_bind]
    cases hdraw : Draw.range 2 (n - 1) source with
    | none => rw [bind_of_eq_none hdraw, bind_of_eq_none hdraw]
    | some drawn =>
      obtain ⟨a, middle⟩ := drawn
      obtain ⟨hlow, hhigh⟩ := range_bounds hdraw
      rw [bind_of_eq_some hdraw, bind_of_eq_some hdraw,
        if_pos (witnessPasses_of_prime hprime hn (by omega) (by omega)), ih, map_bind]
      rfl

/-! ## The test -/

theorem isProbablePrime_of_lt (hn : n < 2) (rounds : Nat) :
    isProbablePrime n rounds = pure false := by
  rw [isProbablePrime, if_pos hn]

theorem isProbablePrime_of_some {verdict : Bool} (hn : 2 ≤ n)
    (h : trialDivision n = some verdict) (rounds : Nat) :
    isProbablePrime n rounds = pure (decide n.Prime) := by
  rw [isProbablePrime, if_neg (by omega), h, trialDivision_sound h]

theorem isProbablePrime_of_none (hn : 2 ≤ n) (h : trialDivision n = none) (rounds : Nat) :
    isProbablePrime n rounds = millerRabin n rounds := by
  rw [isProbablePrime, if_neg (by omega), h]

/-- On a prime the test is nothing but its draws. -/
theorem isProbablePrime_of_prime (hprime : n.Prime) (rounds : Nat) :
    isProbablePrime n rounds =
      if n ≤ 251 then pure true else (fun _ => true) <$> witnesses n rounds := by
  have hn := hprime.two_le
  split
  · next hle =>
    rw [isProbablePrime_of_some hn (trialDivision_of_dvd hle hprime dvd_rfl), decide_eq_true hprime]
  · next hgt =>
    rw [isProbablePrime_of_none hn (trialDivision_of_prime hprime (by omega)),
      millerRabin_of_prime hprime (by omega)]

/-- No stream leads the test to refuse a prime. -/
theorem eq_true_of_prime (hprime : n.Prime) {rounds : Nat} {source next : Source} {verdict : Bool}
    (h : isProbablePrime n rounds source = some (verdict, next)) : verdict = true := by
  rw [isProbablePrime_of_prime hprime] at h
  split at h
  · exact (pure_eq_some.mp h).1.symm
  · rw [map_eq_pure_bind] at h
    obtain ⟨w, middle, -, hrest⟩ := bind_eq_some.mp h
    exact (pure_eq_some.mp hrest).1.symm

/-- Below `257 ^ 2` what is not prime is refused without a draw. -/
theorem isProbablePrime_of_composite (hn : n < 66049) (hcomposite : ¬n.Prime) (rounds : Nat) :
    isProbablePrime n rounds = pure false := by
  rcases Nat.lt_or_ge n 2 with hlt | htwo
  · exact isProbablePrime_of_lt hlt rounds
  · cases htable : trialDivision n with
    | none => exact absurd (prime_of_trialDivision_eq_none htwo hn htable) hcomposite
    | some answer => rw [isProbablePrime_of_some htwo htable, decide_eq_false hcomposite]

theorem eq_true_iff_prime (hn : n < 66049) {rounds : Nat} {source next : Source} {verdict : Bool}
    (h : isProbablePrime n rounds source = some (verdict, next)) : verdict = true ↔ n.Prime := by
  by_cases hprime : n.Prime
  · exact iff_of_true (eq_true_of_prime hprime h) hprime
  · rw [isProbablePrime_of_composite hn hprime] at h
    rw [← (pure_eq_some.mp h).1]
    exact iff_of_false Bool.false_ne_true hprime

/-- On a prime the test answers `true`: at once up to 251, and beyond on every stream on which the
witnesses can be drawn. On numbers below two and on composite numbers with a prime factor up to 251
it answers `false` and draws nothing. Below `257 ^ 2` these are all composite numbers; so its answer
is whether the number is prime, on every stream and for every number of rounds. -/
theorem verdict_exact (n rounds : Nat) :
    (n.Prime → isProbablePrime n rounds =
      if n ≤ 251 then pure true else (fun _ => true) <$> witnesses n rounds) ∧
    (n < 2 ∨ ¬n.Prime ∧ (∃ p ≤ 251, p.Prime ∧ p ∣ n) → isProbablePrime n rounds = pure false) ∧
    (n < 66049 → (¬n.Prime → isProbablePrime n rounds = pure false) ∧
      ∀ source verdict next, isProbablePrime n rounds source = some (verdict, next) →
        (verdict = true ↔ n.Prime)) := by
  refine ⟨fun hprime => isProbablePrime_of_prime hprime rounds, ?_,
    fun hn => ⟨fun hcomposite => isProbablePrime_of_composite hn hcomposite rounds,
      fun source verdict next h => eq_true_iff_prime hn h⟩⟩
  intro h
  rcases Nat.lt_or_ge n 2 with hlt | htwo
  · exact isProbablePrime_of_lt hlt rounds
  · obtain ⟨hcomposite, p, hle, hprime, hdvd⟩ := h.resolve_left (by omega)
    rw [isProbablePrime_of_some htwo (trialDivision_of_dvd hle hprime hdvd),
      decide_eq_false hcomposite]

/-- The Carmichael number 561 is refused at once, and the Fermat number 65537 is accepted by each
of its witnesses. -/
theorem verdict_exact_small :
    ¬Nat.Prime 561 ∧ isProbablePrime 561 rounds = pure false ∧ Nat.Prime 65537 ∧
      isProbablePrime 65537 rounds = (fun _ => true) <$> witnesses 65537 rounds ∧
      ∀ source verdict next, isProbablePrime 65537 0 source = some (verdict, next) →
        verdict = true := by
  have hcomposite : ¬Nat.Prime 561 := by norm_num
  have hprime : Nat.Prime 65537 := by norm_num
  refine ⟨hcomposite, (verdict_exact 561 rounds).2.1 (.inr ⟨hcomposite, 3, ?_⟩), hprime,
    (verdict_exact 65537 rounds).1 hprime, fun source verdict next h => ?_⟩
  · decide
  · exact (((verdict_exact 65537 0).2.2 (by decide)).2 source verdict next h).mpr hprime

end AnonCred.Prime

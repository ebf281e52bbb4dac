import Mathlib.Algebra.Ring.Parity
import AnonCred.Prime
import AnonCred.Proofs.Random.Advance

/-!
# The shape of random primes

A candidate is a number of so many random bits with the highest and the lowest bit set. Setting the
highest bit keeps it below the power of two that bounds the random bits, and puts it above the power
before, so it has exactly as many binary digits as were asked for. Twice an odd number and one more
has one digit more.

* `candidate_shape` — candidates are odd and have the length
* `randomPrime_eq_some` — a random prime is a candidate that the test accepted
* `randomSafePrime_eq_some` — a random safe prime is made of one, and was accepted right after it
-/

namespace AnonCred

namespace Draw

variable {k n : Nat} {source next : Source}

theorem bits_lt (h : bits k source = some (n, next)) : n < 2 ^ k := by
  by_cases hk : k = 0
  · rw [bits, if_pos hk] at h
    rw [← (pure_eq_some.mp h).1]
    exact Nat.two_pow_pos k
  · rw [bits_eq hk, Option.some.injEq, Prod.mk.injEq] at h
    exact h.1 ▸ shown_lt _

/-- The length of a number, as bounds. -/
theorem bitLength_eq_iff (hk : 0 < k) : bitLength n = k ↔ 2 ^ (k - 1) ≤ n ∧ n < 2 ^ k := by
  have hpos := Nat.two_pow_pos (k - 1)
  unfold bitLength
  split
  · omega
  · next hn =>
    have hlog := Nat.log2_eq_iff (k := k - 1) hn
    rw [Nat.sub_add_cancel hk] at hlog
    rw [← hlog]
    omega

theorem bitLength_two_mul_add_one (hk : 0 < k) (h : bitLength n = k) :
    bitLength (2 * n + 1) = k + 1 := by
  obtain ⟨hlow, hhigh⟩ := (bitLength_eq_iff hk).mp h
  have hdouble : 2 * 2 ^ (k - 1) = 2 ^ k := by rw [← pow_succ', Nat.sub_add_cancel hk]
  refine (bitLength_eq_iff (Nat.succ_pos k)).mpr ⟨?_, ?_⟩
  · rw [Nat.succ_sub_one]
    omega
  · rw [pow_succ']
    omega

/-- A product of two numbers of one length has twice as many digits, or one less. -/
theorem bitLength_mul {m : Nat} (hk : 0 < k) (hm : bitLength m = k) (hn : bitLength n = k) :
    bitLength (m * n) = 2 * k - 1 ∨ bitLength (m * n) = 2 * k := by
  obtain ⟨hmlow, hmhigh⟩ := (bitLength_eq_iff hk).mp hm
  obtain ⟨hnlow, hnhigh⟩ := (bitLength_eq_iff hk).mp hn
  have hlow : 2 ^ (2 * k - 1 - 1) ≤ m * n := by
    calc 2 ^ (2 * k - 1 - 1) = 2 ^ (k - 1) * 2 ^ (k - 1) := by
          rw [← pow_add]
          congr 1
          omega
      _ ≤ m * n := Nat.mul_le_mul hmlow hnlow
  have hhigh : m * n < 2 ^ (2 * k) := by
    calc m * n < 2 ^ k * 2 ^ k := Nat.mul_lt_mul'' hmhigh hnhigh
      _ = 2 ^ (2 * k) := by rw [← pow_add, two_mul]
  rcases Nat.lt_or_ge (m * n) (2 ^ (2 * k - 1)) with hlt | hge
  · exact .inl ((bitLength_eq_iff (by omega)).mpr ⟨hlow, hlt⟩)
  · exact .inr ((bitLength_eq_iff (by omega)).mpr ⟨hge, hhigh⟩)

end Draw

namespace Prime

open Draw

variable {bits n p : Nat} {source next : Source}

/-! ## Candidates -/

theorem candidate_shape (hbits : 0 < bits) (h : candidate bits source = some (n, next)) :
    Odd n ∧ bitLength n = bits := by
  obtain ⟨drawn, middle, hdrawn, hrest⟩ := bind_eq_some.mp h
  obtain ⟨rfl, -⟩ := pure_eq_some.mp hrest
  have hlt := bits_lt hdrawn
  have htop : 2 ^ (bits - 1) < 2 ^ bits := Nat.pow_lt_pow_right (by decide) (by omega)
  have hone : 1 < 2 ^ bits := Nat.one_lt_two_pow hbits.ne'
  refine ⟨Nat.odd_iff.mpr (Nat.or_mod_two_eq_one.mpr (.inr rfl)), (bitLength_eq_iff hbits).mpr ?_⟩
  exact ⟨Nat.right_le_or.trans Nat.left_le_or, Nat.or_lt_two_pow (Nat.or_lt_two_pow hlt htop) hone⟩

/-! ## The test reads on -/

theorem advances_millerRabin (n : Nat) : ∀ k, Advances (millerRabin n k)
  | 0 => Advances.pure true
  | k + 1 => (advances_range _ _).bind fun a => by
    split
    · exact advances_millerRabin n k
    · exact Advances.pure false

theorem advances_isProbablePrime (n k : Nat) : Advances (isProbablePrime n k) := by
  unfold isProbablePrime
  split
  · exact Advances.pure false
  · split
    · exact Advances.pure _
    · exact advances_millerRabin n k

theorem advances_candidate (bits : Nat) : Advances (candidate bits) :=
  (advances_bits bits).bind fun _ => Advances.pure _

/-! ## Random primes -/

section Tested

variable {α β : Type} {draw : Draw α} {number : α → Nat} {value : α → β} {b : β}

/-- Draws until the number that belongs to what is drawn is accepted. -/
def tested (draw : Draw α) (number : α → Nat) (value : α → β) : Draw (Option β) := do
  let a ← draw
  let accepted ← isProbablePrime (number a) rounds
  pure (if accepted then some (value a) else none)

theorem advances_tested (hdraw : Advances draw) : Advances (tested draw number value) :=
  hdraw.bind fun _ => (advances_isProbablePrime _ _).bind fun _ => Advances.pure _

/-- The test of what is answered comes last, and accepts. -/
theorem untilSome_tested (hdraw : Advances draw)
    (h : untilSome (tested draw number value) source = some (b, next)) :
    ∃ a k middle, draw (source.skip k) = some (a, middle) ∧ b = value a ∧
      isProbablePrime (number a) rounds middle = some (true, next) := by
  obtain ⟨k, hattempt⟩ := (advances_tested hdraw).untilSome_eq_some h
  obtain ⟨a, middle, ha, hrest⟩ := bind_eq_some.mp hattempt
  obtain ⟨accepted, after, htest, hlast⟩ := bind_eq_some.mp hrest
  obtain ⟨hsome, rfl⟩ := pure_eq_some.mp hlast
  obtain ⟨rfl, heq⟩ := Option.ite_none_right_eq_some.mp hsome
  exact ⟨a, k, middle, ha, (Option.some.inj heq).symm, htest⟩

end Tested

theorem randomPrime_eq (bits : Nat) : randomPrime bits = untilSome (tested (candidate bits) id id) :=
  rfl

theorem randomSafePrime_eq (bits : Nat) :
    randomSafePrime bits = untilSome
      (tested (randomPrime (bits - 1)) (fun q => 2 * q + 1) fun q => ⟨2 * q + 1, q⟩) :=
  rfl

theorem advances_randomPrime (bits : Nat) : Advances (randomPrime bits) :=
  (advances_tested (advances_candidate bits)).untilSome

theorem advances_randomSafePrime (bits : Nat) : Advances (randomSafePrime bits) :=
  (advances_tested (advances_randomPrime (bits - 1))).untilSome

/-- A random prime is odd, has exactly the length, and was accepted at the end of the draw. -/
theorem randomPrime_eq_some (hbits : 0 < bits) (h : randomPrime bits source = some (p, next)) :
    Odd p ∧ bitLength p = bits ∧
      ∃ k, isProbablePrime p rounds (source.skip k) = some (true, next) := by
  rw [randomPrime_eq] at h
  obtain ⟨n, k, middle, hcandidate, rfl, htest⟩ := untilSome_tested (advances_candidate bits) h
  obtain ⟨hodd, hlength⟩ := candidate_shape hbits hcandidate
  obtain ⟨m, rfl⟩ := advances_candidate bits _ _ _ hcandidate
  exact ⟨hodd, hlength, k + m, source.skip_skip k m ▸ htest⟩

/-- A safe prime of the length as it is drawn from a place in the stream up to another: its half is
odd and one digit shorter, and the test accepted the half, and after it the prime. -/
structure SafePrime.Drawn (s : SafePrime) (bits : Nat) (source next : Source) : Prop where
  p_eq : s.p = 2 * s.q + 1
  bitLength_p : bitLength s.p = bits
  odd_q : Odd s.q
  bitLength_q : bitLength s.q = bits - 1
  accepted : ∃ k middle, isProbablePrime s.q rounds (source.skip k) = some (true, middle) ∧
    isProbablePrime s.p rounds middle = some (true, next)

theorem randomSafePrime_eq_some {s : SafePrime} (hbits : 1 < bits)
    (h : randomSafePrime bits source = some (s, next)) : s.Drawn bits source next := by
  rw [randomSafePrime_eq] at h
  obtain ⟨q, k, middle, hq, rfl, htest⟩ := untilSome_tested (advances_randomPrime (bits - 1)) h
  obtain ⟨hodd, hlength, j, haccepted⟩ := randomPrime_eq_some (by omega) hq
  refine ⟨rfl, ?_, hodd, hlength, k + j, middle, source.skip_skip k j ▸ haccepted, htest⟩
  have hdouble := bitLength_two_mul_add_one (by omega) hlength
  rwa [Nat.sub_add_cancel (by omega)] at hdouble

end Prime

end AnonCred

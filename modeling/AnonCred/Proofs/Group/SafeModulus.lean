import AnonCred.Proofs.Group.Residues
import AnonCred.Proofs.Prime.Generation

/-!
# The modulus of a group of residues

Random primes, safe primes and groups of residues are drawn from one stream, each loop inside the
next. A group comes from two draws of a safe prime, the second of them repeated until it differs
from the first; their product has twice as many digits as they, or one less.

* `generate_eq_ok` — the draws behind a group
* `random_primes_shaped` — the shape of what each of the three loops answers
-/

namespace AnonCred.ResidueGroup

open Draw

variable {R : ResidueGroup} {bits : Nat} {source next : Source}

/-- A group is made of two different safe primes, the second one drawn behind the first. -/
theorem generate_eq_ok (h : generate bits source = some (.ok R, next)) :
    16 ≤ bits ∧ ∃ first second k middle after,
      Prime.randomSafePrime bits source = some (first, middle) ∧
      Prime.randomSafePrime bits (middle.skip k) = some (second, after) ∧ second.p ≠ first.p ∧
      ofSafePrimes first second after = some (R, next) := by
  unfold generate at h
  split at h
  · cases (pure_eq_some.mp h).1
  · next hbits =>
    obtain ⟨first, middle, hfirst, hrest⟩ := bind_eq_some.mp h
    obtain ⟨second, after, hsecond, hrest⟩ := bind_eq_some.mp hrest
    obtain ⟨R', last, hgroup, hlast⟩ := bind_eq_some.mp hrest
    obtain ⟨hR, rfl⟩ := pure_eq_some.mp hlast
    cases hR
    obtain ⟨hne, k, hk⟩ := (Prime.advances_randomSafePrime bits).accepted_eq_some hsecond
    exact ⟨by omega, first, second, k, middle, after, hfirst, hk, of_decide_eq_true hne, hgroup⟩

/-- Wherever a random prime is answered, it is odd, has exactly the length, and was accepted last.
Wherever a random safe prime is, it is twice its half and one more, the prime has exactly the length
and the odd half one digit less, and both were accepted. Wherever a group is, its modulus is the
product of two such safe primes that differ, and has twice as many digits or one less. -/
theorem random_primes_shaped (bits : Nat) (source : Source) :
    (2 ≤ bits → ∀ p next, Prime.randomPrime bits source = some (p, next) →
      Odd p ∧ bitLength p = bits ∧
        ∃ k, Prime.isProbablePrime p Prime.rounds (source.skip k) = some (true, next)) ∧
    (3 ≤ bits → ∀ s next, Prime.randomSafePrime bits source = some (s, next) →
      s.Drawn bits source next) ∧
    ∀ R next, generate bits source = some (.ok R, next) →
      ∃ first second k middle after,
        Prime.randomSafePrime bits source = some (first, middle) ∧ first.Drawn bits source middle ∧
        Prime.randomSafePrime bits (middle.skip k) = some (second, after) ∧
        second.Drawn bits (middle.skip k) after ∧
        first.p ≠ second.p ∧ R.n = first.p * second.p ∧
        (bitLength R.n = 2 * bits - 1 ∨ bitLength R.n = 2 * bits) := by
  refine ⟨fun hbits p next h => Prime.randomPrime_eq_some (by omega) h,
    fun hbits s next h => Prime.randomSafePrime_eq_some (by omega) h, fun R next h => ?_⟩
  obtain ⟨hbits, first, second, k, middle, after, hfirst, hsecond, hne, hgroup⟩ := generate_eq_ok h
  have hfirst' := Prime.randomSafePrime_eq_some (by omega) hfirst
  have hsecond' := Prime.randomSafePrime_eq_some (by omega) hsecond
  obtain ⟨hn, -⟩ := possible_ofSafePrimes ⟨after, next, hgroup⟩
  refine ⟨first, second, k, middle, after, hfirst, hfirst', hsecond, hsecond', hne.symm, hn, ?_⟩
  rw [hn]
  exact bitLength_mul (by omega) hfirst'.bitLength_p hsecond'.bitLength_p

/-- The byte ten as long as the first safe prime of 16 bits takes, and then thirty-four. -/
def tensAndThirtyFours : Source := ⟨fun i => if i < 324 then 10 else 34, 0, 16⟩

theorem generate_tensAndThirtyFours : (generate 16 tensAndThirtyFours).map Prod.fst =
    some (.ok ⟨1466815873, 366684757, 120289478, "QR-SpecialRSA-31"⟩) := by decide +kernel

/-- Two safe primes of 16 bits, and a modulus of 31. -/
theorem random_primes_shaped_tensAndThirtyFours :
    (∃ next, Prime.randomPrime 16 tensAndThirtyFours = some (35339, next) ∧ bitLength 35339 = 16) ∧
    (∃ next, Prime.randomSafePrime 16 tensAndThirtyFours = some (⟨35339, 17669⟩, next) ∧
      bitLength 17669 = 15) ∧
    ∃ (R : ResidueGroup) (next : Source) (first second : Prime.SafePrime),
      generate 16 tensAndThirtyFours = some (.ok R, next) ∧ first.p ≠ second.p ∧
      R.n = first.p * second.p ∧ (bitLength R.n = 31 ∨ bitLength R.n = 32) := by
  obtain ⟨hprime, hsafe, hgroup⟩ := random_primes_shaped 16 tensAndThirtyFours
  have hp : (Prime.randomPrime 16 tensAndThirtyFours).map Prod.fst = some 35339 := by decide +kernel
  have hs : (Prime.randomSafePrime 16 tensAndThirtyFours).map Prod.fst = some ⟨35339, 17669⟩ := by
    decide +kernel
  obtain ⟨⟨p, next⟩, hp, rfl⟩ := Option.map_eq_some_iff.mp hp
  obtain ⟨⟨s, next'⟩, hs, rfl⟩ := Option.map_eq_some_iff.mp hs
  obtain ⟨⟨outcome, last⟩, hrun, rfl⟩ := Option.map_eq_some_iff.mp generate_tensAndThirtyFours
  obtain ⟨first, second, -, -, -, -, -, -, -, hne, hn, hlength⟩ := hgroup _ _ hrun
  exact ⟨⟨next, hp, (hprime (by decide) _ _ hp).2.1⟩,
    ⟨next', hs, (hsafe (by decide) _ _ hs).bitLength_q⟩,
    _, last, first, second, hrun, hne, hn, hlength⟩

end AnonCred.ResidueGroup

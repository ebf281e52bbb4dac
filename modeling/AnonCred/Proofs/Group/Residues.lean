import AnonCred.Group.Residues
import AnonCred.Proofs.Group.Schnorr
import AnonCred.Proofs.Random

/-!
# Quadratic residues keep the laws of a group

Modulo a safe prime `P = 2 * p' + 1` the power `x ^ (2 * p')` of a unit is one, so its square has
an order that divides `p'`. Modulo the product of two such primes, with the Chinese remainder
theorem, the order of a square divides `p' * q'`, which is the order that the group is made with.

* `square_pow_order` — the squares of units are members
* `ofResidues_of_possible` — every group of two different safe primes is lawful
* `CyclicGroup.Modular` — the groups of numbers that the library makes, these and the Schnorr groups
-/

namespace AnonCred

/-- A prime of which the half is prime, too. -/
structure Prime.SafePrime.Sound (s : Prime.SafePrime) : Prop where
  prime : s.p.Prime
  half_prime : s.q.Prime
  p_eq : s.p = 2 * s.q + 1

namespace ResidueGroup

open CyclicGroup

variable {R : ResidueGroup} {first second : Prime.SafePrime}

/-! ## Operations as residues -/

theorem exp_eq (x k : Nat) : R.group.exp x k = x ^ k % R.n := Arith.modPow_eq x k R.n

theorem compose_eq (x y : Nat) : R.group.compose x y = x * y % R.n := rfl

/-- The test for units is implied by the other one. -/
theorem member_iff (hn : 1 < R.n) (hpos : 0 < R.order) {x : Nat} :
    R.group.Member x ↔ 0 < x ∧ x < R.n ∧ x ^ R.order % R.n = 1 := by
  refine validate_eq_ok.trans ⟨fun ⟨h1, h2, _, h4⟩ => ⟨h1, h2, h4⟩, ?_⟩
  rintro ⟨hzero, hlt, hpow⟩
  refine ⟨hzero, hlt, ?_, hpow⟩
  have hmod : x ^ R.order ≡ 1 [MOD R.n] := by
    unfold Nat.ModEq
    rw [hpow, Nat.mod_eq_of_lt hn]
  have hcoprime : (x ^ R.order).Coprime R.n := by
    rw [Nat.Coprime, hmod.gcd_eq, Nat.gcd_one_left]
  exact Nat.Coprime.coprime_dvd_left (dvd_pow_self x (by omega)) hcoprime

theorem ofResidues (hn : 1 < R.n) (hpos : 0 < R.order) (hg : R.group.Member R.g) :
    R.group.OfResidues R.n where
  one_lt := hn
  order_pos := hpos
  identity_eq := rfl
  compose_eq := compose_eq
  exp_eq := exp_eq
  member_iff := member_iff hn hpos
  member_generator := hg

/-! ## Squares -/

/-- Fermat, for the square of a unit modulo a safe prime. -/
theorem square_pow_half (h : first.Sound) {x : Nat} (hx : x.Coprime first.p) (k : Nat) :
    (x ^ 2) ^ (first.q * k) ≡ 1 [MOD first.p] := by
  have hfermat : x ^ (2 * first.q) ≡ 1 [MOD first.p] := by
    have htotient := Nat.ModEq.pow_totient hx
    rwa [Nat.totient_prime h.prime, show first.p - 1 = 2 * first.q by rw [h.p_eq]; rfl] at htotient
  calc (x ^ 2) ^ (first.q * k) = (x ^ (2 * first.q)) ^ k := by
        rw [← pow_mul, ← pow_mul, mul_assoc]
    _ ≡ 1 ^ k [MOD first.p] := hfermat.pow k
    _ = 1 := one_pow k

/-- Modulo two safe primes the squares of units have an order that divides the product of the
halves. -/
theorem square_pow_order (hfirst : first.Sound) (hsecond : second.Sound) (hne : first.p ≠ second.p)
    {x : Nat} (hx : x.Coprime (first.p * second.p)) :
    (x ^ 2) ^ (first.q * second.q) ≡ 1 [MOD first.p * second.p] := by
  have hcoprime : first.p.Coprime second.p :=
    (Nat.coprime_primes hfirst.prime hsecond.prime).mpr hne
  refine (Nat.modEq_and_modEq_iff_modEq_mul hcoprime).mp ⟨?_, ?_⟩
  · exact square_pow_half hfirst hx.coprime_mul_right_right second.q
  · rw [mul_comm first.q]
    exact square_pow_half hsecond hx.coprime_mul_left_right first.q

/-! ## Groups of two safe primes -/

theorem generatorOf?_eq_some {n x g : Nat} (h : generatorOf? n x = some g) :
    x.Coprime n ∧ g = x ^ 2 % n ∧ (g - 1).Coprime n := by
  unfold generatorOf? at h
  dsimp only at h
  split at h
  · next hcond =>
    rw [Option.some.injEq] at h
    rw [h] at hcond
    rw [Arith.modPow_eq] at h
    exact ⟨beq_iff_eq.mp hcond.1, h.symm, beq_iff_eq.mp hcond.2.2⟩
  · cases h

/-- The generator is the square of a unit, and one modulo no divisor of the modulus. -/
theorem possible_ofSafePrimes (h : (ofSafePrimes first second).Possible R) :
    R.n = first.p * second.p ∧ R.order = first.q * second.q ∧
      ∃ x, x.Coprime R.n ∧ R.g = x ^ 2 % R.n ∧ (R.g - 1).Coprime R.n := by
  obtain ⟨source, next, h⟩ := h
  obtain ⟨g, middle, hg, h⟩ := Draw.bind_eq_some.mp h
  obtain ⟨rfl, -⟩ := Draw.pure_eq_some.mp h
  refine ⟨rfl, rfl, ?_⟩
  obtain ⟨before, hattempt⟩ := Draw.untilSome_eq_some hg
  obtain ⟨x, after, -, hx⟩ := Draw.bind_eq_some.mp hattempt
  exact ⟨x, generatorOf?_eq_some (Draw.pure_eq_some.mp hx).1⟩

/-- A group of two different safe primes has the members and the operations of residues. -/
theorem ofResidues_of_possible (hfirst : first.Sound) (hsecond : second.Sound)
    (hne : first.p ≠ second.p) (h : (ofSafePrimes first second).Possible R) :
    R.group.OfResidues R.n := by
  obtain ⟨hn, horder, x, hx, hg, -⟩ := possible_ofSafePrimes h
  have hone : 1 < R.n := by
    rw [hn]
    exact Nat.one_lt_mul_iff.mpr ⟨hfirst.prime.pos, hsecond.prime.pos, .inl hfirst.prime.one_lt⟩
  have hpos : 0 < R.order := by
    rw [horder]
    exact Nat.mul_pos hfirst.half_prime.pos hsecond.half_prime.pos
  have hpow : R.g ^ R.order % R.n = 1 := by
    have hsquare := square_pow_order hfirst hsecond hne (hn ▸ hx)
    rw [← hn, ← horder] at hsquare
    rw [hg, ← Nat.pow_mod, hsquare, Nat.mod_eq_of_lt hone]
  have hlt : R.g < R.n := by
    rw [hg]
    exact Nat.mod_lt _ (by omega)
  exact ofResidues hone hpos ((member_iff hone hpos).mpr ⟨pos_of_pow_mod hpos hpow, hlt, hpow⟩)

/-! ## A small group -/

/-- The squares of the units modulo 77. -/
def residues77 : ResidueGroup := ⟨77, 15, 4, "QR-SpecialRSA-7"⟩

theorem sound_seven : (Prime.SafePrime.mk 7 3).Sound :=
  ⟨by decide, by decide, rfl⟩

theorem sound_eleven : (Prime.SafePrime.mk 11 5).Sound :=
  ⟨by decide, by decide, rfl⟩

theorem possible_residues77 : (ofSafePrimes ⟨7, 3⟩ ⟨11, 5⟩).Possible residues77 :=
  Draw.possible_of_map ⟨fun _ => 0, 0, 1⟩ (by decide +kernel)

end ResidueGroup

/-! ## The families -/

/-- The groups of numbers that the library makes from parameters or from safe primes. -/
inductive CyclicGroup.Modular : CyclicGroup Nat → Prop
  | schnorr {p q g : Nat} {S : SchnorrGroup} (h : SchnorrGroup.ofParams p q g = .ok S) :
    Modular S.group
  | residues {first second : Prime.SafePrime} {R : ResidueGroup} (hfirst : first.Sound)
    (hsecond : second.Sound) (hne : first.p ≠ second.p)
    (h : (ResidueGroup.ofSafePrimes first second).Possible R) : Modular R.group

theorem CyclicGroup.Modular.lawful {G : CyclicGroup Nat} (h : G.Modular) : G.Lawful := by
  cases h with
  | schnorr h => exact SchnorrGroup.lawful_of_ofParams h
  | residues hfirst hsecond hne h =>
    exact (ResidueGroup.ofResidues_of_possible hfirst hsecond hne h).lawful

end AnonCred

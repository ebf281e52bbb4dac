import AnonCred.Proofs.Group.Membership
import AnonCred.Proofs.Group.Residues

/-!
# The members are the squares of the units

Modulo a safe prime `P = 2 * p' + 1` the power of a unit to `2 * p'` is one. If its power to an odd
multiple of `p'` is one, too, then so is that to `p'`, and the unit is a power of any square but
one. Of two safe primes with odd halves the order is an odd multiple of either half. So a member is
a power of the generator modulo each of the primes, and by the Chinese remainder theorem modulo
their product. The powers of the generator are squares of units, and those are members.

* `isPrimitiveRoot_generator` — the order of the generator modulo one of the primes
* `exists_generator_pow` — every member is a power of the generator
* `squares_exact` — the members, the order of the generator, and its powers
-/

namespace AnonCred.ResidueGroup

open CyclicGroup

variable {R : ResidueGroup} {s first second : Prime.SafePrime}

/-! ## Modulo one safe prime -/

/-- A unit whose power to an odd multiple of the half is one has a power to the half that is one. -/
theorem pow_half_eq_one (hs : s.Sound) {x k : Nat} (hk : Odd k) (hx : x.Coprime s.p)
    (hpow : (x : ZMod s.p) ^ (s.q * k) = 1) : (x : ZMod s.p) ^ s.q = 1 := by
  have hfermat : (x : ZMod s.p) ^ (s.q * 2) = 1 := by
    have hsquare := (ZMod.natCast_eq_natCast_iff _ _ _).mpr (square_pow_half hs hx 1)
    push_cast at hsquare
    rwa [mul_one, ← pow_mul, mul_comm] at hsquare
  have hgcd := pow_gcd_eq_one.mpr ⟨hpow, hfermat⟩
  rwa [Nat.gcd_mul_left, (Nat.coprime_two_right.mpr hk).gcd_eq_one, mul_one] at hgcd

/-- Modulo a safe prime that divides the modulus the generator has the order of the squares. -/
theorem isPrimitiveRoot_generator (hs : s.Sound) (hdvd : s.p ∣ R.n)
    (h : (ofSafePrimes first second).Possible R) : IsPrimitiveRoot (R.g : ZMod s.p) s.q := by
  obtain ⟨-, -, x, hx, hg, hpred⟩ := possible_ofSafePrimes h
  have := Fact.mk hs.half_prime
  have hone : (R.g : ZMod s.p) ^ s.q = 1 := by
    have hsquare : R.g ≡ x ^ 2 [MOD s.p] := by
      rw [hg]
      exact (Nat.mod_modEq _ _).of_dvd hdvd
    have hhalf := square_pow_half hs (Nat.Coprime.coprime_dvd_right hdvd hx) 1
    rw [mul_one] at hhalf
    exact_mod_cast (ZMod.natCast_eq_natCast_iff _ _ _).mpr ((hsquare.pow s.q).trans hhalf)
  have hne : (R.g : ZMod s.p) ≠ 1 := by
    intro hsame
    have hmod : 1 ≡ R.g [MOD s.p] := by
      rw [← ZMod.natCast_eq_natCast_iff, hsame, Nat.cast_one]
    have hshared : s.p ∣ R.g - 1 := by
      rcases Nat.eq_zero_or_pos R.g with hzero | hpos
      · rw [hzero]
        exact dvd_zero s.p
      · exact (Nat.modEq_iff_dvd' hpos).mp hmod
    exact hs.prime.one_lt.ne' (Nat.eq_one_of_dvd_coprimes hpred hshared hdvd)
  exact orderOf_eq_prime hone hne ▸ IsPrimitiveRoot.orderOf _

theorem generator_pow_modEq_one (hroot : IsPrimitiveRoot (R.g : ZMod s.p) s.q) (k : Nat) :
    R.g ^ k ≡ 1 [MOD s.p] ↔ s.q ∣ k := by
  rw [← hroot.pow_eq_one_iff_dvd, ← ZMod.natCast_eq_natCast_iff, Nat.cast_pow, Nat.cast_one]

/-- A unit whose power to an odd multiple of the half is one is a power of the generator, and the
exponent counts modulo the half. -/
theorem exists_pow_modEq (hs : s.Sound) (hroot : IsPrimitiveRoot (R.g : ZMod s.p) s.q) {x k : Nat}
    (hk : Odd k) (hx : x.Coprime s.p) (hpow : x ^ (s.q * k) ≡ 1 [MOD s.p]) :
    ∃ i, ∀ j, j ≡ i [MOD s.q] → R.g ^ j ≡ x [MOD s.p] := by
  have := Fact.mk hs.prime
  have : NeZero s.q := ⟨hs.half_prime.ne_zero⟩
  have hone : (x : ZMod s.p) ^ (s.q * k) = 1 := by
    exact_mod_cast (ZMod.natCast_eq_natCast_iff _ _ _).mpr hpow
  obtain ⟨i, -, hi⟩ := hroot.eq_pow_of_pow_eq_one (pow_half_eq_one hs hk hx hone)
  refine ⟨i, fun j hj => ?_⟩
  rw [← ZMod.natCast_eq_natCast_iff, Nat.cast_pow, ← hi]
  exact pow_eq_pow_of_modEq hj hroot.pow_eq_one

/-! ## Modulo both -/

section Pair

variable (hfirst : first.Sound) (hsecond : second.Sound) (hne : first.p ≠ second.p)
  (h : (ofSafePrimes first second).Possible R)

include hfirst hsecond

include hne in
theorem coprime_moduli : first.p.Coprime second.p :=
  (Nat.coprime_primes hfirst.prime hsecond.prime).mpr hne

include hne in
theorem coprime_halves : first.q.Coprime second.q := by
  refine (Nat.coprime_primes hfirst.half_prime hsecond.half_prime).mpr fun hsame => hne ?_
  rw [hfirst.p_eq, hsecond.p_eq, hsame]

include h in
theorem roots_generator : IsPrimitiveRoot (R.g : ZMod first.p) first.q ∧
    IsPrimitiveRoot (R.g : ZMod second.p) second.q := by
  obtain ⟨hn, -⟩ := possible_ofSafePrimes h
  exact ⟨isPrimitiveRoot_generator hfirst (hn ▸ dvd_mul_right _ _) h,
    isPrimitiveRoot_generator hsecond (hn ▸ dvd_mul_left _ _) h⟩

include hne h

/-- A power of the generator is one where the exponent is a multiple of both halves. -/
theorem generator_pow_eq_one (k : Nat) : R.g ^ k ≡ 1 [MOD R.n] ↔ R.order ∣ k := by
  obtain ⟨hn, horder, -⟩ := possible_ofSafePrimes h
  obtain ⟨hroot, hroot'⟩ := roots_generator hfirst hsecond h
  rw [hn, ← Nat.modEq_and_modEq_iff_modEq_mul (coprime_moduli hfirst hsecond hne),
    generator_pow_modEq_one hroot, generator_pow_modEq_one hroot', horder]
  constructor
  · rintro ⟨hdvd, hdvd'⟩
    exact (coprime_halves hfirst hsecond hne).mul_dvd_of_dvd_of_dvd hdvd hdvd'
  · intro hdvd
    exact ⟨(dvd_mul_right _ _).trans hdvd, (dvd_mul_left _ _).trans hdvd⟩

theorem hasOrder_generator : R.group.HasOrder R.group.generator R.group.order := by
  have hresidues := ofResidues_of_possible hfirst hsecond hne h
  have := hresidues.lawful
  refine ⟨Lawful.exp_order member_generator, fun k hlt hpos hone => ?_⟩
  have hmod : R.g ^ k ≡ 1 [MOD R.n] :=
    (hresidues.exp_eq_iff hresidues.one_lt).mp hone
  exact Nat.not_dvd_of_pos_of_lt hpos hlt ((generator_pow_eq_one hfirst hsecond hne h k).mp hmod)

/-- A member is a power of the generator modulo either prime, and the two exponents are one modulo
the product of the halves. -/
theorem exists_generator_pow (hodd : Odd first.q ∧ Odd second.q) {x : Nat}
    (hx : R.group.Member x) : ∃ k < R.group.order, R.group.power k = x := by
  have hresidues := ofResidues_of_possible hfirst hsecond hne h
  have := hresidues.lawful
  obtain ⟨hn, horder, -⟩ := possible_ofSafePrimes h
  obtain ⟨hroot, hroot'⟩ := roots_generator hfirst hsecond h
  obtain ⟨-, hlt, hunit, hpow⟩ := validate_eq_ok.mp hx
  have hmod : x ^ (first.q * second.q) ≡ 1 [MOD first.p * second.p] := by
    rw [← hn, ← horder]
    exact hpow.trans (Nat.mod_eq_of_lt hresidues.one_lt).symm
  rw [hn] at hunit
  obtain ⟨i, hi⟩ := exists_pow_modEq hfirst hroot hodd.2
    (Nat.Coprime.coprime_mul_right_right hunit) (hmod.of_mul_right _)
  obtain ⟨j, hj⟩ := exists_pow_modEq hsecond hroot' hodd.1
    (Nat.Coprime.coprime_mul_left_right hunit) (mul_comm first.q _ ▸ hmod.of_mul_left _)
  obtain ⟨k, hki, hkj⟩ := Nat.chineseRemainder (coprime_halves hfirst hsecond hne) i j
  have hpower : R.g ^ k ≡ x [MOD R.n] := by
    rw [hn, ← Nat.modEq_and_modEq_iff_modEq_mul (coprime_moduli hfirst hsecond hne)]
    exact ⟨hi k hki, hj k hkj⟩
  refine ⟨k % R.group.order, Nat.mod_lt _ order_pos, ?_⟩
  have hreduced : R.group.power (k % R.group.order) = R.group.power k :=
    congrArg Subtype.val (Element.pow_mod (Element.gen : R.group.Element) k)
  rw [hreduced]
  exact (hresidues.exp_eq_iff hlt).mpr hpower

/-- The members of a group of two safe primes with odd halves are the squares of the units. The
generator has the product of the halves as its order, and its powers below that are the members,
each of them once. -/
theorem squares_exact (hodd : Odd first.q ∧ Odd second.q) :
    R.n = first.p * second.p ∧ R.group.order = first.q * second.q ∧
      (∀ x, R.group.Member x ↔ ∃ y, y.Coprime R.n ∧ x = y ^ 2 % R.n) ∧
      R.group.HasOrder R.group.generator R.group.order ∧
      Set.BijOn R.group.power (Set.Iio R.group.order) {x | R.group.Member x} := by
  have hresidues := ofResidues_of_possible hfirst hsecond hne h
  have := hresidues.lawful
  obtain ⟨hn, horder, root, hroot, hg, -⟩ := possible_ofSafePrimes h
  have hgenerator := hasOrder_generator hfirst hsecond hne h
  have hpowers (x : Nat) (hx : R.group.Member x) :=
    exists_generator_pow hfirst hsecond hne h hodd hx
  refine ⟨hn, horder, fun x => ⟨fun hx => ?_, ?_⟩, hgenerator, bijOn_power hgenerator hpowers⟩
  · obtain ⟨k, -, rfl⟩ := hpowers x hx
    refine ⟨root ^ k, hroot.pow_left k, ?_⟩
    calc R.group.power k = (root ^ 2 % R.n) ^ k % R.n := by rw [← hg]; exact exp_eq R.g k
      _ = (root ^ k) ^ 2 % R.n := by rw [← Nat.pow_mod, ← pow_mul, mul_comm, pow_mul]
  · rintro ⟨y, hy, rfl⟩
    have hsquare := square_pow_order hfirst hsecond hne (hn ▸ hy)
    rw [← hn, ← horder] at hsquare
    exact hresidues.member_mod (Eq.trans hsquare (Nat.mod_eq_of_lt hresidues.one_lt))

end Pair

/-- The fifteen squares of units modulo 77. -/
theorem squares_exact_residues77 :
    residues77.group.HasOrder 4 15 ∧ residues77.group.Member 9 ∧
      (∃ y, y.Coprime 77 ∧ 9 = y ^ 2 % 77) ∧ (¬∃ y, y.Coprime 77 ∧ 2 = y ^ 2 % 77) ∧
      Set.BijOn residues77.group.power (Set.Iio 15) {x | residues77.group.Member x} := by
  have hnine : residues77.group.Member 9 := by decide +kernel
  have htwo : ¬residues77.group.Member 2 := by decide +kernel
  obtain ⟨-, -, hsquares, hgenerator, hbij⟩ := squares_exact sound_seven sound_eleven (by decide)
    possible_residues77 ⟨by decide, by decide⟩
  exact ⟨hgenerator, hnine, (hsquares 9).mp hnine, fun hy => htwo ((hsquares 2).mpr hy), hbij⟩

end AnonCred.ResidueGroup

import AnonCred.Proofs.Group.Schnorr
import AnonCred.Proofs.Random.Uniform

/-!
# The members are the powers of the generator

The checks on a Schnorr group and on its elements are about divisors, ranges and powers that are
one. Over primes they are exact. The generator is not one and has a power to a prime that is, so it
has that order; and an equation of that degree has no roots in a field but the powers it has. So
every member is a power of the generator in one way, and a random power is a random member.

* `bijOn_power` — the powers below the order name each member once
* `drawsUniformly` — each member is drawn on its share of the tapes
* `SchnorrGroup.membership_exact` — what is a member of a Schnorr group over primes
-/

namespace AnonCred

namespace CyclicGroup

variable {E : Type} {G : CyclicGroup E}

/-! ## Powers of the generator -/

section Powers

variable [G.Lawful]

theorem power_injOn (horder : G.HasOrder G.generator G.order) :
    Set.InjOn G.power (Set.Iio G.order) := by
  intro j hj k hk hpower
  have hgen : orderOf (Element.gen : G.Element) = G.order := Element.orderOf_of_hasOrder horder
  have hpow : (Element.gen : G.Element) ^ j = Element.gen ^ k := Element.ext hpower
  exact pow_injOn_Iio_orderOf (hgen ▸ hj) (hgen ▸ hk) hpow

/-- Where the generator has the order of the group and its powers are all the members, the powers
below the order name each member once. -/
theorem bijOn_power (horder : G.HasOrder G.generator G.order)
    (hpowers : ∀ x, G.Member x → ∃ k < G.order, G.power k = x) :
    Set.BijOn G.power (Set.Iio G.order) {x | G.Member x} :=
  ⟨fun k _ => G.member_power k, power_injOn horder, hpowers⟩

end Powers

/-! ## Random elements -/

/-- The random element that a tape leads to. -/
def elementOn (G : CyclicGroup E) {n : Nat} (tape : Draw.Tape G.order n) : Option E :=
  (G.randomElement (Source.ofBlocks tape)).map Prod.fst

theorem elementOn_eq {n : Nat} (tape : Draw.Tape G.order n) :
    G.elementOn tape = (Draw.answer G.order tape).map G.power := by
  unfold elementOn Draw.answer randomElement randomScalar
  cases h : Draw.below G.order (Source.ofBlocks tape) with
  | none => rw [Draw.bind_of_eq_none h]; rfl
  | some drawn => rw [Draw.bind_of_eq_some h]; rfl

/-- The random elements are the members, and of the tapes that lead to one each member has the same
share. -/
structure DrawsUniformly (G : CyclicGroup E) : Prop where
  possible_iff : ∀ x, G.randomElement.Possible x ↔ G.Member x
  share : ∀ n x, G.Member x →
    G.order * {tape : Draw.Tape G.order n | G.elementOn tape = some x}.ncard =
      {tape : Draw.Tape G.order n | (G.elementOn tape).isSome}.ncard

/-- A member that is one power below the order is drawn where its exponent is. -/
theorem drawsUniformly (hbij : Set.BijOn G.power (Set.Iio G.order) {x | G.Member x}) :
    G.DrawsUniformly where
  possible_iff x := by
    constructor
    · rintro ⟨source, next, hdraw⟩
      obtain ⟨k, hk, rfl⟩ := randomElement_eq_some hdraw
      exact hbij.mapsTo hk
    · intro hx
      obtain ⟨k, hk, rfl⟩ := hbij.surjOn hx
      exact ((steerable_scalar hk).bind (.pure (G.power k))).possible
  share n x hx := by
    obtain ⟨k, hk, rfl⟩ := hbij.surjOn hx
    have hexponent (tape : Draw.Tape G.order n) :
        (Draw.answer G.order tape).map G.power = some (G.power k) ↔
          Draw.answer G.order tape = some k := by
      rw [Option.map_eq_some_iff]
      constructor
      · rintro ⟨l, hanswer, hpower⟩
        rw [hanswer, hbij.injOn (Draw.answer_lt hanswer) hk hpower]
      · intro hanswer
        exact ⟨k, hanswer, rfl⟩
    simp only [elementOn_eq, hexponent, Option.isSome_map]
    exact Draw.ncard_answer n hk

end CyclicGroup

/-! ## Schnorr groups over primes -/

namespace SchnorrGroup

open CyclicGroup

variable {S : SchnorrGroup} {p q g : Nat}

theorem gen_ne_one [S.group.Lawful] (hwell : WellFormed S.p S.q S.g) :
    (Element.gen : S.group.Element) ≠ 1 := by
  intro h
  have hone : S.g = 1 := Element.coe_eq_identity.mpr h
  exact hwell.one_lt.ne' hone

/-- Where the order is prime, the generator has it, whatever the modulus. -/
theorem hasOrder_generator (hwell : WellFormed S.p S.q S.g) (hq : S.q.Prime) :
    S.group.HasOrder S.group.generator S.group.order := by
  have := (ofResidues_of_wellFormed hwell).lawful
  refine ⟨Lawful.exp_order member_generator, fun k hlt hpos => ?_⟩
  exact Element.exp_ne_identity hq member_generator hwell.one_lt.ne' hpos hlt

theorem exists_power_eq (hwell : WellFormed S.p S.q S.g) (hp : S.p.Prime) (hq : S.q.Prime) {x : Nat}
    (hx : S.group.Member x) : ∃ k < S.group.order, S.group.power k = x := by
  have := (ofResidues_of_wellFormed hwell).lawful
  obtain ⟨k, hlt, hk⟩ := exists_pow_eq hp hq (gen_ne_one hwell) (.ofMember hx)
  exact ⟨k, hlt, congrArg Subtype.val hk⟩

theorem member_iff_power (hwell : WellFormed S.p S.q S.g) (hp : S.p.Prime) (hq : S.q.Prime)
    {x : Nat} : S.group.Member x ↔ ∃ k, S.g ^ k % S.p = x := by
  have := (ofResidues_of_wellFormed hwell).lawful
  constructor
  · intro hx
    obtain ⟨k, -, hk⟩ := exists_power_eq hwell hp hq hx
    exact ⟨k, (exp_eq S.g k).symm.trans hk⟩
  · rintro ⟨k, rfl⟩
    exact exp_eq S.g k ▸ S.group.member_power k

/-! ## What is refused -/

theorem validate_eq_outsideModulus {x : Nat} :
    S.validate x = .error (.element .outsideModulus) ↔ x = 0 ∨ S.p ≤ x := by
  unfold validate
  split
  · simp_all
  · split <;> simp_all

theorem validate_eq_outsideSubgroup {x : Nat} :
    S.validate x = .error (.element .outsideSubgroup) ↔
      0 < x ∧ x < S.p ∧ ¬S.group.Member x := by
  rw [member_iff, ← exp_eq]
  unfold validate
  split
  · next hrange =>
    simp only [Except.error.injEq, Error.element.injEq, reduceCtorEq, false_iff]
    omega
  · next hrange =>
    split
    · next hpow =>
      refine iff_of_true rfl ⟨by omega, by omega, fun h => hpow h.2.2⟩
    · next hpow =>
      refine iff_of_false (fun h => by cases h) fun h => h.2.2 ⟨h.1, h.2.1, not_not.mp hpow⟩

/-- In a group that `ofParams` makes of primes, the powers of the generator below the order are the
members, each of them once. Nothing else is a member: neither zero, nor what is not reduced, nor
what is no power of the generator; and a random element is each of the members equally often. -/
theorem membership_exact (hp : p.Prime) (hq : q.Prime) (hS : ofParams p q g = .ok S) :
    Set.BijOn S.group.power (Set.Iio q) {x | S.group.Member x} ∧
      (∀ k, S.group.power k = g ^ k % p ∧ S.group.Member (S.group.power k)) ∧
      (∀ x, S.validate x = .error (.element .outsideModulus) ↔ x = 0 ∨ p ≤ x) ∧
      (∀ x, S.validate x = .error (.element .outsideSubgroup) ↔
        0 < x ∧ x < p ∧ ∀ k, g ^ k % p ≠ x) ∧
      S.group.DrawsUniformly := by
  obtain ⟨rfl, rfl, rfl⟩ := params_of_ofParams hS
  have hwell := wellFormed_of_ofParams hS
  have := lawful_of_ofParams hS
  have hbij := bijOn_power (hasOrder_generator hwell hq) fun x => exists_power_eq hwell hp hq
  refine ⟨hbij, fun k => ⟨exp_eq S.g k, S.group.member_power k⟩,
    fun x => validate_eq_outsideModulus, fun x => ?_, drawsUniformly hbij⟩
  rw [validate_eq_outsideSubgroup, member_iff_power hwell hp hq, not_exists]

/-- The eleven squares modulo 23. -/
theorem membership_exact_squares23 :
    Nat.Prime 23 ∧ Nat.Prime 11 ∧ ofParams 23 11 4 = .ok squares23 ∧
      Set.BijOn squares23.group.power (Set.Iio 11) {x | squares23.group.Member x} ∧
      squares23.validate 5 = .error (.element .outsideSubgroup) ∧ (∀ k, 4 ^ k % 23 ≠ 5) ∧
      squares23.group.DrawsUniformly := by
  have hfive : squares23.validate 5 = .error (.element .outsideSubgroup) := by decide +kernel
  obtain ⟨hbij, -, -, hrefused, huniform⟩ :=
    membership_exact (by decide : Nat.Prime 23) (by decide : Nat.Prime 11) ofParams_squares23
  exact ⟨by decide, by decide, ofParams_squares23, hbij, hfive, ((hrefused 5).mp hfive).2.2,
    huniform⟩

end SchnorrGroup

end AnonCred

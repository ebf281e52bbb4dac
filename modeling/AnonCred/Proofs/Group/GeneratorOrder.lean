import AnonCred.Proofs.Group.Membership

/-!
# The order of the generator

The order that a group is made with is an exponent for which the power of the generator is one.
`ofParams` does not ask for the least one. The least one divides it, and is smaller where some prime
factor can be taken out of the exponent; so it is the order of the group where that is prime,
and need not be where it is not.

* `Element.hasOrder_iff` — the order of a member, in the group of members
* `SchnorrGroup.hasOrder_iff_quotients` — the order of the generator, and when it is that of the
  group
-/

namespace AnonCred

namespace CyclicGroup

variable {E : Type} {G : CyclicGroup E}

theorem Element.hasOrder_iff [G.Lawful] {x : G.Element} {d : Nat} (hd : 0 < d) :
    G.HasOrder (x : E) d ↔ orderOf x = d := by
  rw [orderOf_eq_iff hd]
  unfold HasOrder
  norm_cast
  simp only [Element.coe_eq_identity]

end CyclicGroup

namespace SchnorrGroup

open CyclicGroup

variable {S : SchnorrGroup} {p q g : Nat}

/-- The generator has an order that divides that of the group. -/
theorem exists_hasOrder (hwell : WellFormed S.p S.q S.g) :
    ∃ d, 1 < d ∧ d ∣ S.group.order ∧ S.group.HasOrder S.group.generator d := by
  have := (ofResidues_of_wellFormed hwell).lawful
  have hpow : (Element.gen : S.group.Element) ^ S.group.order = 1 := Element.pow_order _
  have hpos : 0 < orderOf (Element.gen : S.group.Element) :=
    orderOf_pos_iff.mpr (isOfFinOrder_iff_pow_eq_one.mpr ⟨_, hwell.order_pos, hpow⟩)
  have hne : orderOf (Element.gen : S.group.Element) ≠ 1 :=
    fun h => gen_ne_one hwell (orderOf_eq_one_iff.mp h)
  exact ⟨orderOf (Element.gen : S.group.Element), by omega, orderOf_dvd_of_pow_eq_one hpow,
    (Element.hasOrder_iff hpos).mpr rfl⟩

/-- The order of the group is that of the generator where no prime factor can be taken out of it. -/
theorem hasOrder_iff_quotients (hwell : WellFormed S.p S.q S.g) :
    S.group.HasOrder S.group.generator S.group.order ↔
      ∀ l, l.Prime → l ∣ S.q → S.g ^ (S.q / l) % S.p ≠ 1 := by
  have := (ofResidues_of_wellFormed hwell).lawful
  constructor
  · intro horder l hl hdvd hone
    have hpos := Nat.div_pos (Nat.le_of_dvd hwell.order_pos hdvd) hl.pos
    exact horder.2 _ (Nat.div_lt_self hwell.order_pos hl.one_lt) hpos ((exp_eq _ _).trans hone)
  · intro hquotients
    refine (Element.hasOrder_iff (x := Element.gen) hwell.order_pos).mpr ?_
    refine orderOf_eq_of_pow_and_pow_div_prime hwell.order_pos (Element.pow_order _) ?_
    intro l hl hdvd hpow
    exact hquotients l hl hdvd ((exp_eq _ _).symm.trans (Element.coe_eq_identity.mpr hpow))

/-- The generator of a group that `ofParams` makes has some order above one that divides the order
of the group. The two are the same exactly where no power of the generator to a quotient of the
order by a prime is one; so they are for every prime order, whatever the modulus. -/
theorem generator_order_exact (hS : ofParams p q g = .ok S) :
    (∃ d, 1 < d ∧ d ∣ S.group.order ∧ S.group.HasOrder S.group.generator d) ∧
      (S.group.HasOrder S.group.generator S.group.order ↔
        ∀ l, l.Prime → l ∣ q → g ^ (q / l) % p ≠ 1) ∧
      (q.Prime → S.group.HasOrder S.group.generator S.group.order) := by
  obtain ⟨rfl, rfl, rfl⟩ := params_of_ofParams hS
  have hwell := wellFormed_of_ofParams hS
  exact ⟨exists_hasOrder hwell, hasOrder_iff_quotients hwell, hasOrder_generator hwell⟩

/-- Modulo 23 the number 4 has order 11. -/
theorem generator_order_exact_squares23 :
    ofParams 23 11 4 = .ok squares23 ∧ squares23.group.HasOrder 4 11 ∧
      ∀ l, l.Prime → l ∣ 11 → 4 ^ (11 / l) % 23 ≠ 1 := by
  obtain ⟨-, hiff, hprime⟩ := generator_order_exact ofParams_squares23
  have horder := hprime (by decide)
  exact ⟨ofParams_squares23, horder, hiff.mp horder⟩

/-- With all 22 units in place of the 11 squares, 4 passes for a generator of order 22. -/
def units23 : SchnorrGroup := ⟨23, 22, 4, "Schnorr-5"⟩

theorem order_not_least :
    ofParams 23 22 4 = .ok units23 ∧ units23.group.order = 22 ∧
      units23.group.power 11 = units23.group.identity ∧
      ¬units23.group.HasOrder units23.group.generator units23.group.order := by
  have hpower : units23.group.power 11 = units23.group.identity := by decide +kernel
  exact ⟨by decide +kernel, rfl, hpower, fun h => h.2 11 (by decide) (by decide) hpower⟩

end SchnorrGroup

end AnonCred

import AnonCred.Proofs.Group.Element

/-!
# Groups of residues

The families of groups modulo a number make their modulus in different ways and complain about
different things, but their members are the same: the residues whose power to the order is one.
That is enough for the laws of a group. A member is then a unit, whatever the modulus, and a power
of it is its inverse.

* `OfResidues.lawful` — the laws, from the shape of the members alone
-/

namespace AnonCred.CyclicGroup

/-- The operations are those of residues modulo `n`, and the members are the residues whose power
to the order is one. -/
structure OfResidues (G : CyclicGroup Nat) (n : Nat) : Prop where
  one_lt : 1 < n
  order_pos : 0 < G.order
  identity_eq : G.identity = 1
  compose_eq : ∀ x y, G.compose x y = x * y % n
  exp_eq : ∀ x k, G.exp x k = x ^ k % n
  member_iff : ∀ {x}, G.Member x ↔ 0 < x ∧ x < n ∧ x ^ G.order % n = 1
  member_generator : G.Member G.generator

theorem pos_of_pow_mod {x k n : Nat} (hk : 0 < k) (h : x ^ k % n = 1) : 0 < x := by
  refine Nat.pos_of_ne_zero ?_
  rintro rfl
  rw [Nat.zero_pow hk, Nat.zero_mod] at h
  cases h

namespace OfResidues

variable {G : CyclicGroup Nat} {n : Nat} (h : OfResidues G n)

include h

/-- A number whose power to the order is one is a member, up to its reduction. -/
theorem member_mod {x : Nat} (hx : x ^ G.order % n = 1) : G.Member (x % n) := by
  rw [Nat.pow_mod] at hx
  have hlt := Nat.mod_lt x (Nat.zero_lt_of_lt h.one_lt)
  exact h.member_iff.mpr ⟨pos_of_pow_mod h.order_pos hx, hlt, hx⟩

theorem exp_eq_iff {x y k : Nat} (hy : y < n) : G.exp x k = y ↔ x ^ k ≡ y [MOD n] := by
  rw [h.exp_eq, Nat.ModEq, Nat.mod_eq_of_lt hy]

theorem lawful : G.Lawful where
  order_pos := h.order_pos
  member_identity := by
    rw [h.identity_eq, h.member_iff]
    exact ⟨Nat.one_pos, h.one_lt, by rw [one_pow, Nat.mod_eq_of_lt h.one_lt]⟩
  member_generator := h.member_generator
  member_compose := by
    intro x y hx hy
    rw [h.compose_eq]
    refine h.member_mod ?_
    rw [mul_pow, Nat.mul_mod, (h.member_iff.mp hx).2.2, (h.member_iff.mp hy).2.2]
    exact Nat.mod_eq_of_lt h.one_lt
  compose_comm x y := by rw [h.compose_eq, h.compose_eq, Nat.mul_comm]
  compose_assoc x y z := by
    simp only [h.compose_eq]
    rw [Nat.mod_mul_mod, Nat.mul_mod_mod, Nat.mul_assoc]
  identity_compose := by
    intro x hx
    rw [h.compose_eq, h.identity_eq, one_mul, Nat.mod_eq_of_lt (h.member_iff.mp hx).2.1]
  exp_zero x := by
    rw [h.exp_eq, h.identity_eq, pow_zero, Nat.mod_eq_of_lt h.one_lt]
  exp_succ x k := by rw [h.exp_eq, h.exp_eq, h.compose_eq, pow_succ, Nat.mod_mul_mod]
  exp_order := by
    intro x hx
    rw [h.exp_eq, h.identity_eq]
    exact (h.member_iff.mp hx).2.2

end OfResidues

end AnonCred.CyclicGroup

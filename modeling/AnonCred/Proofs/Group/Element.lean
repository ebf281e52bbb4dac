import Mathlib.GroupTheory.OrderOfElement
import AnonCred.Group

/-!
# The elements of a group

`validate` says which values belong to a group. Where the operations keep the laws of a group on
those values (`Lawful`), the values form a commutative group `Element G`. An equation between
values that passed `validate` is proved there, with the laws of a group at hand, and read back by
the `coe` lemmas.

* `Element.coe_mul`, `Element.coe_pow`, `Element.coe_one` — the operations are those of `G`
* `exp_compose` — powers of products, also of values that did not pass `validate`
* `Element.pow_congr` — exponents count modulo the order
* `Element.pow_eq_pow_iff` — where the order is prime, they count for nothing else
-/

namespace AnonCred.CyclicGroup

variable {E : Type} (G : CyclicGroup E)

/-- The values that belong to the group. -/
def Member (x : E) : Prop := G.validate x = .ok ()

instance (x : E) : Decidable (G.Member x) := by
  unfold Member; infer_instance

/-- The laws of a cyclic group whose members all have an order that divides `order`.
Composition is commutative and associative on all values; an identity it has on members only. -/
class Lawful : Prop where
  order_pos : 0 < G.order
  member_identity : G.Member G.identity
  member_generator : G.Member G.generator
  member_compose : ∀ {x y : E}, G.Member x → G.Member y → G.Member (G.compose x y)
  compose_comm : ∀ x y : E, G.compose x y = G.compose y x
  compose_assoc : ∀ x y z : E, G.compose (G.compose x y) z = G.compose x (G.compose y z)
  identity_compose : ∀ {x : E}, G.Member x → G.compose G.identity x = x
  exp_zero : ∀ x : E, G.exp x 0 = G.identity
  exp_succ : ∀ (x : E) (k : Nat), G.exp x (k + 1) = G.compose (G.exp x k) x
  exp_order : ∀ {x : E}, G.Member x → G.exp x G.order = G.identity

export Lawful (order_pos member_identity member_generator member_compose)

/-- The power to `n` is the identity, and no smaller one is. -/
def HasOrder (x : E) (n : Nat) : Prop :=
  G.exp x n = G.identity ∧ ∀ k < n, 0 < k → G.exp x k ≠ G.identity

instance [DecidableEq E] (x : E) (n : Nat) : Decidable (G.HasOrder x n) := by
  unfold HasOrder; infer_instance

/-! ## Powers of arbitrary values -/

section Powers

variable [Lawful G]

theorem member_exp {x : E} (hx : G.Member x) (k : Nat) : G.Member (G.exp x k) := by
  induction k with
  | zero =>
    rw [Lawful.exp_zero]
    exact member_identity
  | succ k ih =>
    rw [Lawful.exp_succ]
    exact member_compose ih hx

theorem member_power (k : Nat) : G.Member (G.power k) := G.member_exp member_generator k

theorem compose_compose_comm (u v x y : E) :
    G.compose (G.compose u v) (G.compose x y) = G.compose (G.compose u x) (G.compose v y) := by
  rw [Lawful.compose_assoc, Lawful.compose_assoc, ← Lawful.compose_assoc v x y,
    Lawful.compose_comm v x, Lawful.compose_assoc x v y]

/-- The power of a product is the product of the powers. Neither factor has to be a member. -/
theorem exp_compose (x y : E) (k : Nat) :
    G.exp (G.compose x y) k = G.compose (G.exp x k) (G.exp y k) := by
  induction k with
  | zero =>
    simp only [Lawful.exp_zero]
    exact (Lawful.identity_compose member_identity).symm
  | succ k ih =>
    rw [Lawful.exp_succ, Lawful.exp_succ, Lawful.exp_succ, ih, compose_compose_comm]

end Powers

/-! ## The group of members -/

/-- A value together with the fact that it is a member. -/
def Element : Type := { x : E // G.Member x }

namespace Element

variable {G}

instance : CoeOut G.Element E := ⟨Subtype.val⟩

theorem member (x : G.Element) : G.Member (x : E) := x.2

/-- A value that is known to be a member. -/
def ofMember {x : E} (hx : G.Member x) : G.Element := ⟨x, hx⟩

theorem ext {x y : G.Element} (h : (x : E) = y) : x = y := Subtype.ext h

theorem coe_inj {x y : G.Element} : (x : E) = y ↔ x = y := Subtype.ext_iff.symm

variable [Lawful G]

private theorem exp_inverse {x : E} (hx : G.Member x) :
    G.compose (G.exp x (G.order - 1)) x = G.identity := by
  rw [← Lawful.exp_succ, Nat.sub_add_cancel order_pos, Lawful.exp_order hx]

instance : CommGroup G.Element where
  mul x y := ⟨G.compose x y, member_compose x.member y.member⟩
  one := ⟨G.identity, member_identity⟩
  inv x := ⟨G.exp x (G.order - 1), G.member_exp x.member _⟩
  npow k x := ⟨G.exp x k, G.member_exp x.member k⟩
  mul_assoc x y z := ext (Lawful.compose_assoc (x : E) y z)
  one_mul x := ext (Lawful.identity_compose x.member)
  mul_one x := ext ((Lawful.compose_comm _ _).trans (Lawful.identity_compose x.member))
  inv_mul_cancel x := ext (exp_inverse x.member)
  mul_comm x y := ext (Lawful.compose_comm (x : E) y)
  npow_zero x := ext (Lawful.exp_zero (x : E))
  npow_succ k x := ext (Lawful.exp_succ (x : E) k)

@[simp, norm_cast] theorem coe_mul (x y : G.Element) : ((x * y : G.Element) : E) = G.compose x y :=
  rfl

@[simp, norm_cast] theorem coe_one : ((1 : G.Element) : E) = G.identity := rfl

@[simp, norm_cast] theorem coe_pow (x : G.Element) (k : Nat) :
    ((x ^ k : G.Element) : E) = G.exp x k := rfl

theorem coe_eq_identity {x : G.Element} : (x : E) = G.identity ↔ x = 1 := by
  rw [← coe_one, coe_inj]

/-- The generator as a member. -/
def gen : G.Element := ⟨G.generator, member_generator⟩

/-- The equation of a proof about members is an equation of the group of members. -/
theorem responds_iff (base value x : G.Element) (e z : Nat) :
    G.Responds (base : E) value x e z ↔ base ^ z = x * value ^ e := by
  unfold Responds
  norm_cast
  exact coe_inj

/-! ## Exponents -/

theorem pow_order (x : G.Element) : x ^ G.order = 1 := ext (Lawful.exp_order x.member)

/-- Exponents count modulo the order. -/
theorem pow_congr (x : G.Element) {m n : Nat} (h : m ≡ n [MOD G.order]) : x ^ m = x ^ n :=
  pow_eq_pow_iff_modEq.mpr (h.of_dvd (orderOf_dvd_of_pow_eq_one x.pow_order))

theorem pow_mod (x : G.Element) (k : Nat) : x ^ (k % G.order) = x ^ k :=
  x.pow_congr (Nat.mod_modEq k _)

theorem orderOf_of_hasOrder {x : G.Element} (h : G.HasOrder (x : E) G.order) :
    orderOf x = G.order := by
  rw [orderOf_eq_iff order_pos]
  refine ⟨x.pow_order, fun k hlt hpos hpow => h.2 k hlt hpos ?_⟩
  exact coe_eq_identity.mpr hpow

/-- A challenge counts modulo the order. -/
theorem responds_of_mod {base value x : E} {e k z : Nat} (he : e % G.order = k)
    (hvalue : G.Member value) (h : G.Responds base value x k z) : G.Responds base value x e z := by
  have hreduced : G.exp value (e % G.order) = G.exp value e :=
    congrArg Subtype.val (pow_mod ⟨value, hvalue⟩ e)
  unfold Responds at h ⊢
  rw [h, ← he, hreduced]

section Prime

variable (hq : G.order.Prime)

include hq

theorem orderOf_eq {x : G.Element} (hx : x ≠ 1) : orderOf x = G.order := by
  have := Fact.mk hq
  exact orderOf_eq_prime x.pow_order hx

/-- Powers of a member other than the identity agree exactly where the exponents do, modulo a
prime order. -/
theorem pow_eq_pow_iff {x : G.Element} (hx : x ≠ 1) {m n : Nat} :
    x ^ m = x ^ n ↔ m ≡ n [MOD G.order] := by
  rw [pow_eq_pow_iff_modEq, orderOf_eq hq hx]

theorem pow_eq_one_iff {x : G.Element} (hx : x ≠ 1) {k : Nat} : x ^ k = 1 ↔ G.order ∣ k := by
  rw [← orderOf_eq hq hx, orderOf_dvd_iff_pow_eq_one]

theorem pow_ne_one {x : G.Element} (hx : x ≠ 1) {k : Nat} (hpos : 0 < k) (hlt : k < G.order) :
    x ^ k ≠ 1 := by
  rw [Ne, pow_eq_one_iff hq hx]
  exact Nat.not_dvd_of_pos_of_lt hpos hlt

theorem exp_ne_identity {x : E} (hx : G.Member x) (hne : x ≠ G.identity) {k : Nat} (hpos : 0 < k)
    (hlt : k < G.order) : G.exp x k ≠ G.identity := by
  obtain ⟨u, rfl⟩ : ∃ u : G.Element, (u : E) = x := ⟨⟨x, hx⟩, rfl⟩
  have hpow := pow_ne_one hq (fun h => hne (coe_eq_identity.mpr h)) hpos hlt
  exact fun h => hpow (coe_eq_identity.mp h)

/-- Two powers of one member: unless the first is the identity, the second is a power of it. -/
theorem exists_pow_pow_eq {x : G.Element} {m : Nat} (hx : x ^ m ≠ 1) (n : Nat) :
    ∃ k < G.order, (x ^ m) ^ k = x ^ n := by
  have hcoprime : Nat.Coprime m G.order := by
    refine ((hq.coprime_iff_not_dvd).mpr fun hdvd => hx ?_).symm
    rw [x.pow_congr ((Nat.modEq_zero_iff_dvd).mpr hdvd), pow_zero]
  obtain ⟨k, hlt, hk⟩ := Nat.exists_mul_mod_eq_of_coprime n hcoprime hq.ne_zero
  exact ⟨k, hlt, by rw [← pow_mul]; exact x.pow_congr hk⟩

end Prime

end Element

end AnonCred.CyclicGroup

import Mathlib.Data.ZMod.Units
import AnonCred.Proofs.Group.Element

/-!
# The exponent that two answers give away

A commitment to which two challenges are answered gives away an exponent: where the difference of
the challenges is prime to the order, the quotient of the differences takes the base to the value.
Nobody has to be honest for that, and neither the order has to be prime nor the base to generate
anything.

* `extracted` — the quotient
* `Element.eq_of_zpow_eq` — a power prime to the order tells its members apart
* `Element.pow_extracted`, `exp_extracted` — it takes the base to the value
-/

namespace AnonCred.CyclicGroup

variable {order e e' z z' : Nat}

/-- The exponent that the answers `z` and `z'` to the challenges `e` and `e'` give away. -/
def extracted (order e e' z z' : Nat) : Nat :=
  (((z : ZMod order) - z') * ((e : ZMod order) - e')⁻¹).val

theorem extracted_lt (hpos : 0 < order) : extracted order e e' z z' < order :=
  have : NeZero order := ⟨hpos.ne'⟩
  ZMod.val_lt _

/-- The quotient is one: times the difference of the challenges it is that of the answers. -/
theorem extracted_modEq (hpos : 0 < order)
    (hcoprime : ((e : ℤ) - e').natAbs.Coprime order) :
    (extracted order e e' z z' : ℤ) * ((e : ℤ) - e') ≡ (z : ℤ) - z' [ZMOD order] := by
  have : NeZero order := ⟨hpos.ne'⟩
  have hunit : IsUnit ((e : ZMod order) - e') := by
    have hint := (ZMod.coe_int_isUnit_iff_isCoprime ((e : ℤ) - e') order).mpr
      (Int.isCoprime_iff_gcd_eq_one.mpr (by rwa [Int.gcd_comm]))
    push_cast at hint
    exact hint
  rw [← ZMod.intCast_eq_intCast_iff]
  push_cast
  rw [extracted, ZMod.natCast_zmod_val, mul_assoc, ZMod.inv_mul_of_unit _ hunit, mul_one]

/-- Different challenges below a prime order are as good as any. -/
theorem coprime_sub_of_prime (hq : order.Prime) (he : e < order) (he' : e' < order)
    (hne : e ≠ e') : ((e : ℤ) - e').natAbs.Coprime order := by
  refine ((hq.coprime_iff_not_dvd).mpr (Nat.not_dvd_of_pos_of_lt ?_ ?_)).symm
  · omega
  · omega

namespace Element

variable {E : Type} {G : CyclicGroup E} [G.Lawful]

/-- The two equations divided by each other: the commitment is gone. -/
theorem zpow_sub_of_responds {u v x : G.Element} (h : u ^ z = x * v ^ e)
    (h' : u ^ z' = x * v ^ e') : u ^ ((z : ℤ) - z') = v ^ ((e : ℤ) - e') := by
  rw [zpow_sub, zpow_sub, zpow_natCast, zpow_natCast, zpow_natCast, zpow_natCast, h, h',
    ← div_eq_mul_inv, ← div_eq_mul_inv, mul_div_mul_left_eq_div]

/-- Powers are injective where the exponent is prime to the order: the quotient of two members with
the same power is killed by two exponents without a common divisor. -/
theorem eq_of_zpow_eq {u v : G.Element} {k : ℤ} (hcoprime : k.natAbs.Coprime G.order)
    (h : u ^ k = v ^ k) : u = v := by
  have hquotient : (u / v) ^ k = 1 := by rw [div_zpow, h, div_self']
  have hone := pow_gcd_eq_one.mpr ⟨pow_natAbs_eq_one.mpr hquotient, pow_order _⟩
  rw [hcoprime.gcd_eq_one, pow_one] at hone
  exact div_eq_one.mp hone

theorem pow_extracted {u v x : G.Element} (h : u ^ z = x * v ^ e) (h' : u ^ z' = x * v ^ e')
    (hcoprime : ((e : ℤ) - e').natAbs.Coprime G.order) :
    u ^ extracted G.order e e' z z' = v := by
  have hmod : (extracted G.order e e' z z' : ℤ) * ((e : ℤ) - e') ≡ (z : ℤ) - z' [ZMOD G.order] :=
    extracted_modEq order_pos hcoprime
  have hpower : (u ^ extracted G.order e e' z z') ^ ((e : ℤ) - e') = v ^ ((e : ℤ) - e') := by
    rw [← zpow_sub_of_responds h h', ← zpow_natCast, ← zpow_mul, zpow_eq_zpow_iff_modEq]
    exact hmod.of_dvd (Int.natCast_dvd_natCast.mpr (orderOf_dvd_of_pow_eq_one u.pow_order))
  exact eq_of_zpow_eq hcoprime hpower

end Element

/-- Two answers to one commitment, all about members, give away the exponent of the value. -/
theorem exp_extracted {E : Type} {G : CyclicGroup E} [G.Lawful] {base value x : E}
    (hbase : G.Member base) (hvalue : G.Member value) (hx : G.Member x)
    (h : G.Responds base value x e z) (h' : G.Responds base value x e' z')
    (hcoprime : ((e : ℤ) - e').natAbs.Coprime G.order) :
    G.exp base (extracted G.order e e' z z') = value := by
  have heq := (Element.responds_iff (.ofMember hbase) (.ofMember hvalue) (.ofMember hx) e z).mp h
  have heq' :=
    (Element.responds_iff (.ofMember hbase) (.ofMember hvalue) (.ofMember hx) e' z').mp h'
  exact congrArg Subtype.val (Element.pow_extracted heq heq' hcoprime)

end AnonCred.CyclicGroup

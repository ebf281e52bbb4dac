import Mathlib.Data.Nat.Squarefree
import Mathlib.Data.ZMod.Units
import Mathlib.GroupTheory.Index
import Mathlib.GroupTheory.Perm.Cycle.Type
import Mathlib.RingTheory.ZMod.UnitsCyclic

/-!
# Units with a power that is one or minus one

The units modulo `n` whose `m`-th power is `1` or `-1` are a group, `signRoots n m`. Where `-1` is
such a power and `2 * m` divides `n - 1`, this group is small for a composite `n`: its index is at
least four.

* If the square of a prime `p` divides `n`, then `p` divides the number of units. An element of
  order `p` cannot have a power to `n - 1` that is one, so all of `p` goes into the index.
* Otherwise `n` is a product `a * b` of coprime factors. A root of `-1` modulo `a` that is `1`
  modulo `b` is not in the group, but it is in the group of units that satisfy a weaker condition
  modulo `a` only. It is enough to find such a condition that some unit modulo `a` does not meet,
  since each of the two steps of a chain of groups contributes a factor of two.
  * If `a` is a product of two coprime factors, being in `signRoots a m` is such a condition.
  * If `a` and `b` are primes and `a` is the greater one, it is to have the power to `n - 1` one:
    a primitive root modulo `a` does not, as `a - 1` does not divide `a * b - 1`.

* `four_le_index` — the index of the group
-/

namespace AnonCred.Prime

open ZMod (unitsMap)

variable {n m a b p : Nat}

/-! ## The group -/

/-- The units whose `m`-th power is `1` or `-1`. -/
def signRoots (n m : Nat) : Subgroup (ZMod n)ˣ where
  carrier := {u | u ^ m = 1 ∨ u ^ m = -1}
  one_mem' := .inl (one_pow m)
  mul_mem' := by
    rintro u v (hu | hu) (hv | hv) <;> simp [mul_pow, hu, hv]
  inv_mem' := by
    rintro u (hu | hu) <;> simp [hu]

theorem mem_signRoots {u : (ZMod n)ˣ} : u ∈ signRoots n m ↔ u ^ m = 1 ∨ u ^ m = -1 := Iff.rfl

theorem pow_eq_one_of_mem {u : (ZMod n)ˣ} {k : Nat} (hu : u ∈ signRoots n m) (hk : 2 * m ∣ k) :
    u ^ k = 1 := by
  obtain ⟨j, rfl⟩ := hk
  have hsquare : u ^ (2 * m) = 1 := by
    rw [mul_comm, pow_mul]
    rcases hu with hu | hu <;> simp [hu]
  rw [pow_mul, hsquare, one_pow]

theorem unitsMap_neg_one (h : a ∣ n) : unitsMap h (-1) = -1 := by
  ext
  simp [ZMod.unitsMap_def]

theorem neg_one_ne_one_units (hn : 2 < n) : (-1 : (ZMod n)ˣ) ≠ 1 := by
  have := Fact.mk hn
  intro h
  exact ZMod.neg_one_ne_one (congrArg Units.val h)

/-- Signs are kept modulo a divisor. -/
theorem signRoots_le_comap (h : a ∣ n) : signRoots n m ≤ (signRoots a m).comap (unitsMap h) := by
  rintro u (hu | hu)
  · exact .inl (by rw [← map_pow, hu, map_one])
  · exact .inr (by rw [← map_pow, hu, unitsMap_neg_one])

/-! ## Coprime factors -/

/-- A unit is given by what it is modulo two coprime factors. -/
theorem exists_unit (hab : a.Coprime b) (x : (ZMod a)ˣ) (y : (ZMod b)ˣ) :
    ∃ u : (ZMod (a * b))ˣ,
      unitsMap (dvd_mul_right a b) u = x ∧ unitsMap (dvd_mul_left b a) u = y := by
  have hfst (z : ZMod (a * b)) : (ZMod.chineseRemainder hab z).1 = z.cast := Prod.fst_zmod_cast z
  have hsnd (z : ZMod (a * b)) : (ZMod.chineseRemainder hab z).2 = z.cast := Prod.snd_zmod_cast z
  let parts := (Units.mapEquiv (ZMod.chineseRemainder hab).toMulEquiv).trans MulEquiv.prodUnits
  obtain ⟨u, hu⟩ := parts.surjective (x, y)
  refine ⟨u, ?_, ?_⟩
  · ext
    rw [ZMod.unitsMap_val, ← hfst]
    exact congrArg (fun z => (z.1 : ZMod a)) hu
  · ext
    rw [ZMod.unitsMap_val, ← hsnd]
    exact congrArg (fun z => (z.2 : ZMod b)) hu

section Split

variable (hab : a.Coprime b) (ha : 2 < a) (hb : 2 < b) {x : (ZMod (a * b))ˣ} (hx : x ^ m = -1)

include hab ha hb hx

/-- A root of minus one modulo one factor only has no sign. -/
theorem exists_not_mem_signRoots : ∃ u : (ZMod (a * b))ˣ,
    unitsMap (dvd_mul_right a b) u = unitsMap (dvd_mul_right a b) x ∧ u ∉ signRoots (a * b) m := by
  obtain ⟨u, hfirst, hsecond⟩ := exists_unit hab (unitsMap (dvd_mul_right a b) x) 1
  refine ⟨u, hfirst, ?_⟩
  have hminus : unitsMap (dvd_mul_right a b) u ^ m = -1 := by
    rw [hfirst, ← map_pow, hx, unitsMap_neg_one]
  have hone : unitsMap (dvd_mul_left b a) u ^ m = 1 := by rw [hsecond, one_pow]
  rintro (hu | hu)
  · rw [← map_pow, hu, map_one] at hminus
    exact neg_one_ne_one_units ha hminus.symm
  · rw [← map_pow, hu, unitsMap_neg_one] at hone
    exact neg_one_ne_one_units hb hone

/-- A condition modulo one factor that a root of minus one meets and some unit does not stands
between the group and all units. -/
theorem four_le_index_of_le {K : Subgroup (ZMod a)ˣ} (hK : K ≠ ⊤)
    (hle : signRoots (a * b) m ≤ K.comap (unitsMap (dvd_mul_right a b)))
    (hmem : unitsMap (dvd_mul_right a b) x ∈ K) : 4 ≤ (signRoots (a * b) m).index := by
  have : NeZero (a * b) := ⟨Nat.mul_ne_zero (by omega) (by omega)⟩
  have hsurjective := ZMod.unitsMap_surjective (dvd_mul_right a b)
  obtain ⟨u, hu, hnot⟩ := exists_not_mem_signRoots hab ha hb hx
  have hupper : 1 < (K.comap (unitsMap (dvd_mul_right a b))).index := by
    rw [Subgroup.index_comap_of_surjective K hsurjective]
    have : NeZero a := ⟨by omega⟩
    exact Subgroup.one_lt_index_of_ne_top hK
  have hlower : 1 < (signRoots (a * b) m).relIndex (K.comap (unitsMap (dvd_mul_right a b))) := by
    refine Subgroup.one_lt_index_of_ne_top fun htop => hnot ?_
    refine Subgroup.relIndex_eq_one.mp (Subgroup.index_eq_one.mpr htop) ?_
    rw [Subgroup.mem_comap, hu]
    exact hmem
  calc 4 = 2 * 2 := rfl
    _ ≤ _ * _ := Nat.mul_le_mul hlower hupper
    _ = (signRoots (a * b) m).index := Subgroup.relIndex_mul_index hle

/-- One factor is a product of coprime factors itself. -/
theorem four_le_index_of_three {c d : Nat} (hcd : c.Coprime d) (hc : 2 < c) (hd : 2 < d)
    (hsplit : a = c * d) : 4 ≤ (signRoots (a * b) m).index := by
  subst hsplit
  have hroot : unitsMap (dvd_mul_right (c * d) b) x ^ m = -1 := by
    rw [← map_pow, hx, unitsMap_neg_one]
  obtain ⟨u, -, hnot⟩ := exists_not_mem_signRoots hcd hc hd hroot
  refine four_le_index_of_le hab ha hb hx ?_ (signRoots_le_comap _) (.inr hroot)
  exact fun htop => hnot (htop ▸ Subgroup.mem_top u)

end Split

/-- A prime minus one does not divide the predecessor of its product with a smaller prime. -/
theorem not_dvd_pred_mul (hb : 1 < b) (hlt : b < a) : ¬(a - 1) ∣ a * b - 1 := by
  have hsplit : a * b - 1 = b * (a - 1) + (b - 1) := by
    obtain ⟨a, rfl⟩ := Nat.exists_eq_succ_of_ne_zero (by omega : a ≠ 0)
    obtain ⟨b, rfl⟩ := Nat.exists_eq_succ_of_ne_zero (by omega : b ≠ 0)
    simp only [Nat.succ_eq_add_one, Nat.add_sub_cancel]
    ring_nf
    omega
  rw [hsplit, ← Nat.dvd_add_iff_right (dvd_mul_left _ _)]
  exact Nat.not_dvd_of_pos_of_lt (by omega) (by omega)

/-- The factors are two primes. -/
theorem four_le_index_of_primes (ha : a.Prime) (hb : b.Prime) (htwo : 2 < b) (hlt : b < a)
    {x : (ZMod (a * b))ˣ} (hx : x ^ m = -1) (hm : 2 * m ∣ a * b - 1) :
    4 ≤ (signRoots (a * b) m).index := by
  have hab : a.Coprime b := (Nat.coprime_primes ha hb).mpr hlt.ne'
  refine four_le_index_of_le (K := (powMonoidHom (a * b - 1)).ker) hab (by omega) htwo hx ?_ ?_ ?_
  · intro htop
    have hall (u : (ZMod a)ˣ) : u ^ (a * b - 1) = 1 :=
      MonoidHom.mem_ker.mp (htop ▸ Subgroup.mem_top u)
    have := ZMod.isCyclic_units_prime ha
    have := Fact.mk ha
    have hexponent := Monoid.exponent_dvd_iff_forall_pow_eq_one.mpr hall
    rw [IsCyclic.exponent_eq_card, Nat.card_eq_fintype_card, ZMod.card_units] at hexponent
    exact not_dvd_pred_mul hb.one_lt hlt hexponent
  · intro u hu
    rw [Subgroup.mem_comap, MonoidHom.mem_ker, powMonoidHom_apply, ← map_pow,
      pow_eq_one_of_mem hu hm, map_one]
  · rw [MonoidHom.mem_ker, powMonoidHom_apply, ← map_pow, pow_eq_one_of_mem (.inr hx) hm, map_one]

/-! ## A square factor -/

/-- The square of a prime divides `n`. -/
theorem four_le_index_of_sq (hn : 1 < n) (hp : p.Prime) (hfour : 4 ≤ p) (hsq : p ^ 2 ∣ n)
    (hm : 2 * m ∣ n - 1) : 4 ≤ (signRoots n m).index := by
  have := Fact.mk hp
  have : NeZero n := ⟨by omega⟩
  have hunits : p ∣ Nat.card (ZMod n)ˣ := by
    rw [Nat.card_eq_fintype_card, ZMod.card_units_eq_totient]
    refine dvd_trans ?_ (Nat.totient_dvd_of_dvd hsq)
    rw [Nat.totient_prime_pow_succ hp, pow_one]
    exact dvd_mul_right _ _
  have hgroup : ¬p ∣ Nat.card (signRoots n m) := by
    intro hdvd
    obtain ⟨u, hu⟩ := exists_prime_orderOf_dvd_card' p hdvd
    have hpow : u ^ (n - 1) = 1 := Subtype.ext (pow_eq_one_of_mem u.2 hm)
    have hpred : p ∣ n - 1 := hu ▸ orderOf_dvd_of_pow_eq_one hpow
    have hmul : p ∣ n := (dvd_pow_self p two_ne_zero).trans hsq
    have hone : p ∣ 1 := by
      rw [show 1 = n - (n - 1) by omega]
      exact Nat.dvd_sub hmul hpred
    exact hp.one_lt.ne' (Nat.dvd_one.mp hone)
  rw [← Subgroup.card_mul_index (signRoots n m), hp.dvd_mul] at hunits
  have hpos : 0 < (signRoots n m).index := Nat.pos_of_ne_zero Subgroup.index_ne_zero_of_finite
  exact hfour.trans (Nat.le_of_dvd hpos (hunits.resolve_left hgroup))

/-! ## Composite numbers -/

/-- A composite number is its smallest prime factor times another factor. -/
theorem exists_minFac_mul (hn : 1 < n) (hcomposite : ¬n.Prime) :
    ∃ k, n = n.minFac * k ∧ 1 < k := by
  obtain ⟨k, hk⟩ := Nat.minFac_dvd n
  refine ⟨k, hk, ?_⟩
  by_contra hle
  interval_cases k
  · omega
  · rw [mul_one] at hk
    exact hcomposite (Nat.prime_def_minFac.mpr ⟨hn, hk.symm⟩)

/-- A composite number without a square factor is the product of two primes or of three coprime
factors. -/
theorem exists_factors (hn : 1 < n) (hcomposite : ¬n.Prime) (hsq : Squarefree n) :
    (∃ a b, n = a * b ∧ a.Prime ∧ b.Prime ∧ b < a) ∨
      ∃ c d b, n = c * d * b ∧ c.Coprime d ∧ (c * d).Coprime b ∧ c ≠ 1 ∧ d ≠ 1 ∧ b ≠ 1 := by
  obtain ⟨k, hk, hone⟩ := exists_minFac_mul hn hcomposite
  have hprime : n.minFac.Prime := Nat.minFac_prime hn.ne'
  by_cases hkprime : k.Prime
  · refine .inl ⟨k, n.minFac, hk.trans (mul_comm _ _), hkprime, hprime, ?_⟩
    refine (Nat.minFac_le_of_dvd hone (hk ▸ dvd_mul_left k n.minFac)).lt_of_ne fun hsame => ?_
    rw [hsame] at hk
    exact hkprime.one_lt.ne' (Nat.isUnit_iff.mp (hsq k (Dvd.intro 1 (by rw [mul_one, ← hk]))))
  · obtain ⟨l, hl, hlone⟩ := exists_minFac_mul hone hkprime
    have hsplit : n = n.minFac * k.minFac * l := by rw [mul_assoc, ← hl, ← hk]
    have hcoprime : (n.minFac * k.minFac).Coprime l :=
      Nat.coprime_of_squarefree_mul (hsq.squarefree_of_dvd (Dvd.intro 1 (by rw [mul_one, ← hsplit])))
    have hfirst : n.minFac.Coprime k.minFac :=
      Nat.coprime_of_squarefree_mul (hsq.squarefree_of_dvd (Dvd.intro l hsplit.symm))
    exact .inr ⟨n.minFac, k.minFac, l, hsplit, hfirst, hcoprime, hprime.one_lt.ne',
      (Nat.minFac_prime hone.ne').one_lt.ne', hlone.ne'⟩

/-- For a composite number without the factors two and three the index is at least four. -/
theorem four_le_index (hn : 1 < n) (hcomposite : ¬n.Prime)
    (hfour : ∀ p, p.Prime → p ∣ n → 4 ≤ p) {x : (ZMod n)ˣ} (hx : x ^ m = -1)
    (hm : 2 * m ∣ n - 1) : 4 ≤ (signRoots n m).index := by
  have htwo {d : Nat} (hd : d ∣ n) (hone : d ≠ 1) : 2 < d := by
    have hpos := Nat.pos_of_dvd_of_pos hd (by omega)
    have hfactor := hfour d.minFac (Nat.minFac_prime hone) ((Nat.minFac_dvd d).trans hd)
    have hle := Nat.minFac_le hpos
    omega
  by_cases hsq : Squarefree n
  · rcases exists_factors hn hcomposite hsq with
      ⟨a, b, rfl, ha, hb, hlt⟩ | ⟨c, d, b, rfl, hcd, hab, hc, hd, hb⟩
    · exact four_le_index_of_primes ha hb (htwo (dvd_mul_left b a) hb.one_lt.ne') hlt hx hm
    · have hc' := htwo ((dvd_mul_right c d).trans (dvd_mul_right _ b)) hc
      have hd' := htwo ((dvd_mul_left d c).trans (dvd_mul_right _ b)) hd
      have hcd' : 2 < c * d := hc'.trans_le (Nat.le_mul_of_pos_right c (by omega))
      exact four_le_index_of_three hab hcd' (htwo (dvd_mul_left b _) hb) hx hcd hc' hd' rfl
  · rw [Nat.squarefree_iff_prime_squarefree] at hsq
    push Not at hsq
    obtain ⟨p, hp, hdvd⟩ := hsq
    rw [← sq] at hdvd
    exact four_le_index_of_sq hn hp (hfour p hp ((dvd_pow_self p two_ne_zero).trans hdvd)) hdvd hm

end AnonCred.Prime

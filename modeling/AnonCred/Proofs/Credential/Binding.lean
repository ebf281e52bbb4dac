import Mathlib.Algebra.Field.ZMod
import Mathlib.Tactic.FieldSimp
import Mathlib.Tactic.LinearCombination
import AnonCred.Proofs.Credential.Request

/-!
# What the transcripts of a credential bind

A transcript is the hash of two commitments and an answer; the elements that it speaks about are not
hashed with them. Whoever has a valid credential can therefore keep the transcripts, take other
elements for the base and the value, and solve the equations for the tags. In exponents these are
two linear equations in four unknowns, and the secret is fixed by them only where a coefficient
vanishes.

* `Rigid`, `rigid_iff` — when the two equations fix the secret
* `bound_iff` — when all valid credentials with the same transcripts have the same secret
* `secret_not_bound` — a credential for which they do not
-/

namespace AnonCred

open CyclicGroup

/-! ## The equations between exponents -/

section Exponents

variable {F : Type} [Field F] {y1 h1 z1 y2 h2 z2 v a b : F}

/-- The exponents `i`, `j`, `k`, `l` of base, value and tags fit a transcript with commitment `y1`,
hash `h1` and answer `z1`, and another one with `y2`, `h2` and `z2`. -/
structure Fits (y1 h1 z1 y2 h2 z2 i j k l : F) : Prop where
  first : j * z1 = y1 + k * h1
  second : (i + k) * z2 = y2 + l * h2

/-- Whatever fits has the secret `v`. -/
def Rigid (y1 h1 z1 y2 h2 z2 v : F) : Prop :=
  ∀ i j k l, i ≠ 0 → Fits y1 h1 z1 y2 h2 z2 i j k l → j = i * v

theorem rigid_of_hash_eq_zero (hfits : Fits y1 h1 z1 y2 h2 z2 1 v a b) (hh1 : h1 = 0)
    (hz1 : z1 ≠ 0) (hv : v = 0 ∨ ∀ x : F, x = 0 ∨ x = 1) : Rigid y1 h1 z1 y2 h2 z2 v := by
  intro i j k l hi h
  have hj : j = v := by
    refine mul_right_cancel₀ hz1 ?_
    rw [h.first, hfits.first, hh1, mul_zero, mul_zero]
  rcases hv with rfl | hbinary
  · rw [hj, mul_zero]
  · rw [hj, (hbinary i).resolve_left hi, one_mul]

theorem rigid_of_hash_ne_zero (hfits : Fits y1 h1 z1 y2 h2 z2 1 v a b) (hh1 : h1 ≠ 0)
    (hh2 : h2 = 0) (hz2 : z2 ≠ 0)
    (hv : h1 + v * z1 = 0 ∨ z1 ≠ 0 ∧ ∀ x : F, x = 0 ∨ x = 1) : Rigid y1 h1 z1 y2 h2 z2 v := by
  intro i j k l hi h
  have hk : i + k = 1 + a := by
    refine mul_right_cancel₀ hz2 ?_
    rw [h.second, hfits.second, hh2, mul_zero, mul_zero]
  have hmove : (j - v) * z1 = (1 - i) * h1 := by
    linear_combination h.first - hfits.first + h1 * hk
  rcases hv with hsum | ⟨hz1, hbinary⟩
  · have hz1 : z1 ≠ 0 := by
      rintro rfl
      exact hh1 (by linear_combination hsum)
    refine mul_right_cancel₀ hz1 ?_
    linear_combination hmove + (1 - i) * hsum
  · have hone := (hbinary i).resolve_left hi
    refine mul_right_cancel₀ hz1 ?_
    rw [hone] at hmove ⊢
    linear_combination hmove

/-- A shift of the value that the tags can make up for. -/
theorem not_rigid_of_shift (hfits : Fits y1 h1 z1 y2 h2 z2 1 v a b) {d m : F} (hd : d * h1 = z1)
    (hm : d * z2 = m * h2) : ¬Rigid y1 h1 z1 y2 h2 z2 v := by
  intro hrigid
  have hshifted : Fits y1 h1 z1 y2 h2 z2 1 (v + 1) (a + d) (b + m) := by
    constructor
    · linear_combination hfits.first - hd
    · linear_combination hfits.second + hm
  have hsame := hrigid 1 (v + 1) (a + d) (b + m) one_ne_zero hshifted
  exact (one_ne_zero : (1 : F) ≠ 0) (by linear_combination hsame)

/-- Another base, with the same product of base and first tag. -/
theorem Rigid.eq_of_scaled (hrigid : Rigid y1 h1 z1 y2 h2 z2 v)
    (hfits : Fits y1 h1 z1 y2 h2 z2 1 v a b) {i j : F} (hi : i ≠ 0)
    (hj : (j - v) * z1 = (1 - i) * h1) : j = i * v := by
  refine hrigid i j (1 + a - i) b hi ⟨?_, ?_⟩
  · linear_combination hfits.first + hj
  · linear_combination hfits.second

/-- The two equations fix the secret in two cases. In the first one the first tag drops out, so the
value is fixed; in the second one the second tag drops out, so the product of base and first tag is
fixed. -/
theorem rigid_iff (hfits : Fits y1 h1 z1 y2 h2 z2 1 v a b) :
    Rigid y1 h1 z1 y2 h2 z2 v ↔
      (h1 = 0 ∧ z1 ≠ 0 ∧ (v = 0 ∨ ∀ x : F, x = 0 ∨ x = 1)) ∨
      (h1 ≠ 0 ∧ h2 = 0 ∧ z2 ≠ 0 ∧
        (h1 + v * z1 = 0 ∨ z1 ≠ 0 ∧ ∀ x : F, x = 0 ∨ x = 1)) := by
  constructor
  · intro hrigid
    by_cases hh1 : h1 = 0
    · have hz1 : z1 ≠ 0 := fun hz1 =>
        not_rigid_of_shift hfits (d := 0) (m := 0) (by rw [zero_mul, hz1]) (by simp) hrigid
      refine Or.inl ⟨hh1, hz1, ?_⟩
      by_contra hnot
      rw [not_or, not_forall] at hnot
      obtain ⟨hv, x, hx⟩ := hnot
      rw [not_or] at hx
      have hsame := hrigid.eq_of_scaled hfits (j := v) hx.1 (by rw [hh1]; ring)
      exact hx.2 (mul_right_cancel₀ hv (by linear_combination -hsame))
    · have hd : z1 / h1 * h1 = z1 := div_mul_cancel₀ z1 hh1
      have hh2 : h2 = 0 := by
        by_contra hh2
        exact not_rigid_of_shift hfits hd (div_mul_cancel₀ _ hh2).symm hrigid
      have hz2 : z2 ≠ 0 := fun hz2 =>
        not_rigid_of_shift hfits hd (m := 0) (by rw [hz2]; ring) hrigid
      refine Or.inr ⟨hh1, hh2, hz2, ?_⟩
      by_contra hnot
      rw [not_or] at hnot
      obtain ⟨hsum, hnot⟩ := hnot
      have hz1 : z1 ≠ 0 := fun hz1 =>
        not_rigid_of_shift hfits (d := 0) (m := 0) (by rw [zero_mul, hz1]) (by simp) hrigid
      obtain ⟨x, hx⟩ := not_forall.mp fun hbinary => hnot ⟨hz1, hbinary⟩
      rw [not_or] at hx
      have hsame := hrigid.eq_of_scaled hfits (j := v + (1 - x) * h1 / z1) hx.1
        (by field_simp; ring)
      have hscaled : (1 - x) * h1 = (x - 1) * v * z1 := by
        field_simp at hsame
        linear_combination hsame
      refine hsum (mul_left_cancel₀ (sub_ne_zero.mpr (Ne.symm hx.2)) ?_)
      linear_combination hscaled
  · rintro (⟨hh1, hz1, hv⟩ | ⟨hh1, hh2, hz2, hv⟩)
    · exact rigid_of_hash_eq_zero hfits hh1 hz1 hv
    · exact rigid_of_hash_ne_zero hfits hh1 hh2 hz2 hv

end Exponents

theorem zmod_two : ∀ n : ZMod 2, n = 0 ∨ n = 1 := by decide

/-- The only prime field without a third element. -/
theorem eq_two_iff {q : Nat} [Fact q.Prime] : q = 2 ↔ ∀ n : ZMod q, n = 0 ∨ n = 1 := by
  constructor
  · rintro rfl
    exact zmod_two
  · intro hall
    rcases hall (2 : Nat) with hzero | hone
    · rw [ZMod.natCast_eq_zero_iff] at hzero
      exact (Nat.prime_dvd_prime_iff_eq Fact.out Nat.prime_two).mp hzero
    · exact absurd (by linear_combination hone) (one_ne_zero : (1 : ZMod q) ≠ 0)

/-! ## Credentials with given transcripts -/

namespace Credential

variable {E : Type} {G : CyclicGroup E}

/-- Every element of the credential belongs to the group. -/
def Members (G : CyclicGroup E) (c : Credential E) : Prop :=
  ∀ x ∈ [c.base, c.value, c.tagA, c.tagB, c.t1.a, c.t1.b, c.t2.a, c.t2.b], G.Member x

/-- Both credentials have the same secret, or none in range. -/
def SameSecret (G : CyclicGroup E) (c c' : Credential E) : Prop :=
  ∀ w < G.order, c.value = G.exp c.base w ↔ c'.value = G.exp c'.base w

/-- The transcripts of the credential leave no choice of the secret: either the first hash vanishes
and so does the secret, or the second hash vanishes and the first transcript is about its own
commitment; or the group has two elements and one of the answers does not vanish. -/
def Bound (G : CyclicGroup E) (c : Credential E) : Prop :=
  (G.order ∣ c.t1.hash ∧ ¬G.order ∣ c.t1.zAlpha ∧ (c.value = G.identity ∨ G.order = 2)) ∨
  (¬G.order ∣ c.t1.hash ∧ G.order ∣ c.t2.hash ∧ ¬G.order ∣ c.t2.zAlpha ∧
    (G.compose (G.exp c.base c.t1.hash) (G.exp c.value c.t1.zAlpha) = G.identity ∨
      ¬G.order ∣ c.t1.zAlpha ∧ G.order = 2))

theorem exists_elements {c : Credential E} (h : c.Members G) :
    ∃ base value tagA tagB a1 b1 a2 b2 : G.Element, ∃ h1 z1 h2 z2,
      c = ⟨base, value, tagA, tagB, ⟨a1, b1, h1, z1⟩, ⟨a2, b2, h2, z2⟩⟩ := by
  obtain ⟨base, value, tagA, tagB, ⟨a1, b1, h1, z1⟩, ⟨a2, b2, h2, z2⟩⟩ := c
  simp only [Members, List.forall_mem_cons] at h
  obtain ⟨m1, m2, m3, m4, m5, m6, m7, m8, -⟩ := h
  exact ⟨⟨base, m1⟩, ⟨value, m2⟩, ⟨tagA, m3⟩, ⟨tagB, m4⟩, ⟨a1, m5⟩, ⟨b1, m6⟩, ⟨a2, m7⟩, ⟨b2, m8⟩,
    h1, z1, h2, z2, rfl⟩

/-- Next to a valid credential, one with the same transcripts only has to satisfy the two equations
on the bases that it brings along. -/
theorem validFor_iff_of_transcripts {c c' : Credential E} {issuer : IssuerPublicKey E}
    (hvalid : c.ValidFor G issuer) (h1 : c'.t1 = c.t1) (h2 : c'.t2 = c.t2) :
    c'.ValidFor G issuer ↔
      G.Responds c'.value c'.tagA c.t1.b c.t1.hash c.t1.zAlpha ∧
      G.Responds (G.compose c'.base c'.tagA) c'.tagB c.t2.b c.t2.hash c.t2.zAlpha := by
  obtain ⟨⟨hhash1, hgen1, -⟩, hhash2, hgen2, -⟩ := hvalid
  unfold ValidFor Blinding.Transcript.Valid
  rw [h1, h2]
  constructor
  · rintro ⟨⟨-, -, hfirst⟩, -, -, hsecond⟩
    exact ⟨hfirst, hsecond⟩
  · rintro ⟨hfirst, hsecond⟩
    exact ⟨⟨hhash1, hgen1, hfirst⟩, hhash2, hgen2, hsecond⟩

end Credential

/-! ## Exponents of one member -/

section Logarithms

variable {E : Type} {G : CyclicGroup E} [Lawful G] [Fact G.order.Prime] {x : G.Element} (hx : x ≠ 1)

include hx

theorem pow_eq_pow_iff_cast {m n : Nat} :
    x ^ m = x ^ n ↔ (m : ZMod G.order) = (n : ZMod G.order) :=
  (Element.pow_eq_pow_iff Fact.out hx).trans (ZMod.natCast_eq_natCast_iff m n G.order).symm

theorem pow_eq_one_iff_cast {m : Nat} : x ^ m = 1 ↔ (m : ZMod G.order) = 0 := by
  rw [← pow_zero x, pow_eq_pow_iff_cast hx, Nat.cast_zero]

/-- The equation of a proof about powers of one member. -/
theorem responds_pow_iff {m n y e z : Nat} :
    G.Responds ((x ^ m : G.Element) : E) (x ^ n : G.Element) (x ^ y : G.Element) e z ↔
      (m : ZMod G.order) * z = y + n * e := by
  rw [Element.responds_iff, ← pow_mul, ← pow_mul, ← pow_add, pow_eq_pow_iff_cast hx]
  push_cast
  rfl

theorem sameSecret_iff {c c' : Credential E} {v i j : Nat} (hbase : c.base = x)
    (hvalue : c.value = (x ^ v : G.Element)) (hbase' : c'.base = (x ^ i : G.Element))
    (hvalue' : c'.value = (x ^ j : G.Element)) (hi : x ^ i ≠ 1) :
    c.SameSecret G c' ↔ (j : ZMod G.order) = i * v := by
  have hunit : (i : ZMod G.order) ≠ 0 := fun hzero => hi ((pow_eq_one_iff_cast hx).mpr hzero)
  have hleft (w : Nat) : c.value = G.exp c.base w ↔ (v : ZMod G.order) = w := by
    rw [hvalue, hbase, ← Element.coe_pow, Element.coe_inj, pow_eq_pow_iff_cast hx]
  have hright (w : Nat) : c'.value = G.exp c'.base w ↔ (j : ZMod G.order) = i * w := by
    rw [hvalue', hbase', ← Element.coe_pow, Element.coe_inj, ← pow_mul,
      pow_eq_pow_iff_cast hx, Nat.cast_mul]
  unfold Credential.SameSecret
  simp only [hleft, hright]
  constructor
  · intro hall
    have hreduced := (hall (v % G.order) (Nat.mod_lt _ order_pos)).mp (ZMod.natCast_mod v _).symm
    rwa [ZMod.natCast_mod] at hreduced
  · intro hj w _
    rw [hj]
    exact (mul_right_inj' hunit).symm

end Logarithms

/-! ## When the transcripts bind -/

section Bound

variable {E : Type} {G : CyclicGroup E} [Lawful G] [Fact G.order.Prime] {x : G.Element} (hx : x ≠ 1)
  {c : Credential E} {issuer : IssuerPublicKey E} {v a b y1 y2 : Nat}

/-- The exponents of a credential to the base of its own base. -/
structure Logs (x : G.Element) (c : Credential E) (v a b y1 y2 : Nat) : Prop where
  base : c.base = x
  value : c.value = (x ^ v : G.Element)
  tagA : c.tagA = (x ^ a : G.Element)
  tagB : c.tagB = (x ^ b : G.Element)
  b1 : c.t1.b = (x ^ y1 : G.Element)
  b2 : c.t2.b = (x ^ y2 : G.Element)

include hx

/-- A credential with other elements under the same transcripts, by its exponents. -/
theorem validFor_iff_fits (hlogs : Logs x c v a b y1 y2) (hvalid : c.ValidFor G issuer)
    {c' : Credential E} (h1 : c'.t1 = c.t1) (h2 : c'.t2 = c.t2) {i j k l : Nat}
    (hbase : c'.base = (x ^ i : G.Element)) (hvalue : c'.value = (x ^ j : G.Element))
    (htagA : c'.tagA = (x ^ k : G.Element)) (htagB : c'.tagB = (x ^ l : G.Element)) :
    c'.ValidFor G issuer ↔
      Fits (y1 : ZMod G.order) c.t1.hash c.t1.zAlpha y2 c.t2.hash c.t2.zAlpha i j k l := by
  rw [Credential.validFor_iff_of_transcripts hvalid h1 h2, hbase, hvalue, htagA, htagB, hlogs.b1,
    hlogs.b2, ← Element.coe_mul, ← pow_add, responds_pow_iff hx, responds_pow_iff hx,
    Nat.cast_add]
  constructor
  · rintro ⟨hfirst, hsecond⟩
    exact ⟨hfirst, hsecond⟩
  · rintro ⟨hfirst, hsecond⟩
    exact ⟨hfirst, hsecond⟩

/-- All credentials with these transcripts have the same secret exactly where the equations between
the exponents fix it. -/
theorem sameSecret_iff_rigid (hcyclic : ∀ y : G.Element, ∃ k < G.order, x ^ k = y)
    (hlogs : Logs x c v a b y1 y2) (hmembers : c.Members G) (hvalid : c.ValidFor G issuer) :
    (∀ c' : Credential E, c'.Members G → c'.base ≠ G.identity → c'.t1 = c.t1 → c'.t2 = c.t2 →
      c'.ValidFor G issuer → c.SameSecret G c') ↔
      Rigid (y1 : ZMod G.order) c.t1.hash c.t1.zAlpha y2 c.t2.hash c.t2.zAlpha v := by
  constructor
  · intro hall i j k l hi hfits
    -- the elements with these exponents under the transcripts of `c`
    obtain ⟨c', hc'⟩ : ∃ c' : Credential E, c' = ⟨(x ^ i.val : G.Element), (x ^ j.val : G.Element),
      (x ^ k.val : G.Element), (x ^ l.val : G.Element), c.t1, c.t2⟩ := ⟨_, rfl⟩
    have hne : x ^ i.val ≠ 1 := by
      rw [Ne, pow_eq_one_iff_cast hx, ZMod.natCast_zmod_val]
      exact hi
    have hmembers' : c'.Members G := by
      simp only [Credential.Members, List.forall_mem_cons] at hmembers ⊢
      obtain ⟨-, -, -, -, hkept⟩ := hmembers
      rw [hc']
      exact ⟨(x ^ i.val).member, (x ^ j.val).member, (x ^ k.val).member, (x ^ l.val).member, hkept⟩
    have hvalid' : c'.ValidFor G issuer := by
      refine (validFor_iff_fits hx hlogs hvalid (by rw [hc']) (by rw [hc']) (by rw [hc'])
        (by rw [hc']) (by rw [hc']) (by rw [hc'])).mpr ?_
      simpa only [ZMod.natCast_zmod_val] using hfits
    have hsame := hall c' hmembers' (by rw [hc']; exact fun h => hne (Element.coe_eq_identity.mp h))
      (by rw [hc']) (by rw [hc']) hvalid'
    have hj := (sameSecret_iff hx hlogs.base hlogs.value (by rw [hc']) (by rw [hc']) hne).mp hsame
    simpa only [ZMod.natCast_zmod_val] using hj
  · intro hrigid c' hmembers' hbase' h1 h2 hvalid'
    obtain ⟨base, value, tagA, tagB, a1, b1, a2, b2, _, _, _, _, hc'⟩ :=
      Credential.exists_elements hmembers'
    obtain ⟨i, -, rfl⟩ := hcyclic base
    obtain ⟨j, -, rfl⟩ := hcyclic value
    obtain ⟨k, -, rfl⟩ := hcyclic tagA
    obtain ⟨l, -, rfl⟩ := hcyclic tagB
    have hfits := (validFor_iff_fits hx hlogs hvalid h1 h2 (by rw [hc']) (by rw [hc'])
      (by rw [hc']) (by rw [hc'])).mp hvalid'
    have hne : x ^ i ≠ 1 := by
      rw [hc'] at hbase'
      exact fun h => hbase' (Element.coe_eq_identity.mpr h)
    refine (sameSecret_iff hx hlogs.base hlogs.value (by rw [hc']) (by rw [hc']) hne).mpr ?_
    refine hrigid i j k l ?_ hfits
    exact fun hzero => hne ((pow_eq_one_iff_cast hx).mpr hzero)

theorem bound_iff_rigid (hlogs : Logs x c v a b y1 y2) (hvalid : c.ValidFor G issuer) :
    c.Bound G ↔
      Rigid (y1 : ZMod G.order) c.t1.hash c.t1.zAlpha y2 c.t2.hash c.t2.zAlpha v := by
  have hfits : Fits (y1 : ZMod G.order) c.t1.hash c.t1.zAlpha y2 c.t2.hash c.t2.zAlpha
      (1 : Nat) v a b :=
    (validFor_iff_fits hx hlogs hvalid rfl rfl (by rw [hlogs.base, pow_one]) hlogs.value hlogs.tagA
      hlogs.tagB).mp hvalid
  rw [Nat.cast_one] at hfits
  have hvalue : c.value = G.identity ↔ (v : ZMod G.order) = 0 := by
    rw [hlogs.value, Element.coe_eq_identity, pow_eq_one_iff_cast hx]
  have hproduct : G.compose (G.exp c.base c.t1.hash) (G.exp c.value c.t1.zAlpha) = G.identity ↔
      (c.t1.hash : ZMod G.order) + v * c.t1.zAlpha = 0 := by
    rw [hlogs.base, hlogs.value, ← Element.coe_pow, ← Element.coe_pow, ← Element.coe_mul,
      Element.coe_eq_identity, ← pow_mul, ← pow_add, pow_eq_one_iff_cast hx]
    push_cast
    rfl
  rw [rigid_iff hfits]
  unfold Credential.Bound
  rw [eq_two_iff, hvalue, hproduct]
  simp only [← ZMod.natCast_eq_zero_iff]

end Bound

/-- Over a prime modulus and of prime order: the transcripts of a valid credential fix the secret
exactly in the degenerate cases of `Bound`. In all others there are valid credentials with the same
transcripts and another secret. -/
theorem bound_iff {p q g : Nat} {S : SchnorrGroup} (hS : SchnorrGroup.ofParams p q g = .ok S)
    (hp : p.Prime) (hq : q.Prime) {issuer : IssuerPublicKey Nat} {c : Credential Nat}
    (hmembers : c.Members S.group) (hbase : c.base ≠ S.group.identity)
    (hvalid : c.ValidFor S.group issuer) :
    (∀ c' : Credential Nat, c'.Members S.group → c'.base ≠ S.group.identity → c'.t1 = c.t1 →
      c'.t2 = c.t2 → c'.ValidFor S.group issuer → c.SameSecret S.group c') ↔ c.Bound S.group := by
  have := SchnorrGroup.lawful_of_ofParams hS
  rw [← SchnorrGroup.order_of_ofParams hS] at hq
  have := Fact.mk hq
  have hmodulus : S.p.Prime := by
    obtain ⟨-, rfl⟩ := SchnorrGroup.ofParams_eq_ok.mp hS
    exact hp
  obtain ⟨x, value, tagA, tagB, a1, b1, a2, b2, _, _, _, _, hc⟩ :=
    Credential.exists_elements hmembers
  have hx : x ≠ 1 := by
    rw [hc] at hbase
    exact fun h => hbase (Element.coe_eq_identity.mpr h)
  have hcyclic := SchnorrGroup.exists_pow_eq hmodulus hq hx
  obtain ⟨v, -, rfl⟩ := hcyclic value
  obtain ⟨a, -, rfl⟩ := hcyclic tagA
  obtain ⟨b, -, rfl⟩ := hcyclic tagB
  obtain ⟨y1, -, rfl⟩ := hcyclic b1
  obtain ⟨y2, -, rfl⟩ := hcyclic b2
  have hlogs : Logs x c v a b y1 y2 := by
    constructor
    all_goals rw [hc]
  rw [sameSecret_iff_rigid hx hcyclic hlogs hmembers hvalid, bound_iff_rigid hx hlogs hvalid]

/-! ### A credential that is not bound -/

/-- An honest credential over the squares modulo 23, for the secret 5. -/
def honestCredential : Credential Nat where
  base := 4
  value := 12
  tagA := 13
  tagB := 13
  t1 := ⟨12, 18, SchnorrGroup.squares23.group.hashNat [12, 18], 4⟩
  t2 := ⟨12, 2, SchnorrGroup.squares23.group.hashNat [12, 2], 3⟩

/-- Its transcripts with other elements, for the secret 6. -/
def forgedCredential : Credential Nat := { honestCredential with value := 2, tagA := 3, tagB := 16 }

instance (G : CyclicGroup Nat) (c : Credential Nat) : Decidable (c.Members G) := by
  unfold Credential.Members; infer_instance

theorem honest_hash :
    honestCredential.t1.hash % SchnorrGroup.squares23.group.order = 8 ∧
      honestCredential.t2.hash % SchnorrGroup.squares23.group.order = 10 := by
  decide +kernel

theorem honest_not_dvd :
    ¬SchnorrGroup.squares23.group.order ∣ honestCredential.t1.hash ∧
      ¬SchnorrGroup.squares23.group.order ∣ honestCredential.t2.hash := by
  rw [Nat.dvd_iff_mod_eq_zero, Nat.dvd_iff_mod_eq_zero, honest_hash.1, honest_hash.2]
  decide

-- only the residues of the two hashes count in the equations
theorem honest_valid : honestCredential.ValidFor SchnorrGroup.squares23.group ⟨16, 3⟩ := by
  have := SchnorrGroup.lawful_of_ofParams SchnorrGroup.ofParams_squares23
  refine ⟨⟨?_, ?_, ?_⟩, ?_, ?_, ?_⟩
  · simp only [honestCredential]
  · exact Element.responds_of_mod honest_hash.1 (by decide +kernel) (by decide +kernel)
  · exact Element.responds_of_mod honest_hash.1 (by decide +kernel) (by decide +kernel)
  · simp only [honestCredential]
  · exact Element.responds_of_mod honest_hash.2 (by decide +kernel) (by decide +kernel)
  · exact Element.responds_of_mod honest_hash.2 (by decide +kernel) (by decide +kernel)

theorem forged_valid : forgedCredential.ValidFor SchnorrGroup.squares23.group ⟨16, 3⟩ := by
  have := SchnorrGroup.lawful_of_ofParams SchnorrGroup.ofParams_squares23
  have h1 : forgedCredential.t1 = honestCredential.t1 := rfl
  have h2 : forgedCredential.t2 = honestCredential.t2 := rfl
  refine (Credential.validFor_iff_of_transcripts honest_valid h1 h2).mpr ⟨?_, ?_⟩
  · exact Element.responds_of_mod honest_hash.1 (by decide +kernel) (by decide +kernel)
  · exact Element.responds_of_mod honest_hash.2 (by decide +kernel) (by decide +kernel)

/-- Two valid credentials with the same transcripts and different secrets. -/
theorem secret_not_bound :
    SchnorrGroup.ofParams 23 11 4 = .ok SchnorrGroup.squares23 ∧ Nat.Prime 23 ∧ Nat.Prime 11 ∧
      SchnorrGroup.squares23.group.Member 16 ∧ SchnorrGroup.squares23.group.Member 3 ∧
      honestCredential.Members SchnorrGroup.squares23.group ∧
      forgedCredential.Members SchnorrGroup.squares23.group ∧
      honestCredential.base ≠ SchnorrGroup.squares23.group.identity ∧
      forgedCredential.base ≠ SchnorrGroup.squares23.group.identity ∧
      forgedCredential.t1 = honestCredential.t1 ∧ forgedCredential.t2 = honestCredential.t2 ∧
      honestCredential.ValidFor SchnorrGroup.squares23.group ⟨16, 3⟩ ∧
      forgedCredential.ValidFor SchnorrGroup.squares23.group ⟨16, 3⟩ ∧
      ¬honestCredential.SameSecret SchnorrGroup.squares23.group forgedCredential := by
  have hdifferent : ¬honestCredential.SameSecret SchnorrGroup.squares23.group forgedCredential := by
    intro hsame
    have hfive := (hsame 5 (by decide)).mp (by decide +kernel)
    exact absurd hfive (by decide +kernel)
  refine ⟨SchnorrGroup.ofParams_squares23, by decide, by decide, ?_, ?_, ?_, ?_, ?_, ?_, rfl, rfl,
    honest_valid, forged_valid, hdifferent⟩
  all_goals decide +kernel

/-- The secret of the honest credential is not fixed by its transcripts. -/
theorem bound_iff_honest : ∃ c' : Credential Nat, c'.Members SchnorrGroup.squares23.group ∧
    c'.t1 = honestCredential.t1 ∧ c'.t2 = honestCredential.t2 ∧
    c'.ValidFor SchnorrGroup.squares23.group ⟨16, 3⟩ ∧
    ¬honestCredential.SameSecret SchnorrGroup.squares23.group c' := by
  have hiff := bound_iff SchnorrGroup.ofParams_squares23 (by decide) (by decide)
    (by decide +kernel : honestCredential.Members SchnorrGroup.squares23.group) (by decide +kernel)
    honest_valid
  have hnot : ¬honestCredential.Bound SchnorrGroup.squares23.group := by
    rintro (⟨h, -⟩ | ⟨-, h, -⟩)
    · exact honest_not_dvd.1 h
    · exact honest_not_dvd.2 h
  by_contra hnone
  refine hnot (hiff.mp fun c' hmembers' _ h1 h2 hvalid' => ?_)
  by_contra hdifferent
  exact hnone ⟨c', hmembers', h1, h2, hvalid', hdifferent⟩

end AnonCred

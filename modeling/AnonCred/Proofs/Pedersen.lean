import AnonCred.Pedersen
import AnonCred.Proofs.Group.Extraction
import AnonCred.Proofs.Group.Membership
import AnonCred.Proofs.Session

/-!
# What opens a commitment

Under the power of the generator to `a`, the commitment to `v` with the randomizer `r` is the power
to `v + a * r`. In a group of prime order powers of the generator agree where the exponents do
modulo the order, so the openings of a commitment are the solutions of one linear congruence in `v`
and `r`. Two solutions give away the trapdoor `a`; and who knows one other than zero can solve the
congruence for the randomizer.

* `commitment_eq_iff` — the congruence
* `revealed_eq`, `existsUnique_randomizer` — what follows from it
* `exchange_eq` — the opening of the committer is accepted
* `openings_exact` — the receivers of a Schnorr group
-/

namespace AnonCred.Pedersen

open CyclicGroup

variable {E : Type} {G : CyclicGroup E}

/-! ## Commitments as powers -/

section Lawful

variable [G.Lawful]

theorem member_commitment {h : E} (hh : G.Member h) (v r : Nat) :
    G.Member (commitment G h v r) :=
  member_compose (G.member_power v) (G.member_exp hh r)

theorem commitment_power (a v r : Nat) :
    commitment G (G.power a) v r = G.power (v + a * r) := by
  have hpow : (Element.gen : G.Element) ^ v * (Element.gen ^ a) ^ r =
      Element.gen ^ (v + a * r) := by
    rw [← pow_mul, ← pow_add]
  exact congrArg Subtype.val hpow

theorem commitment_eq_iff (hq : G.order.Prime) (hgen : (Element.gen : G.Element) ≠ 1)
    {a v r v' r' : Nat} :
    commitment G (G.power a) v' r' = commitment G (G.power a) v r ↔
      v' + a * r' ≡ v + a * r [MOD G.order] := by
  rw [commitment_power, commitment_power, ← Element.pow_eq_pow_iff hq hgen, ← Element.coe_inj]
  rfl

end Lawful

/-! ## The congruence -/

/-- The trapdoor that two openings of one commitment give away. -/
def revealed (order : Nat) (o o' : Opening) : Nat := extracted order o'.r o.r o.value o'.value

section Congruence

variable {q a s : Nat} (hq : q.Prime)

include hq

/-- Different values are only reached with different randomizers, and the quotient of the
differences is the trapdoor. -/
theorem revealed_eq (ha : a < q) {o o' : Opening} (ho : o.value + a * o.r ≡ s [MOD q])
    (ho' : o'.value + a * o'.r ≡ s [MOD q]) (hlt : o.value < q) (hlt' : o'.value < q)
    (hne : o.value ≠ o'.value) : o.r ≠ o'.r ∧ revealed q o o' = a := by
  have := Fact.mk hq
  have hvalues : (o.value : ZMod q) ≠ o'.value := by
    rw [Ne, ZMod.natCast_eq_natCast_iff]
    exact fun hmod => hne (hmod.eq_of_lt_of_lt hlt hlt')
  have hsame : (o.value : ZMod q) + a * o.r = o'.value + a * o'.r := by
    exact_mod_cast (ZMod.natCast_eq_natCast_iff _ _ _).mpr (ho.trans ho'.symm)
  have hdiff : (o.value : ZMod q) - o'.value = a * (o'.r - o.r) := by
    linear_combination hsame
  have hr : (o'.r : ZMod q) - o.r ≠ 0 := by
    intro hzero
    rw [hzero, mul_zero] at hdiff
    exact hvalues (sub_eq_zero.mp hdiff)
  constructor
  · intro hsameR
    exact hr (by rw [hsameR, sub_self])
  · rw [revealed, extracted, hdiff, mul_assoc, mul_inv_cancel₀ hr, mul_one,
      ZMod.val_cast_of_lt ha]

/-- For a trapdoor other than zero every value is reached with one randomizer. -/
theorem existsUnique_randomizer (ha : a < q) (hne : a ≠ 0) (v : Nat) :
    ∃! r, r < q ∧ v + a * r ≡ s [MOD q] := by
  have := Fact.mk hq
  have hunit : (a : ZMod q) ≠ 0 := by
    rw [Ne, ZMod.natCast_eq_zero_iff]
    exact Nat.not_dvd_of_pos_of_lt (Nat.pos_of_ne_zero hne) ha
  have hsolved (r : Nat) : v + a * r ≡ s [MOD q] ↔ (r : ZMod q) = (s - v) * (a : ZMod q)⁻¹ := by
    rw [← ZMod.natCast_eq_natCast_iff, Nat.cast_add, Nat.cast_mul, eq_mul_inv_iff_mul_eq₀ hunit,
      eq_sub_iff_add_eq', mul_comm (r : ZMod q)]
  refine ⟨((s - v) * (a : ZMod q)⁻¹ : ZMod q).val, ⟨ZMod.val_lt _, ?_⟩, ?_⟩
  · rw [hsolved, ZMod.natCast_zmod_val]
  · rintro r ⟨hlt, hr⟩
    rw [← (hsolved r).mp hr, ZMod.val_cast_of_lt hlt]

end Congruence

/-! ## Receivers -/

namespace Receiver

variable {R R' : Receiver E} {a : Nat}

/-- The receivers that there are: of a given or of a random trapdoor, with what they took since. -/
inductive Made (G : CyclicGroup E) : Receiver E → Prop
  | withTrapdoor {a : Nat} {R : Receiver E} (made : withTrapdoor G a = .ok R) : Made G R
  | random {R : Receiver E} (drawn : (random G).Possible R) : Made G R
  | setCommitment {R R' : Receiver E} {c : E} (before : Made G R)
      (taken : R.setCommitment G c = .ok R') : Made G R'

theorem withTrapdoor_eq_ok : withTrapdoor G a = .ok R ↔ a < G.order ∧ R = ofTrapdoor G a := by
  unfold withTrapdoor
  rw [except_checked_eq_ok, checkScalar_eq_ok]

theorem random_eq_some {source next : Source} :
    random G source = some (R, next) ↔
      ∃ a, G.randomScalar source = some (a, next) ∧ R = ofTrapdoor G a := by
  unfold random
  simp only [Draw.bind_eq_some, Draw.pure_eq_some]
  constructor
  · rintro ⟨a, middle, ha, rfl, rfl⟩
    exact ⟨a, ha, rfl⟩
  · rintro ⟨a, ha, rfl⟩
    exact ⟨a, next, ha, rfl, rfl⟩

theorem setCommitment_eq_ok {c : E} :
    R.setCommitment G c = .ok R' ↔ G.Member c ∧ R' = { R with commitment := some c } :=
  except_checked_eq_ok

/-- The base of every receiver is the power to its trapdoor, which is reduced. -/
theorem Made.keyed (h : Made G R) : R.trapdoor < G.order ∧ R.h = G.power R.trapdoor := by
  induction h with
  | withTrapdoor made =>
    obtain ⟨hlt, rfl⟩ := withTrapdoor_eq_ok.mp made
    exact ⟨hlt, rfl⟩
  | random drawn =>
    obtain ⟨source, next, hdrawn⟩ := drawn
    obtain ⟨a, ha, rfl⟩ := random_eq_some.mp hdrawn
    exact ⟨randomScalar_lt ha, rfl⟩
  | setCommitment before taken ih =>
    obtain ⟨-, rfl⟩ := setCommitment_eq_ok.mp taken
    exact ih

variable [DecidableEq E]

theorem check_taken {c : E} (hc : R.commitment = some c) (o : Opening) :
    R.check G o = .ok (decide (o.value < G.order ∧ o.r < G.order ∧
      Pedersen.commitment G R.h o.value o.r = c)) := by
  unfold check
  rw [hc]

theorem check_own {v r : Nat} (hv : v < G.order) (hr : r < G.order) :
    ({ R with commitment := some (Pedersen.commitment G R.h v r) } : Receiver E).check G ⟨v, r⟩ =
      .ok true := by
  rw [check_taken rfl, decide_eq_true ⟨hv, hr, rfl⟩]

/-- What a receiver accepts that has the trapdoor `a` and took the commitment to `v` with the
randomizer `r`. -/
structure Accepts (G : CyclicGroup E) (R : Receiver E) (a v r : Nat) : Prop where
  /-- The reduced solutions of one congruence, and nothing else. -/
  check_eq : ∀ o, R.check G o = .ok (decide (o.value < G.order ∧ o.r < G.order ∧
    o.value + a * o.r ≡ v + a * r [MOD G.order]))
  /-- Two values only with two randomizers, and those give away the trapdoor. -/
  binding : ∀ {o o'}, R.check G o = .ok true → R.check G o' = .ok true → o.value ≠ o'.value →
    o.r ≠ o'.r ∧ revealed G.order o o' = a
  /-- Under a trapdoor other than zero every value, with one randomizer. -/
  equivocal : a ≠ 0 → ∀ v' < G.order, ∃! r', R.check G ⟨v', r'⟩ = .ok true

theorem accepts [G.Lawful] (hq : G.order.Prime) (hgen : (Element.gen : G.Element) ≠ 1)
    {v r : Nat} (ha : a < G.order) (hh : R.h = G.power a)
    (hc : R.commitment = some (Pedersen.commitment G (G.power a) v r)) : R.Accepts G a v r := by
  have hcheck (o : Opening) : R.check G o = .ok (decide (o.value < G.order ∧ o.r < G.order ∧
      o.value + a * o.r ≡ v + a * r [MOD G.order])) := by
    rw [check_taken hc, hh]
    simp only [commitment_eq_iff hq hgen]
  have haccepted (o : Opening) : R.check G o = .ok true ↔ o.value < G.order ∧ o.r < G.order ∧
      o.value + a * o.r ≡ v + a * r [MOD G.order] := by
    rw [hcheck, Except.ok.injEq, decide_eq_true_iff]
  refine ⟨hcheck, fun {o o'} ho ho' hne => ?_, fun hzero v' hv' => ?_⟩
  · obtain ⟨hlt, -, hsolves⟩ := (haccepted o).mp ho
    obtain ⟨hlt', -, hsolves'⟩ := (haccepted o').mp ho'
    exact revealed_eq hq ha hsolves hsolves' hlt hlt' hne
  · simp only [haccepted, hv', true_and]
    exact existsUnique_randomizer hq ha hzero v'

end Receiver

/-! ## Committers -/

namespace Committer

variable {h : E}

theorem ofBase_eq_ok {K : Committer E} :
    ofBase G h = .ok K ↔ G.Member h ∧ K = ⟨h, none⟩ :=
  except_checked_eq_ok

theorem commit_eq (K : Committer E) {v : Nat} (hv : v < G.order) :
    K.commit G v = (do
      let r ← G.randomScalar
      pure (commitment G K.h v r, { K with opening := some ⟨v, r⟩ })) := by
  unfold commit
  rw [Drawn.bind_except (G.checkScalar_eq_ok.mpr hv)]

end Committer

variable [DecidableEq E]

/-- A commitment to a value that the receiver takes, the opening that the committer shows, and
whether the receiver accepts it. -/
def exchange (G : CyclicGroup E) (R : Receiver E) (value : Nat) : Drawn (Opening × Bool) := do
  let committer ← Committer.ofBase G R.h
  let (c, committer) ← committer.commit G value
  let receiver ← R.setCommitment G c
  let opening ← committer.decommitment
  let accepted ← receiver.check G opening
  pure (opening, accepted)

/-- Nothing is refused, and the opening is accepted. -/
theorem exchange_eq [G.Lawful] {R : Receiver E} (hh : G.Member R.h) {v : Nat} (hv : v < G.order) :
    exchange G R v = (do
      let r ← G.randomScalar
      pure (⟨v, r⟩, true)) := by
  unfold exchange
  rw [Drawn.bind_except (Committer.ofBase_eq_ok.mpr ⟨hh, rfl⟩), Committer.commit_eq _ hv]
  simp only [bind_assoc, pure_bind]
  refine Drawn.bind_congr_possible fun r ⟨_, _, hr⟩ => ?_
  rw [Drawn.bind_except (Receiver.setCommitment_eq_ok.mpr ⟨member_commitment hh v r, rfl⟩),
    Drawn.bind_except (show Committer.decommitment _ = .ok (Opening.mk v r) from rfl),
    Drawn.bind_except (Receiver.check_own hv (randomScalar_lt hr))]

/-! ## Schnorr groups -/

variable {S : SchnorrGroup} {a : Nat}

/-- In a Schnorr group of prime order every reduced number is a trapdoor; and every receiver with
that trapdoor, however it was made and whatever it took before, takes every commitment under its
base and accepts the solutions of the congruence, the opening of the committer among them. -/
theorem openings_exact (hwell : SchnorrGroup.WellFormed S.p S.q S.g) (hq : S.q.Prime)
    (ha : a < S.q) :
    (∃ R, Receiver.withTrapdoor S.group a = .ok R ∧ R.trapdoor = a) ∧
      ∀ R, Receiver.Made S.group R → R.trapdoor = a →
        R.h = S.group.power a ∧
        (∀ v < S.q, ∀ r < S.q, ∃ R', R.setCommitment S.group (commitment S.group R.h v r) = .ok R' ∧
          R'.Accepts S.group a v r) ∧
        ∀ v < S.q, exchange S.group R v = (do
          let r ← S.group.randomScalar
          pure (⟨v, r⟩, true)) := by
  have := (SchnorrGroup.ofResidues_of_wellFormed hwell).lawful
  refine ⟨⟨_, Receiver.withTrapdoor_eq_ok.mpr ⟨ha, rfl⟩, rfl⟩, ?_⟩
  rintro R hmade rfl
  obtain ⟨-, hh⟩ := hmade.keyed
  have hmember : S.group.Member R.h := hh ▸ S.group.member_power R.trapdoor
  refine ⟨hh, fun v _ r _ => ?_, fun v hv => exchange_eq hmember hv⟩
  refine ⟨_, Receiver.setCommitment_eq_ok.mpr ⟨member_commitment hmember v r, rfl⟩, ?_⟩
  exact Receiver.accepts hq (SchnorrGroup.gen_ne_one hwell) ha hh (hh ▸ rfl)

/-- The trapdoor 3 and the commitment to 5 with the randomizer 2: that to 8 with the randomizer 1 is
the same, and the two give 3 away. -/
theorem openings_exact_squares23 :
    ∃ R : Receiver Nat, R.Accepts SchnorrGroup.squares23.group 3 5 2 ∧
      R.check SchnorrGroup.squares23.group ⟨8, 1⟩ = .ok true ∧
      R.check SchnorrGroup.squares23.group ⟨8, 12⟩ = .ok false ∧
      revealed 11 ⟨5, 2⟩ ⟨8, 1⟩ = 3 := by
  obtain ⟨⟨R, hR, htrapdoor⟩, hall⟩ :=
    openings_exact (SchnorrGroup.wellFormed_of_ofParams SchnorrGroup.ofParams_squares23)
      (by decide) (show 3 < 11 by decide)
  obtain ⟨-, htakes, -⟩ := hall R (.withTrapdoor hR) htrapdoor
  obtain ⟨R', -, haccepts⟩ := htakes 5 (by decide) 2 (by decide)
  have hfive : R'.check SchnorrGroup.squares23.group ⟨5, 2⟩ = .ok true := haccepts.check_eq _
  have height : R'.check SchnorrGroup.squares23.group ⟨8, 1⟩ = .ok true := haccepts.check_eq _
  have htwelve : R'.check SchnorrGroup.squares23.group ⟨8, 12⟩ = .ok false := haccepts.check_eq _
  exact ⟨R', haccepts, height, htwelve, (haccepts.binding hfive height (by decide)).2⟩

end AnonCred.Pedersen

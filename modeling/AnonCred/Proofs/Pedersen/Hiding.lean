import Mathlib.Order.Interval.Set.Nat
import AnonCred.Proofs.Knowledge
import AnonCred.Proofs.Pedersen

/-!
# What a commitment tells about the value

In a group that is nothing but the powers of each of its members other than the identity, a base
`h` that is not the identity hides perfectly: whatever the value, one randomizer leads to each
member. Under the identity the randomizer has no effect, and the commitment is the power to the
value. A committer takes the identity for a base as well, and so does a verifier that commits to its
challenge under the base that the prover sent.

* `ncard_solutions`, `ncard_solutions_identity` — how many randomizers lead to an element
* `SchnorrGroup.hides_iff` — which bases hide
* `hiding_iff`, `identity_not_hiding` — the committer and the verifier
-/

namespace AnonCred

open CyclicGroup

variable {E : Type} {G : CyclicGroup E}

namespace Pedersen

/-! ## Randomizers -/

/-- The randomizers that make an element the commitment to a value. -/
def solutions (G : CyclicGroup E) (h : E) (value : Nat) (c : E) : Set Nat :=
  {r | r < G.order ∧ commitment G h value r = c}

/-- An element tells nothing about the value that it is the commitment to: as many randomizers lead
there from every value. -/
def Hides (order : Nat) (randomizers : Nat → E → Set Nat) : Prop :=
  ∀ v < order, ∀ v' < order, ∀ c, (randomizers v c).ncard = (randomizers v' c).ncard

theorem hides_congr {order : Nat} {randomizers randomizers' : Nat → E → Set Nat}
    (hsame : ∀ v < order, ∀ c, randomizers v c = randomizers' v c) :
    Hides order randomizers ↔ Hides order randomizers' := by
  refine forall₂_congr fun v hv => forall₂_congr fun v' hv' => forall_congr' fun c => ?_
  rw [hsame v hv, hsame v' hv']

section Lawful

variable [G.Lawful]

/-- Under a base that has each member as one power below the order, one randomizer leads to each
member. -/
theorem ncard_solutions {h : G.Element} (hpowers : ∀ y : G.Element, ∃! k, k < G.order ∧ h ^ k = y)
    (v : Nat) (c : E) : (solutions G (h : E) v c).ncard = if G.Member c then 1 else 0 := by
  split
  · next hc =>
    obtain ⟨k, hk, hunique⟩ := hpowers ((Element.gen ^ v)⁻¹ * .ofMember hc)
    have hsolves (r : Nat) : commitment G (h : E) v r = c ↔
        h ^ r = (Element.gen ^ v)⁻¹ * .ofMember hc := by
      rw [eq_inv_mul_iff_mul_eq, ← Element.coe_inj]
      rfl
    have hsingle : solutions G (h : E) v c = {k} := by
      ext r
      simp only [solutions, Set.mem_ofPred_eq, hsolves, Set.mem_singleton_iff]
      constructor
      · exact hunique r
      · rintro rfl
        exact hk
    rw [hsingle, Set.ncard_singleton]
  · next hc =>
    have hnone : solutions G (h : E) v c = ∅ := by
      refine Set.eq_empty_of_forall_notMem fun r hr => hc ?_
      exact hr.2 ▸ member_commitment h.member v r
    rw [hnone, Set.ncard_empty]

/-- Under the identity all randomizers lead to one element. -/
theorem ncard_solutions_identity [DecidableEq E] (v : Nat) (c : E) :
    (solutions G G.identity v c).ncard = if G.power v = c then G.order else 0 := by
  have hcommitment (r : Nat) : commitment G G.identity v r = G.power v := by
    have hone : (Element.gen : G.Element) ^ v * 1 ^ r = Element.gen ^ v := by
      rw [one_pow, mul_one]
    exact congrArg Subtype.val hone
  unfold solutions
  simp only [hcommitment]
  split
  · next hc =>
    simp only [hc, and_true]
    exact Set.ncard_Iio_nat G.order
  · next hc =>
    simp only [hc, and_false, Set.ofPred_false, Set.ncard_empty]

end Lawful

/-! ## The committer -/

namespace Committer

/-- The randomizers that a committer may have drawn when it commits to a value and the commitment
is `c`. -/
def randomizers (G : CyclicGroup E) (K : Committer E) (value : Nat) (c : E) : Set Nat :=
  {r | (K.commit G value).run.Possible (.ok (c, { K with opening := some ⟨value, r⟩ }))}

theorem randomizers_eq (K : Committer E) {v : Nat} (hv : v < G.order) (c : E) :
    K.randomizers G v c = solutions G K.h v c := by
  ext r
  simp only [randomizers, solutions, Set.mem_ofPred_eq, commit_eq K hv]
  constructor
  · rintro ⟨source, next, hrun⟩
    simp only [Drawn.bind_eq_ok, Drawn.draw_eq_ok, Drawn.pure_eq_ok] at hrun
    obtain ⟨r', middle, hr', heq, -⟩ := hrun
    cases heq
    exact ⟨randomScalar_lt hr', rfl⟩
  · rintro ⟨hr, rfl⟩
    obtain ⟨source, next, hdraw⟩ := (steerable_scalar hr).possible
    exact ⟨source, next, Drawn.run_bind_ok (Drawn.run_draw hdraw) _⟩

end Committer

end Pedersen

/-! ## The verifier of a proof -/

namespace Knowledge.Verifier

open Pedersen

/-- The randomizers that a new verifier may have drawn when its challenge is `e` and the commitment
that it made under `h` is `c`. -/
def randomizers (G : CyclicGroup E) (mode : ChallengeMode) (h : E) (e : Nat) (c : E) : Set Nat :=
  {r | ((start mode).commitChallenge G h).Possible
    (.ok c, ⟨mode, .awaitingRandomData h ⟨e, r⟩⟩)}

theorem randomizers_eq {mode : ChallengeMode} (hmode : mode.usesCommitment = true) {h : E}
    (hh : G.Member h) {e : Nat} (he : e < G.order) (c : E) :
    randomizers G mode h e c = solutions G h e c := by
  ext r
  simp only [randomizers, solutions, Set.mem_ofPred_eq]
  constructor
  · rintro ⟨source, next, hcall⟩
    obtain ⟨-, -, -, e', r', middle, -, hr', rfl, hstate⟩ := commitChallenge_eq_ok.mp hcall
    cases hstate
    exact ⟨randomScalar_lt hr', rfl⟩
  · rintro ⟨hr, rfl⟩
    have hdraws : (do let e ← G.randomScalar; let r ← G.randomScalar; pure (e, r)).Steerable
        (e, r) := (steerable_scalar he).bind <| (steerable_scalar hr).bind (.pure (e, r))
    obtain ⟨source, next, hdraw⟩ := hdraws.possible
    simp only [Draw.bind_eq_some, Draw.pure_eq_some] at hdraw
    obtain ⟨_, middle, hfirst, _, _, hsecond, ⟨rfl, rfl⟩, rfl⟩ := hdraw
    exact ⟨source, _, commitChallenge_eq_ok.mpr
      ⟨rfl, hmode, hh, _, _, middle, hfirst, hsecond, rfl, rfl⟩⟩

end Knowledge.Verifier

/-! ## Schnorr groups -/

namespace SchnorrGroup

open Pedersen

variable {S : SchnorrGroup}

/-- Of the members all but the identity hide. -/
theorem hides_iff (hwell : WellFormed S.p S.q S.g) (hp : S.p.Prime) (hq : S.q.Prime) {h : Nat}
    (hh : S.group.Member h) : Hides S.q (solutions S.group h) ↔ h ≠ S.group.identity := by
  have := (ofResidues_of_wellFormed hwell).lawful
  constructor
  · rintro hhides rfl
    -- all randomizers take 0 to the identity, and none takes 1 there
    have hcount := hhides 0 hq.pos 1 hq.one_lt S.group.identity
    have hzero : S.group.power 0 = S.group.identity := Lawful.exp_zero S.group.generator
    have hgen : S.group.power 1 ≠ S.group.identity := by
      intro hone
      refine gen_ne_one hwell (Element.coe_eq_identity.mp ?_)
      rwa [← pow_one (Element.gen : S.group.Element)]
    rw [ncard_solutions_identity, ncard_solutions_identity, if_pos hzero, if_neg hgen] at hcount
    exact hq.ne_zero hcount
  · intro hne v _ v' _ c
    have hx : Element.ofMember hh ≠ 1 := fun hone => hne (Element.coe_eq_identity.mpr hone)
    have hcount (v : Nat) := ncard_solutions (existsUnique_pow hp hq hx) v c
    exact (hcount v).trans (hcount v').symm

end SchnorrGroup

namespace Pedersen

variable {S : SchnorrGroup} {h : Nat} {K : Committer Nat}

/-- In a Schnorr group over primes, of the bases that a committer takes exactly those hide the value
that are not the identity; and of the bases that a prover may send to a verifier in a mode with a
commitment, exactly those hide the challenge. -/
theorem hiding_iff (hwell : SchnorrGroup.WellFormed S.p S.q S.g) (hp : S.p.Prime)
    (hq : S.q.Prime) (hK : Committer.ofBase S.group h = .ok K) :
    (Hides S.q (K.randomizers S.group) ↔ h ≠ S.group.identity) ∧
      ∀ mode : ChallengeMode, mode.usesCommitment = true →
        (Hides S.q (Knowledge.Verifier.randomizers S.group mode h) ↔ h ≠ S.group.identity) := by
  obtain ⟨hh, rfl⟩ := Committer.ofBase_eq_ok.mp hK
  have hhides := SchnorrGroup.hides_iff hwell hp hq hh
  refine ⟨(hides_congr fun v hv c => ?_).trans hhides, fun mode hmode =>
    (hides_congr fun e he c => ?_).trans hhides⟩
  · exact Committer.randomizers_eq ⟨h, none⟩ hv c
  · exact Knowledge.Verifier.randomizers_eq hmode hh he c

/-- Under the power of 4 to 3 a value is hidden, and so is a challenge. -/
theorem hiding_iff_squares23 :
    Committer.ofBase SchnorrGroup.squares23.group 18 = .ok ⟨18, none⟩ ∧
      Hides 11 ((Committer.mk 18 none).randomizers SchnorrGroup.squares23.group) ∧
      Hides 11 (Knowledge.Verifier.randomizers SchnorrGroup.squares23.group .zkp 18) := by
  have hbase : Committer.ofBase SchnorrGroup.squares23.group 18 = .ok ⟨18, none⟩ := by
    decide +kernel
  obtain ⟨hcommitter, hverifier⟩ :=
    hiding_iff (SchnorrGroup.wellFormed_of_ofParams SchnorrGroup.ofParams_squares23)
      (show Nat.Prime 23 by decide) (show Nat.Prime 11 by decide) hbase
  exact ⟨hbase, hcommitter.mpr (by decide), (hverifier .zkp rfl).mpr (by decide)⟩

/-- The identity is taken for a base. Then the eleven randomizers all make 1 the commitment to 0,
and none makes it the commitment to 1. -/
theorem identity_not_hiding :
    Nat.Prime 23 ∧ Nat.Prime 11 ∧
      SchnorrGroup.ofParams 23 11 4 = .ok SchnorrGroup.squares23 ∧
      Committer.ofBase SchnorrGroup.squares23.group 1 = .ok ⟨1, none⟩ ∧
      ((Committer.mk 1 none).randomizers SchnorrGroup.squares23.group 0 1).ncard = 11 ∧
      ((Committer.mk 1 none).randomizers SchnorrGroup.squares23.group 1 1).ncard = 0 := by
  have := SchnorrGroup.lawful_of_ofParams SchnorrGroup.ofParams_squares23
  have hbase : Committer.ofBase SchnorrGroup.squares23.group 1 = .ok ⟨1, none⟩ := by
    decide +kernel
  refine ⟨by decide, by decide, SchnorrGroup.ofParams_squares23, hbase, ?_, ?_⟩
  · rw [Committer.randomizers_eq _ (by decide)]
    exact (ncard_solutions_identity 0 1).trans (if_pos (by decide +kernel))
  · rw [Committer.randomizers_eq _ (by decide)]
    exact (ncard_solutions_identity 1 1).trans (if_neg (by decide +kernel))

end Pedersen

end AnonCred

import Mathlib.Data.Set.Card
import AnonCred.Proofs.Equality
import AnonCred.Proofs.Group.Extraction
import AnonCred.Proofs.Group.Numeric
import AnonCred.Proofs.Random.Uniform

/-!
# A false claim of equal exponents is accepted for one challenge at most

The prover is arbitrary here: all that counts is which answers a verifier accepts. Two of them, to
different challenges about the same claim, give away one exponent, and it is the same for both
bases because it is made from the answers and the challenges alone. So where there is no such
exponent, there are no two such answers. The verifier draws its challenge when the claim with its
commitments is fixed, and draws every challenge equally often.

* `Claim.exp_extracted` — the exponent that two answers give away is right on both bases
* `Verifier.share_of_unique` — how often a certain challenge is drawn
* `one_challenge_at_most` — a false claim has one challenge at most that can be answered
-/

namespace AnonCred.Equality

open CyclicGroup

variable {E : Type} {G : CyclicGroup E} {e e' z z' : Nat}

namespace Claim

/-- There is one exponent that takes each base to its value. -/
def IsTrue (G : CyclicGroup E) (c : Claim E) : Prop :=
  ∃ w < G.order, G.exp c.g1 w = c.t1 ∧ G.exp c.g2 w = c.t2

/-- Some answer to the challenge is accepted. -/
def Answerable (G : CyclicGroup E) (c : Claim E) (e : Nat) : Prop := ∃ z, c.Holds G e z

variable [G.Lawful]

/-- The exponent that two accepted answers give away takes each base to its value. Neither base
has to generate anything, and both may be the identity. -/
theorem exp_extracted {c : Claim E} (hmembers : ∀ x ∈ c.elements, G.Member x)
    (h : c.Holds G e z) (h' : c.Holds G e' z') (hcoprime : ((e : ℤ) - e').natAbs.Coprime G.order) :
    G.exp c.g1 (extracted G.order e e' z z') = c.t1 ∧
      G.exp c.g2 (extracted G.order e e' z z') = c.t2 := by
  simp only [elements, List.forall_mem_cons] at hmembers
  obtain ⟨hg1, hg2, ht1, ht2, hx1, hx2, -⟩ := hmembers
  exact ⟨CyclicGroup.exp_extracted hg1 ht1 hx1 h.2.1 h'.2.1 hcoprime,
    CyclicGroup.exp_extracted hg2 ht2 hx2 h.2.2 h'.2.2 hcoprime⟩

theorem isTrue_of_holds {c : Claim E} (hmembers : ∀ x ∈ c.elements, G.Member x)
    (h : c.Holds G e z) (h' : c.Holds G e' z') (hcoprime : ((e : ℤ) - e').natAbs.Coprime G.order) :
    c.IsTrue G :=
  ⟨_, extracted_lt order_pos, exp_extracted hmembers h h' hcoprime⟩

/-- Over a prime order a claim with two challenges that can be answered is true. -/
theorem isTrue_of_answerable {c : Claim E} (hq : G.order.Prime)
    (hmembers : ∀ x ∈ c.elements, G.Member x) (he : e < G.order) (he' : e' < G.order)
    (hne : e ≠ e') (h : c.Answerable G e) (h' : c.Answerable G e') : c.IsTrue G := by
  obtain ⟨z, h⟩ := h
  obtain ⟨z', h'⟩ := h'
  exact isTrue_of_holds hmembers h h' (coprime_sub_of_prime hq he he' hne)

end Claim

/-! ## What a verifier draws and accepts -/

namespace Verifier

/-- For a claim about members every reduced challenge can be drawn, and no other. -/
theorem possible_challenge {c : Claim E} (hmembers : ∀ x ∈ c.elements, G.Member x)
    {V : Verifier E} : (Verifier.ready.challenge G c).Possible (.ok e, V) ↔
      e < G.order ∧ V = .awaitingResponse c e := by
  constructor
  · rintro ⟨source, next, h⟩
    obtain ⟨-, -, he, rfl⟩ := challenge_eq_ok.mp h
    exact ⟨randomScalar_lt he, rfl⟩
  · rintro ⟨he, rfl⟩
    obtain ⟨source, next, hsource⟩ := (steerable_scalar he).possible
    exact ⟨source, next, challenge_eq_ok.mpr ⟨rfl, hmembers, hsource, rfl⟩⟩

/-- Only claims about members get a challenge. -/
theorem mem_of_possible_challenge {c : Claim E} {V : Verifier E}
    (h : (Verifier.ready.challenge G c).Possible (.ok e, V)) : ∀ x ∈ c.elements, G.Member x := by
  obtain ⟨source, next, h⟩ := h
  exact (challenge_eq_ok.mp h).2.1

theorem accepts_iff [DecidableEq E] {c : Claim E} :
    (∃ z, ((awaitingResponse c e).verify G z).1 = .ok true) ↔ c.Answerable G e := by
  unfold Claim.Answerable
  simp only [verify_awaiting, Except.ok.injEq, decide_eq_true_eq]

variable [DecidableEq E]

/-- On this stream the verifier sends a challenge to which it accepts some answer. -/
def Passes (G : CyclicGroup E) (c : Claim E) (source : Source) : Prop :=
  ∃ e V next z, Verifier.ready.challenge G c source = some ((.ok e, V), next) ∧
    (V.verify G z).1 = .ok true

theorem answerable_of_passes {c : Claim E} {source : Source} (h : Passes G c source) :
    ∃ e next, G.randomScalar source = some (e, next) ∧ c.Answerable G e := by
  obtain ⟨e, V, next, z, hchallenge, hverify⟩ := h
  obtain ⟨-, -, hdraw, rfl⟩ := challenge_eq_ok.mp hchallenge
  exact ⟨e, next, hdraw, accepts_iff.mp ⟨z, hverify⟩⟩

/-- Where one challenge at most can be answered, the verifier draws it on its share of the tapes at
most. -/
theorem share_of_unique {c : Claim E} (hmembers : ∀ x ∈ c.elements, G.Member x)
    (hunique : ∀ {e e'}, e < G.order → e' < G.order → c.Answerable G e → c.Answerable G e' → e = e')
    (n : Nat) :
    G.order * {tape : Draw.Tape G.order n |
        Passes G c (Source.ofBlocks tape)}.ncard ≤
      {tape : Draw.Tape G.order n |
        (Verifier.ready.challenge G c (Source.ofBlocks tape)).isSome}.ncard := by
  by_cases hsome : ∃ e < G.order, c.Answerable G e
  · obtain ⟨e, he, hanswer⟩ := hsome
    calc _ ≤ G.order * {tape | Draw.answer G.order tape = some e}.ncard := by
          refine Nat.mul_le_mul_left _ (Set.ncard_le_ncard fun tape hpasses => ?_)
          obtain ⟨e', next, hdraw, hanswer'⟩ := answerable_of_passes hpasses
          rw [hunique he (randomScalar_lt hdraw) hanswer hanswer']
          exact Option.map_eq_some_iff.mpr ⟨_, hdraw, rfl⟩
      _ = {tape | (Draw.answer G.order tape).isSome}.ncard := Draw.ncard_answer n he
      _ ≤ _ := by
          refine Set.ncard_le_ncard fun tape hsome => ?_
          obtain ⟨e', hfound⟩ := Option.isSome_iff_exists.mp hsome
          obtain ⟨⟨_, next⟩, hdraw, -⟩ := Option.map_eq_some_iff.mp hfound
          exact Option.isSome_iff_exists.mpr
            ⟨_, challenge_eq_ok.mpr ⟨rfl, hmembers, hdraw, rfl⟩⟩
  · have hempty : {tape : Draw.Tape G.order n |
        Passes G c (Source.ofBlocks tape)} = ∅ := by
      refine Set.eq_empty_of_forall_notMem fun tape hpasses => hsome ?_
      obtain ⟨e, next, hdraw, hanswer⟩ := answerable_of_passes hpasses
      exact ⟨e, randomScalar_lt hdraw, hanswer⟩
    rw [hempty, Set.ncard_empty, Nat.mul_zero]
    exact Nat.zero_le _

end Verifier

/-! ## Soundness -/

/-- A verifier that gave a challenge for a false claim could have given any other, and accepts an
answer to one of them at most. Of the tapes on which it gives a challenge, those on which it is that
one are at most one in `q`. Of the parameters of the group only the order is asked to be prime. -/
theorem one_challenge_at_most {S : SchnorrGroup} (hq : S.q.Prime) {c : Claim Nat}
    (hchallenge : ∃ e V, (Verifier.ready.challenge S.group c).Possible (.ok e, V))
    (hfalse : ¬∃ w < S.q, S.group.exp c.g1 w = c.t1 ∧ S.group.exp c.g2 w = c.t2) :
    (∀ e V, (Verifier.ready.challenge S.group c).Possible (.ok e, V) ↔
      e < S.q ∧ V = .awaitingResponse c e) ∧
    {e | ∃ V z, (Verifier.ready.challenge S.group c).Possible (.ok e, V) ∧
      (V.verify S.group z).1 = .ok true}.encard ≤ 1 ∧
    ∀ n, S.q * {tape : Draw.Tape S.q n |
        Verifier.Passes S.group c (Source.ofBlocks tape)}.ncard ≤
      {tape : Draw.Tape S.q n |
        (Verifier.ready.challenge S.group c (Source.ofBlocks tape)).isSome}.ncard := by
  obtain ⟨e₀, V₀, hpossible⟩ := hchallenge
  have hmembers := Verifier.mem_of_possible_challenge hpossible
  have hunique : ∀ {e e'}, e < S.q → e' < S.q → c.Answerable S.group e →
      c.Answerable S.group e' → e = e' := by
    intro e e' he he' hanswer hanswer'
    by_contra hne
    -- the first base takes the place of the generator, which the claim is not about
    have := (Numeric.schnorr S).lawful_rebase hq.pos (hmembers c.g1 (by simp [Claim.elements]))
    exact hfalse (Claim.isTrue_of_answerable (G := S.group.rebase c.g1) hq hmembers he he' hne
      hanswer hanswer')
  refine ⟨fun e V => Verifier.possible_challenge hmembers, ?_,
    Verifier.share_of_unique hmembers hunique⟩
  rw [Set.encard_le_one_iff]
  rintro e e' ⟨V, z, hV, hz⟩ ⟨V', z', hV', hz'⟩
  obtain ⟨he, rfl⟩ := (Verifier.possible_challenge hmembers).mp hV
  obtain ⟨he', rfl⟩ := (Verifier.possible_challenge hmembers).mp hV'
  exact hunique he he' (Verifier.accepts_iff.mp ⟨z, hz⟩) (Verifier.accepts_iff.mp ⟨z', hz'⟩)

/-- With the identity as a base, and a value that is none of its powers, one challenge can still be
answered. -/
theorem one_challenge_at_most_identity :
    SchnorrGroup.ofParams 23 11 4 = .ok SchnorrGroup.squares23 ∧
    ((Verifier.awaitingResponse ⟨4, 1, 12, 4, 18, 9⟩ 3).verify
      SchnorrGroup.squares23.group 7).1 = .ok true ∧
    {e | ∃ V z, (Verifier.ready.challenge SchnorrGroup.squares23.group
        ⟨4, 1, 12, 4, 18, 9⟩).Possible (.ok e, V) ∧
      (V.verify SchnorrGroup.squares23.group z).1 = .ok true}.encard ≤ 1 := by
  refine ⟨SchnorrGroup.ofParams_squares23, by decide +kernel, ?_⟩
  refine (one_challenge_at_most (S := SchnorrGroup.squares23) (by decide)
    ⟨3, .awaitingResponse ⟨4, 1, 12, 4, 18, 9⟩ 3, ?_⟩ (by decide +kernel)).2.1
  exact Draw.possible_of_map ⟨fun _ => 0x35, 0, 1⟩ (by decide +kernel)

end AnonCred.Equality

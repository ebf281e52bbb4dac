import AnonCred.Proofs.Group.Laws
import AnonCred.Proofs.Knowledge.Exchange
import AnonCred.Proofs.Random.Uniform

/-!
# What a verifier sees could have been made without the secret

An honest prover that is asked a fixed challenge says its commitments and its answer. The answer
takes every value for one nonce, and a commitment is the base to the answer divided by the value to
the challenge. So whoever draws the answer first, and makes the commitments from it and from public
values alone, says the same things equally often.

* `responsePerm` — the answer to a fixed challenge is a permutation of the nonces
* `simulatedCommitment_of_responds` — the commitment that belongs to an answer
* `simulated_of_eq` — a session that is its nonce is simulated by the answer to the challenge
* `SchnorrGroup.sessions_simulated` — the two proofs over a Schnorr group
-/

namespace AnonCred

open CyclicGroup

/-! ## Answers to a fixed challenge -/

/-- The answer to the challenge `e`, as a permutation of the nonces. -/
def responsePerm (e w n : Nat) [NeZero n] : Equiv.Perm (Fin n) :=
  Equiv.addRight (Fin.ofNat n (e * w))

theorem responsePerm_val (e w : Nat) {n : Nat} [NeZero n] (r : Fin n) :
    (responsePerm e w n r : Nat) = Arith.response r e w n := by
  show (r + Fin.ofNat n (e * w) : Fin n).val = _
  rw [Fin.val_add, Fin.val_ofNat, Nat.add_mod_mod]
  rfl

/-! ## Simulation -/

namespace CyclicGroup

variable {E V : Type} {G : CyclicGroup E}

/-- The commitment that the answer `z` to the challenge `e` belongs to: the base to the answer,
divided by the value to the challenge. -/
def simulatedCommitment (G : CyclicGroup E) (base value : E) (e z : Nat) : Except Fault E := do
  let inverse ← G.invert (G.exp value e)
  pure (G.compose (G.exp base z) inverse)

theorem simulatedCommitment_of_responds (laws : G.GroupLaws) {base value x : E} {e z : Nat}
    (hvalue : G.Member value) (hx : G.Member x) (h : G.Responds base value x e z) :
    simulatedCommitment G base value e z = .ok x := by
  have hpower := laws.member_exp hvalue e
  obtain ⟨inverse, hinvert, hmember, hone⟩ := laws.invert hpower
  have hcommitment : G.compose (G.exp base z) inverse = x := by
    unfold Responds at h
    rw [h, laws.compose_assoc hx hpower hmember, hone, laws.compose_identity hx]
  unfold simulatedCommitment
  rw [hinvert]
  exact congrArg Except.ok hcommitment

/-- The nonce can be drawn, and wherever it is drawn the session is not refused and shows the
view. -/
def ShownFor (G : CyclicGroup E) (session : Drawn V) (r : Nat) (view : V) : Prop :=
  G.randomScalar.Possible r ∧
    ∀ source next, G.randomScalar source = some (r, next) →
      session.run source = some (.ok view, next)

/-- The views of a session are those that are made from an answer, each for one nonce; and they are
equally frequent when the answer is drawn in place of the nonce. -/
structure Simulated (G : CyclicGroup E) (session : Drawn V) (simulator : Nat → Except Fault V) :
    Prop where
  for_nonce : ∀ r < G.order, ∃ z < G.order, ∃ view, simulator z = .ok view ∧
    G.ShownFor session r view
  for_answer : ∀ z < G.order, ∃ view, simulator z = .ok view ∧
    ∃! r, r < G.order ∧ G.ShownFor session r view
  frequency : ∀ n view,
    {tape : Draw.Tape G.order n |
        ∃ next, session.run (Source.ofBlocks tape) = some (.ok view, next)}.ncard =
      {tape : Draw.Tape G.order n |
        ∃ z, Draw.answer G.order tape = some z ∧ simulator z = .ok view}.ncard

theorem exists_answer_iff {bound n : Nat} {tape : Draw.Tape bound n} {P : Nat → Prop}
    [DecidablePred P] :
    (∃ a, Draw.answer bound tape = some a ∧ P a) ↔
      ∃ a ∈ Finset.univ.filter fun a : Fin bound => P a, Draw.answer bound tape = some a.val := by
  simp only [Finset.mem_filter, Finset.mem_univ, true_and]
  constructor
  · rintro ⟨a, hanswer, ha⟩
    exact ⟨⟨a, Draw.answer_lt hanswer⟩, ha, hanswer⟩
  · rintro ⟨a, ha, hanswer⟩
    exact ⟨a, hanswer, ha⟩

section Nonce

variable {session : Drawn V} {said : Nat → V}
  (hsession : session = do
    let r ← G.randomScalar
    pure (said r))

include hsession

theorem run_iff_nonce {source next : Source} {view : V} :
    session.run source = some (.ok view, next) ↔
      ∃ r, G.randomScalar source = some (r, next) ∧ said r = view := by
  rw [hsession, Drawn.bind_eq_ok]
  simp only [Drawn.draw_eq_ok, Drawn.pure_eq_ok]
  constructor
  · rintro ⟨r, middle, hdraw, hview, rfl⟩
    exact ⟨r, hdraw, hview⟩
  · rintro ⟨r, hdraw, hview⟩
    exact ⟨r, next, hdraw, hview, rfl⟩

theorem shownFor_iff {r : Nat} (hr : r < G.order) {view : V} :
    G.ShownFor session r view ↔ said r = view := by
  constructor
  · rintro ⟨⟨source, next, hdraw⟩, hshown⟩
    obtain ⟨r', hdraw', hview⟩ := (run_iff_nonce hsession).mp (hshown source next hdraw)
    rw [hdraw] at hdraw'
    cases hdraw'
    exact hview
  · rintro rfl
    exact ⟨(steerable_scalar hr).possible, fun source next hdraw =>
      (run_iff_nonce hsession).mpr ⟨r, hdraw, rfl⟩⟩

/-- A tape shows a view where it draws a nonce that the view is shown for. -/
theorem run_ofBlocks_iff {n : Nat} {tape : Draw.Tape G.order n} {view : V} :
    (∃ next, session.run (Source.ofBlocks tape) = some (.ok view, next)) ↔
      ∃ r, Draw.answer G.order tape = some r ∧ said r = view := by
  simp only [run_iff_nonce hsession]
  constructor
  · rintro ⟨next, r, hdraw, hview⟩
    exact ⟨r, Option.map_eq_some_iff.mpr ⟨(r, next), hdraw, rfl⟩, hview⟩
  · rintro ⟨r, hanswer, hview⟩
    obtain ⟨⟨_, next⟩, hdraw, rfl⟩ := Option.map_eq_some_iff.mp hanswer
    exact ⟨next, _, hdraw, hview⟩

/-- A session that is its nonce is simulated by the answer to a challenge, if the views of the
simulator show the answers that they are made from. -/
theorem simulated_of_eq {simulator : Nat → Except Fault V} (hpos : 0 < G.order) (e w : Nat)
    (answerOf : V → Nat)
    (hsimulator : ∀ r < G.order, simulator (Arith.response r e w G.order) = .ok (said r))
    (hanswer : ∀ {z view}, simulator z = .ok view → answerOf view = z) :
    G.Simulated session simulator := by
  have : NeZero G.order := ⟨hpos.ne'⟩
  have hperm (r : Fin G.order) : simulator (responsePerm e w G.order r) = .ok (said r) := by
    rw [responsePerm_val]
    exact hsimulator r r.isLt
  have hinj {r r' : Fin G.order} (h : said r = said r') : r = r' := by
    refine (responsePerm e w G.order).injective (Fin.val_injective ?_)
    rw [← hanswer (hperm r), ← hanswer (hperm r'), h]
  refine ⟨fun r hr => ?_, fun z hz => ?_, fun n view => ?_⟩
  · exact ⟨_, (responsePerm e w G.order ⟨r, hr⟩).isLt, _, hperm ⟨r, hr⟩,
      (shownFor_iff hsession hr).mpr rfl⟩
  · obtain ⟨r, hr⟩ := (responsePerm e w G.order).surjective ⟨z, hz⟩
    refine ⟨said r, by simpa only [hr] using hperm r, r,
      ⟨r.isLt, (shownFor_iff hsession r.isLt).mpr rfl⟩, ?_⟩
    rintro r' ⟨hr', hshown⟩
    exact congrArg Fin.val (hinj (r := ⟨r', hr'⟩) ((shownFor_iff hsession hr').mp hshown))
  · classical
    -- the nonces that the view is said for, and the answers that it is made from
    have hnonces : {tape : Draw.Tape G.order n |
        ∃ next, session.run (Source.ofBlocks tape) = some (.ok view, next)} =
        {tape | ∃ r ∈ Finset.univ.filter fun r : Fin G.order => said r = view,
          Draw.answer G.order tape = some r.val} := by
      ext tape
      rw [Set.mem_ofPred_eq, run_ofBlocks_iff hsession]
      exact exists_answer_iff
    have hanswers : {tape : Draw.Tape G.order n |
        ∃ z, Draw.answer G.order tape = some z ∧ simulator z = .ok view} =
        {tape | ∃ z ∈ Finset.univ.filter fun z : Fin G.order => simulator z = .ok view,
          Draw.answer G.order tape = some z.val} := by
      ext tape
      exact exists_answer_iff
    have hcard : (Finset.univ.filter fun r : Fin G.order => said r = view).card =
        (Finset.univ.filter fun z : Fin G.order => simulator z = .ok view).card := by
      refine Finset.card_equiv (responsePerm e w G.order) fun r => ?_
      simp only [Finset.mem_filter, Finset.mem_univ, true_and, hperm, Except.ok.injEq]
    rw [hnonces, hanswers]
    refine Nat.eq_of_mul_eq_mul_left hpos ?_
    rw [Draw.ncard_answer_mem, Draw.ncard_answer_mem, hcard]

end Nonce

end CyclicGroup

/-! ## The two proofs -/

variable {E : Type} {G : CyclicGroup E} {w e : Nat}

/-- What the prover of equal exponents says to the challenge `e`: its commitments and its answer. -/
def Equality.session (G : CyclicGroup E) (w : Nat) (g1 g2 : E) (e : Nat) : Drawn (E × E × Nat) := do
  let prover ← Prover.start G w g1 g2
  let ((x1, x2), prover) ← callDrawn (prover.randomData G)
  let (z, _) ← call (prover.respond G e)
  pure (x1, x2, z)

/-- The same from public values. -/
def Equality.simulator (G : CyclicGroup E) (g1 g2 t1 t2 : E) (e z : Nat) :
    Except Fault (E × E × Nat) := do
  let x1 ← simulatedCommitment G g1 t1 e z
  let x2 ← simulatedCommitment G g2 t2 e z
  pure (x1, x2, z)

/-- What the prover of knowledge says to the challenge `e` in the plain mode. -/
def Knowledge.session [DecidableEq E] (G : CyclicGroup E) (w : Nat) (base : E) (e : Nat) :
    Drawn (E × Response) := do
  let prover ← Prover.start G .sigma w base
  let (x, prover) ← callDrawn (prover.randomData G)
  let (response, _) ← call (prover.respond G ⟨e, none⟩)
  pure (x, response)

/-- The same from public values. -/
def Knowledge.simulator (G : CyclicGroup E) (base value : E) (e z : Nat) :
    Except Fault (E × Response) := do
  let x ← simulatedCommitment G base value e z
  pure (x, ⟨z, none⟩)

theorem Equality.session_eq {g1 g2 : E} (hw : w < G.order) (h1 : G.Member g1) (h2 : G.Member g2)
    (he : e < G.order) :
    session G w g1 g2 e = (do
      let r ← G.randomScalar
      pure (G.exp g1 r, G.exp g2 r, Arith.response r e w G.order)) := by
  unfold session
  rw [Drawn.bind_except (Prover.start_eq_ok.mpr ⟨hw, h1, h2, rfl⟩)]
  unfold Prover.randomData
  rw [callDrawn_settleDrawn]
  simp only [bind_assoc, pure_bind]
  refine bind_congr fun r => ?_
  rw [Prover.respond_eq_ok.mpr ⟨r, rfl, he, rfl, rfl⟩]
  rfl

theorem Knowledge.session_eq [DecidableEq E] {base : E} (hw : w < G.order) (hbase : G.Member base)
    (he : e < G.order) :
    session G w base e = (do
      let r ← G.randomScalar
      pure (G.exp base r, ⟨Arith.response r e w G.order, none⟩)) := by
  unfold session
  rw [Prover.start_plain rfl hw hbase, pure_bind, Prover.call_randomData rfl]
  simp only [bind_assoc, pure_bind]
  refine bind_congr fun r => ?_
  rw [Prover.respond_plain rfl he]
  rfl

section Lawful

variable [G.Lawful] (laws : G.GroupLaws)

include laws

/-- The commitment of the prover is the one that belongs to its answer. -/
theorem simulatedCommitment_response {g : E} (hg : G.Member g) (w r e : Nat) :
    simulatedCommitment G g (G.exp g w) e (Arith.response r e w G.order) = .ok (G.exp g r) :=
  simulatedCommitment_of_responds laws (G.member_exp hg w) (G.member_exp hg r)
    (Equality.Claim.responds_response (.ofMember hg) w r e)

theorem Equality.session_simulated {g1 g2 : E} (hw : w < G.order) (h1 : G.Member g1)
    (h2 : G.Member g2) (he : e < G.order) :
    G.Simulated (session G w g1 g2 e) (simulator G g1 g2 (G.exp g1 w) (G.exp g2 w) e) := by
  refine simulated_of_eq (session_eq hw h1 h2 he) order_pos e w (fun view => view.2.2)
    (fun r _ => ?_) fun {z view} hview => ?_
  · unfold simulator
    rw [simulatedCommitment_response laws h1, simulatedCommitment_response laws h2]
    rfl
  · obtain ⟨x1, -, hview⟩ := except_bind_eq_ok.mp hview
    obtain ⟨x2, -, hview⟩ := except_bind_eq_ok.mp hview
    exact congrArg (fun view => view.2.2) (except_pure_eq_ok.mp hview).symm

theorem Knowledge.session_simulated [DecidableEq E] {base : E} (hw : w < G.order)
    (hbase : G.Member base) (he : e < G.order) :
    G.Simulated (session G w base e) (simulator G base (G.exp base w) e) := by
  refine simulated_of_eq (session_eq hw hbase he) order_pos e w (fun view => view.2.z)
    (fun r _ => ?_) fun {z view} hview => ?_
  · unfold simulator
    rw [simulatedCommitment_response laws hbase]
    rfl
  · obtain ⟨x, -, hview⟩ := except_bind_eq_ok.mp hview
    exact congrArg (fun view => view.2.z) (except_pure_eq_ok.mp hview).symm

end Lawful

/-! ## Schnorr groups -/

namespace SchnorrGroup

variable {p q g : Nat} {S : SchnorrGroup}

/-- In a group that `ofParams` makes, both proofs are simulated for every secret and every
challenge, whatever their bases. The simulators get the secret only as the values that the proofs
are about. -/
theorem sessions_simulated (hS : ofParams p q g = .ok S) (hw : w < S.group.order)
    (he : e < S.group.order) :
    (∀ g1 g2, S.group.Member g1 → S.group.Member g2 →
      S.group.Simulated (Equality.session S.group w g1 g2 e)
        (Equality.simulator S.group g1 g2 (S.group.exp g1 w) (S.group.exp g2 w) e)) ∧
    ∀ base, S.group.Member base →
      S.group.Simulated (Knowledge.session S.group w base e)
        (Knowledge.simulator S.group base (S.group.exp base w) e) := by
  have := lawful_of_ofParams hS
  have laws := (ofResidues_of_ofParams hS).groupLaws fun _ => rfl
  exact ⟨fun _ _ h1 h2 => Equality.session_simulated laws hw h1 h2 he,
    fun _ hbase => Knowledge.session_simulated laws hw hbase he⟩

/-- The challenge 3 to the prover of the secret 5: with the answer 7 go the commitments 18 and 16 to
the powers of 4 and 9, and one nonce leads to them. -/
theorem sessions_simulated_squares23 :
    (∃! r, r < 11 ∧
      squares23.group.ShownFor (Equality.session squares23.group 5 4 9 3) r (18, 16, 7)) ∧
      ∃! r, r < 11 ∧
        squares23.group.ShownFor (Knowledge.session squares23.group 5 4 3) r (18, ⟨7, none⟩) := by
  obtain ⟨hequality, hknowledge⟩ := sessions_simulated (w := 5) (e := 3) ofParams_squares23
    (by decide) (by decide)
  obtain ⟨view, hview, hshown⟩ :=
    (hequality 4 9 (by decide +kernel) (by decide +kernel)).for_answer 7 (by decide)
  obtain ⟨view', hview', hshown'⟩ :=
    (hknowledge 4 (by decide +kernel)).for_answer 7 (by decide)
  have hpair : Equality.simulator squares23.group 4 9 (squares23.group.exp 4 5)
      (squares23.group.exp 9 5) 3 7 = .ok (18, 16, 7) := by
    decide +kernel
  have hsingle : Knowledge.simulator squares23.group 4 (squares23.group.exp 4 5) 3 7 =
      .ok (18, ⟨7, none⟩) := by
    decide +kernel
  cases hview.symm.trans hpair
  cases hview'.symm.trans hsingle
  exact ⟨hshown, hshown'⟩

end SchnorrGroup

end AnonCred

import AnonCred.Proofs.Knowledge.Exchange
import AnonCred.Proofs.Party.Sessions

/-!
# Only the challenge that was committed to is answered

Where challenges are committed to, a prover answers one challenge at most, and only if it opens the
commitment that the prover took before it drew its nonce. That holds whatever the calls are that
come in between, because every call out of turn ends the session. A `Trail` says what was said up to
each of the states, so a state tells the whole history that led to it.

The verifier keeps the other side of this: the challenge that it sends is fixed when it commits to
it, and opens that commitment.

* `Prover.trail_of_run`, `Verifier.trail_of_run` — every run leaves a trail
* `only_committed_answered` — which challenges a prover answers and a verifier sends
-/

namespace AnonCred.Knowledge

open CyclicGroup

variable {E : Type} {G : CyclicGroup E} {mode : ChallengeMode} {source next : Source}

/-! ## Challenges that open a commitment -/

/-- The challenge comes with what opens the commitment `c` under `h`, all in reduced numbers. -/
def Challenge.Opens (G : CyclicGroup E) (challenge : Challenge) (h c : E) : Prop :=
  ∃ d ∈ challenge.decommitment, challenge.e < G.order ∧ d < G.order ∧
    Pedersen.commitment G h challenge.e d = c

instance [DecidableEq E] (challenge : Challenge) (h c : E) :
    Decidable (challenge.Opens G h c) := by
  unfold Challenge.Opens; infer_instance

namespace Prover

theorem checkOpening_committed [DecidableEq E] {challenge : Challenge} {R : Pedersen.Receiver E}
    {c : E} (hR : R.commitment = some c) : checkOpening G challenge (some R) =
      if challenge.Opens G R.h c then .ok () else .error .decommitment := by
  obtain ⟨e, _ | d⟩ := challenge
  · simp [checkOpening, Challenge.Opens]
  · have hopens : (Challenge.mk e (some d)).Opens G R.h c ↔
        e < G.order ∧ d < G.order ∧ Pedersen.commitment G R.h e d = c := by
      simp [Challenge.Opens]
    simp only [checkOpening, Pedersen.Receiver.check_taken hR, hopens]
    by_cases hholds : e < G.order ∧ d < G.order ∧ Pedersen.commitment G R.h e d = c
    · rw [if_pos hholds, decide_eq_true hholds]
      rfl
    · rw [if_neg hholds, decide_eq_false hholds]
      rfl

/-- A challenge that comes late, or is not the one that was committed to, is refused for nothing
but that. -/
theorem respond_refused [DecidableEq E] {P P' : Prover E} {challenge : Challenge} {error : Error}
    {R : Pedersen.Receiver E} {c : E} {r : Nat} (hstate : P.state = .awaitingChallenge (some R) r)
    (hR : R.commitment = some c) (h : P.respond G challenge = (.error error, P')) :
    error = .scalar (.notReduced "challenge") ∨ error = .decommitment := by
  obtain ⟨-, ⟨receiver, r', hwaiting, hscalar | hopening⟩ | ⟨hnot, -⟩⟩ := respond_eq_error h
  · unfold checkScalar at hscalar
    split at hscalar
    · cases hscalar
    · cases hscalar
      exact .inl rfl
  · rw [hstate] at hwaiting
    cases hwaiting
    rw [checkOpening_committed hR] at hopening
    split at hopening
    · cases hopening
    · cases hopening
      exact .inr rfl
  · exact absurd hstate (hnot _ _)

/-! ## What a prover has said -/

/-- A new prover that is to take a commitment has drawn the trapdoor for it, and nothing else. -/
theorem start_committing_eq_ok {w : Nat} {base : E} {P : Prover E}
    (hmode : mode.usesCommitment = true)
    (h : (start G mode w base).run source = some (.ok P, next)) :
    ∃ a < G.order, P = ⟨mode, w, base, G.exp base w, .ready (.ofTrapdoor G a)⟩ := by
  unfold start at h
  rw [if_pos hmode] at h
  simp only [Drawn.bind_eq_ok, Drawn.pure_eq_ok, Drawn.draw_eq_ok,
    Pedersen.Receiver.random_eq_some] at h
  obtain ⟨-, _, -, -, _, -, receiver, _, ⟨a, ha, rfl⟩, rfl, -⟩ := h
  exact ⟨a, randomScalar_lt ha, rfl⟩

/-- The answered calls that come before a challenge. -/
def preamble (h c x : E) : List (Event E) :=
  [.openingMessage (.ok h), .setCommitment c (.ok ()), .randomData (.ok x)]

/-- An answered call that is not for a response. -/
def Event.Prepares : Event E → Prop
  | .openingMessage (.ok _) | .setCommitment _ (.ok _) | .randomData (.ok _) => True
  | _ => False

theorem prepares_of_mem_preamble {h c x : E} {event : Event E} (hmem : event ∈ preamble h c x) :
    event.Prepares := by
  simp only [preamble, List.mem_cons, List.not_mem_nil, or_false] at hmem
  rcases hmem with rfl | rfl | rfl <;> trivial

/-- Why a call is refused: nothing of this depends on what the prover keeps to itself. -/
def Cause (G : CyclicGroup E) (error : Error) : Prop :=
  error.IsOutOfOrder ∨ G.Reports error ∨ error = .scalar (.notReduced "challenge") ∨
    error = .decommitment

/-- What was said to and by the prover `P` with the trapdoor `a` up to a state. -/
inductive Trail (G : CyclicGroup E) (P : Prover E) (a : Nat) : List (Event E) → Prover E → Prop
  | ready : Trail G P a [] { P with state := .ready (.ofTrapdoor G a) }
  | opened : Trail G P a [.openingMessage (.ok (G.power a))]
      { P with state := .awaitingCommitment (.ofTrapdoor G a) }
  | committed (c : E) :
      Trail G P a [.openingMessage (.ok (G.power a)), .setCommitment c (.ok ())]
        { P with state := .awaitingRandomData (some ⟨a, G.power a, some c⟩) }
  | waiting (c : E) {r : Nat} (reduced : r < G.order) :
      Trail G P a (preamble (G.power a) c (G.exp P.base r))
        { P with state := .awaitingChallenge (some ⟨a, G.power a, some c⟩) r }
  | finished {history : List (Event E)} {event : Event E} (mem : event ∈ history)
      (closes : ¬event.Prepares) : Trail G P a history P.ended

namespace Trail

variable {P s s' : Prover E} {a : Nat} {history : List (Event E)}

theorem close (h : Trail G P a history s) {event : Event E} (hevent : ¬event.Prepares) :
    Trail G P a (history ++ [event]) s.ended := by
  have hended : s.ended = P.ended := by
    cases h <;> rfl
  rw [hended]
  exact .finished (List.mem_append_right _ (List.mem_singleton_self _)) hevent

/-- What is sent under the name of the base is the power to the trapdoor. -/
theorem eq_opening {h : E} (htrail : Trail G P a history s)
    (hstep : s.openingMessage = (.ok h, s')) : h = G.power a := by
  obtain ⟨receiver, hstate, rfl, -⟩ := openingMessage_eq_ok.mp hstep
  cases htrail <;> cases hstate
  rfl

theorem eq_nonce {x : E} (h : Trail G P a history s)
    (hstep : (s.randomData G).Possible (.ok x, s')) : ∃ r < G.order, x = G.exp P.base r := by
  obtain ⟨source, next, hcall⟩ := hstep
  obtain ⟨receiver, r, -, hr, rfl, -⟩ := randomData_eq_ok.mp hcall
  have hbase : s.base = P.base := by
    cases h <;> rfl
  exact ⟨r, randomScalar_lt hr, by rw [hbase]⟩

variable [DecidableEq E]

theorem step {event : Event E} (h : Trail G P a history s) (hstep : (party G).Step s event s') :
    Trail G P a (history ++ [event]) s' := by
  cases event with
  | openingMessage answer =>
    rcases answer with error | opening
    · obtain ⟨rfl, -, -⟩ := openingMessage_eq_error hstep
      exact h.close id
    · obtain ⟨receiver, hstate, rfl, rfl⟩ := openingMessage_eq_ok.mp hstep
      cases h <;> cases hstate
      exact .opened
  | setCommitment c answer =>
    rcases answer with error | ⟨⟩
    · obtain ⟨rfl, -⟩ := setCommitment_eq_error hstep
      exact h.close id
    · obtain ⟨receiver, hstate, -, rfl⟩ := setCommitment_eq_ok.mp hstep
      cases h <;> cases hstate
      exact .committed c
  | randomData answer =>
    obtain ⟨source, next, hcall⟩ := hstep
    rcases answer with error | x
    · obtain ⟨rfl, -, -⟩ := randomData_eq_error hcall
      exact h.close id
    · obtain ⟨receiver, r, hstate, hr, rfl, rfl⟩ := randomData_eq_ok.mp hcall
      cases h <;> cases hstate
      exact .waiting _ (randomScalar_lt hr)
  | respond challenge answer =>
    rcases answer with error | response
    · obtain ⟨rfl, -⟩ := respond_eq_error hstep
      exact h.close id
    · obtain ⟨-, -, -, -, -, -, rfl⟩ := respond_eq_ok.mp hstep
      exact h.close id

/-- Whether a challenge is answered can be told from what was said before. -/
theorem answered_iff {challenge : Challenge} {answer : Except Error Response}
    (h : Trail G P a history s) (hstep : s.respond G challenge = (answer, s')) :
    (∃ response, answer = .ok response) ↔
      ∃ c x, history = preamble (G.power a) c x ∧ challenge.Opens G (G.power a) c := by
  constructor
  · rintro ⟨response, rfl⟩
    obtain ⟨receiver, r, hstate, -, hopening, -, -⟩ := respond_eq_ok.mp hstep
    cases h <;> cases hstate
    next c hr =>
      refine ⟨c, _, rfl, ?_⟩
      rw [checkOpening_committed rfl] at hopening
      by_contra hnot
      rw [if_neg hnot] at hopening
      cases hopening
  · rintro ⟨c, x, hhistory, hopens⟩
    cases h with
    | @waiting c r hr =>
      cases hhistory
      have hopening := (checkOpening_committed (R := ⟨a, G.power a, some c⟩) rfl).trans
        (if_pos hopens)
      obtain ⟨d, -, he, -, -⟩ := hopens
      have hanswer := (respond_eq_ok (P := { P with
        state := .awaitingChallenge (some ⟨a, G.power a, some c⟩) r })).mpr
          ⟨_, r, rfl, he, hopening, rfl, rfl⟩
      cases hanswer.symm.trans hstep
      exact ⟨_, rfl⟩
    | finished hmem hcloses =>
      rw [hhistory] at hmem
      exact absurd (prepares_of_mem_preamble hmem) hcloses
    | _ => cases hhistory

/-- An answer is the one to the challenge and the nonce, with the trapdoor in the last mode. -/
theorem eq_response {challenge : Challenge} {response : Response} (h : Trail G P a history s)
    (hstep : s.respond G challenge = (.ok response, s')) :
    ∃ c, ∃ r < G.order, history = preamble (G.power a) c (G.exp P.base r) ∧
      response = ⟨Arith.response r challenge.e P.secret G.order,
        if P.mode = .zkpok then some a else none⟩ := by
  obtain ⟨receiver, r, hstate, -, -, rfl, -⟩ := respond_eq_ok.mp hstep
  cases h <;> cases hstate
  next c hr => exact ⟨c, r, hr, rfl, rfl⟩

/-- A call is refused because it is out of turn, or because of what it was given. -/
theorem cause_of_refusal {event : Event E} {error : Error} (h : Trail G P a history s)
    (hstep : (party G).Step s event s') (hrefusal : (party G).refusal event = some error) :
    Cause G error := by
  cases event with
  | openingMessage answer =>
    rcases answer with error | opening <;> cases hrefusal
    exact .inl (openingMessage_eq_error hstep).2.2
  | setCommitment c answer =>
    rcases answer with error | ⟨⟩ <;> cases hrefusal
    obtain ⟨-, ⟨receiver, -, hc⟩ | ⟨-, hout⟩⟩ := setCommitment_eq_error hstep
    · exact .inr (.inl ⟨c, hc⟩)
    · exact .inl hout
  | randomData answer =>
    obtain ⟨source, next, hcall⟩ := hstep
    rcases answer with error | x <;> cases hrefusal
    exact .inl (randomData_eq_error hcall).2.2
  | respond challenge answer =>
    rcases answer with error | response <;> cases hrefusal
    cases h with
    | waiting c hr => exact .inr (.inr (respond_refused rfl rfl hstep))
    | _ =>
      obtain ⟨-, ⟨receiver, r, hstate, -⟩ | ⟨-, hout⟩⟩ := respond_eq_error hstep
      · cases hstate
      · exact .inl hout

end Trail

theorem trail_of_run [DecidableEq E] {P P' : Prover E} {a : Nat} {history : List (Event E)}
    (hP : P.state = .ready (.ofTrapdoor G a)) (hrun : (party G).Run P history P') :
    Trail G P a history P' := by
  obtain ⟨mode, secret, base, value, state⟩ := P
  cases hP
  exact hrun.invariant .ready Trail.step

/-- A prover that has drawn the trapdoor `a` answers a challenge only if it opens the commitment
that the prover took before its nonce, and then nothing more. -/
structure Guarded [DecidableEq E] (G : CyclicGroup E) (P : Prover E) (a : Nat) : Prop where
  /-- Exactly the challenges that open the commitment taken are answered, right after the nonce is
  drawn. -/
  answered_iff : ∀ {before challenge answer after P'},
    (party G).Run P (before ++ .respond challenge answer :: after) P' →
    ((∃ response, answer = .ok response) ↔
      ∃ c x, before = preamble (G.power a) c x ∧ challenge.Opens G (G.power a) c)
  /-- The answer is the one to the challenge and the nonce. It shows the trapdoor in the last mode
  only. -/
  response : ∀ {before challenge response after P'},
    (party G).Run P (before ++ .respond challenge (.ok response) :: after) P' →
    ∃ c, ∃ r < G.order, before = preamble (G.power a) c (G.exp P.base r) ∧
      response = ⟨Arith.response r challenge.e P.secret G.order,
        if P.mode = .zkpok then some a else none⟩
  /-- After one call for a response, answered or not, every call is refused. -/
  last : ∀ {before challenge answer after P'},
    (party G).Run P (before ++ .respond challenge answer :: after) P' →
    ∀ later ∈ after, ∃ error, (party G).refusal later = some error ∧ error.IsOutOfOrder
  /-- Before that the prover sends the power to the trapdoor and the commitment to a nonce. -/
  opening : ∀ {before h after P'},
    (party G).Run P (before ++ .openingMessage (.ok h) :: after) P' → h = G.power a
  nonce : ∀ {before x after P'}, (party G).Run P (before ++ .randomData (.ok x) :: after) P' →
    ∃ r < G.order, x = G.exp P.base r
  /-- Refusals say what is wrong with a call. -/
  refusal : ∀ {before event after P'}, (party G).Run P (before ++ event :: after) P' →
    ∀ error, (party G).refusal event = some error → Cause G error

/-- No call for a response leaves anything to come. -/
theorem state_of_respond [DecidableEq E] {P P' : Prover E} {challenge : Challenge}
    {answer : Except Error Response} (h : P.respond G challenge = (answer, P')) : P' = P.ended := by
  rcases answer with error | response
  · exact (respond_eq_error h).1
  · obtain ⟨-, -, -, -, -, -, hended⟩ := respond_eq_ok.mp h
    exact hended

theorem guarded [DecidableEq E] {P : Prover E} {a : Nat}
    (hP : P.state = .ready (.ofTrapdoor G a)) : Guarded G P a where
  answered_iff hrun := by
    obtain ⟨middle, next, hbefore, hstep, -⟩ := hrun.split
    exact (trail_of_run hP hbefore).answered_iff hstep
  response hrun := by
    obtain ⟨middle, next, hbefore, hstep, -⟩ := hrun.split
    exact (trail_of_run hP hbefore).eq_response hstep
  last hrun := by
    obtain ⟨middle, next, -, hstep, hafter⟩ := hrun.split
    obtain rfl := state_of_respond hstep
    exact strict.run_over hafter valid_ended rest_ended
  opening hrun := by
    obtain ⟨middle, next, hbefore, hstep, -⟩ := hrun.split
    exact (trail_of_run hP hbefore).eq_opening hstep
  nonce hrun := by
    obtain ⟨middle, next, hbefore, hstep, -⟩ := hrun.split
    exact (trail_of_run hP hbefore).eq_nonce hstep
  refusal hrun error hrefusal := by
    obtain ⟨middle, next, hbefore, hstep, -⟩ := hrun.split
    exact (trail_of_run hP hbefore).cause_of_refusal hstep hrefusal

end Prover

/-! ## What a verifier has said -/

namespace Verifier

/-- A challenge is a new one in the plain mode, and else the one that was committed to. -/
theorem nextChallenge_eq_ok {V : Verifier E} {challenge : Challenge} {h : Option E}
    (hnext : (V.nextChallenge G).run source = some (.ok (challenge, h), next)) :
    (V.state = .ready ∧ V.mode.usesCommitment = false ∧ h = none ∧ ∃ e, challenge = ⟨e, none⟩) ∨
    (V.mode.usesCommitment = true ∧ ∃ h' opening, V.state = .awaitingRandomData h' opening ∧
      h = some h' ∧ challenge = ⟨opening.value, some opening.r⟩) := by
  unfold nextChallenge at hnext
  split at hnext
  · next hstate hmode =>
    simp only [Drawn.bind_eq_ok, Drawn.draw_eq_ok, Drawn.pure_eq_ok, Prod.mk.injEq] at hnext
    obtain ⟨e, _, -, ⟨rfl, rfl⟩, -⟩ := hnext
    exact .inl ⟨hstate, hmode, rfl, e, rfl⟩
  · next h' opening hstate hmode =>
    obtain ⟨heq, -⟩ := Drawn.pure_eq_ok.mp hnext
    cases heq
    exact .inr ⟨hmode, h', opening, hstate, rfl, rfl⟩
  · exact absurd hnext Drawn.throw_ne_ok

/-- What was said to and by a verifier in a mode up to a state. -/
inductive Trail (G : CyclicGroup E) (mode : ChallengeMode) : List (Event E) → Verifier E → Prop
  | ready : Trail G mode [] (start mode)
  | committed {h : E} {e d : Nat} (member : G.Member h) (e_lt : e < G.order)
      (d_lt : d < G.order) :
      Trail G mode [.commitChallenge h (.ok (Pedersen.commitment G h e d))]
        ⟨mode, .awaitingRandomData h ⟨e, d⟩⟩
  | plain {base value x : E} {e : Nat} (members : ∀ y ∈ [base, value, x], G.Member y)
      (mode_eq : mode.usesCommitment = false) :
      Trail G mode [.challenge base value x (.ok ⟨e, none⟩)]
        ⟨mode, .awaitingResponse none base value x e⟩
  | opened {h c base value x : E} {e d : Nat} (member : G.Member h)
      (members : ∀ y ∈ [base, value, x], G.Member y)
      (opens : (Challenge.mk e (some d)).Opens G h c) :
      Trail G mode [.commitChallenge h (.ok c), .challenge base value x (.ok ⟨e, some d⟩)]
        ⟨mode, .awaitingResponse (some h) base value x e⟩
  | finished (history : List (Event E)) : Trail G mode history ⟨mode, .done⟩

namespace Trail

variable {V V' : Verifier E} {history : List (Event E)}

theorem ended (h : Trail G mode history V) (history' : List (Event E)) :
    Trail G mode history' V.ended := by
  have hended : V.ended = ⟨mode, .done⟩ := by
    cases h <;> rfl
  rw [hended]
  exact .finished history'

variable [DecidableEq E]

theorem step {event : Event E} (h : Trail G mode history V) (hstep : (party G).Step V event V') :
    Trail G mode (history ++ [event]) V' := by
  cases event with
  | commitChallenge base answer =>
    obtain ⟨source, next, hcall⟩ := hstep
    rcases answer with error | c
    · obtain ⟨rfl, -⟩ := commitChallenge_eq_error hcall
      exact h.ended _
    · obtain ⟨hstate, -, hmember, e, r, middle, he, hr, rfl, rfl⟩ := commitChallenge_eq_ok.mp hcall
      cases h <;> cases hstate
      exact .committed hmember (randomScalar_lt he) (randomScalar_lt hr)
  | challenge base value x answer =>
    obtain ⟨source, next, hcall⟩ := hstep
    rcases answer with error | challenge
    · obtain ⟨rfl, -⟩ := challenge_eq_error hcall
      exact h.ended _
    · obtain ⟨hbase, hvalue, hx, h', hnext, rfl⟩ := challenge_eq_ok.mp hcall
      have hmembers : ∀ y ∈ [base, value, x], G.Member y := by
        simp only [List.forall_mem_cons]
        exact ⟨hbase, hvalue, hx, by simp⟩
      rcases nextChallenge_eq_ok hnext with
        ⟨hstate, hmode, rfl, e, rfl⟩ | ⟨-, b, opening, hstate, rfl, rfl⟩
      · cases h <;> cases hstate
        exact .plain hmembers hmode
      · cases h with
        | committed hmember he hd =>
          cases hstate
          exact .opened hmember hmembers ⟨_, rfl, he, hd, rfl⟩
        | _ => cases hstate
  | verify response answer =>
    rcases answer with error | accepted
    · obtain ⟨rfl, -⟩ := verify_eq_error hstep
      exact h.ended _
    · obtain ⟨-, -, -, -, -, -, -, rfl⟩ := verify_eq_ok.mp hstep
      exact h.ended _

end Trail

theorem trail_of_run [DecidableEq E] {V : Verifier E} {history : List (Event E)}
    (hrun : (party G).Run (start mode) history V) : Trail G mode history V :=
  hrun.invariant .ready Trail.step

/-- The challenge that a verifier sends opens the commitment that it made. -/
structure Bound [DecidableEq E] (G : CyclicGroup E) (mode : ChallengeMode) : Prop where
  /-- A challenge is only sent right after a commitment, which it opens. -/
  opens : ∀ {before base value x challenge after V},
    (party G).Run (start mode) (before ++ .challenge base value x (.ok challenge) :: after) V →
    ∃ h c, before = [.commitChallenge h (.ok c)] ∧ G.Member h ∧ challenge.Opens G h c
  /-- Under every member the verifier commits, and from then on one challenge is sent, whatever
  the statement. -/
  fixed : ∀ {h}, G.Member h → ∀ source,
    Answers ((start mode).commitChallenge G h) source fun c V _ =>
      ∃ challenge : Challenge, challenge.Opens G h c ∧
        ∀ base value x source', (∀ y ∈ [base, value, x], G.Member y) →
          ∃ V', V.challenge G base value x source' = some ((.ok challenge, V'), source')

/-- Before a challenge was sent, a commitment was made that it opens. -/
theorem opens_of_run [DecidableEq E] (hmode : mode.usesCommitment = true) {before : List (Event E)}
    {base value x : E} {challenge : Challenge} {V : Verifier E}
    (hrun : (party G).Run (start mode) (before ++ [.challenge base value x (.ok challenge)]) V) :
    ∃ h c, before = [.commitChallenge h (.ok c)] ∧ G.Member h ∧ challenge.Opens G h c := by
  obtain ⟨e, decommitment⟩ := challenge
  have htrail := trail_of_run hrun
  obtain ⟨middle, -, hlast⟩ := Party.run_append.mp hrun
  obtain ⟨source, next, hcall⟩ := Party.run_singleton.mp hlast
  obtain ⟨-, -, -, h', -, rfl⟩ := challenge_eq_ok.mp hcall
  generalize hhistory : before ++ [_] = history at htrail
  cases htrail with
  | plain hmembers hplain =>
    rw [hplain] at hmode
    cases hmode
  | opened hmember hmembers hopens =>
    change before ++ [_] = [_] ++ [_] at hhistory
    obtain ⟨rfl, hchallenge⟩ := List.append_inj' hhistory rfl
    cases hchallenge
    exact ⟨_, _, rfl, hmember, hopens⟩

theorem commitChallenge_answers (hmode : mode.usesCommitment = true) {h : E} (hh : G.Member h) :
    Answers ((start mode).commitChallenge G h) source fun c V _ =>
      ∃ e < G.order, ∃ d < G.order, c = Pedersen.commitment G h e d ∧
        V = ⟨mode, .awaitingRandomData h ⟨e, d⟩⟩ := by
  unfold commitChallenge start
  dsimp only
  rw [if_pos hmode]
  refine Answers.settleDrawn (Drawn.Succeeds.bindExcept hh ?_)
  refine Drawn.Succeeds.bindDraw fun e _ he => Drawn.Succeeds.bindDraw fun d _ hd => ?_
  exact Drawn.Succeeds.pure ⟨e, randomScalar_lt he, d, randomScalar_lt hd, rfl, rfl⟩

theorem challenge_committed (hmode : mode.usesCommitment = true) {h : E} {e d : Nat}
    {base value x : E} (hmembers : ∀ y ∈ [base, value, x], G.Member y) :
    (Verifier.mk mode (.awaitingRandomData h ⟨e, d⟩)).challenge G base value x source =
      some ((.ok ⟨e, some d⟩, ⟨mode, .awaitingResponse (some h) base value x e⟩), source) := by
  simp only [List.forall_mem_cons] at hmembers
  obtain ⟨hbase, hvalue, hx, -⟩ := hmembers
  refine challenge_eq_ok.mpr ⟨hbase, hvalue, hx, some h, ?_, rfl⟩
  rw [nextChallenge_committed hmode]
  rfl

theorem bound [DecidableEq E] (hmode : mode.usesCommitment = true) : Bound G mode where
  opens hrun := by
    obtain ⟨middle, next, hbefore, hstep, -⟩ := hrun.split
    exact opens_of_run hmode (Party.run_append.mpr ⟨middle, hbefore, Party.run_singleton.mpr hstep⟩)
  fixed {h} hh source := by
    refine (commitChallenge_answers hmode hh).mono ?_
    rintro c V - ⟨e, he, d, hd, rfl, rfl⟩
    exact ⟨⟨e, some d⟩, ⟨d, rfl, he, hd, rfl⟩,
      fun base value x source' hmembers => ⟨_, challenge_committed hmode hmembers⟩⟩

end Verifier

/-! ## Both sides -/

/-- In the modes with a commitment a new prover answers only the challenge that was committed to,
and the challenge that a verifier sends is one that it committed to. -/
theorem only_committed_answered [DecidableEq E] (G : CyclicGroup E)
    (hmode : mode.usesCommitment = true) :
    (∀ secret base P, (Prover.start G mode secret base).run.Possible (.ok P) →
      ∃ a < G.order, P = ⟨mode, secret, base, G.exp base secret, .ready (.ofTrapdoor G a)⟩ ∧
        P.Guarded G a) ∧
    Verifier.Bound G mode := by
  refine ⟨?_, Verifier.bound hmode⟩
  rintro secret base P ⟨source, next, hstart⟩
  obtain ⟨a, ha, rfl⟩ := Prover.start_committing_eq_ok hmode hstart
  exact ⟨a, ha, rfl, Prover.guarded rfl⟩

/-- A prover in the last mode with the trapdoor 3: the challenge 5, which opens the commitment 9, is
answered with the trapdoor, and the challenge 4 with the same opening is not. -/
theorem only_committed_answered_squares23 :
    ∃ P, (Prover.start SchnorrGroup.squares23.group .zkpok 5 4).run.Possible (.ok P) ∧
      (∃ P', (Prover.party SchnorrGroup.squares23.group).Run P
        (Prover.preamble 18 9 18 ++ [.respond ⟨5, some 1⟩ (.ok ⟨6, some 3⟩)]) P') ∧
      ∀ answer P', (Prover.party SchnorrGroup.squares23.group).Run P
        (Prover.preamble 18 9 18 ++ [.respond ⟨4, some 1⟩ answer]) P' →
          ¬∃ response, answer = .ok response := by
  have hstart : (Prover.start SchnorrGroup.squares23.group .zkpok 5 4).run.Possible
      (.ok ⟨.zkpok, 5, 4, 12, .ready ⟨3, 18, none⟩⟩) :=
    Draw.possible_of_map ⟨fun _ => 0x35, 0, 1⟩ (by decide +kernel)
  obtain ⟨a, -, -, hguarded⟩ := (only_committed_answered SchnorrGroup.squares23.group
    (show ChallengeMode.zkpok.usesCommitment = true from rfl)).1 5 4 _ hstart
  refine ⟨_, hstart, ⟨⟨.zkpok, 5, 4, 12, .done⟩, ?_⟩, fun answer P' hrun => ?_⟩
  · refine .cons (show _ = (_, ⟨.zkpok, 5, 4, 12, .awaitingCommitment ⟨3, 18, none⟩⟩) from rfl) ?_
    refine .cons (show _ = (_, ⟨.zkpok, 5, 4, 12, .awaitingRandomData (some ⟨3, 18, some 9⟩)⟩) from
      by decide +kernel) ?_
    refine .cons (show Draw.Possible _ (_, ⟨.zkpok, 5, 4, 12,
      .awaitingChallenge (some ⟨3, 18, some 9⟩) 3⟩) from
        Draw.possible_of_map ⟨fun _ => 0x35, 0, 1⟩ (by decide +kernel)) ?_
    exact .cons (show _ = (_, _) from by decide +kernel) (.nil _)
  · rw [hguarded.answered_iff hrun]
    rintro ⟨c, x, hbefore, hopens⟩
    simp only [Prover.preamble, List.cons.injEq, Prover.Event.openingMessage.injEq,
      Prover.Event.setCommitment.injEq, Except.ok.injEq] at hbefore
    obtain ⟨h18, ⟨rfl, -⟩, -⟩ := hbefore
    rw [← h18] at hopens
    exact absurd hopens (by decide +kernel)

end AnonCred.Knowledge

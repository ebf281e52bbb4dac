import AnonCred.Knowledge.Verifier
import AnonCred.Proofs.Equality

/-!
# The proof of knowledge, call by call

What each call of the prover and of the verifier answers, and the state that it leaves. In the
plain mode, which is the only one that the parties of the pseudonym system use, the answer of a
prover is accepted whatever the challenge.

* `Prover.start_sigma`, `Prover.randomData_eq_ok`, `Prover.respond_eq_ok` — the calls of the prover
* `Verifier.challenge_eq_ok`, `Verifier.verify_awaiting` — the calls of the verifier
* `Prover.respond_eq_error`, `Verifier.challenge_eq_error` and their neighbours — why a call is refused
* `Verifier.verify_response` — the answer of the prover is accepted
-/

namespace AnonCred.Knowledge

open CyclicGroup

variable {E : Type} {G : CyclicGroup E} {source next : Source}

/-! ## The prover -/

namespace Prover

/-- A prover in the plain mode draws nothing when it starts. -/
theorem start_sigma_eq_ok {w : Nat} {base : E} {P : Prover E} :
    (start G .sigma w base).run source = some (.ok P, next) ↔
      w < G.order ∧ G.Member base ∧
        P = ⟨.sigma, w, base, G.exp base w, .awaitingRandomData none⟩ ∧ source = next := by
  show ((do
    G.checkScalar w "secret"
    G.validate base
    pure ⟨.sigma, w, base, G.exp base w, .awaitingRandomData none⟩ : Drawn (Prover E))).run source
      = _ ↔ _
  simp only [Drawn.bind_eq_ok, Drawn.except_eq_ok, Drawn.pure_eq_ok, G.checkScalar_eq_ok]
  constructor
  · rintro ⟨⟨⟩, _, ⟨hw, rfl⟩, ⟨⟩, _, ⟨hbase, rfl⟩, rfl, rfl⟩
    exact ⟨hw, hbase, rfl, rfl⟩
  · rintro ⟨hw, hbase, rfl, rfl⟩
    exact ⟨(), source, ⟨hw, rfl⟩, (), source, ⟨hbase, rfl⟩, rfl, rfl⟩

theorem start_sigma {w : Nat} {base : E} (hw : w < G.order) (hbase : G.Member base) :
    (start G .sigma w base).run source
      = some (.ok ⟨.sigma, w, base, G.exp base w, .awaitingRandomData none⟩, source) :=
  start_sigma_eq_ok.mpr ⟨hw, hbase, rfl, rfl⟩

/-- A new prover is at the first call of its mode. -/
theorem start_eq_ok {mode : ChallengeMode} {w : Nat} {base : E} {P : Prover E}
    (h : (start G mode w base).run source = some (.ok P, next)) :
    if mode.usesCommitment then ∃ receiver, P.state = .ready receiver
    else P.state = .awaitingRandomData none := by
  unfold start at h
  simp only [Drawn.bind_eq_ok] at h
  obtain ⟨-, _, -, -, _, -, h⟩ := h
  cases hmode : mode.usesCommitment with
  | true =>
    rw [hmode, if_pos rfl] at h
    obtain ⟨receiver, _, -, h⟩ := Drawn.bind_eq_ok.mp h
    obtain ⟨rfl, -⟩ := Drawn.pure_eq_ok.mp h
    exact ⟨receiver, rfl⟩
  | false =>
    rw [hmode, if_neg Bool.false_ne_true] at h
    obtain ⟨rfl, -⟩ := Drawn.pure_eq_ok.mp h
    rfl

theorem openingMessage_eq_ok {P P' : Prover E} {h : E} :
    P.openingMessage = (.ok h, P') ↔
      ∃ receiver, P.state = .ready receiver ∧ h = receiver.h ∧
        P' = { P with state := .awaitingCommitment receiver } := by
  unfold openingMessage
  rw [settle_eq_ok]
  split
  · next receiver hstate =>
    simp only [Except.ok.injEq, Prod.mk.injEq, hstate, ProverState.ready.injEq]
    constructor
    · rintro ⟨rfl, rfl⟩
      exact ⟨receiver, rfl, rfl, rfl⟩
    · rintro ⟨receiver', rfl, rfl, rfl⟩
      exact ⟨rfl, rfl⟩
  · next hstate =>
    constructor
    · intro h
      cases h
    · rintro ⟨receiver, h, -⟩
      exact absurd h (hstate receiver)

theorem openingMessage_eq_error {P P' : Prover E} {error : Error}
    (h : P.openingMessage = (.error error, P')) :
    P' = P.ended ∧ (∀ receiver, P.state ≠ .ready receiver) ∧ error.IsOutOfOrder := by
  unfold openingMessage at h
  obtain ⟨hrefused, rfl⟩ := settle_eq_error.mp h
  split at hrefused
  · cases hrefused
  · next hstate =>
    cases hrefused
    exact ⟨rfl, hstate, Error.isOutOfOrder _ _⟩

theorem setCommitment_eq_ok {P P' : Prover E} {c : E} :
    P.setCommitment G c = (.ok (), P') ↔
      ∃ receiver, P.state = .awaitingCommitment receiver ∧ G.Member c ∧
        P' = { P with
          state := .awaitingRandomData (some { receiver with commitment := some c }) } := by
  unfold setCommitment Pedersen.Receiver.setCommitment
  rw [settle_eq_ok]
  split
  · next receiver hstate =>
    simp only [except_bind_eq_ok, except_pure_eq_ok, Prod.mk.injEq, hstate,
      ProverState.awaitingCommitment.injEq]
    constructor
    · rintro ⟨_, ⟨⟨⟩, hc, rfl⟩, -, rfl⟩
      exact ⟨receiver, rfl, hc, rfl⟩
    · rintro ⟨_, rfl, hc, rfl⟩
      exact ⟨_, ⟨(), hc, rfl⟩, trivial, rfl⟩
  · next hstate =>
    constructor
    · intro h
      cases h
    · rintro ⟨receiver, h, -⟩
      exact absurd h (hstate receiver)

theorem setCommitment_eq_error {P P' : Prover E} {c : E} {error : Error}
    (h : P.setCommitment G c = (.error error, P')) :
    P' = P.ended ∧
      ((∃ receiver, P.state = .awaitingCommitment receiver ∧ G.validate c = .error error) ∨
        (∀ receiver, P.state ≠ .awaitingCommitment receiver) ∧ error.IsOutOfOrder) := by
  unfold setCommitment Pedersen.Receiver.setCommitment at h
  obtain ⟨hrefused, rfl⟩ := settle_eq_error.mp h
  refine ⟨rfl, ?_⟩
  split at hrefused
  · next receiver hstate =>
    simp only [except_bind_eq_error, except_pure_ne_error, and_false, exists_false,
      or_false] at hrefused
    exact .inl ⟨receiver, hstate, hrefused⟩
  · next hstate =>
    cases hrefused
    exact .inr ⟨hstate, Error.isOutOfOrder _ _⟩

theorem randomData_eq_ok {P P' : Prover E} {x : E} :
    P.randomData G source = some ((.ok x, P'), next) ↔
      ∃ receiver r, P.state = .awaitingRandomData receiver ∧
        G.randomScalar source = some (r, next) ∧ x = G.exp P.base r ∧
        P' = { P with state := .awaitingChallenge receiver r } := by
  unfold randomData
  rw [settleDrawn_eq_ok]
  split
  · next receiver hstate =>
    simp only [Drawn.bind_eq_ok, Drawn.draw_eq_ok, Drawn.pure_eq_ok, Prod.mk.injEq]
    constructor
    · rintro ⟨r, middle, hr, ⟨rfl, rfl⟩, rfl⟩
      exact ⟨receiver, r, hstate, hr, rfl, rfl⟩
    · rintro ⟨receiver', r, hstate', hr, rfl, rfl⟩
      rw [hstate] at hstate'
      cases hstate'
      exact ⟨r, next, hr, ⟨rfl, rfl⟩, rfl⟩
  · next hstate =>
    constructor
    · intro h
      exact absurd h Drawn.throw_ne_ok
    · rintro ⟨receiver, r, hawaiting, -⟩
      exact absurd hawaiting (hstate receiver)

theorem randomData_eq_error {P P' : Prover E} {error : Error}
    (h : P.randomData G source = some ((.error error, P'), next)) :
    P' = P.ended ∧ (∀ receiver, P.state ≠ .awaitingRandomData receiver) ∧ error.IsOutOfOrder := by
  unfold randomData at h
  obtain ⟨hrun, rfl⟩ := settleDrawn_eq_error.mp h
  split at hrun
  · simp only [Drawn.bind_eq_error, Drawn.draw_ne_error, Drawn.pure_ne_error, and_false,
      exists_false, or_false] at hrun
  · next hstate =>
    obtain ⟨rfl, -⟩ := Drawn.throw_eq_error.mp hrun
    exact ⟨rfl, hstate, Error.isOutOfOrder _ _⟩

/-- A prover that has to commit does so. -/
theorem randomData_answers {P : Prover E} {receiver : Option (Pedersen.Receiver E)}
    (hstate : P.state = .awaitingRandomData receiver) :
    Answers (P.randomData G) source fun x P' next => ∃ r, G.randomScalar source = some (r, next) ∧
      x = G.exp P.base r ∧ P' = { P with state := .awaitingChallenge receiver r } := by
  unfold randomData
  rw [hstate]
  refine Answers.settleDrawn (Drawn.Succeeds.bindDraw fun r middle hr => ?_)
  exact Drawn.Succeeds.pure ⟨r, hr, rfl, rfl⟩

/-- Where the receiver has the commitment, an opening fails for what it says only. -/
theorem checkOpening_eq_error [DecidableEq E] {challenge : Challenge}
    {receiver : Option (Pedersen.Receiver E)} {error : Error}
    (h : checkOpening G challenge receiver = .error error)
    (hcommitted : ∀ R ∈ receiver, R.commitment ≠ none) :
    error = .decommitment ∨ error = .protocol .openingInSigma := by
  unfold checkOpening at h
  split at h
  · next R =>
    split at h
    · cases h
      exact .inl rfl
    · rcases hcheck : R.check G ⟨challenge.e, _⟩ with error' | opens
      · -- the receiver complains only that it has no commitment
        unfold Pedersen.Receiver.check at hcheck
        split at hcheck
        · next hnone => exact absurd hnone (hcommitted R rfl)
        · cases hcheck
      · rw [hcheck] at h
        cases opens with
        | true => cases h
        | false =>
          cases h
          exact .inl rfl
  · split at h
    · cases h
    · cases h
      exact .inr rfl

theorem respond_eq_ok [DecidableEq E] {P P' : Prover E} {challenge : Challenge}
    {response : Response} :
    P.respond G challenge = (.ok response, P') ↔
      ∃ receiver r, P.state = .awaitingChallenge receiver r ∧ challenge.e < G.order ∧
        checkOpening G challenge receiver = .ok () ∧
        response = ⟨Arith.response r challenge.e P.secret G.order, disclosed P.mode receiver⟩ ∧
        P' = P.ended := by
  unfold respond
  rw [settle_eq_ok]
  split
  · next receiver r hstate =>
    simp only [except_bind_eq_ok, except_pure_eq_ok, G.checkScalar_eq_ok, Prod.mk.injEq, hstate,
      ProverState.awaitingChallenge.injEq]
    constructor
    · rintro ⟨-, he, ⟨⟩, hopening, rfl, rfl⟩
      exact ⟨receiver, r, ⟨rfl, rfl⟩, he, hopening, rfl, rfl⟩
    · rintro ⟨receiver', r', ⟨rfl, rfl⟩, he, hopening, rfl, rfl⟩
      exact ⟨(), he, (), hopening, rfl, rfl⟩
  · next hstate =>
    constructor
    · intro h
      cases h
    · rintro ⟨receiver, r, h, -⟩
      exact absurd h (hstate receiver r)

theorem respond_eq_error [DecidableEq E] {P P' : Prover E} {challenge : Challenge} {error : Error}
    (h : P.respond G challenge = (.error error, P')) :
    P' = P.ended ∧
      ((∃ receiver r, P.state = .awaitingChallenge receiver r ∧
        (G.checkScalar challenge.e "challenge" = .error error ∨
          checkOpening G challenge receiver = .error error)) ∨
      (∀ receiver r, P.state ≠ .awaitingChallenge receiver r) ∧ error.IsOutOfOrder) := by
  unfold respond at h
  obtain ⟨hrefused, rfl⟩ := settle_eq_error.mp h
  refine ⟨rfl, ?_⟩
  split at hrefused
  · next receiver r hstate =>
    simp only [except_bind_eq_error, except_pure_ne_error, and_false, exists_false,
      or_false] at hrefused
    rcases hrefused with hscalar | ⟨-, -, hopening⟩
    · exact .inl ⟨receiver, r, hstate, .inl hscalar⟩
    · exact .inl ⟨receiver, r, hstate, .inr hopening⟩
  · next hstate =>
    cases hrefused
    exact .inr ⟨hstate, Error.isOutOfOrder _ _⟩

/-- The answer to a challenge that comes without a commitment. -/
theorem respond_plain [DecidableEq E] {P : Prover E} {r e : Nat}
    (hstate : P.state = .awaitingChallenge none r) (he : e < G.order) :
    P.respond G ⟨e, none⟩
      = (.ok ⟨Arith.response r e P.secret G.order, none⟩, P.ended) := by
  unfold respond
  rw [hstate]
  dsimp only
  rw [G.checkScalar_eq_ok.mpr he]
  rfl

end Prover

/-! ## The verifier -/

namespace Verifier

theorem challenge_eq_ok {V V' : Verifier E} {base value x : E} {challenge : Challenge} :
    V.challenge G base value x source = some ((.ok challenge, V'), next) ↔
      G.Member base ∧ G.Member value ∧ G.Member x ∧
        ∃ h, (V.nextChallenge G).run source = some (.ok (challenge, h), next) ∧
          V' = { V with state := .awaitingResponse h base value x challenge.e } := by
  unfold Verifier.challenge
  rw [settleDrawn_eq_ok]
  simp only [Drawn.bind_eq_ok, Drawn.except_eq_ok, Drawn.pure_eq_ok, G.validateAll_eq_ok,
    Prod.mk.injEq, List.forall_mem_cons]
  constructor
  · rintro ⟨⟨challenge', h⟩, middle, hnext, -, after, ⟨⟨hbase, hvalue, hx, -⟩, rfl⟩,
      ⟨rfl, rfl⟩, rfl⟩
    exact ⟨hbase, hvalue, hx, h, hnext, rfl⟩
  · rintro ⟨hbase, hvalue, hx, h, hnext, rfl⟩
    exact ⟨(challenge, h), next, hnext, (), next, ⟨⟨hbase, hvalue, hx, by simp⟩, rfl⟩,
      ⟨rfl, rfl⟩, rfl⟩

theorem commitChallenge_eq_ok {V V' : Verifier E} {h c : E} :
    V.commitChallenge G h source = some ((.ok c, V'), next) ↔
      V.state = .ready ∧ V.mode.usesCommitment = true ∧ G.Member h ∧
        ∃ e r middle, G.randomScalar source = some (e, middle) ∧
          G.randomScalar middle = some (r, next) ∧ c = Pedersen.commitment G h e r ∧
          V' = { V with state := .awaitingRandomData h ⟨e, r⟩ } := by
  unfold commitChallenge
  rw [settleDrawn_eq_ok]
  split
  · next hstate =>
    split
    · next hmode =>
      simp only [Drawn.bind_eq_ok, Drawn.except_eq_ok, Drawn.draw_eq_ok, Drawn.pure_eq_ok,
        Prod.mk.injEq]
      constructor
      · rintro ⟨⟨⟩, _, ⟨hh, rfl⟩, e, middle, he, r, _, hr, ⟨rfl, rfl⟩, rfl⟩
        exact ⟨hstate, hmode, hh, e, r, middle, he, hr, rfl, rfl⟩
      · rintro ⟨-, -, hh, e, r, middle, he, hr, rfl, rfl⟩
        exact ⟨(), source, ⟨hh, rfl⟩, e, middle, he, r, next, hr, ⟨rfl, rfl⟩, rfl⟩
    · next hmode =>
      constructor
      · intro h
        exact absurd h Drawn.throw_ne_ok
      · rintro ⟨-, h, -⟩
        exact absurd h hmode
  · next hstate =>
    constructor
    · intro h
      exact absurd h Drawn.throw_ne_ok
    · rintro ⟨h, -⟩
      exact absurd h hstate

theorem commitChallenge_eq_error {V V' : Verifier E} {h : E} {error : Error}
    (hcall : V.commitChallenge G h source = some ((.error error, V'), next)) :
    V' = V.ended ∧
      (V.state = .ready ∧ V.mode.usesCommitment = true ∧ G.validate h = .error error ∨
        ¬(V.state = .ready ∧ V.mode.usesCommitment = true) ∧ error.IsOutOfOrder) := by
  unfold commitChallenge at hcall
  obtain ⟨hrun, rfl⟩ := settleDrawn_eq_error.mp hcall
  refine ⟨rfl, ?_⟩
  split at hrun
  · next hstate =>
    split at hrun
    · next hmode =>
      simp only [Drawn.bind_eq_error, Drawn.except_eq_error, Drawn.draw_ne_error,
        Drawn.pure_ne_error, and_false, exists_false, or_false] at hrun
      exact .inl ⟨hstate, hmode, hrun.1⟩
    · next hmode =>
      obtain ⟨rfl, -⟩ := Drawn.throw_eq_error.mp hrun
      exact .inr ⟨fun h => hmode h.2, Error.isOutOfOrder _ _⟩
  · next hstate =>
    obtain ⟨rfl, -⟩ := Drawn.throw_eq_error.mp hrun
    exact .inr ⟨fun h => hstate h.1, Error.isOutOfOrder _ _⟩

/-- The states in which a challenge can be sent: at once in the plain mode, and after the commitment
to it in the two others. -/
def Due (V : Verifier E) : Prop :=
  match V.state, V.mode.usesCommitment with
  | .ready, false => True
  | .awaitingRandomData _ _, true => True
  | _, _ => False

theorem nextChallenge_due {V : Verifier E} {challenge : Challenge} {h : Option E}
    (hnext : (V.nextChallenge G).run source = some (.ok (challenge, h), next)) : V.Due := by
  unfold nextChallenge at hnext
  split at hnext
  · next hstate hmode =>
    unfold Due
    rw [hstate, hmode]
    trivial
  · next hstate hmode =>
    unfold Due
    rw [hstate, hmode]
    trivial
  · exact absurd hnext Drawn.throw_ne_ok

theorem nextChallenge_eq_error {V : Verifier E} {error : Error}
    (hnext : (V.nextChallenge G).run source = some (.error error, next)) :
    ¬V.Due ∧ error.IsOutOfOrder := by
  unfold nextChallenge at hnext
  split at hnext
  · simp only [Drawn.bind_eq_error, Drawn.draw_ne_error, Drawn.pure_ne_error, and_false,
      exists_false, or_false] at hnext
  · exact absurd hnext Drawn.pure_ne_error
  · next hready hawaiting =>
    obtain ⟨rfl, -⟩ := Drawn.throw_eq_error.mp hnext
    refine ⟨?_, Error.isOutOfOrder _ _⟩
    unfold Due
    split
    · next hstate hmode => exact absurd hmode (hready hstate)
    · next hstate hmode => exact absurd hmode (hawaiting _ _ hstate)
    · exact id

theorem challenge_eq_error {V V' : Verifier E} {base value x : E} {error : Error}
    (h : V.challenge G base value x source = some ((.error error, V'), next)) :
    V' = V.ended ∧ (V.Due ∧ G.validateAll [base, value, x] = .error error ∨
      ¬V.Due ∧ error.IsOutOfOrder) := by
  unfold Verifier.challenge at h
  obtain ⟨hrun, rfl⟩ := settleDrawn_eq_error.mp h
  refine ⟨rfl, ?_⟩
  simp only [Drawn.bind_eq_error, Drawn.except_eq_error, Drawn.pure_ne_error, and_false,
    exists_false, or_false] at hrun
  rcases hrun with hnext | ⟨⟨challenge, h⟩, middle, hnext, hvalidate, -⟩
  · exact .inr (nextChallenge_eq_error hnext)
  · exact .inl ⟨nextChallenge_due hnext, hvalidate⟩

/-- In the plain mode a challenge is a random exponent. -/
theorem nextChallenge_sigma {challenge : Challenge} {h : Option E} :
    ((start .sigma : Verifier E).nextChallenge G).run source = some (.ok (challenge, h), next) ↔
      ∃ e, G.randomScalar source = some (e, next) ∧ challenge = ⟨e, none⟩ ∧ h = none := by
  show ((do
    let e ← G.randomScalar
    pure (⟨e, none⟩, none) : Drawn (Challenge × Option E))).run source = _ ↔ _
  simp only [Drawn.bind_eq_ok, Drawn.draw_eq_ok, Drawn.pure_eq_ok, Prod.mk.injEq]
  constructor
  · rintro ⟨e, middle, he, ⟨rfl, rfl⟩, rfl⟩
    exact ⟨e, he, rfl, rfl⟩
  · rintro ⟨e, he, rfl, rfl⟩
    exact ⟨e, next, he, ⟨rfl, rfl⟩, rfl⟩

theorem validateAll_statement {base value x : E} (hbase : G.Member base) (hvalue : G.Member value)
    (hx : G.Member x) : G.validateAll [base, value, x] = .ok () := by
  rw [G.validateAll_eq_ok]
  simp only [List.forall_mem_cons]
  exact ⟨hbase, hvalue, hx, by simp⟩

/-- A new verifier in the plain mode answers a statement about members. -/
theorem challenge_answers {base value x : E} (hbase : G.Member base) (hvalue : G.Member value)
    (hx : G.Member x) :
    Answers ((start .sigma).challenge G base value x) source fun challenge V' next =>
      ∃ e, G.randomScalar source = some (e, next) ∧ challenge = ⟨e, none⟩ ∧
        V' = ⟨.sigma, .awaitingResponse none base value x e⟩ := by
  refine Answers.settleDrawn ?_
  refine Drawn.Succeeds.bind (P := fun out next => ∃ e, G.randomScalar source = some (e, next) ∧
    out = (⟨e, none⟩, none)) ?_ ?_
  · refine Drawn.Succeeds.bindDraw fun e middle he => ?_
    exact Drawn.Succeeds.pure ⟨e, he, rfl⟩
  · rintro _ middle ⟨e, he, rfl⟩
    refine Drawn.Succeeds.bindExcept (validateAll_statement hbase hvalue hx) ?_
    exact Drawn.Succeeds.pure ⟨e, he, rfl, rfl⟩

variable [DecidableEq E]

theorem verify_awaiting (base value x : E) (e : Nat) (response : Response) :
    (Verifier.mk .sigma (.awaitingResponse none base value x e)).verify G response =
      (.ok (decide (response.z < G.order ∧ G.Responds base value x e response.z)),
        ⟨.sigma, .done⟩) := rfl

theorem verify_eq_ok {V V' : Verifier E} {response : Response} {accepted : Bool} :
    V.verify G response = (.ok accepted, V') ↔
      ∃ h base value x e, V.state = .awaitingResponse h base value x e ∧
        accepted = (trapdoorShown G V.mode h response.trapdoor &&
          decide (response.z < G.order ∧ G.Responds base value x e response.z)) ∧
        V' = V.ended := by
  unfold verify
  rw [settle_eq_ok]
  split
  · next h base value x e hstate =>
    simp only [Except.ok.injEq, Prod.mk.injEq, hstate, VerifierState.awaitingResponse.injEq]
    constructor
    · rintro ⟨rfl, rfl⟩
      exact ⟨h, base, value, x, e, ⟨rfl, rfl, rfl, rfl, rfl⟩, rfl, rfl⟩
    · rintro ⟨_, _, _, _, _, ⟨rfl, rfl, rfl, rfl, rfl⟩, rfl, rfl⟩
      exact ⟨rfl, rfl⟩
  · next hstate =>
    constructor
    · intro h
      cases h
    · rintro ⟨h, base, value, x, e, hawaiting, -⟩
      exact absurd hawaiting (hstate h base value x e)

theorem verify_eq_error {V V' : Verifier E} {response : Response} {error : Error}
    (h : V.verify G response = (.error error, V')) :
    V' = V.ended ∧ (∀ h base value x e, V.state ≠ .awaitingResponse h base value x e) ∧
      error.IsOutOfOrder := by
  unfold verify at h
  obtain ⟨hrefused, rfl⟩ := settle_eq_error.mp h
  split at hrefused
  · cases hrefused
  · next hstate =>
    cases hrefused
    exact ⟨rfl, hstate, Error.isOutOfOrder _ _⟩

/-- The answer of the prover is accepted, whatever the challenge. -/
theorem verify_response [Lawful G] (base : G.Element) (w r e : Nat) (trapdoor : Option Nat) :
    (Verifier.mk .sigma (.awaitingResponse none (base : E) (G.exp base w) (G.exp base r)
      e)).verify G ⟨Arith.response r e w G.order, trapdoor⟩ = (.ok true, ⟨.sigma, .done⟩) := by
  rw [verify_awaiting, decide_eq_true]
  exact ⟨Nat.mod_lt _ order_pos, Equality.Claim.responds_response base w r e⟩

end Verifier

end AnonCred.Knowledge

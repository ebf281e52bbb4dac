import AnonCred.Proofs.Party
import AnonCred.Proofs.Knowledge
import AnonCred.Proofs.Blinding

/-!
# The engines keep to their order

The two provers and the three verifiers as parties. Each of them goes through its states in one
direction and ends with the first refusal: a `schedule` reads off the state which moves are still to
come, and every call comes to what it says (`strict`).

A value that is not a member is refused with an error of the group. Which one that is the engines do
not ask (`CyclicGroup.Reports`).

* `Knowledge.Prover.strict`, `Knowledge.Verifier.strict` — in each mode
* `Equality.Prover.strict`, `Equality.Verifier.strict`, `Blinding.Verifier.strict`
-/

namespace AnonCred

variable {E : Type} {G : CyclicGroup E}

/-! ## Errors that are not about the order -/

/-- The group refuses some value with this error. -/
def CyclicGroup.Reports (G : CyclicGroup E) (error : Error) : Prop :=
  ∃ x, G.validate x = .error error

theorem CyclicGroup.reports_of_validateAll {xs : List E} {error : Error}
    (h : G.validateAll xs = .error error) : G.Reports error := by
  induction xs with
  | nil => cases h
  | cons x rest ih =>
    rw [validateAll, except_bind_eq_error] at h
    rcases h with hx | ⟨-, -, hrest⟩
    · exact ⟨x, hx⟩
    · exact ih hrest

theorem CyclicGroup.not_isOutOfOrder_of_checkScalar {k : Nat} {what : String} {error : Error}
    (h : G.checkScalar k what = .error error) : ¬error.IsOutOfOrder := by
  unfold checkScalar at h
  split at h
  · cases h
  · cases h
    rintro ⟨_, _, h⟩
    cases h

/-! ## The proof of knowledge: the prover -/

namespace Knowledge

/-- A receiver that is past the commitment has it. -/
def ProverState.Committed : ProverState E → Prop
  | .awaitingRandomData receiver => ∀ R ∈ receiver, R.commitment ≠ none
  | .awaitingChallenge receiver _ => ∀ R ∈ receiver, R.commitment ≠ none
  | _ => True

namespace Prover

/-- A call on a prover, with its answer. -/
inductive Event (E : Type)
  | openingMessage (answer : Except Error E)
  | setCommitment (c : E) (answer : Except Error Unit)
  | randomData (answer : Except Error E)
  | respond (challenge : Challenge) (answer : Except Error Response)

/-- The order of the calls in a mode. -/
def order (mode : ChallengeMode) : List Move :=
  if mode.usesCommitment then [.opening, .commitment, .randomData, .response]
  else [.randomData, .response]

def schedule : Schedule (Prover E) where
  Valid P := P.state.Committed
  rest P :=
    match P.state with
    | .ready _ => [.opening, .commitment, .randomData, .response]
    | .awaitingCommitment _ => [.commitment, .randomData, .response]
    | .awaitingRandomData _ => [.randomData, .response]
    | .awaitingChallenge _ _ => [.response]
    | .done => []

variable {P P' : Prover E}

theorem head_eq_opening : (schedule.rest P).head? = some .opening ↔
    ∃ receiver, P.state = .ready receiver := by
  cases hstate : P.state <;> simp [schedule, hstate]

theorem head_eq_commitment : (schedule.rest P).head? = some .commitment ↔
    ∃ receiver, P.state = .awaitingCommitment receiver := by
  cases hstate : P.state <;> simp [schedule, hstate]

theorem head_eq_randomData : (schedule.rest P).head? = some .randomData ↔
    ∃ receiver, P.state = .awaitingRandomData receiver := by
  cases hstate : P.state <;> simp [schedule, hstate]

theorem head_eq_response : (schedule.rest P).head? = some .response ↔
    ∃ receiver r, P.state = .awaitingChallenge receiver r := by
  cases hstate : P.state <;> simp [schedule, hstate]

theorem valid_ended : schedule.Valid P.ended := trivial

theorem rest_ended : schedule.rest P.ended = [] := rfl

theorem openingMessage_settles {answer : Except Error E} (h : P.openingMessage = (answer, P')) :
    schedule.Settles G.Reports .opening P (refusalOf answer) P' := by
  rcases answer with error | c
  · obtain ⟨rfl, hstate, hout⟩ := openingMessage_eq_error h
    refine .outOfTurn valid_ended rest_ended ?_ hout
    rw [Ne, head_eq_opening]
    exact not_exists.mpr hstate
  · obtain ⟨receiver, hstate, -, rfl⟩ := openingMessage_eq_ok.mp h
    exact .answered trivial (by simp [schedule, hstate])

theorem setCommitment_settles {c : E} {answer : Except Error Unit}
    (h : P.setCommitment G c = (answer, P')) :
    schedule.Settles G.Reports .commitment P (refusalOf answer) P' := by
  rcases answer with error | ⟨⟩
  · obtain ⟨rfl, ⟨receiver, hstate, hc⟩ | ⟨hstate, hout⟩⟩ := setCommitment_eq_error h
    · exact .failed valid_ended rest_ended (head_eq_commitment.mpr ⟨receiver, hstate⟩)
        fun _ => ⟨c, hc⟩
    · refine .outOfTurn valid_ended rest_ended ?_ hout
      rw [Ne, head_eq_commitment]
      exact not_exists.mpr hstate
  · obtain ⟨receiver, hstate, -, rfl⟩ := setCommitment_eq_ok.mp h
    refine .answered ?_ (by simp [schedule, hstate])
    rintro _ ⟨⟩
    exact Option.some_ne_none c

theorem randomData_settles {answer : Except Error E} (hvalid : schedule.Valid P)
    (h : (P.randomData G).Possible (answer, P')) :
    schedule.Settles G.Reports .randomData P (refusalOf answer) P' := by
  obtain ⟨source, next, h⟩ := h
  rcases answer with error | x
  · obtain ⟨rfl, hstate, hout⟩ := randomData_eq_error h
    refine .outOfTurn valid_ended rest_ended ?_ hout
    rw [Ne, head_eq_randomData]
    exact not_exists.mpr hstate
  · obtain ⟨receiver, r, hstate, -, -, rfl⟩ := randomData_eq_ok.mp h
    refine .answered ?_ (by simp [schedule, hstate])
    -- the receiver is the one that the state had before
    change P.state.Committed at hvalid
    rw [hstate] at hvalid
    exact hvalid

variable [DecidableEq E]

theorem respond_settles {challenge : Challenge} {answer : Except Error Response}
    (hvalid : schedule.Valid P) (h : P.respond G challenge = (answer, P')) :
    schedule.Settles G.Reports .response P (refusalOf answer) P' := by
  rcases answer with error | response
  · obtain ⟨rfl, ⟨receiver, r, hstate, hfailed⟩ | ⟨hstate, hout⟩⟩ := respond_eq_error h
    · refine .failed valid_ended rest_ended (head_eq_response.mpr ⟨receiver, r, hstate⟩) ?_
      intro hout
      rcases hfailed with hscalar | hopening
      · exact absurd hout (CyclicGroup.not_isOutOfOrder_of_checkScalar hscalar)
      · -- with a commitment at hand, the opening is refused for what it says
        change P.state.Committed at hvalid
        rw [hstate] at hvalid
        obtain ⟨_, _, hout⟩ := hout
        rcases checkOpening_eq_error hopening hvalid with rfl | rfl
        · cases hout
        · cases hout
    · refine .outOfTurn valid_ended rest_ended ?_ hout
      rw [Ne, head_eq_response]
      rintro ⟨receiver, r, h⟩
      exact hstate receiver r h
  · obtain ⟨receiver, r, hstate, -, -, -, rfl⟩ := respond_eq_ok.mp h
    exact .answered valid_ended (by simp [schedule, hstate, ended])

/-- The prover as a party. -/
def party (G : CyclicGroup E) : Party (Prover E) (Event E) where
  Step P event P' :=
    match event with
    | .openingMessage answer => P.openingMessage = (answer, P')
    | .setCommitment c answer => P.setCommitment G c = (answer, P')
    | .randomData answer => (P.randomData G).Possible (answer, P')
    | .respond challenge answer => P.respond G challenge = (answer, P')
  move
    | .openingMessage _ => .opening
    | .setCommitment _ _ => .commitment
    | .randomData _ => .randomData
    | .respond _ _ => .response
  refusal
    | .openingMessage answer => refusalOf answer
    | .setCommitment _ answer => refusalOf answer
    | .randomData answer => refusalOf answer
    | .respond _ answer => refusalOf answer

theorem strict : (party G).Strict schedule G.Reports := by
  intro P event P' hvalid hstep
  cases event with
  | openingMessage answer => exact openingMessage_settles hstep
  | setCommitment c answer => exact setCommitment_settles hstep
  | randomData answer => exact randomData_settles hvalid hstep
  | respond challenge answer => exact respond_settles hvalid hstep

omit [DecidableEq E] in
/-- A new prover is at the first call of its order. -/
theorem start_order {mode : ChallengeMode}
    (h : ∃ secret base, (start G mode secret base).run.Possible (.ok P)) :
    schedule.Valid P ∧ schedule.rest P = order mode := by
  obtain ⟨secret, base, source, next, h⟩ := h
  have hstate := start_eq_ok h
  unfold order
  cases hmode : mode.usesCommitment with
  | true =>
    rw [hmode, if_pos rfl] at hstate
    obtain ⟨receiver, hstate⟩ := hstate
    simp [schedule, hstate, ProverState.Committed]
  | false =>
    rw [hmode, if_neg Bool.false_ne_true] at hstate
    simp [schedule, hstate, ProverState.Committed]

end Prover

/-! ## The proof of knowledge: the verifier -/

namespace Verifier

/-- A call on a verifier, with its answer. -/
inductive Event (E : Type)
  | commitChallenge (h : E) (answer : Except Error E)
  | challenge (base value x : E) (answer : Except Error Challenge)
  | verify (response : Response) (answer : Except Error Bool)

/-- The order of the calls in a mode. -/
def order (mode : ChallengeMode) : List Move :=
  if mode.usesCommitment then [.commitment, .challenge, .verification]
  else [.challenge, .verification]

def schedule : Schedule (Verifier E) where
  Valid _ := True
  rest V :=
    match V.state with
    | .ready => order V.mode
    | .awaitingRandomData _ _ =>
      if V.mode.usesCommitment then [.challenge, .verification] else []
    | .awaitingResponse _ _ _ _ _ => [.verification]
    | .done => []

variable {V V' : Verifier E}

theorem head_eq_commitment : (schedule.rest V).head? = some .commitment ↔
    V.state = .ready ∧ V.mode.usesCommitment = true := by
  cases hstate : V.state <;> cases hmode : V.mode.usesCommitment <;>
    simp [schedule, order, hstate, hmode]

theorem head_eq_challenge : (schedule.rest V).head? = some .challenge ↔ V.Due := by
  unfold Due
  cases hstate : V.state <;> cases hmode : V.mode.usesCommitment <;>
    simp [schedule, order, hstate, hmode]

theorem rest_of_due (h : V.Due) : schedule.rest V = [.challenge, .verification] := by
  unfold Due at h
  cases hstate : V.state <;> cases hmode : V.mode.usesCommitment <;>
    simp_all [schedule, order]

theorem head_eq_verification : (schedule.rest V).head? = some .verification ↔
    ∃ h base value x e, V.state = .awaitingResponse h base value x e := by
  cases hstate : V.state <;> cases hmode : V.mode.usesCommitment <;>
    simp [schedule, order, hstate, hmode]

theorem valid (V : Verifier E) : schedule.Valid V := trivial

theorem rest_ended : schedule.rest V.ended = [] := rfl

theorem commitChallenge_settles {h : E} {answer : Except Error E}
    (hcall : (V.commitChallenge G h).Possible (answer, V')) :
    schedule.Settles G.Reports .commitment V (refusalOf answer) V' := by
  obtain ⟨source, next, hcall⟩ := hcall
  rcases answer with error | c
  · obtain ⟨rfl, ⟨hstate, hmode, hh⟩ | ⟨hturn, hout⟩⟩ := commitChallenge_eq_error hcall
    · exact .failed (valid _) rest_ended (head_eq_commitment.mpr ⟨hstate, hmode⟩) fun _ => ⟨h, hh⟩
    · exact .outOfTurn (valid _) rest_ended (fun h => hturn (head_eq_commitment.mp h)) hout
  · obtain ⟨hstate, hmode, -, e, r, -, -, -, -, rfl⟩ := commitChallenge_eq_ok.mp hcall
    exact .answered (valid _) (by simp [schedule, order, hstate, hmode])

theorem challenge_settles {base value x : E} {answer : Except Error Challenge}
    (h : (V.challenge G base value x).Possible (answer, V')) :
    schedule.Settles G.Reports .challenge V (refusalOf answer) V' := by
  obtain ⟨source, next, h⟩ := h
  rcases answer with error | challenge
  · obtain ⟨rfl, ⟨hdue, hvalidate⟩ | ⟨hdue, hout⟩⟩ := challenge_eq_error h
    · exact .failed (valid _) rest_ended (head_eq_challenge.mpr hdue)
        fun _ => CyclicGroup.reports_of_validateAll hvalidate
    · exact .outOfTurn (valid _) rest_ended (fun h => hdue (head_eq_challenge.mp h)) hout
  · obtain ⟨-, -, -, h, hnext, rfl⟩ := challenge_eq_ok.mp h
    exact .answered (valid _) (rest_of_due (nextChallenge_due hnext))

variable [DecidableEq E]

theorem verify_settles {response : Response} {answer : Except Error Bool}
    (h : V.verify G response = (answer, V')) :
    schedule.Settles G.Reports .verification V (refusalOf answer) V' := by
  rcases answer with error | accepted
  · obtain ⟨rfl, hstate, hout⟩ := verify_eq_error h
    refine .outOfTurn (valid _) rest_ended ?_ hout
    rw [Ne, head_eq_verification]
    rintro ⟨h, base, value, x, e, hawaiting⟩
    exact hstate h base value x e hawaiting
  · obtain ⟨_, _, _, _, _, hstate, -, rfl⟩ := verify_eq_ok.mp h
    exact .answered (valid _) (by simp [schedule, hstate, ended])

/-- The verifier as a party. -/
def party (G : CyclicGroup E) : Party (Verifier E) (Event E) where
  Step V event V' :=
    match event with
    | .commitChallenge h answer => (V.commitChallenge G h).Possible (answer, V')
    | .challenge base value x answer => (V.challenge G base value x).Possible (answer, V')
    | .verify response answer => V.verify G response = (answer, V')
  move
    | .commitChallenge _ _ => .commitment
    | .challenge _ _ _ _ => .challenge
    | .verify _ _ => .verification
  refusal
    | .commitChallenge _ answer => refusalOf answer
    | .challenge _ _ _ answer => refusalOf answer
    | .verify _ answer => refusalOf answer

theorem strict : (party G).Strict schedule G.Reports := by
  intro V event V' _ hstep
  cases event with
  | commitChallenge h answer => exact commitChallenge_settles hstep
  | challenge base value x answer => exact challenge_settles hstep
  | verify response answer => exact verify_settles hstep

end Verifier

end Knowledge

/-! ## The proof of equal exponents -/

namespace Equality

namespace Prover

/-- A call on a prover, with its answer. -/
inductive Event (E : Type)
  | randomData (answer : Except Error (E × E))
  | respond (e : Nat) (answer : Except Error Nat)

def schedule : Schedule (Prover E) where
  Valid _ := True
  rest P :=
    match P.state with
    | .fresh => [.randomData, .response]
    | .committed _ => [.response]
    | .finished => []

variable {P P' : Prover E}

theorem head_eq_randomData : (schedule.rest P).head? = some .randomData ↔ P.state = .fresh := by
  cases hstate : P.state <;> simp [schedule, hstate]

theorem head_eq_response :
    (schedule.rest P).head? = some .response ↔ ∃ r, P.state = .committed r := by
  cases hstate : P.state <;> simp [schedule, hstate]

theorem valid (P : Prover E) : schedule.Valid P := trivial

theorem rest_ended : schedule.rest P.ended = [] := rfl

theorem randomData_settles {answer : Except Error (E × E)}
    (h : (P.randomData G).Possible (answer, P')) :
    schedule.Settles G.Reports .randomData P (refusalOf answer) P' := by
  obtain ⟨source, next, h⟩ := h
  rcases answer with error | xs
  · obtain ⟨rfl, hstate, hout⟩ := randomData_eq_error h
    exact .outOfTurn (valid _) rest_ended (fun h => hstate (head_eq_randomData.mp h)) hout
  · obtain ⟨hstate, r, -, -, rfl⟩ := randomData_eq_ok.mp h
    exact .answered (valid _) (by simp [schedule, hstate])

theorem respond_settles {e : Nat} {answer : Except Error Nat} (h : P.respond G e = (answer, P')) :
    schedule.Settles G.Reports .response P (refusalOf answer) P' := by
  rcases answer with error | z
  · obtain ⟨rfl, ⟨r, hstate, hscalar⟩ | ⟨hstate, hout⟩⟩ := respond_eq_error h
    · exact .failed (valid _) rest_ended (head_eq_response.mpr ⟨r, hstate⟩)
        fun hout => absurd hout (CyclicGroup.not_isOutOfOrder_of_checkScalar hscalar)
    · refine .outOfTurn (valid _) rest_ended ?_ hout
      rw [Ne, head_eq_response]
      exact not_exists.mpr hstate
  · obtain ⟨r, hstate, -, -, rfl⟩ := respond_eq_ok.mp h
    exact .answered (valid _) (by simp [schedule, hstate, ended])

/-- The prover as a party. -/
def party (G : CyclicGroup E) : Party (Prover E) (Event E) where
  Step P event P' :=
    match event with
    | .randomData answer => (P.randomData G).Possible (answer, P')
    | .respond e answer => P.respond G e = (answer, P')
  move
    | .randomData _ => .randomData
    | .respond _ _ => .response
  refusal
    | .randomData answer => refusalOf answer
    | .respond _ answer => refusalOf answer

theorem strict : (party G).Strict schedule G.Reports := by
  intro P event P' _ hstep
  cases event with
  | randomData answer => exact randomData_settles hstep
  | respond e answer => exact respond_settles hstep

end Prover

namespace Verifier

/-- A call on a verifier, with its answer. -/
inductive Event (E : Type)
  | challenge (claim : Claim E) (answer : Except Error Nat)
  | verify (z : Nat) (answer : Except Error Bool)

def schedule : Schedule (Verifier E) where
  Valid _ := True
  rest
    | .ready => [.challenge, .verification]
    | .awaitingResponse _ _ => [.verification]
    | .done => []

variable {V V' : Verifier E}

theorem head_eq_challenge : (schedule.rest V).head? = some .challenge ↔ V = .ready := by
  cases V <;> simp [schedule]

theorem head_eq_verification : (schedule.rest V).head? = some .verification ↔
    ∃ claim e, V = .awaitingResponse claim e := by
  cases V <;> simp [schedule]

theorem valid (V : Verifier E) : schedule.Valid V := trivial

theorem rest_done : schedule.rest (.done : Verifier E) = [] := rfl

theorem challenge_settles {claim : Claim E} {answer : Except Error Nat}
    (h : (V.challenge G claim).Possible (answer, V')) :
    schedule.Settles G.Reports .challenge V (refusalOf answer) V' := by
  obtain ⟨source, next, h⟩ := h
  rcases answer with error | e
  · obtain ⟨rfl, ⟨hstate, hvalidate⟩ | ⟨hstate, hout⟩⟩ := challenge_eq_error h
    · exact .failed (valid _) rest_done (head_eq_challenge.mpr hstate)
        fun _ => CyclicGroup.reports_of_validateAll hvalidate
    · exact .outOfTurn (valid _) rest_done (fun h => hstate (head_eq_challenge.mp h)) hout
  · obtain ⟨rfl, -, -, rfl⟩ := challenge_eq_ok.mp h
    exact .answered (valid _) rfl

variable [DecidableEq E]

theorem verify_settles {z : Nat} {answer : Except Error Bool} (h : V.verify G z = (answer, V')) :
    schedule.Settles G.Reports .verification V (refusalOf answer) V' := by
  rcases answer with error | accepted
  · obtain ⟨rfl, hstate, hout⟩ := verify_eq_error h
    refine .outOfTurn (valid _) rest_done ?_ hout
    rw [Ne, head_eq_verification]
    rintro ⟨claim, e, h⟩
    exact hstate claim e h
  · obtain ⟨claim, e, rfl, -, rfl⟩ := verify_eq_ok.mp h
    exact .answered (valid _) rfl

/-- The verifier as a party. -/
def party (G : CyclicGroup E) : Party (Verifier E) (Event E) where
  Step V event V' :=
    match event with
    | .challenge claim answer => (V.challenge G claim).Possible (answer, V')
    | .verify z answer => V.verify G z = (answer, V')
  move
    | .challenge _ _ => .challenge
    | .verify _ _ => .verification
  refusal
    | .challenge _ answer => refusalOf answer
    | .verify _ answer => refusalOf answer

theorem strict : (party G).Strict schedule G.Reports := by
  intro V event V' _ hstep
  cases event with
  | challenge claim answer => exact challenge_settles hstep
  | verify z answer => exact verify_settles hstep

end Verifier

end Equality

/-! ## The blinding verifier -/

namespace Blinding.Verifier

/-- A call on a blinding verifier, with its answer. -/
inductive Event (E : Type)
  | challenge (claim : Equality.Claim E) (answer : Except Error Nat)
  | verify (z : Nat) (answer : Except Error (Option (Blinded E)))

def schedule : Schedule (Verifier E) where
  Valid _ := True
  rest V :=
    match V.state with
    | .ready => [.challenge, .verification]
    | .awaitingResponse _ => [.verification]
    | .done => []

variable {V V' : Verifier E}

theorem head_eq_challenge : (schedule.rest V).head? = some .challenge ↔ V.state = .ready := by
  cases hstate : V.state <;> simp [schedule, hstate]

theorem head_eq_verification : (schedule.rest V).head? = some .verification ↔
    ∃ p, V.state = .awaitingResponse p := by
  cases hstate : V.state <;> simp [schedule, hstate]

theorem valid (V : Verifier E) : schedule.Valid V := trivial

theorem rest_ended : schedule.rest V.ended = [] := rfl

theorem challenge_settles {claim : Equality.Claim E} {answer : Except Error Nat}
    (h : (V.challenge G claim).Possible (answer, V')) :
    schedule.Settles G.Reports .challenge V (refusalOf answer) V' := by
  obtain ⟨source, next, h⟩ := h
  rcases answer with error | e
  · obtain ⟨rfl, ⟨hstate, hvalidate⟩ | ⟨hstate, hout⟩⟩ := challenge_eq_error h
    · exact .failed (valid _) rest_ended (head_eq_challenge.mpr hstate)
        fun _ => CyclicGroup.reports_of_validateAll hvalidate
    · exact .outOfTurn (valid _) rest_ended (fun h => hstate (head_eq_challenge.mp h)) hout
  · obtain ⟨hstate, -, alpha, beta, -, -, -, -, rfl⟩ := challenge_eq_ok.mp h
    exact .answered (valid _) (by simp [schedule, hstate])

variable [DecidableEq E]

theorem verify_settles {z : Nat} {answer : Except Error (Option (Blinded E))}
    (h : V.verify G z = (answer, V')) :
    schedule.Settles G.Reports .verification V (refusalOf answer) V' := by
  rcases answer with error | blinded
  · obtain ⟨rfl, hstate, hout⟩ := verify_eq_error h
    refine .outOfTurn (valid _) rest_ended ?_ hout
    rw [Ne, head_eq_verification]
    exact not_exists.mpr hstate
  · obtain ⟨p, hstate, -, rfl⟩ := verify_eq_ok.mp h
    exact .answered (valid _) (by simp [schedule, hstate, ended])

/-- The blinding verifier as a party. -/
def party (G : CyclicGroup E) : Party (Verifier E) (Event E) where
  Step V event V' :=
    match event with
    | .challenge claim answer => (V.challenge G claim).Possible (answer, V')
    | .verify z answer => V.verify G z = (answer, V')
  move
    | .challenge _ _ => .challenge
    | .verify _ _ => .verification
  refusal
    | .challenge _ answer => refusalOf answer
    | .verify _ answer => refusalOf answer

theorem strict : (party G).Strict schedule G.Reports := by
  intro V event V' _ hstep
  cases event with
  | challenge claim answer => exact challenge_settles hstep
  | verify z answer => exact verify_settles hstep

end Blinding.Verifier

end AnonCred

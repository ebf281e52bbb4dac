import AnonCred.Proofs.Party.Engines
import AnonCred.Proofs.Credential.Registration
import AnonCred.Proofs.Credential.Request

/-!
# Sessions that are good for one use

A registration and a request for a credential are made of engines, and end with the first refusal as
the engines do. The request is used up by its last call, so its state is an `Option`.

* `Registrar.strict`, `CredentialRequest.strict` — both keep to their order
* `sessions_single_use` — the engines and the two sessions are good for one pass through their order,
  and no prover answers two challenges
-/

namespace AnonCred

open CyclicGroup

variable {E : Type} {G : CyclicGroup E}

/-! ## Registration -/

namespace Registrar

/-- A call on a session, with its answer. -/
inductive Event (E : Type)
  | challenge (nym : Pseudonym E) (certificate : Certificate E) (x1 x2 : E)
    (answer : Except Error Nat)
  | verify (z : Nat) (answer : Except Error Bool)

/-- The moves to come are those of the verifier while the session is open. An open session does not
have a verifier that is done. -/
def schedule : Schedule (Registrar E) where
  Valid R := R.verifier ≠ some .done
  rest R := R.verifier.elim [] Equality.Verifier.schedule.rest

theorem valid_ended (R : Registrar E) : schedule.Valid R.ended := Option.some_ne_none _ |>.symm

theorem rest_ended (R : Registrar E) : schedule.rest R.ended = [] := rfl

theorem rest_of_none {R : Registrar E} (h : R.verifier = none) : schedule.rest R = [] := by
  simp [schedule, h]

theorem rest_of_some {R : Registrar E} {verifier : Equality.Verifier E}
    (h : R.verifier = some verifier) :
    schedule.rest R = Equality.Verifier.schedule.rest verifier := by
  simp [schedule, h]

variable [DecidableEq E] {R R' : Registrar E}

theorem challenge_settles {nym : Pseudonym E} {certificate : Certificate E} {x1 x2 : E}
    {answer : Except Error Nat} (hvalid : schedule.Valid R)
    (h : (R.challenge G nym certificate x1 x2).Possible (answer, R')) :
    schedule.Settles G.Reports .challenge R (refusalOf answer) R' := by
  obtain ⟨source, next, h⟩ := h
  rcases answer with error | e
  · obtain ⟨rfl, ⟨hnone, hout⟩ | ⟨verifier, hsome, hrefused⟩⟩ := challenge_eq_error h
    · refine .outOfTurn (valid_ended R) (rest_ended R) ?_ hout
      rw [rest_of_none hnone]
      exact Option.some_ne_none _ |>.symm
    rcases hrefused with hcheck | ⟨verifier', hchallenge⟩
    · -- the statement is looked at first, in whatever state the verifier is
      refine .refused (valid_ended R) (rest_ended R) ?_ ?_
      · intro hrest
        rw [rest_of_some hsome] at hrest
        cases verifier with
        | done => exact absurd hsome hvalid
        | _ => cases hrest
      · rintro - ⟨_, _, rfl⟩
        rcases checkStatement_eq_error hcheck with hsignature | ⟨what, hidentity⟩
        · cases hsignature
        · cases hidentity
    · cases Equality.Verifier.challenge_settles ⟨source, next, hchallenge⟩ with
      | refused _ _ late inTurn =>
        rw [← rest_of_some hsome] at late inTurn
        exact .refused (valid_ended R) (rest_ended R) late inTurn
  · obtain ⟨verifier, verifier', hsome, -, hchallenge, rfl⟩ := challenge_eq_ok.mp h
    obtain ⟨rfl, -, -, rfl⟩ := Equality.Verifier.challenge_eq_ok.mp hchallenge
    refine .answered ?_ (rest_of_some hsome)
    rintro ⟨⟩

theorem verify_settles {z : Nat} {answer : Except Error Bool} (h : R.verify G z = (answer, R')) :
    schedule.Settles G.Reports .verification R (refusalOf answer) R' := by
  rcases answer with error | accepted
  · obtain ⟨rfl, ⟨hnone, hout⟩ | ⟨verifier, hsome, hrefused⟩⟩ := verify_eq_error h
    · refine .outOfTurn (valid_ended R) (rest_ended R) ?_ hout
      rw [rest_of_none hnone]
      exact Option.some_ne_none _ |>.symm
    · cases Equality.Verifier.verify_settles (eq_of_fst_eq hrefused) with
      | refused _ _ late inTurn =>
        rw [← rest_of_some hsome] at late inTurn
        exact .refused (valid_ended R) (rest_ended R) late inTurn
  · obtain ⟨verifier, hsome, haccepted, rfl⟩ := verify_eq_ok.mp h
    obtain ⟨claim, e, rfl, -, -⟩ := Equality.Verifier.verify_eq_ok.mp (eq_of_fst_eq haccepted)
    exact .answered (valid_ended R) (rest_of_some hsome)

/-- The session as a party. -/
def party (G : CyclicGroup E) : Party (Registrar E) (Event E) where
  Step R event R' :=
    match event with
    | .challenge nym certificate x1 x2 answer =>
      (R.challenge G nym certificate x1 x2).Possible (answer, R')
    | .verify z answer => R.verify G z = (answer, R')
  move
    | .challenge _ _ _ _ _ => .challenge
    | .verify _ _ => .verification
  refusal
    | .challenge _ _ _ _ answer => refusalOf answer
    | .verify _ answer => refusalOf answer

theorem strict : (party G).Strict schedule G.Reports := by
  intro R event R' hvalid hstep
  cases event with
  | challenge nym certificate x1 x2 answer => exact challenge_settles hvalid hstep
  | verify z answer => exact verify_settles hstep

end Registrar

/-! ## Requests -/

namespace CredentialRequest

open Blinding

/-- A call on a request, with its answer. -/
inductive Event (E : Type)
  | challenges (c : IssuanceCommitments E) (answer : Except Error (Nat × Nat))
  | finish (z1 z2 : Nat) (answer : Except Error (Credential E))

/-- The two blinding verifiers start together, and both wait once both have sent a challenge, unless
the first one is over. -/
structure InStep (Q : CredentialRequest E) : Prop where
  ready : Q.first.state = .ready → Q.second.state = .ready ∧ Q.challenged = false
  waiting : ∀ p, Q.first.state = .awaitingResponse p → Q.challenged = true →
    ∃ p', Q.second.state = .awaitingResponse p'

def schedule : Schedule (Option (CredentialRequest E)) where
  Valid Q := ∀ request ∈ Q, request.InStep
  rest
    | none => []
    | some Q =>
      match Q.first.state with
      | .ready => [.challenge, .verification]
      | .awaitingResponse _ => if Q.challenged then [.verification] else []
      | .done => []

theorem valid_none : schedule.Valid (none : Option (CredentialRequest E)) := by
  rintro _ ⟨⟩

theorem valid_some {Q : CredentialRequest E} : schedule.Valid (some Q) ↔ Q.InStep := by
  simp [schedule]

theorem head_eq_challenge {Q : CredentialRequest E} :
    (schedule.rest (some Q)).head? = some .challenge ↔ Q.first.state = .ready := by
  cases hstate : Q.first.state <;> cases hchallenged : Q.challenged <;>
    simp [schedule, hstate, hchallenged]

theorem head_eq_verification {Q : CredentialRequest E} :
    (schedule.rest (some Q)).head? = some .verification ↔
      Q.challenged = true ∧ ∃ p, Q.first.state = .awaitingResponse p := by
  cases hstate : Q.first.state <;> cases hchallenged : Q.challenged <;>
    simp [schedule, hstate, hchallenged]

/-- A request whose first verifier is over is over. -/
theorem inStep_of_done {Q : CredentialRequest E} (h : Q.first.state = .done) : Q.InStep where
  ready hready := by rw [h] at hready; cases hready
  waiting p hwaiting := by rw [h] at hwaiting; cases hwaiting

theorem challenges_settles {Q Q' : CredentialRequest E} {c : IssuanceCommitments E}
    {answer : Except Error (Nat × Nat)} (hvalid : schedule.Valid (some Q))
    (h : (Q.challenges G c).Possible (answer, Q')) :
    schedule.Settles G.Reports .challenge (some Q) (refusalOf answer) (some Q') := by
  have hstep := valid_some.mp hvalid
  obtain ⟨source, next, h⟩ := h
  rcases answer with error | ⟨e1, e2⟩
  · rcases challenges_eq_error h with ⟨first, hfirst, rfl⟩ |
      ⟨e1, first, second, middle, hfirst, hsecond, rfl⟩
    · obtain ⟨rfl, ⟨hready, hvalidate⟩ | ⟨hready, hout⟩⟩ := Verifier.challenge_eq_error hfirst
      · exact .failed (valid_some.mpr (inStep_of_done rfl)) rfl (head_eq_challenge.mpr hready)
          fun _ => reports_of_validateAll hvalidate
      · exact .outOfTurn (valid_some.mpr (inStep_of_done rfl)) rfl
          (fun h => hready (head_eq_challenge.mp h)) hout
    · -- the second verifier is ready like the first one, so it refuses the claim itself
      obtain ⟨hready, -, alpha, beta, -, -, -, -, rfl⟩ := Verifier.challenge_eq_ok.mp hfirst
      obtain ⟨hready2, hchallenged⟩ := hstep.ready hready
      obtain ⟨rfl, ⟨-, hvalidate⟩ | ⟨hturn, -⟩⟩ := Verifier.challenge_eq_error hsecond
      · refine .failed (valid_some.mpr ⟨?_, ?_⟩) ?_ (head_eq_challenge.mpr hready)
          fun _ => reports_of_validateAll hvalidate
        · rintro ⟨⟩
        · intro p _ htrue
          rw [show Q.challenged = true from htrue] at hchallenged
          cases hchallenged
        · simp [schedule, hchallenged]
      · exact absurd hready2 hturn
  · obtain ⟨first, second, middle, hfirst, hsecond, rfl⟩ := challenges_eq_some.mp h
    obtain ⟨hready, -, alpha, beta, -, -, -, -, rfl⟩ := Verifier.challenge_eq_ok.mp hfirst
    obtain ⟨-, -, alpha', beta', -, -, -, -, rfl⟩ := Verifier.challenge_eq_ok.mp hsecond
    refine .answered (valid_some.mpr ⟨?_, ?_⟩) (by simp [schedule, hready])
    · rintro ⟨⟩
    · intro p _ _
      exact ⟨_, rfl⟩

variable [DecidableEq E]

theorem finish_settles {Q : CredentialRequest E} {z1 z2 : Nat}
    {answer : Except Error (Credential E)} (hvalid : schedule.Valid (some Q))
    (h : Q.finish G z1 z2 = answer) :
    schedule.Settles G.Reports .verification (some Q) (refusalOf answer) none := by
  have hstep := valid_some.mp hvalid
  rcases answer with error | credential
  · rcases finish_eq_error h with ⟨hchallenged, hout⟩ | ⟨hchallenged, hrefused⟩
    · refine .outOfTurn valid_none rfl ?_ hout
      rw [Ne, head_eq_verification, hchallenged]
      rintro ⟨h, -⟩
      cases h
    rcases hrefused with hfirst | hsecond | ⟨first, second, hfirst, hsecond, cause, rfl⟩
    · obtain ⟨-, hstate, hout⟩ := Verifier.verify_eq_error (eq_of_fst_eq hfirst)
      refine .outOfTurn valid_none rfl ?_ hout
      rw [Ne, head_eq_verification]
      rintro ⟨-, p, h⟩
      exact hstate p h
    · -- where the second verifier does not wait, the first one does not either
      obtain ⟨-, hstate, hout⟩ := Verifier.verify_eq_error (eq_of_fst_eq hsecond)
      refine .outOfTurn valid_none rfl ?_ hout
      rw [Ne, head_eq_verification]
      rintro ⟨-, p, h⟩
      obtain ⟨p', h'⟩ := hstep.waiting p h hchallenged
      exact hstate p' h'
    · obtain ⟨p, hstate, -⟩ := Verifier.verify_eq_ok.mp (eq_of_fst_eq hfirst)
      refine .failed valid_none rfl (head_eq_verification.mpr ⟨hchallenged, p, hstate⟩) ?_
      rintro ⟨_, _, h⟩
      cases h
  · obtain ⟨hchallenged, first, second, hfirst, -⟩ := finish_eq_ok h
    obtain ⟨p, hstate, -⟩ := Verifier.verify_eq_ok.mp (eq_of_fst_eq hfirst)
    exact .answered valid_none (by simp [schedule, hstate, hchallenged])

/-- The request as a party. Nothing can be asked of a request that is used up. -/
def party (G : CyclicGroup E) : Party (Option (CredentialRequest E)) (Event E) where
  Step Q event Q' :=
    match event with
    | .challenges c answer =>
      ∃ request request', Q = some request ∧ (request.challenges G c).Possible (answer, request') ∧
        Q' = some request'
    | .finish z1 z2 answer =>
      ∃ request, Q = some request ∧ request.finish G z1 z2 = answer ∧ Q' = none
  move
    | .challenges _ _ => .challenge
    | .finish _ _ _ => .verification
  refusal
    | .challenges _ answer => refusalOf answer
    | .finish _ _ answer => refusalOf answer

theorem strict : (party G).Strict schedule G.Reports := by
  intro Q event Q' hvalid hstep
  cases event with
  | challenges c answer =>
    obtain ⟨request, request', rfl, hchallenges, rfl⟩ := hstep
    exact challenges_settles hvalid hchallenges
  | finish z1 z2 answer =>
    obtain ⟨request, rfl, hfinish, rfl⟩ := hstep
    exact finish_settles hvalid hfinish

end CredentialRequest

/-! ## One pass -/

variable [DecidableEq E]

theorem Knowledge.Prover.singleUse (G : CyclicGroup E) (mode : ChallengeMode) :
    (party G).SingleUse
      (fun P => ∃ secret base, (start G mode secret base).run.Possible (.ok P)) (order mode)
      G.Reports :=
  strict.singleUse start_order

theorem Knowledge.Verifier.singleUse (G : CyclicGroup E) (mode : ChallengeMode) :
    (party G).SingleUse (· = .start mode) (order mode) G.Reports := by
  refine strict.singleUse ?_
  rintro _ rfl
  exact ⟨trivial, rfl⟩

omit [DecidableEq E] in
theorem Equality.Prover.singleUse (G : CyclicGroup E) :
    (party G).SingleUse (fun P => ∃ secret g1 g2, start G secret g1 g2 = .ok P)
      [.randomData, .response] G.Reports := by
  refine strict.singleUse ?_
  rintro P ⟨secret, g1, g2, h⟩
  obtain ⟨-, -, -, rfl⟩ := start_eq_ok.mp h
  exact ⟨trivial, rfl⟩

theorem Equality.Verifier.singleUse (G : CyclicGroup E) :
    (party G).SingleUse (· = .ready) [.challenge, .verification] G.Reports := by
  refine strict.singleUse ?_
  rintro _ rfl
  exact ⟨trivial, rfl⟩

theorem Blinding.Verifier.singleUse (G : CyclicGroup E) :
    (party G).SingleUse
      (fun V => (∃ gamma, start G gamma = .ok V) ∨ (random G).Possible V)
      [.challenge, .verification] G.Reports := by
  refine strict.singleUse ?_
  rintro V (⟨gamma, h⟩ | ⟨source, next, h⟩)
  · obtain ⟨-, -, rfl⟩ := start_eq_ok.mp h
    exact ⟨trivial, rfl⟩
  · obtain ⟨gamma, middle, -, h⟩ := Draw.bind_eq_some.mp h
    obtain ⟨rfl, -⟩ := Draw.pure_eq_some.mp h
    exact ⟨trivial, rfl⟩

theorem Registrar.singleUse (G : CyclicGroup E) :
    (party G).SingleUse
      (fun R => ∃ authorityKey store key store', start authorityKey store key = (.ok R, store'))
      [.challenge, .verification] G.Reports := by
  refine strict.singleUse ?_
  rintro R ⟨authorityKey, store, key, store', h⟩
  obtain ⟨-, rfl, -⟩ := start_eq_ok.mp h
  refine ⟨?_, rfl⟩
  rintro ⟨⟩

theorem CredentialRequest.singleUse (G : CyclicGroup E) :
    (party G).SingleUse
      (fun Q => ∃ request nym issuer gamma, Q = some request ∧
        ofGamma G nym issuer gamma = .ok request)
      [.challenge, .verification] G.Reports := by
  refine strict.singleUse ?_
  rintro _ ⟨request, nym, issuer, gamma, rfl, h⟩
  obtain ⟨-, -, rfl⟩ := ofGamma_eq_ok.mp h
  exact ⟨valid_some.mpr ⟨fun _ => ⟨rfl, rfl⟩, nofun⟩, rfl⟩

/-- Every engine, in each mode, every registration and every request is good for one pass through
its order, and no prover commits twice or answers twice. An error that says that a call is out of
order can otherwise only come from the group itself. -/
theorem sessions_single_use (G : CyclicGroup E) :
    (∀ mode, (Knowledge.Prover.party G).SingleUse
      (fun P => ∃ secret base, (Knowledge.Prover.start G mode secret base).run.Possible (.ok P))
      (Knowledge.Prover.order mode) G.Reports) ∧
    (∀ mode, (Knowledge.Verifier.party G).SingleUse (· = .start mode)
      (Knowledge.Verifier.order mode) G.Reports) ∧
    (Equality.Prover.party G).SingleUse
      (fun P => ∃ secret g1 g2, Equality.Prover.start G secret g1 g2 = .ok P)
      [.randomData, .response] G.Reports ∧
    (Equality.Verifier.party G).SingleUse (· = .ready) [.challenge, .verification] G.Reports ∧
    (Blinding.Verifier.party G).SingleUse
      (fun V => (∃ gamma, Blinding.Verifier.start G gamma = .ok V) ∨
        (Blinding.Verifier.random G).Possible V)
      [.challenge, .verification] G.Reports ∧
    (Registrar.party G).SingleUse
      (fun R => ∃ authorityKey store key store',
        Registrar.start authorityKey store key = (.ok R, store'))
      [.challenge, .verification] G.Reports ∧
    (CredentialRequest.party G).SingleUse
      (fun Q => ∃ request nym issuer gamma, Q = some request ∧
        CredentialRequest.ofGamma G nym issuer gamma = .ok request)
      [.challenge, .verification] G.Reports ∧
    (∀ mode secret base P history P',
      (Knowledge.Prover.start G mode secret base).run.Possible (.ok P) →
      (Knowledge.Prover.party G).Run P history P' →
      ((Knowledge.Prover.party G).answered history).count .randomData ≤ 1 ∧
        ((Knowledge.Prover.party G).answered history).count .response ≤ 1) ∧
    (∀ secret g1 g2 P history P', Equality.Prover.start G secret g1 g2 = .ok P →
      (Equality.Prover.party G).Run P history P' →
      ((Equality.Prover.party G).answered history).count .randomData ≤ 1 ∧
        ((Equality.Prover.party G).answered history).count .response ≤ 1) := by
  refine ⟨Knowledge.Prover.singleUse G, Knowledge.Verifier.singleUse G,
    Equality.Prover.singleUse G, Equality.Verifier.singleUse G, Blinding.Verifier.singleUse G,
    Registrar.singleUse G, CredentialRequest.singleUse G, ?_, ?_⟩
  · intro mode secret base P history P' hstart hrun
    have hcount := (Knowledge.Prover.singleUse G mode).count_le ⟨secret, base, hstart⟩ hrun
    have horder : (Knowledge.Prover.order mode).count .randomData = 1 ∧
        (Knowledge.Prover.order mode).count .response = 1 := by
      cases mode <;> decide
    exact ⟨horder.1 ▸ hcount .randomData, horder.2 ▸ hcount .response⟩
  · intro secret g1 g2 P history P' hstart hrun
    have hcount := (Equality.Prover.singleUse G).count_le ⟨secret, g1, g2, hstart⟩ hrun
    exact ⟨hcount .randomData, hcount .response⟩

end AnonCred

import AnonCred.Proofs.Party.Engines
import AnonCred.Proofs.Credential.Authority
import AnonCred.Proofs.Credential.Issuer
import AnonCred.Proofs.Credential.Transfer
import AnonCred.Proofs.Group.Schnorr

/-!
# What the roles bear with

The authority, the issuer and the organization that accepts credentials keep what is pending in a
field beside a verifier. An answer that comes before its challenge finds nothing pending, and is
refused before it gets to the verifier: the session goes on. A statement about an identity is
refused even before that. So it is not every refusal that ends a session of theirs.

* `Authority.patient`, `Issuer.patient`, `CredentialVerifier.patient` — call by call
* `roles_tolerant` — what does end a session, and what is forgotten
* `early_answer_forgotten` — a session that goes on after a call that was out of order
-/

namespace AnonCred

open CyclicGroup

variable {E : Type} {G : CyclicGroup E}

/-! ## The plain verifier -/

namespace Knowledge.Verifier

/-- In the plain mode a challenge is due at once and not later. -/
theorem due_iff_ready {V : Verifier E} (hmode : V.mode = .sigma) : V.Due ↔ V.state = .ready := by
  unfold Due
  rw [hmode]
  cases V.state <;> simp [ChallengeMode.usesCommitment]

/-- The challenge is sent and not answered yet. -/
def Waiting (V : Verifier E) : Prop :=
  ∃ h base value x e, V.state = .awaitingResponse h base value x e

/-- A verifier in the plain mode, and a field that is set while it waits. -/
structure Guards {α : Type} (V : Verifier E) (pending : Option α) : Prop where
  plain : V.mode = .sigma
  ready : V.state = .ready → pending = none
  waiting : V.Waiting → pending ≠ none

variable {V V' : Verifier E} {α : Type} {pending : Option α} {source next : Source}

namespace Guards

theorem ended (h : V.Guards pending) (pending' : Option α) : V.ended.Guards pending' where
  plain := h.plain
  ready := nofun
  waiting := nofun

/-- The verifier takes a statement only at once. -/
theorem challenged (h : V.Guards pending) (a : α) {base value x : E} {challenge : Challenge}
    (hchallenge : V.challenge G base value x source = some ((.ok challenge, V'), next)) :
    V.state = .ready ∧ V'.Waiting ∧ V'.Guards (some a) := by
  obtain ⟨-, -, -, commitment, hnext, rfl⟩ := challenge_eq_ok.mp hchallenge
  refine ⟨(due_iff_ready h.plain).mp (nextChallenge_due hnext), ⟨_, _, _, _, _, rfl⟩, ?_⟩
  exact ⟨h.plain, nofun, fun _ => Option.some_ne_none a⟩

/-- It refuses one for what it says only at once, and in any other state as out of order. -/
theorem challenge_refused (h : V.Guards pending) {base value x : E} {error : Error}
    (hrefused : V.challenge G base value x source = some ((.error error, V'), next)) :
    V' = V.ended ∧ (V.state = .ready ∨ V.state ≠ .ready ∧ error.IsOutOfOrder) := by
  obtain ⟨hended, hcases⟩ := challenge_eq_error hrefused
  rw [due_iff_ready h.plain] at hcases
  exact ⟨hended, hcases.imp And.left id⟩

variable [DecidableEq E]

/-- Where the field is set, the verifier refuses an answer only when a second challenge has ended
it. -/
theorem verify_refused (h : V.Guards pending) (hsome : pending ≠ none) {response : Response}
    {error : Error} (hrefused : (V.verify G response).1 = .error error) :
    (V.verify G response).2 = V.ended ∧ V.state ≠ .ready ∧ ¬V.Waiting ∧ error.IsOutOfOrder := by
  obtain ⟨hended, hstate, hout⟩ := verify_eq_error (eq_of_fst_eq hrefused)
  refine ⟨hended, fun hready => hsome (h.ready hready), ?_, hout⟩
  rintro ⟨_, _, _, _, _, hwaiting⟩
  exact hstate _ _ _ _ _ hwaiting

end Guards

theorem waiting_of_verify [DecidableEq E] {response : Response} {accepted : Bool}
    (h : (V.verify G response).1 = .ok accepted) :
    V.Waiting ∧ (V.verify G response).2 = V.ended := by
  obtain ⟨_, _, _, _, _, hwaiting, -, hended⟩ := verify_eq_ok.mp (eq_of_fst_eq h)
  exact ⟨⟨_, _, _, _, _, hwaiting⟩, hended⟩

end Knowledge.Verifier

/-! ## The authority -/

namespace Authority

/-- A call on a session, with its answer. -/
inductive Event (E : Type)
  | challenge (nym : Pseudonym E) (x : E) (answer : Except Error Nat)
  | verify (z : Nat) (answer : Except Error (Certificate E))

/-- A challenge about an identity. -/
def Void (G : CyclicGroup E) : Event E → Prop
  | .challenge nym _ _ => nym.a = G.identity ∨ nym.b = G.identity
  | .verify _ _ => False

def schedule : Schedule (Authority E) where
  Valid A := A.verifier.Guards A.pending
  rest A :=
    match A.verifier.state with
    | .ready => [.challenge, .verification]
    | .awaitingResponse _ _ _ _ _ => [.verification]
    | _ => []

variable {A A' : Authority E}

theorem rest_of_ready (h : A.verifier.state = .ready) :
    schedule.rest A = [.challenge, .verification] := by
  simp [schedule, h]

theorem rest_of_waiting (h : A.verifier.Waiting) : schedule.rest A = [.verification] := by
  obtain ⟨_, _, _, _, _, h⟩ := h
  simp [schedule, h]

theorem rest_of_idle (hready : A.verifier.state ≠ .ready) (hwaiting : ¬A.verifier.Waiting) :
    schedule.rest A = [] := by
  cases hstate : A.verifier.state with
  | ready => exact absurd hstate hready
  | awaitingResponse h base value x e => exact absurd ⟨_, _, _, _, _, hstate⟩ hwaiting
  | _ => simp [schedule, hstate]

theorem not_challenge_of_not_ready (h : A.verifier.state ≠ .ready) :
    (schedule.rest A).head? ≠ some .challenge ∧
      (schedule.rest A = [] ∨ (schedule.rest A).head? = some .verification) := by
  by_cases hwaiting : A.verifier.Waiting
  · rw [rest_of_waiting hwaiting]
    exact ⟨by decide, .inr rfl⟩
  · rw [rest_of_idle h hwaiting]
    exact ⟨by decide, .inl rfl⟩

theorem valid_start (key : Ecdsa.SecretKey) : schedule.Valid (start key : Authority E) :=
  ⟨rfl, fun _ => rfl, nofun⟩

variable [DecidableEq E]

/-- The session as a party. -/
def party (G : CyclicGroup E) : Party (Authority E) (Event E) where
  Step A event A' :=
    match event with
    | .challenge nym x answer => (A.challenge G nym x).Possible (answer, A')
    | .verify z answer => (A.verify G z).Possible (answer, A')
  move
    | .challenge _ _ _ => .challenge
    | .verify _ _ => .verification
  refusal
    | .challenge _ _ answer => refusalOf answer
    | .verify _ answer => refusalOf answer

theorem challenge_bears {nym : Pseudonym E} {x : E} {answer : Except Error Nat}
    (hvalid : schedule.Valid A) (h : (A.challenge G nym x).Possible (answer, A'))
    (hvoid : ¬(nym.a = G.identity ∨ nym.b = G.identity)) :
    schedule.Bears .challenge A (refusalOf answer) A' := by
  obtain ⟨source, next, h⟩ := h
  rcases answer with error | e
  · rcases challenge_eq_error h with ⟨hidentity, -⟩ | ⟨-, -, verifier, hrefused, rfl⟩
    · exact absurd hidentity hvoid
    obtain ⟨rfl, hready | ⟨hready, hout⟩⟩ := hvalid.challenge_refused hrefused
    · exact .failed (by rw [rest_of_ready hready]; rfl) (hvalid.ended _) rfl
    · obtain ⟨hturn, hagain⟩ := not_challenge_of_not_ready hready
      exact .ended hturn hout (hagain.imp_right fun h => ⟨rfl, h⟩) (hvalid.ended _) rfl
  · obtain ⟨-, -, challenge, verifier, hchallenge, -, rfl⟩ := challenge_eq_ok.mp h
    obtain ⟨hready, hwaiting, hguards⟩ := hvalid.challenged nym hchallenge
    exact .answered hguards (by rw [rest_of_ready hready, rest_of_waiting hwaiting])

theorem verify_bears {z : Nat} {answer : Except Error (Certificate E)}
    (hvalid : schedule.Valid A) (h : (A.verify G z).Possible (answer, A')) :
    schedule.Bears .verification A (refusalOf answer) A' := by
  obtain ⟨source, next, h⟩ := h
  rcases answer with error | certificate
  · rcases verify_eq_error h with ⟨hnone, hout, rfl⟩ | ⟨nym, hsome, rfl, hrefused | ⟨accepted, hok⟩⟩
    · refine .forgotten ?_ hout (by rintro ⟨⟨⟩, -⟩)
      have hwaiting : ¬A'.verifier.Waiting := fun h => hvalid.waiting h hnone
      by_cases hready : A'.verifier.state = .ready
      · rw [rest_of_ready hready]
        decide
      · rw [rest_of_idle hready hwaiting]
        decide
    · -- the verifier had been ended by a second challenge
      obtain ⟨hended, hready, hwaiting, hout⟩ :=
        hvalid.verify_refused (hsome ▸ Option.some_ne_none nym) hrefused
      have hover := rest_of_idle hready hwaiting
      rw [hended]
      exact .ended (by rw [hover]; decide) hout (.inl hover) (hvalid.ended _) rfl
    · obtain ⟨hwaiting, hended⟩ := Knowledge.Verifier.waiting_of_verify hok
      rw [hended]
      exact .failed (by rw [rest_of_waiting hwaiting]; rfl) (hvalid.ended _) rfl
  · obtain ⟨nym, k, -, hok, -, -, rfl⟩ := verify_eq_ok.mp h
    obtain ⟨hwaiting, hended⟩ := Knowledge.Verifier.waiting_of_verify hok
    rw [hended]
    exact .answered (hvalid.ended _) (rest_of_waiting hwaiting)

theorem patient : (party G).Patient schedule (Void G) where
  void {A event A'} hvalid hstep hvoid := by
    cases event with
    | verify z answer => cases hvoid
    | challenge nym x answer =>
      obtain ⟨source, next, h⟩ := hstep
      obtain ⟨⟨what, rfl⟩, rfl⟩ := Ownership.challenge_void hvoid h
      exact ⟨⟨what, rfl⟩, rfl⟩
  step {A event A'} hvalid hstep hvoid := by
    cases event with
    | challenge nym x answer => exact challenge_bears hvalid hstep hvoid
    | verify z answer => exact verify_bears hvalid hstep

end Authority

/-! ## The issuer -/

namespace Issuer

/-- A call on a session, with its answer. -/
inductive Event (E : Type)
  | challenge (nym : Pseudonym E) (x : E) (answer : Except Error Nat)
  | verify (z : Nat) (answer : Except Error (IssuanceCommitments E))
  | respond (e1 e2 : Nat) (answer : Except Error (Nat × Nat))

/-- A challenge about an identity. -/
def Void (G : CyclicGroup E) : Event E → Prop
  | .challenge nym _ _ => nym.a = G.identity ∨ nym.b = G.identity
  | _ => False

/-- The provers are there once the verifier is done with an accepted answer. -/
def schedule : Schedule (Issuer E) where
  Valid I := I.verifier.Guards I.pending ∧
    (I.provers ≠ none → I.pending = none ∧ I.verifier.state = .done)
  rest I :=
    match I.provers, I.verifier.state with
    | some _, _ => [.response]
    | none, .ready => [.challenge, .verification, .response]
    | none, .awaitingResponse _ _ _ _ _ => [.verification, .response]
    | none, _ => []

variable {I I' : Issuer E}

theorem no_provers (hvalid : schedule.Valid I) (h : I.verifier.state ≠ .done) :
    I.provers = none := by
  by_contra hsome
  exact h (hvalid.2 hsome).2

theorem rest_of_provers (h : I.provers ≠ none) : schedule.rest I = [.response] := by
  obtain ⟨provers, h⟩ := Option.ne_none_iff_exists'.mp h
  simp [schedule, h]

theorem rest_of_ready (hvalid : schedule.Valid I) (h : I.verifier.state = .ready) :
    I.provers = none ∧ schedule.rest I = [.challenge, .verification, .response] := by
  have hnone := no_provers hvalid (by rw [h]; nofun)
  exact ⟨hnone, by simp [schedule, h, hnone]⟩

theorem rest_of_waiting (hvalid : schedule.Valid I) (h : I.verifier.Waiting) :
    I.provers = none ∧ schedule.rest I = [.verification, .response] := by
  obtain ⟨_, _, _, _, _, h⟩ := h
  have hnone := no_provers hvalid (by rw [h]; nofun)
  exact ⟨hnone, by simp [schedule, h, hnone]⟩

theorem rest_of_idle (hready : I.verifier.state ≠ .ready) (hwaiting : ¬I.verifier.Waiting)
    (hnone : I.provers = none) : schedule.rest I = [] := by
  cases hstate : I.verifier.state with
  | ready => exact absurd hstate hready
  | awaitingResponse h base value x e => exact absurd ⟨_, _, _, _, _, hstate⟩ hwaiting
  | _ => simp [schedule, hstate, hnone]

/-- Once the verifier is ended, nothing is to come but the answers about the tags. -/
theorem over_of_ended (hvalid : schedule.Valid I) (hnone : I.provers = none)
    (pending : Option (Pseudonym E)) :
    schedule.Valid ⟨I.key, I.verifier.ended, pending, I.provers⟩ ∧
      schedule.rest ⟨I.key, I.verifier.ended, pending, I.provers⟩ = [] :=
  ⟨⟨hvalid.1.ended _, fun h => absurd hnone h⟩, by rw [hnone]; rfl⟩

theorem respond_bears {e1 e2 : Nat} {answer : Except Error (Nat × Nat)}
    (hvalid : schedule.Valid I) (h : I.respond G e1 e2 = (answer, I')) :
    schedule.Bears .response I (refusalOf answer) I' := by
  have hvalid' : schedule.Valid { I with provers := none } := ⟨hvalid.1, fun h => absurd rfl h⟩
  have hover (hmade : I.provers ≠ none) : schedule.rest { I with provers := none } = [] := by
    simp [schedule, (hvalid.2 hmade).2]
  rcases answer with error | ⟨z1, z2⟩
  · obtain ⟨rfl, hout⟩ := respond_eq_error h
    by_cases hprovers : I.provers = none
    · have hsame : ({ I with provers := none } : Issuer E) = I := by
        rw [← hprovers]
      rw [hsame]
      refine .forgotten ?_ (hout hprovers) (by rintro ⟨⟨⟩, -⟩)
      cases hstate : I.verifier.state <;> simp [schedule, hprovers, hstate]
    · exact .failed (by rw [rest_of_provers hprovers]; rfl) hvalid' (hover hprovers)
  · obtain ⟨first, second, hsome, -, -, rfl⟩ := respond_eq_ok.mp h
    have hprovers : I.provers ≠ none := hsome ▸ Option.some_ne_none _
    exact .answered hvalid' (by rw [rest_of_provers hprovers, hover hprovers])

theorem valid_start (key : IssuerKey) : schedule.Valid (start key : Issuer E) :=
  ⟨⟨rfl, fun _ => rfl, nofun⟩, fun h => absurd rfl h⟩

variable [DecidableEq E]

/-- The session as a party. -/
def party (G : CyclicGroup E) : Party (Issuer E) (Event E) where
  Step I event I' :=
    match event with
    | .challenge nym x answer => (I.challenge G nym x).Possible (answer, I')
    | .verify z answer => (I.verify G z).Possible (answer, I')
    | .respond e1 e2 answer => I.respond G e1 e2 = (answer, I')
  move
    | .challenge _ _ _ => .challenge
    | .verify _ _ => .verification
    | .respond _ _ _ => .response
  refusal
    | .challenge _ _ answer => refusalOf answer
    | .verify _ answer => refusalOf answer
    | .respond _ _ answer => refusalOf answer

theorem challenge_bears {nym : Pseudonym E} {x : E} {answer : Except Error Nat}
    (hvalid : schedule.Valid I) (h : (I.challenge G nym x).Possible (answer, I'))
    (hvoid : ¬(nym.a = G.identity ∨ nym.b = G.identity)) :
    schedule.Bears .challenge I (refusalOf answer) I' := by
  obtain ⟨source, next, h⟩ := h
  rcases answer with error | e
  · rcases challenge_eq_error h with ⟨hidentity, -⟩ | ⟨-, -, verifier, hrefused, rfl⟩
    · exact absurd hidentity hvoid
    obtain ⟨rfl, hready | ⟨hready, hout⟩⟩ := hvalid.1.challenge_refused hrefused
    · obtain ⟨hnone, hrest⟩ := rest_of_ready hvalid hready
      obtain ⟨hvalid', hover⟩ := over_of_ended hvalid hnone I.pending
      exact .failed (by rw [hrest]; rfl) hvalid' hover
    by_cases hsome : I.provers = none
    · obtain ⟨hvalid', hover⟩ := over_of_ended hvalid hsome I.pending
      by_cases hwaiting : I.verifier.Waiting
      · obtain ⟨-, hrest⟩ := rest_of_waiting hvalid hwaiting
        exact .ended (by rw [hrest]; decide) hout (.inr ⟨rfl, by rw [hrest]; rfl⟩) hvalid' hover
      · have hrest := rest_of_idle hready hwaiting hsome
        exact .ended (by rw [hrest]; decide) hout (.inl hrest) hvalid' hover
    · -- the provers do not notice that the verifier refuses once more
      have hrest := rest_of_provers hsome
      have hsame : ({ I with verifier := I.verifier.ended } : Issuer E) = I := by
        have hdone := (hvalid.2 hsome).2
        obtain ⟨key, ⟨mode, state⟩, pending, provers⟩ := I
        cases hdone
        rfl
      rw [hsame]
      refine .forgotten (by rw [hrest]; decide) hout ?_
      rw [hrest]
      rintro ⟨-, ⟨⟩⟩
  · obtain ⟨-, -, challenge, verifier, hchallenge, -, rfl⟩ := challenge_eq_ok.mp h
    obtain ⟨hready, hwaiting, hguards⟩ := hvalid.1.challenged nym hchallenge
    obtain ⟨hnone, hrest⟩ := rest_of_ready hvalid hready
    have hvalid' : schedule.Valid { I with verifier, pending := some nym } :=
      ⟨hguards, fun h => absurd hnone h⟩
    exact .answered hvalid' (by rw [hrest, (rest_of_waiting hvalid' hwaiting).2])

theorem verify_bears {z : Nat} {answer : Except Error (IssuanceCommitments E)}
    (hvalid : schedule.Valid I) (h : (I.verify G z).Possible (answer, I')) :
    schedule.Bears .verification I (refusalOf answer) I' := by
  obtain ⟨source, next, h⟩ := h
  rcases answer with error | c
  · rcases verify_eq_error h with ⟨hnone, hout, rfl⟩ | ⟨nym, hsome, rfl, hrefused | ⟨accepted, hok⟩⟩
    · have hwaiting : ¬I'.verifier.Waiting := fun h => hvalid.1.waiting h hnone
      refine .forgotten ?_ hout (by rintro ⟨⟨⟩, -⟩)
      by_cases hprovers : I'.provers = none
      · by_cases hready : I'.verifier.state = .ready
        · rw [(rest_of_ready hvalid hready).2]
          decide
        · rw [rest_of_idle hready hwaiting hprovers]
          decide
      · rw [rest_of_provers hprovers]
        decide
    · -- the verifier had been ended by a second challenge
      have hprovers : I.provers = none := by
        by_contra hmade
        rw [(hvalid.2 hmade).1] at hsome
        cases hsome
      obtain ⟨hended, hready, hwaiting, hout⟩ :=
        hvalid.1.verify_refused (hsome ▸ Option.some_ne_none nym) hrefused
      have hrest := rest_of_idle hready hwaiting hprovers
      obtain ⟨hvalid', hover⟩ := over_of_ended hvalid hprovers none
      rw [hended]
      exact .ended (by rw [hrest]; decide) hout (.inl hrest) hvalid' hover
    · obtain ⟨hwaiting, hended⟩ := Knowledge.Verifier.waiting_of_verify hok
      obtain ⟨hprovers, hrest⟩ := rest_of_waiting hvalid hwaiting
      obtain ⟨hvalid', hover⟩ := over_of_ended hvalid hprovers none
      rw [hended]
      exact .failed (by rw [hrest]; rfl) hvalid' hover
  · obtain ⟨nym, first, second, -, hok, -, rfl⟩ := verify_eq_ok.mp h
    obtain ⟨hwaiting, hended⟩ := Knowledge.Verifier.waiting_of_verify hok
    rw [hended]
    exact .answered ⟨hvalid.1.ended _, fun _ => ⟨rfl, rfl⟩⟩ (rest_of_waiting hvalid hwaiting).2

theorem patient : (party G).Patient schedule (Void G) where
  void {I event I'} hvalid hstep hvoid := by
    cases event with
    | verify z answer => cases hvoid
    | respond e1 e2 answer => cases hvoid
    | challenge nym x answer =>
      obtain ⟨source, next, h⟩ := hstep
      obtain ⟨⟨what, rfl⟩, rfl⟩ := Ownership.challenge_void hvoid h
      exact ⟨⟨what, rfl⟩, rfl⟩
  step {I event I'} hvalid hstep hvoid := by
    cases event with
    | challenge nym x answer => exact challenge_bears hvalid hstep hvoid
    | verify z answer => exact verify_bears hvalid hstep
    | respond e1 e2 answer => exact respond_bears hvalid hstep

end Issuer

/-! ## The organization that accepts credentials -/

namespace CredentialVerifier

/-- A call on a session, with its answer. -/
inductive Event (E : Type)
  | challenge (nym : Pseudonym E) (credential : Credential E) (x1 x2 : E)
    (answer : Except Error Nat)
  | verify (z : Nat) (issuer : IssuerPublicKey E) (answer : Except Error (Option SessionKey))

/-- A challenge about an identity. -/
def Void (G : CyclicGroup E) : Event E → Prop
  | .challenge nym credential _ _ _ => nym.a = G.identity ∨ nym.b = G.identity ∨
    credential.base = G.identity ∨ credential.value = G.identity
  | .verify _ _ _ => False

/-- The pending credential is there while the verifier waits. -/
structure Guards (V : CredentialVerifier E) : Prop where
  ready : V.verifier = .ready → V.pending = none
  waiting : ∀ {claim e}, V.verifier = .awaitingResponse claim e → V.pending ≠ none

def schedule : Schedule (CredentialVerifier E) where
  Valid V := V.Guards
  rest V := Equality.Verifier.schedule.rest V.verifier

variable {V V' : CredentialVerifier E}

theorem valid_done (pending : Option (Credential E)) :
    schedule.Valid (⟨.done, pending⟩ : CredentialVerifier E) := ⟨nofun, nofun⟩

variable [DecidableEq E]

/-- The session as a party. Session keys come from any generator, and from a new one for each
call. -/
def party (G : CyclicGroup E) : Party (CredentialVerifier E) (Event E) where
  Step V event V' :=
    match event with
    | .challenge nym credential x1 x2 answer =>
      (V.challenge G nym credential x1 x2).Possible (answer, V')
    | .verify z issuer answer =>
      ∃ generate : Draw (Except Error SessionKey),
        (V.verify G generate z issuer).Possible (answer, V')
  move
    | .challenge _ _ _ _ _ => .challenge
    | .verify _ _ _ => .verification
  refusal
    | .challenge _ _ _ _ answer => refusalOf answer
    | .verify _ _ answer => refusalOf answer

theorem challenge_bears {nym : Pseudonym E} {credential : Credential E} {x1 x2 : E}
    {answer : Except Error Nat} (h : (V.challenge G nym credential x1 x2).Possible (answer, V'))
    (hvoid : ¬(nym.a = G.identity ∨ nym.b = G.identity ∨ credential.base = G.identity ∨
      credential.value = G.identity)) :
    schedule.Bears .challenge V (refusalOf answer) V' := by
  obtain ⟨source, next, h⟩ := h
  obtain ⟨verifier, pending⟩ := V
  rcases answer with error | e
  · rcases challenge_eq_error h with ⟨hcheck, -⟩ | ⟨-, after, hrefused, rfl⟩
    · exact absurd (checkStatement_eq_error hcheck).1 hvoid
    obtain ⟨rfl, ⟨hready, -⟩ | ⟨hready, hout⟩⟩ := Equality.Verifier.challenge_eq_error hrefused
    · cases hready
      exact .failed rfl (valid_done pending) rfl
    · cases verifier with
      | ready => exact absurd rfl hready
      | awaitingResponse claim e =>
        exact .ended (by rintro ⟨⟩) hout (.inr ⟨rfl, rfl⟩) (valid_done pending) rfl
      | done => exact .ended (by rintro ⟨⟩) hout (.inl rfl) (valid_done pending) rfl
  · obtain ⟨-, after, hchallenge, rfl⟩ := challenge_eq_ok.mp h
    obtain ⟨hready, -, -, rfl⟩ := Equality.Verifier.challenge_eq_ok.mp hchallenge
    cases hready
    exact .answered ⟨nofun, fun _ => Option.some_ne_none credential⟩ rfl

theorem verify_bears {z : Nat} {issuer : IssuerPublicKey E}
    {answer : Except Error (Option SessionKey)} {generate : Draw (Except Error SessionKey)}
    (hvalid : schedule.Valid V) (h : (V.verify G generate z issuer).Possible (answer, V')) :
    schedule.Bears .verification V (refusalOf answer) V' := by
  obtain ⟨source, next, h⟩ := h
  obtain ⟨rfl, hanswer⟩ := verify_eq_some h
  rcases accept_cases (G := G) V z issuer with ⟨hnone, error, hout, haccept⟩ |
    ⟨credential, error, hsome, hrefused, haccept⟩ | ⟨credential, claim, e, -, hwaiting, haccept⟩
  · rw [haccept] at hanswer ⊢
    cases hanswer
    refine .forgotten (fun hturn => ?_) hout (by rintro ⟨⟨⟩, -⟩)
    obtain ⟨claim, e, hwaiting⟩ :=
      (Equality.Verifier.head_eq_verification (V := V.verifier)).mp hturn
    exact hvalid.waiting hwaiting hnone
  · -- the verifier had been ended by a second challenge
    obtain ⟨-, hstate, hout⟩ := Equality.Verifier.verify_eq_error hrefused
    have hdone : V.verifier = .done := by
      cases hverifier : V.verifier with
      | ready =>
        rw [hvalid.ready hverifier] at hsome
        cases hsome
      | awaitingResponse claim e => exact absurd hverifier (hstate claim e)
      | done => rfl
    have hover : schedule.rest V = [] := by
      simp [schedule, hdone, Equality.Verifier.schedule]
    rw [haccept] at hanswer ⊢
    cases hanswer
    exact .ended (by rw [hover]; rintro ⟨⟩) hout (.inl hover) (valid_done none) rfl
  · have hrest : schedule.rest V = [.verification] := by
      simp [schedule, hwaiting, Equality.Verifier.schedule]
    rw [haccept]
    rcases answer with error | key
    · exact .failed (by rw [hrest]; rfl) (valid_done none) rfl
    · exact .answered (valid_done none) hrest

theorem patient : (party G).Patient schedule (Void G) where
  void {V event V'} hvalid hstep hvoid := by
    cases event with
    | verify z issuer answer => cases hvoid
    | challenge nym credential x1 x2 answer =>
      obtain ⟨source, next, h⟩ := hstep
      have hcheck : checkStatement G nym credential ≠ .ok () := by
        rw [Ne, checkStatement_eq_ok]
        rintro ⟨ha, hb, hbase, hvalue⟩
        rcases hvoid with h | h | h | h
        · exact ha h
        · exact hb h
        · exact hbase h
        · exact hvalue h
      rcases answer with error | e
      · rcases challenge_eq_error h with ⟨hrefused, rfl⟩ | ⟨hok, -⟩
        · obtain ⟨-, what, rfl⟩ := checkStatement_eq_error hrefused
          exact ⟨⟨what, rfl⟩, rfl⟩
        · exact absurd hok hcheck
      · exact absurd (challenge_eq_ok.mp h).1 hcheck
  step {V event V'} hvalid hstep hvoid := by
    cases event with
    | challenge nym credential x1 x2 answer => exact challenge_bears hstep hvoid
    | verify z issuer answer =>
      obtain ⟨generate, h⟩ := hstep
      exact verify_bears hvalid h

end CredentialVerifier

/-! ## What ends a session -/

variable [DecidableEq E]

theorem Authority.tolerant (G : CyclicGroup E) :
    (party G).Tolerant (fun A => ∃ key, A = start key) [.challenge, .verification] (Void G) := by
  refine patient.tolerant ?_
  rintro _ ⟨key, rfl⟩
  exact ⟨valid_start key, rfl⟩

theorem Issuer.tolerant (G : CyclicGroup E) :
    (party G).Tolerant (fun I => ∃ key, I = start key) [.challenge, .verification, .response]
      (Void G) := by
  refine patient.tolerant ?_
  rintro _ ⟨key, rfl⟩
  exact ⟨valid_start key, rfl⟩

theorem CredentialVerifier.tolerant (G : CyclicGroup E) :
    (party G).Tolerant (· = start) [.challenge, .verification] (Void G) := by
  refine patient.tolerant ?_
  rintro _ rfl
  exact ⟨⟨fun _ => rfl, nofun⟩, rfl⟩

/-- The three roles answer their calls in order. A statement about an identity is refused in every
state and forgotten. A refusal in turn and a second challenge end the session: from then on all that
is not about an identity is refused as out of order. Any other call out of turn is refused as out of
order too, but forgotten, unless the session is over already. -/
theorem roles_tolerant (G : CyclicGroup E) :
    (Authority.party G).Tolerant (fun A => ∃ key, A = .start key) [.challenge, .verification]
      (Authority.Void G) ∧
    (Issuer.party G).Tolerant (fun I => ∃ key, I = .start key)
      [.challenge, .verification, .response] (Issuer.Void G) ∧
    (CredentialVerifier.party G).Tolerant (· = .start) [.challenge, .verification]
      (CredentialVerifier.Void G) :=
  ⟨Authority.tolerant G, Issuer.tolerant G, CredentialVerifier.tolerant G⟩

/-- An answer before the challenge is refused as out of order, and the challenge is sent all the
same. -/
theorem early_answer_forgotten :
    ¬∀ (key : Ecdsa.SecretKey) before event after A,
      (Authority.party SchnorrGroup.squares23.group).Run (.start key) (before ++ event :: after) A →
      (∃ cause, (Authority.party SchnorrGroup.squares23.group).refusal event
        = some (.protocol cause)) →
      ∀ later ∈ after, ∃ cause,
        (Authority.party SchnorrGroup.squares23.group).refusal later = some (.protocol cause) := by
  intro hall
  have hverify : ((Authority.start ⟨1⟩).verify SchnorrGroup.squares23.group 1).Possible
      (.error (.outOfOrder "a challenge" "no pending proof"), .start ⟨1⟩) :=
    ⟨⟨fun _ => 0x35, 0, 1⟩, _, rfl⟩
  have hchallenge : ((Authority.start ⟨1⟩).challenge SchnorrGroup.squares23.group ⟨4, 12⟩ 9).Possible
      (.ok 3, Authority.asked ⟨1⟩ ⟨4, 12⟩ 9 3) :=
    Draw.possible_of_map ⟨fun _ => 0x35, 0, 1⟩ (by decide +kernel)
  have hrun : (Authority.party SchnorrGroup.squares23.group).Run (.start ⟨1⟩)
      [.verify 1 (.error (.outOfOrder "a challenge" "no pending proof")),
        .challenge ⟨4, 12⟩ 9 (.ok 3)]
      (Authority.asked ⟨1⟩ ⟨4, 12⟩ 9 3) :=
    .cons hverify (.cons hchallenge (.nil _))
  obtain ⟨cause, h⟩ := hall ⟨1⟩ [] _ _ _ hrun ⟨_, rfl⟩ _ (List.mem_singleton.mpr rfl)
  cases h

end AnonCred

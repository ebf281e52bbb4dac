import AnonCred.Proofs.Credential.Binding
import AnonCred.Proofs.Party.Roles

/-!
# When a session key is earned

The organization keeps the credential in another place than the claim that its verifier checks. In
every run the two are of one challenge (`CredentialVerifier.Recorded`), so the history alone tells
which answer has earned a session key. The generator is watched: what each call of it comes to is
written down.

* `CredentialVerifier.Recorded.step` — no call takes the credential and the claim apart
* `CredentialVerifier.Recorded.earned_iff` — what the session accepts is what the history has earned
* `CredentialVerifier.verify_earned`, `CredentialVerifier.verify_unearned` — the generator is called
  for an accepted answer, and for nothing else, in whatever monad it runs
* `CredentialVerifier.session_key_earned` — whole runs: one call of the generator at most
-/

namespace AnonCred.CredentialVerifier

open CyclicGroup

variable {E : Type} {G : CyclicGroup E} {history : List (Event E)} {V V' : CredentialVerifier E}
  {nym : Pseudonym E} {credential : Credential E} {x1 x2 : E} {e z : Nat}
  {issuer : IssuerPublicKey E}

/-! ## What a history says -/

/-- The challenge `e` for the pseudonym and the credential is pending: nothing came after it but
statements about an identity. -/
def Awaits (G : CyclicGroup E) (history : List (Event E)) (nym : Pseudonym E)
    (credential : Credential E) (x1 x2 : E) (e : Nat) : Prop :=
  Party.Standing (Void G) history (.challenge nym credential x1 x2 (.ok e))

/-- The answer `z` earns a session key: it answers the pending challenge, both for the pseudonym and
for the credential, and the credential is valid for the issuer. -/
def Earned (G : CyclicGroup E) (history : List (Event E)) (z : Nat) (issuer : IssuerPublicKey E) :
    Prop :=
  ∃ nym credential x1 x2 e, Awaits G history nym credential x1 x2 e ∧
    z < G.order ∧ G.Responds nym.a nym.b x1 e z ∧
    G.Responds credential.base credential.value x2 e z ∧ credential.ValidFor G issuer

theorem awaits_concat {last : Event E} :
    Awaits G (history ++ [last]) nym credential x1 x2 e ↔
      last = .challenge nym credential x1 x2 (.ok e) ∨
        Void G last ∧ Awaits G history nym credential x1 x2 e :=
  Party.standing_concat

/-! ## What a session accepts -/

/-- An answer is accepted by a session that has asked for it, and is the last one. -/
theorem accept_eq_true [DecidableEq E] :
    (V.accept G z issuer).1 = .ok true ↔
      ∃ credential claim e, V = asked credential claim e ∧ claim.Holds G e z ∧
        credential.ValidFor G issuer := by
  constructor
  · intro h
    rcases accept_cases (G := G) V z issuer with ⟨-, error, -, haccept⟩ |
      ⟨credential, error, -, -, haccept⟩ | ⟨credential, claim, e, hpending, hwaiting, haccept⟩
    · rw [haccept] at h
      cases h
    · rw [haccept] at h
      cases h
    · rw [haccept, Except.ok.injEq, Bool.and_eq_true, decide_eq_true_iff, decide_eq_true_iff] at h
      obtain ⟨verifier, pending⟩ := V
      cases hpending
      cases hwaiting
      exact ⟨credential, claim, e, rfl, h⟩
  · rintro ⟨credential, claim, e, rfl, hholds, hvalid⟩
    show Except.ok (decide (claim.Holds G e z) && decide (credential.ValidFor G issuer)) = .ok true
    rw [decide_eq_true hholds, decide_eq_true hvalid]
    rfl

/-! ## The state after a history -/

/-- A session that waits for the answer to a challenge. -/
def waiting (nym : Pseudonym E) (credential : Credential E) (x1 x2 : E) (e : Nat) :
    CredentialVerifier E :=
  asked credential (claim nym credential x1 x2) e

theorem waiting_inj {nym' : Pseudonym E} {credential' : Credential E} {x1' x2' : E} {e' : Nat} :
    waiting nym credential x1 x2 e = waiting nym' credential' x1' x2' e' ↔
      nym = nym' ∧ credential = credential' ∧ x1 = x1' ∧ x2 = x2' ∧ e = e' := by
  obtain ⟨a, b⟩ := nym
  obtain ⟨a', b'⟩ := nym'
  simp only [waiting, asked, claim, CredentialVerifier.mk.injEq, Option.some.injEq,
    Equality.Verifier.awaitingResponse.injEq, Equality.Claim.mk.injEq, Pseudonym.mk.injEq]
  constructor
  · rintro ⟨⟨⟨rfl, -, rfl, -, rfl, rfl⟩, rfl⟩, rfl⟩
    exact ⟨⟨rfl, rfl⟩, rfl, rfl, rfl, rfl⟩
  · rintro ⟨⟨rfl, rfl⟩, rfl, rfl, rfl, rfl⟩
    exact ⟨⟨⟨rfl, rfl, rfl, rfl, rfl, rfl⟩, rfl⟩, rfl⟩

/-- The session waits exactly for the answer to the pending challenge, which is about members. -/
structure Recorded (G : CyclicGroup E) (history : List (Event E)) (V : CredentialVerifier E) :
    Prop where
  guards : V.Guards
  waits : ∀ {claim e}, V.verifier = .awaitingResponse claim e →
    ∃ nym credential x1 x2, V = waiting nym credential x1 x2 e
  members : ∀ {nym credential x1 x2 e}, V = waiting nym credential x1 x2 e →
    ∀ x ∈ (claim nym credential x1 x2).elements, G.Member x
  awaits : ∀ {nym credential x1 x2 e},
    Awaits G history nym credential x1 x2 e ↔ V = waiting nym credential x1 x2 e

namespace Recorded

theorem new : Recorded G [] start where
  guards := ⟨fun _ => rfl, nofun⟩
  waits := nofun
  members h := by cases h
  awaits := by
    intro nym credential x1 x2 e
    constructor
    · intro h
      exact absurd h Party.not_standing_nil
    · intro h
      cases h

/-- A session that is done waits for nothing. -/
theorem settled {event : Event E} (pending : Option (Credential E))
    (hchallenge : ∀ nym credential x1 x2 e, event ≠ .challenge nym credential x1 x2 (.ok e))
    (hvoid : ¬Void G event) : Recorded G (history ++ [event]) ⟨.done, pending⟩ where
  guards := ⟨nofun, nofun⟩
  waits := nofun
  members h := by cases h
  awaits := by
    intro nym credential x1 x2 e
    rw [awaits_concat]
    constructor
    · rintro (hlast | ⟨hlast, -⟩)
      · exact absurd hlast (hchallenge nym credential x1 x2 e)
      · exact absurd hlast hvoid
    · intro h
      cases h

variable [DecidableEq E]

theorem challenge (h : Recorded G history V) {answer : Except Error Nat}
    (hstep : (V.challenge G nym credential x1 x2).Possible (answer, V')) :
    Recorded G (history ++ [.challenge nym credential x1 x2 answer]) V' := by
  obtain ⟨source, next, hstep⟩ := hstep
  rcases answer with error | e
  · rcases challenge_eq_error hstep with ⟨hcheck, rfl⟩ | ⟨hcheck, verifier, hrefused, rfl⟩
    · -- a statement about an identity changes nothing
      have hvoid := (checkStatement_eq_error hcheck).1
      refine ⟨h.guards, h.waits, h.members, fun {nym' credential' x1' x2' e'} => ?_⟩
      rw [awaits_concat, ← h.awaits]
      constructor
      · rintro (hlast | ⟨-, hawaits⟩)
        · cases hlast
        · exact hawaits
      · intro hawaits
        exact .inr ⟨hvoid, hawaits⟩
    · obtain ⟨rfl, -⟩ := Equality.Verifier.challenge_eq_error hrefused
      obtain ⟨ha, hb, hbase, hvalue⟩ := checkStatement_eq_ok.mp hcheck
      exact settled _ nofun (by simp [Void, ha, hb, hbase, hvalue])
  · obtain ⟨hcheck, verifier, hchallenge, rfl⟩ := challenge_eq_ok.mp hstep
    obtain ⟨-, hmembers, -, rfl⟩ := Equality.Verifier.challenge_eq_ok.mp hchallenge
    obtain ⟨ha, hb, hbase, hvalue⟩ := checkStatement_eq_ok.mp hcheck
    have hvoid : ¬Void G (.challenge nym credential x1 x2 (.ok e)) := by
      simp [Void, ha, hb, hbase, hvalue]
    refine ⟨⟨nofun, fun _ => Option.some_ne_none _⟩, ?_, ?_,
      fun {nym' credential' x1' x2' e'} => ?_⟩
    · rintro _ _ ⟨⟩
      exact ⟨nym, credential, x1, x2, rfl⟩
    · intro nym' credential' x1' x2' e' hsame
      obtain ⟨rfl, rfl, rfl, rfl, rfl⟩ := waiting_inj.mp hsame
      exact hmembers
    · show _ ↔ waiting nym credential x1 x2 e = _
      rw [awaits_concat, waiting_inj]
      constructor
      · rintro (hlast | ⟨hlast, -⟩)
        · cases hlast
          exact ⟨rfl, rfl, rfl, rfl, rfl⟩
        · exact absurd hlast hvoid
      · rintro ⟨rfl, rfl, rfl, rfl, rfl⟩
        exact .inl rfl

theorem verify (h : Recorded G history V) {generate : Draw (Except Error SessionKey)}
    {answer : Except Error (Option SessionKey)}
    (hstep : (V.verify G generate z issuer).Possible (answer, V')) :
    Recorded G (history ++ [.verify z issuer answer]) V' := by
  obtain ⟨source, next, hstep⟩ := hstep
  obtain ⟨rfl, -⟩ := verify_eq_some hstep
  rcases accept_cases (G := G) V z issuer with ⟨hnone, error, -, haccept⟩ |
    ⟨credential, error, -, -, haccept⟩ | ⟨credential, claim, e, -, -, haccept⟩
  · -- nothing is pending, before and after
    have hwaiting {nym credential x1 x2 e} : V ≠ waiting nym credential x1 x2 e := by
      rintro rfl
      cases hnone
    rw [haccept]
    refine ⟨h.guards, h.waits, h.members, fun {nym credential x1 x2 e} => ?_⟩
    rw [awaits_concat]
    constructor
    · rintro (hlast | ⟨hlast, -⟩)
      · cases hlast
      · cases hlast
    · intro hstate
      exact absurd hstate hwaiting
  · rw [haccept]
    exact settled none nofun id
  · rw [haccept]
    exact settled none nofun id

theorem step {event : Event E} (h : Recorded G history V) (hstep : (party G).Step V event V') :
    Recorded G (history ++ [event]) V' := by
  cases event with
  | challenge nym credential x1 x2 answer => exact h.challenge hstep
  | verify z issuer answer =>
    obtain ⟨generate, hstep⟩ := hstep
    exact h.verify hstep

theorem run (hrun : (party G).Run start history V) : Recorded G history V :=
  hrun.invariant new fun h hstep => h.step hstep

/-- What the session accepts is what the history has earned. -/
theorem earned_iff (h : Recorded G history V) :
    Earned G history z issuer ↔ (V.accept G z issuer).1 = .ok true := by
  rw [accept_eq_true]
  constructor
  · rintro ⟨nym, credential, x1, x2, e, hawaits, hz, h1, h2, hvalid⟩
    exact ⟨_, _, _, h.awaits.mp hawaits, ⟨hz, h1, h2⟩, hvalid⟩
  · rintro ⟨pending, stated, e, rfl, hholds, hvalid⟩
    obtain ⟨nym, credential, x1, x2, hstate⟩ := h.waits rfl
    have hawaits := h.awaits.mpr hstate
    cases hstate
    obtain ⟨hz, h1, h2⟩ := hholds
    exact ⟨nym, pending, x1, x2, e, hawaits, hz, h1, h2, hvalid⟩

end Recorded

/-! ## The calls of the generator -/

section Generator

variable [DecidableEq E] {m : Type → Type} [Monad m]

/-- For an accepted answer the generator is called once, and what it says is the answer. -/
theorem verify_earned (h : (V.accept G z issuer).1 = .ok true)
    (generate : m (Except Error SessionKey)) :
    V.verify G generate z issuer
      = generate >>= fun made => pure (made.map some, ⟨.done, none⟩) := by
  unfold verify
  rw [eq_of_fst_eq h]
  obtain ⟨credential, claim, e, rfl, -⟩ := accept_eq_true.mp h
  rfl

/-- For any other answer it is not called, and there is no key. -/
theorem verify_unearned (h : (V.accept G z issuer).1 ≠ .ok true) :
    ∃ answer : Except Error (Option SessionKey), (∀ key, answer ≠ .ok (some key)) ∧
      ∀ {m : Type → Type} [Monad m] (generate : m (Except Error SessionKey)),
        V.verify G generate z issuer = pure (answer, (V.accept G z issuer).2) := by
  rcases haccept : V.accept G z issuer with ⟨error | accepted, next⟩
  · refine ⟨.error error, nofun, fun generate => ?_⟩
    unfold verify
    rw [haccept]
  · cases accepted with
    | true => exact absurd (congrArg Prod.fst haccept) h
    | false =>
      refine ⟨.ok none, nofun, fun generate => ?_⟩
      unfold verify
      rw [haccept]

/-- The same generator, with what its calls have come to written down. -/
def watching (generate : m (Except Error SessionKey)) :
    StateT (List (Except Error SessionKey)) m (Except Error SessionKey) := do
  let made ← StateT.lift generate
  modify (· ++ [made])
  pure made

theorem run_watching [LawfulMonad m] {α : Type} (generate : m (Except Error SessionKey))
    (f : Except Error SessionKey → α) :
    (watching generate >>= fun made => pure (f made)).run []
      = generate >>= fun made => pure (f made, [made]) := by
  unfold watching
  simp only [StateT.run_bind, StateT.run_lift, StateT.run_modify, StateT.run_pure, bind_assoc,
    pure_bind, List.nil_append]

end Generator

variable [DecidableEq E]

/-- The session as a party, with the calls of the generator in each event. -/
def watched (G : CyclicGroup E) :
    Party (CredentialVerifier E) (Event E × List (Except Error SessionKey)) where
  Step V event V' :=
    match event with
    | (.challenge nym credential x1 x2 answer, made) =>
      (V.challenge G nym credential x1 x2).Possible (answer, V') ∧ made = []
    | (.verify z issuer answer, made) =>
      ∃ generate : Draw (Except Error SessionKey),
        ((V.verify G (watching generate) z issuer).run []).Possible ((answer, V'), made)
  move event := (party G).move event.1
  refusal event := (party G).refusal event.1

/-- One call for an accepted answer, none for any other; and the session goes on in the same way as
if nobody had watched. -/
theorem watched_verify {answer : Except Error (Option SessionKey)}
    {made : List (Except Error SessionKey)}
    (hstep : (watched G).Step V (.verify z issuer answer, made) V') :
    (party G).Step V (.verify z issuer answer) V' ∧
      if (V.accept G z issuer).1 = .ok true then
        V' = ⟨.done, none⟩ ∧ ∃ outcome, made = [outcome] ∧ answer = outcome.map some
      else made = [] ∧ ∀ key, answer ≠ .ok (some key) := by
  obtain ⟨generate, source, next, hstep⟩ := hstep
  by_cases haccepted : (V.accept G z issuer).1 = .ok true
  · rw [verify_earned haccepted, run_watching] at hstep
    rw [if_pos haccepted]
    obtain ⟨outcome, middle, hgenerate, hrest⟩ := Draw.bind_eq_some.mp hstep
    obtain ⟨hpair, rfl⟩ := Draw.pure_eq_some.mp hrest
    cases hpair
    refine ⟨⟨generate, source, middle, ?_⟩, rfl, outcome, rfl, rfl⟩
    rw [verify_earned haccepted]
    exact Draw.bind_of_eq_some hgenerate _
  · obtain ⟨answer', hanswer, hverify⟩ := verify_unearned haccepted
    rw [hverify] at hstep
    rw [if_neg haccepted]
    obtain ⟨hpair, rfl⟩ := Draw.pure_eq_some.mp hstep
    cases hpair
    refine ⟨⟨generate, source, source, ?_⟩, rfl, hanswer⟩
    rw [hverify]
    rfl

theorem party_step_of_watched {event : Event E × List (Except Error SessionKey)}
    (hstep : (watched G).Step V event V') : (party G).Step V event.1 V' := by
  obtain ⟨event, made⟩ := event
  cases event with
  | challenge nym credential x1 x2 answer => exact hstep.1
  | verify z issuer answer => exact (watched_verify hstep).1

theorem party_run_of_watched {history : List (Event E × List (Except Error SessionKey))}
    (hrun : (watched G).Run V history V') : (party G).Run V (history.map Prod.fst) V' := by
  induction hrun with
  | nil V => exact .nil V
  | cons step _ ih => exact .cons (party_step_of_watched step) ih

/-- A session key is given for the credential of an answered challenge, which is valid; its base and
value are members. -/
theorem Recorded.accepted {history : List (Event E)} {key : SessionKey} (h : Recorded G history V)
    (hstep : (party G).Step V (.verify z issuer (.ok (some key))) V') :
    ∃ nym c x1 x2 e, .challenge nym c x1 x2 (.ok e) ∈ history ∧
      (claim nym c x1 x2).Holds G e z ∧ c.ValidFor G issuer ∧ G.Member c.base ∧
      G.Member c.value := by
  obtain ⟨generate, source, next, hstep⟩ := hstep
  have haccepted : (V.accept G z issuer).1 = .ok true := by
    by_contra hnot
    obtain ⟨answer, hnone, hverify⟩ := verify_unearned hnot
    rw [hverify] at hstep
    cases (Draw.pure_eq_some.mp hstep).1
    exact hnone key rfl
  obtain ⟨c, stated, e, rfl, hholds, hvalid⟩ := accept_eq_true.mp haccepted
  -- the answer says nothing of members: these were checked for the challenge
  obtain ⟨nym, c', x1, x2, hstate⟩ := h.waits rfl
  have hmembers := h.members hstate
  have hawaits := h.awaits.mpr hstate
  cases hstate
  simp only [claim, Equality.Claim.elements, List.forall_mem_cons] at hmembers
  obtain ⟨-, hbase, -, hvalue, -⟩ := hmembers
  exact ⟨nym, c, x1, x2, e, hawaits.mem, hholds, hvalid, hbase, hvalue⟩

/-! ## Whole runs -/

/-- A session answers one challenge. -/
theorem challenge_unique {history : List (Event E)} (hrun : (party G).Run start history V)
    {nym' : Pseudonym E} {c c' : Credential E} {x1' x2' : E} {e' : Nat}
    (h : .challenge nym c x1 x2 (.ok e) ∈ history)
    (h' : .challenge nym' c' x1' x2' (.ok e') ∈ history) :
    nym = nym' ∧ c = c' ∧ x1 = x1' ∧ x2 = x2' ∧ e = e' := by
  have hcount := (tolerant G).count_le rfl hrun .challenge
  cases Party.eq_of_count_le_one hcount h h' ⟨rfl, rfl⟩ ⟨rfl, rfl⟩
  exact ⟨rfl, rfl, rfl, rfl, rfl⟩

/-- A session key is given for the credential of the challenge that was answered, and only if it is
valid for the issuer. -/
theorem validFor_of_key {history : List (Event E)} (hrun : (party G).Run start history V)
    {c : Credential E} {key : SessionKey} (hchallenge : .challenge nym c x1 x2 (.ok e) ∈ history)
    (hkey : .verify z issuer (.ok (some key)) ∈ history) : c.ValidFor G issuer := by
  obtain ⟨before, after, rfl⟩ := List.append_of_mem hkey
  obtain ⟨middle, next, hbefore, hverify, -⟩ := hrun.split
  obtain ⟨_, c', _, _, _, hmem, -, hvalid, -⟩ := (Recorded.run hbefore).accepted hverify
  obtain ⟨-, rfl, -⟩ := challenge_unique hrun hchallenge (List.mem_append_left _ hmem)
  exact hvalid

/-- How often the generator was called. -/
def calls (history : List (Event E × List (Except Error SessionKey))) : Nat :=
  (history.map fun event => event.2.length).sum

omit [DecidableEq E] in
theorem calls_concat {history : List (Event E × List (Except Error SessionKey))}
    {event : Event E × List (Except Error SessionKey)} :
    calls (history ++ [event]) = calls history + event.2.length := by
  simp [calls]

/-- A call of the generator is the last thing to come, and the only one. -/
theorem watched_step {event : Event E} {made : List (Except Error SessionKey)}
    (hstep : (watched G).Step V (event, made) V') :
    made = [] ∨ made.length = 1 ∧ schedule.rest V ≠ [] ∧ schedule.rest V' = [] := by
  cases event with
  | challenge nym credential x1 x2 answer => exact .inl hstep.2
  | verify z issuer answer =>
    obtain ⟨-, hcases⟩ := watched_verify hstep
    by_cases haccepted : (V.accept G z issuer).1 = .ok true
    · rw [if_pos haccepted] at hcases
      obtain ⟨rfl, outcome, rfl, -⟩ := hcases
      obtain ⟨credential, claim, e, rfl, -⟩ := accept_eq_true.mp haccepted
      exact .inr ⟨rfl, List.cons_ne_nil _ _, rfl⟩
    · rw [if_neg haccepted] at hcases
      exact .inl hcases.1

theorem calls_le_one {history : List (Event E × List (Except Error SessionKey))}
    (hrun : (watched G).Run start history V) : calls history ≤ 1 := by
  have hinvariant : V.Guards ∧
      (calls history = 0 ∨ calls history = 1 ∧ schedule.rest V = []) := by
    refine hrun.invariant (I := fun history V => V.Guards ∧
      (calls history = 0 ∨ calls history = 1 ∧ schedule.rest V = [])) ?_ ?_
    · exact ⟨⟨fun _ => rfl, nofun⟩, .inl rfl⟩
    · rintro history V ⟨event, made⟩ V' ⟨hguards, hcalls⟩ hstep
      have hparty := party_step_of_watched hstep
      refine ⟨patient.keeps.valid hguards hparty, ?_⟩
      rw [calls_concat]
      rcases watched_step hstep with rfl | ⟨hone, hrest, hover⟩
      · rcases hcalls with hzero | ⟨hone, hover⟩
        · exact .inl hzero
        · exact .inr ⟨hone, (patient.step_over hguards hover hparty).2.1⟩
      · have hzero := hcalls.resolve_right fun h => hrest h.2
        exact .inr ⟨by rw [hzero, hone], hover⟩
  omega

/-- In every run, whatever the generator is in each call, it is called once at most, and one
challenge is answered at most. It is called for an answer that has earned a key, and only for such;
what it says is the answer of the session, an error as well as a key, and without a call there is no
key. All this does not depend on how the generator runs: it is called, or it is not. -/
theorem session_key_earned {history : List (Event E × List (Except Error SessionKey))}
    (hrun : (watched G).Run start history V) :
    calls history ≤ 1 ∧
    ((party G).answered (history.map Prod.fst)).count .challenge ≤ 1 ∧
    (∀ before z issuer answer made after,
      history = before ++ (.verify z issuer answer, made) :: after →
        (made ≠ [] ↔ Earned G (before.map Prod.fst) z issuer) ∧
        (∀ outcome ∈ made, answer = outcome.map some) ∧
        (made = [] → ∀ key, answer ≠ .ok (some key))) ∧
    ∀ {m : Type → Type} [Monad m] (generate : m (Except Error SessionKey)) z issuer,
      (Earned G (history.map Prod.fst) z issuer →
        V.verify G generate z issuer
          = generate >>= fun made => pure (made.map some, ⟨.done, none⟩)) ∧
      (¬Earned G (history.map Prod.fst) z issuer →
        ∃ answer V', (∀ key, answer ≠ .ok (some key)) ∧
          V.verify G generate z issuer = pure (answer, V')) := by
  have hparty := party_run_of_watched hrun
  refine ⟨calls_le_one hrun, (tolerant G).count_le rfl hparty .challenge, ?_, ?_⟩
  · rintro before z issuer answer made after rfl
    obtain ⟨middle, next, hbefore, hverify, -⟩ := hrun.split
    obtain ⟨-, hcases⟩ := watched_verify hverify
    have hrecorded := Recorded.run (party_run_of_watched hbefore)
    rw [hrecorded.earned_iff]
    by_cases haccepted : (middle.accept G z issuer).1 = .ok true
    · rw [if_pos haccepted] at hcases
      obtain ⟨-, outcome, rfl, rfl⟩ := hcases
      exact ⟨by simp [haccepted], by simp, nofun⟩
    · rw [if_neg haccepted] at hcases
      obtain ⟨rfl, hnone⟩ := hcases
      exact ⟨by simp [haccepted], nofun, fun _ => hnone⟩
  · intro m _ generate z issuer
    rw [(Recorded.run hparty).earned_iff]
    refine ⟨fun haccepted => verify_earned haccepted generate, fun hnot => ?_⟩
    obtain ⟨answer, hnone, hverify⟩ := verify_unearned hnot
    exact ⟨answer, _, hnone, hverify generate⟩

/-- The holder of the honest credential over the squares modulo 23 has earned a key, but the
generator fails: this is the answer, and a second one is refused without a call. -/
theorem session_key_earned_squares23 : ∃ V,
    (watched SchnorrGroup.squares23.group).Run start
      [(.challenge ⟨18, 3⟩ honestCredential 16 9 (.ok 3), []),
        (.verify 1 ⟨16, 3⟩ (.error (.collaborator (.failed "no session key left"))),
          [.error (.collaborator (.failed "no session key left"))]),
        (.verify 1 ⟨16, 3⟩ (.error (.outOfOrder "an authentication challenge" "no pending proof")),
          [])] V ∧
    Earned SchnorrGroup.squares23.group [.challenge ⟨18, 3⟩ honestCredential 16 9 (.ok 3)] 1
      ⟨16, 3⟩ ∧
    ¬Earned SchnorrGroup.squares23.group
      [.challenge ⟨18, 3⟩ honestCredential 16 9 (.ok 3),
        .verify 1 ⟨16, 3⟩ (.error (.collaborator (.failed "no session key left")))] 1 ⟨16, 3⟩ := by
  have hchallenge : (start.challenge SchnorrGroup.squares23.group ⟨18, 3⟩ honestCredential
      16 9).Possible (.ok 3, waiting ⟨18, 3⟩ honestCredential 16 9 3) := by
    obtain ⟨source, next, hscalar⟩ :
        SchnorrGroup.squares23.group.randomScalar.Possible 3 :=
      Draw.possible_of_map ⟨fun _ => 0x35, 0, 1⟩ (by decide +kernel)
    have hmembers : ∀ x ∈ (claim ⟨18, 3⟩ honestCredential 16 9).elements,
        SchnorrGroup.squares23.group.Member x := by decide +kernel
    exact ⟨source, next, challenge_eq_ok.mpr ⟨by decide +kernel, _,
      Equality.Verifier.challenge_eq_ok.mpr ⟨rfl, hmembers, hscalar, rfl⟩, rfl⟩⟩
  have haccepted : ((waiting ⟨18, 3⟩ honestCredential 16 9 3).accept SchnorrGroup.squares23.group 1
      ⟨16, 3⟩).1 = .ok true :=
    accept_eq_true.mpr ⟨_, _, _, rfl, by decide +kernel, honest_valid⟩
  have hverify : (watched SchnorrGroup.squares23.group).Step
      (waiting ⟨18, 3⟩ honestCredential 16 9 3)
      (.verify 1 ⟨16, 3⟩ (.error (.collaborator (.failed "no session key left"))),
        [.error (.collaborator (.failed "no session key left"))]) ⟨.done, none⟩ := by
    refine ⟨pure (.error (.collaborator (.failed "no session key left"))),
      ⟨fun _ => 0x35, 0, 1⟩, ⟨fun _ => 0x35, 0, 1⟩, ?_⟩
    rw [verify_earned haccepted, run_watching]
    rfl
  have hlate : (watched SchnorrGroup.squares23.group).Step ⟨.done, none⟩
      (.verify 1 ⟨16, 3⟩ (.error (.outOfOrder "an authentication challenge" "no pending proof")),
        []) ⟨.done, none⟩ :=
    ⟨pure (.ok ⟨[]⟩), ⟨fun _ => 0x35, 0, 1⟩, _, rfl⟩
  have hrun := Party.Run.cons (show (watched SchnorrGroup.squares23.group).Step start
    (.challenge ⟨18, 3⟩ honestCredential 16 9 (.ok 3), []) _ from ⟨hchallenge, rfl⟩)
    (.cons hverify (.cons hlate (.nil _)))
  obtain ⟨-, -, hall, -⟩ := session_key_earned hrun
  have hearned := (hall [_] 1 ⟨16, 3⟩ _ _ _ rfl).1.mp (List.cons_ne_nil _ _)
  have hunearned := (hall [_, _] 1 ⟨16, 3⟩ _ _ _ rfl).1.not.mp fun h => h rfl
  exact ⟨_, hrun, hearned, hunearned⟩

end AnonCred.CredentialVerifier

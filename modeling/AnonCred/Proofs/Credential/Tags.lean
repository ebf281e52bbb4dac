import AnonCred.Proofs.Credential.Request
import AnonCred.Proofs.Party.Roles

/-!
# What the tags of a pseudonym are given for

The issuer keeps the pseudonym that it will tag, the statement that its verifier checks and the
provers of the tags in three places. In every run the three belong together
(`Issuer.Recorded`): a verifier that waits is about the pending pseudonym, and provers are about the
pseudonym whose owner was accepted. So a call can be told from the history alone.

* `Issuer.Recorded.step` — no call takes the three apart
* `Issuer.Recorded.accepts_iff`, `Issuer.Recorded.verify_accepted` — the tags are handed out for the
  owner's answer to the pending challenge, and only for it
* `Issuer.answers_hold` — the answers about the tags are those that the holder accepts
* `Issuer.tags_accounted` — one pass through the calls, and what each of them answers
-/

namespace AnonCred.Issuer

open CyclicGroup

variable {E : Type} {G : CyclicGroup E} {key : IssuerKey} {history : List (Event E)}
  {I I' : Issuer E} {nym : Pseudonym E} {x : E} {e z : Nat} {c : IssuanceCommitments E}

/-! ## What a history says -/

/-- The calls that leave a pending challenge in force: statements about an identity, and requests
for answers about tags that were not handed out yet. -/
def Idle (G : CyclicGroup E) : Event E → Prop
  | .challenge nym x answer => Void G (.challenge nym x answer)
  | .verify _ _ => False
  | .respond _ _ _ => True

/-- The challenge `e` to the commitment `x` of the pseudonym's owner is pending. -/
def Awaits (G : CyclicGroup E) (history : List (Event E)) (nym : Pseudonym E) (x : E) (e : Nat) :
    Prop :=
  Party.Standing (Idle G) history (.challenge nym x (.ok e))

/-- The answer `z` to the pending challenge is the one of the pseudonym's owner. -/
def Accepts (G : CyclicGroup E) (history : List (Event E)) (nym : Pseudonym E) (z : Nat) : Prop :=
  ∃ x e, Awaits G history nym x e ∧ z < G.order ∧ G.Responds nym.a nym.b x e z

/-- The tags were handed out while a challenge about the pseudonym was pending, and answers about
them were not asked for since. -/
def Serves (G : CyclicGroup E) (history : List (Event E)) (nym : Pseudonym E)
    (c : IssuanceCommitments E) : Prop :=
  Party.Since (fun event => ∀ e1 e2 answer, event ≠ .respond e1 e2 answer)
    (fun before event => ∃ z x e, event = .verify z (.ok c) ∧ Awaits G before nym x e) history

theorem awaits_concat {last : Event E} :
    Awaits G (history ++ [last]) nym x e ↔
      last = .challenge nym x (.ok e) ∨ Idle G last ∧ Awaits G history nym x e :=
  Party.standing_concat

/-- Tags are there after the call that hands them out, and as long as no answer is asked for. -/
theorem serves_concat {last : Event E} :
    Serves G (history ++ [last]) nym c ↔
      (∃ z x e, last = .verify z (.ok c) ∧ Awaits G history nym x e) ∨
        (∀ e1 e2 answer, last ≠ .respond e1 e2 answer) ∧ Serves G history nym c :=
  Party.since_concat

theorem Awaits.serves (h : Awaits G history nym x e) (z : Nat) (c : IssuanceCommitments E) :
    Serves G (history ++ [.verify z (.ok c)]) nym c :=
  serves_concat.mpr (.inl ⟨z, x, e, rfl, h⟩)

/-- Only the call that hands them out makes tags stand. -/
theorem Serves.before {last : Event E} (h : Serves G (history ++ [last]) nym c)
    (hlast : ∀ z c, last ≠ .verify z (.ok c)) : Serves G history nym c := by
  rcases serves_concat.mp h with ⟨z, _, _, hverify, -⟩ | ⟨-, h⟩
  · exact absurd hverify (hlast z c)
  · exact h

/-! ## The state after a history -/

/-- The session remembers exactly the pending challenge, and the tags that were handed out. -/
structure Recorded (G : CyclicGroup E) (key : IssuerKey) (history : List (Event E))
    (I : Issuer E) : Prop where
  valid : schedule.Valid I
  sameKey : I.key = key
  waits : I.verifier.Waiting → ∃ nym x e, I = asked key nym x e
  members : ∀ {nym x e}, I = asked key nym x e → G.Member nym.a ∧ G.Member nym.b ∧ G.Member x
  awaits : ∀ {nym x e}, Awaits G history nym x e ↔ I = asked key nym x e
  serves : ∀ {nym c}, Serves G history nym c → G.Member nym.a ∧ G.Member nym.b ∧
    ∃ r1 r2, c = commit G key nym r1 r2 ∧ I = served G key nym r1 r2

theorem asked_inj {nym' : Pseudonym E} {x' : E} {e' : Nat} :
    asked key nym x e = asked key nym' x' e' ↔ nym = nym' ∧ x = x' ∧ e = e' := by
  simp only [asked, Issuer.mk.injEq, Knowledge.Verifier.mk.injEq,
    Knowledge.VerifierState.awaitingResponse.injEq, Option.some.injEq]
  constructor
  · rintro ⟨-, ⟨-, -, -, -, hx, he⟩, hnym, -⟩
    exact ⟨hnym, hx, he⟩
  · rintro ⟨rfl, rfl, rfl⟩
    exact ⟨trivial, ⟨trivial, trivial, rfl, rfl, rfl, rfl⟩, rfl, trivial⟩

theorem ne_asked_of_not_waiting (h : ¬I.verifier.Waiting) : I ≠ asked key nym x e := by
  rintro rfl
  exact h ⟨_, _, _, _, _, rfl⟩

theorem not_waiting_ended : ¬I.verifier.ended.Waiting := by
  rintro ⟨_, _, _, _, _, hstate⟩
  cases hstate

/-- The challenge is answered by a new session only, and for a statement about members. -/
theorem challenge_asked [DecidableEq E] {source next : Source} (hvalid : schedule.Valid I)
    (hstep : I.challenge G nym x source = some ((.ok e, I'), next)) :
    I.verifier.state = .ready ∧ nym.a ≠ G.identity ∧ nym.b ≠ G.identity ∧ G.Member nym.a ∧
      G.Member nym.b ∧ G.Member x ∧ I' = asked I.key nym x e := by
  obtain ⟨ha, hb, challenge, verifier, hchallenge, rfl, rfl⟩ := challenge_eq_ok.mp hstep
  obtain ⟨hready, -, -⟩ := hvalid.1.challenged nym hchallenge
  obtain ⟨hma, hmb, hmx, commitment, hnext, rfl⟩ :=
    Knowledge.Verifier.challenge_eq_ok.mp hchallenge
  refine ⟨hready, ha, hb, hma, hmb, hmx, ?_⟩
  obtain ⟨hnone, -⟩ := rest_of_ready hvalid hready
  have hplain := hvalid.1.plain
  -- in the plain mode the challenge comes without a commitment
  have hcommitment : commitment = none := by
    unfold Knowledge.Verifier.nextChallenge at hnext
    rw [hready, hplain] at hnext
    obtain ⟨e, middle, -, hrest⟩ := Drawn.bind_eq_ok.mp hnext
    obtain ⟨hpair, -⟩ := Drawn.pure_eq_ok.mp hrest
    cases hpair
    rfl
  obtain ⟨key, ⟨mode, state⟩, pending, provers⟩ := I
  cases hplain
  cases hnone
  cases hcommitment
  rfl

namespace Recorded

theorem new (key : IssuerKey) : Recorded G key [] (start key) where
  valid := valid_start key
  sameKey := rfl
  waits := by
    rintro ⟨_, _, _, _, _, hstate⟩
    cases hstate
  members hasked := by cases hasked
  awaits := by
    intro nym x e
    constructor
    · intro h
      exact absurd h Party.not_standing_nil
    · intro h
      cases h
  serves h := absurd h Party.not_since_nil

/-- A session that no longer waits has nothing to remember but tags, if there are any. -/
theorem settled {event : Event E} (h : Recorded G key history I) (hvalid : schedule.Valid I')
    (hkey : I'.key = I.key) (hwaiting : ¬I'.verifier.Waiting)
    (hawaits : ∀ {nym x e}, ¬Awaits G (history ++ [event]) nym x e)
    (hserves : ∀ {nym c}, Serves G (history ++ [event]) nym c → G.Member nym.a ∧ G.Member nym.b ∧
      ∃ r1 r2, c = commit G key nym r1 r2 ∧ I' = served G key nym r1 r2) :
    Recorded G key (history ++ [event]) I' where
  valid := hvalid
  sameKey := hkey.trans h.sameKey
  waits hwaits := absurd hwaits hwaiting
  members hasked := absurd hasked (ne_asked_of_not_waiting hwaiting)
  awaits := ⟨fun h => absurd h hawaits, fun h => absurd h (ne_asked_of_not_waiting hwaiting)⟩
  serves := hserves

variable [DecidableEq E]

theorem challenge (h : Recorded G key history I) {answer : Except Error Nat}
    (hvalid : schedule.Valid I') (hstep : (I.challenge G nym x).Possible (answer, I')) :
    Recorded G key (history ++ [.challenge nym x answer]) I' := by
  obtain ⟨source, next, hstep⟩ := hstep
  rcases answer with error | e
  · rcases challenge_eq_error hstep with ⟨hvoid, -, rfl⟩ | ⟨ha, hb, verifier, hrefused, rfl⟩
    · -- a statement about an identity changes nothing
      refine ⟨hvalid, h.sameKey, h.waits, h.members, ?_, ?_⟩
      · intro nym' x' e'
        rw [awaits_concat, ← h.awaits]
        constructor
        · rintro (hlast | ⟨-, hawaits⟩)
          · cases hlast
          · exact hawaits
        · intro hawaits
          exact .inr ⟨hvoid, hawaits⟩
      · intro nym' c hserves
        exact h.serves (hserves.before nofun)
    · -- any other one that is refused ends the verifier
      obtain ⟨rfl, -⟩ := h.valid.1.challenge_refused hrefused
      refine h.settled hvalid rfl not_waiting_ended ?_ ?_
      · intro nym' x' e' hawaits
        rcases awaits_concat.mp hawaits with hlast | ⟨hidle, -⟩
        · cases hlast
        · exact hidle.elim ha hb
      · intro nym' c hserves
        obtain ⟨hma, hmb, r1, r2, hcommit, rfl⟩ := h.serves (hserves.before nofun)
        exact ⟨hma, hmb, r1, r2, hcommit, rfl⟩
  · obtain ⟨hready, ha, hb, hma, hmb, hmx, rfl⟩ := challenge_asked h.valid hstep
    rw [h.sameKey] at hvalid ⊢
    refine ⟨hvalid, rfl, fun _ => ⟨nym, x, e, rfl⟩, ?_, ?_, ?_⟩
    · intro nym' x' e' hsame
      obtain ⟨rfl, rfl, rfl⟩ := asked_inj.mp hsame
      exact ⟨hma, hmb, hmx⟩
    · intro nym' x' e'
      rw [awaits_concat, asked_inj]
      constructor
      · rintro (hlast | ⟨hidle, -⟩)
        · cases hlast
          exact ⟨rfl, rfl, rfl⟩
        · exact absurd hidle (not_or.mpr ⟨ha, hb⟩)
      · rintro ⟨rfl, rfl, rfl⟩
        exact .inl rfl
    · intro nym' c hserves
      obtain ⟨-, -, r1, r2, -, rfl⟩ := h.serves (hserves.before nofun)
      cases hready

theorem verify (h : Recorded G key history I) {answer : Except Error (IssuanceCommitments E)}
    (hvalid : schedule.Valid I') (hstep : (I.verify G z).Possible (answer, I')) :
    Recorded G key (history ++ [.verify z answer]) I' := by
  obtain ⟨source, next, hstep⟩ := hstep
  -- whatever comes of it, the challenge is no longer pending
  have hawaits {nym x e} : ¬Awaits G (history ++ [.verify z answer]) nym x e := by
    intro hawaits
    rcases awaits_concat.mp hawaits with hlast | ⟨hidle, -⟩
    · cases hlast
    · exact hidle
  rcases answer with error | c
  · rcases verify_eq_error hstep with ⟨hnone, -, rfl⟩ | ⟨nym, hsome, rfl, hcases⟩
    · have hwaiting : ¬I'.verifier.Waiting := fun hwaits => h.valid.1.waiting hwaits hnone
      exact h.settled hvalid rfl hwaiting hawaits fun hserves => h.serves (hserves.before nofun)
    · have hended : (I.verifier.verify G ⟨z, none⟩).2 = I.verifier.ended := by
        rcases hcases with hrefused | ⟨accepted, hok⟩
        · exact (Knowledge.Verifier.verify_eq_error (eq_of_fst_eq hrefused)).1
        · exact (Knowledge.Verifier.waiting_of_verify hok).2
      refine h.settled hvalid rfl (hended ▸ not_waiting_ended) hawaits fun hserves => ?_
      obtain ⟨-, -, r1, r2, -, rfl⟩ := h.serves (hserves.before nofun)
      cases hsome
  · obtain ⟨nym, first, second, hpending, hok, htag, rfl⟩ := verify_eq_ok.mp hstep
    obtain ⟨hwaiting, hended⟩ := Knowledge.Verifier.waiting_of_verify hok
    obtain ⟨nym', x, e, rfl⟩ := h.waits hwaiting
    obtain ⟨-, -, -, -, -, r1, r2, middle, -, -, hcommit, rfl, rfl⟩ := tag_eq_ok.mp htag
    cases hpending
    refine h.settled hvalid rfl (hended ▸ not_waiting_ended) hawaits fun hserves => ?_
    rcases serves_concat.mp hserves with ⟨_, x', e', hlast, hpending⟩ | ⟨-, hserves⟩
    · cases hlast
      obtain ⟨rfl, -⟩ := asked_inj.mp (h.awaits.mp hpending)
      obtain ⟨hma, hmb, -⟩ := h.members rfl
      refine ⟨hma, hmb, r1, r2, hcommit, ?_⟩
      rw [hended]
      rfl
    · obtain ⟨-, -, _, _, -, hserved⟩ := h.serves hserves
      cases hserved

omit [DecidableEq E] in
theorem respond (h : Recorded G key history I) {e1 e2 : Nat} {answer : Except Error (Nat × Nat)}
    (hvalid : schedule.Valid I') (hstep : I.respond G e1 e2 = (answer, I')) :
    Recorded G key (history ++ [.respond e1 e2 answer]) I' := by
  have hnext : I' = { I with provers := none } := by
    rcases answer with error | ⟨z1, z2⟩
    · exact (respond_eq_error hstep).1
    · obtain ⟨_, _, -, -, -, hnext⟩ := respond_eq_ok.mp hstep
      exact hnext
  -- a session that waits has no provers, so it stays as it is
  have hsame (hwaiting : I'.verifier.Waiting) : I' = I := by
    rw [hnext] at hwaiting ⊢
    rw [← (rest_of_waiting h.valid hwaiting).1]
  have hasked {nym x e} : I' = asked key nym x e ↔ I = asked key nym x e := by
    constructor
    · rintro rfl
      exact (hsame ⟨_, _, _, _, _, rfl⟩).symm
    · rintro rfl
      exact hnext
  refine ⟨hvalid, by rw [hnext]; exact h.sameKey, ?_, ?_, ?_, ?_⟩
  · intro hwaiting
    have hstays := hsame hwaiting
    rw [hstays] at hwaiting ⊢
    exact h.waits hwaiting
  · intro nym x e hstate
    exact h.members (hasked.mp hstate)
  · intro nym x e
    rw [awaits_concat, hasked, ← h.awaits]
    constructor
    · rintro (hlast | ⟨-, hawaits⟩)
      · cases hlast
      · exact hawaits
    · intro hawaits
      exact .inr ⟨trivial, hawaits⟩
  · intro nym c hserves
    rcases serves_concat.mp hserves with ⟨_, _, _, hlast, -⟩ | ⟨hrespond, -⟩
    · cases hlast
    · exact absurd rfl (hrespond e1 e2 answer)

theorem step {event : Event E} (h : Recorded G key history I) (hstep : (party G).Step I event I') :
    Recorded G key (history ++ [event]) I' := by
  have hvalid := patient.keeps.valid h.valid hstep
  cases event with
  | challenge nym x answer => exact h.challenge hvalid hstep
  | verify z answer => exact h.verify hvalid hstep
  | respond e1 e2 answer => exact h.respond hvalid hstep

theorem run (hrun : (party G).Run (start key) history I) : Recorded G key history I :=
  hrun.invariant (new key) fun h hstep => h.step hstep

end Recorded

/-! ## The next call -/

namespace Recorded

variable [DecidableEq E]

/-- The answer that is pending is the owner's exactly where the verifier accepts it. -/
theorem accepts_iff (h : Recorded G key history I) :
    Accepts G history nym z ↔
      I.pending = some nym ∧ (I.verifier.verify G ⟨z, none⟩).1 = .ok true := by
  constructor
  · rintro ⟨x, e, hawaits, hz, hresponds⟩
    rw [h.awaits.mp hawaits]
    refine ⟨rfl, ?_⟩
    show Except.ok _ = Except.ok true
    rw [show decide (z < G.order ∧ G.Responds nym.a nym.b x e z) = true from
      decide_eq_true ⟨hz, hresponds⟩]
    rfl
  · rintro ⟨hpending, hok⟩
    obtain ⟨nym', x, e, rfl⟩ := h.waits (Knowledge.Verifier.waiting_of_verify hok).1
    cases hpending
    obtain ⟨_, _, _, _, _, hstate, haccepted, -⟩ :=
      Knowledge.Verifier.verify_eq_ok.mp (eq_of_fst_eq hok)
    cases hstate
    obtain ⟨-, haccepted⟩ := (Bool.and_eq_true_iff ..).mp haccepted.symm
    exact ⟨x, e, h.awaits.mpr rfl, of_decide_eq_true haccepted⟩

/-- For the owner's answer the tags are made, and nothing fails after the check. -/
theorem verify_accepted [Lawful G] (h : Recorded G key history I) (h1 : key.s1 < G.order)
    (h2 : key.s2 < G.order) (haccepts : Accepts G history nym z) :
    I.verify G z = (do
      let r1 ← G.randomScalar
      let r2 ← G.randomScalar
      pure (.ok (commit G key nym r1 r2), served G key nym r1 r2)) := by
  obtain ⟨x, e, hawaits, hz, hresponds⟩ := haccepts
  have hstate := h.awaits.mp hawaits
  obtain ⟨ha, hb, -⟩ := h.members hstate
  rw [hstate]
  exact verify_asked h1 h2 nym ha hb hz hresponds

/-- Whatever the tags were handed out for, the pending answer was the owner's. -/
theorem tags_of_verify (h : Recorded G key history I)
    (hstep : (I.verify G z).Possible (.ok c, I')) :
    ∃ nym, Accepts G history nym z ∧ c.a = G.exp nym.b key.s2 ∧
      c.b = G.exp (G.compose nym.a c.a) key.s1 := by
  obtain ⟨source, next, hstep⟩ := hstep
  obtain ⟨nym, first, second, hpending, hok, htag, -⟩ := verify_eq_ok.mp hstep
  obtain ⟨-, -, -, -, -, r1, r2, middle, -, -, rfl, -, -⟩ := tag_eq_ok.mp htag
  rw [h.sameKey]
  exact ⟨nym, h.accepts_iff.mpr ⟨hpending, hok⟩, rfl, rfl⟩

end Recorded

/-! ## The answers about the tags -/

/-- The answers about the tags fit the public key of the issuer. -/
theorem answers_hold [Lawful G] {key : IssuerKey} (hb : G.Member nym.b)
    (htagged : G.Member (G.compose nym.a (G.exp nym.b key.s2))) (r1 r2 e1 e2 : Nat) :
    CredentialRequest.AnswersHold G nym (key.publicKey G) (commit G key nym r1 r2) e1 e2
      (Arith.response r1 e1 key.s2 G.order) (Arith.response r2 e2 key.s1 G.order) := by
  obtain ⟨hz1, h11, h12⟩ := Equality.Claim.holds_response (Element.gen : G.Element)
    ⟨nym.b, hb⟩ key.s2 r1 e1
  obtain ⟨hz2, h21, h22⟩ := Equality.Claim.holds_response (Element.gen : G.Element)
    ⟨G.compose nym.a (G.exp nym.b key.s2), htagged⟩ key.s1 r2 e2
  exact ⟨hz1, hz2, h11, h12, h21, h22⟩

/-- A challenge that is not reduced is refused, whatever state the session is in. -/
theorem respond_unreduced {e1 e2 : Nat} (h : ¬(e1 < G.order ∧ e2 < G.order)) :
    ∃ error, I.respond G e1 e2 = (.error error, { I with provers := none }) := by
  rcases hrespond : I.respond G e1 e2 with ⟨error | ⟨z1, z2⟩, I'⟩
  · obtain ⟨rfl, -⟩ := respond_eq_error hrespond
    exact ⟨error, rfl⟩
  · obtain ⟨first, second, -, hz1, hz2, -⟩ := respond_eq_ok.mp hrespond
    obtain ⟨_, -, he1, -, -⟩ := Equality.Prover.respond_eq_ok.mp (eq_of_fst_eq hz1)
    obtain ⟨_, -, he2, -, -⟩ := Equality.Prover.respond_eq_ok.mp (eq_of_fst_eq hz2)
    exact absurd ⟨he1, he2⟩ h

variable [DecidableEq E]

/-- After an answer about the tags was asked for, no call is answered any more. -/
theorem answered_after_respond (nym : Pseudonym E) (r1 r2 : Nat) {later : List (Event E)}
    (hrun : (party G).Run { served G key nym r1 r2 with provers := none } later I') :
    (party G).answered later = [] := by
  have hvalid : schedule.Valid { served G key nym r1 r2 with provers := none } :=
    ⟨⟨rfl, nofun, nofun⟩, fun h => absurd rfl h⟩
  exact List.prefix_nil.mp (patient.keeps.run hvalid hrun).2.1

/-! ## Whole runs -/

/-- Every session of an issuer whose key is in range makes one pass through its calls at most. An
answer to a challenge is accepted exactly if the challenge is pending and the answer is the one of
the pseudonym's owner. It is then answered with the two tags of that pseudonym, whatever the two
nonces are that are drawn, and any other answer is refused without a draw. The first answer about
the tags, for challenges in range, is one that the holder's check accepts; challenges out of range
are refused, and about tags they end the session. -/
theorem tags_accounted {p q g : Nat} {S : SchnorrGroup} (hS : SchnorrGroup.ofParams p q g = .ok S)
    {key : IssuerKey} (h1 : key.s1 < q) (h2 : key.s2 < q) {history : List (Event Nat)}
    {I : Issuer Nat} (hrun : (party S.group).Run (start key) history I) :
    (party S.group).answered history <+: [.challenge, .verification, .response] ∧
    (∀ z,
      (∀ nym, Accepts S.group history nym z →
        I.verify S.group z = (do
          let r1 ← S.group.randomScalar
          let r2 ← S.group.randomScalar
          pure (.ok (commit S.group key nym r1 r2), served S.group key nym r1 r2))) ∧
      ((∀ nym, ¬Accepts S.group history nym z) →
        ∃ error I', I.verify S.group z = pure (.error error, I')) ∧
      ∀ c I', (I.verify S.group z).Possible (.ok c, I') →
        ∃ nym, Accepts S.group history nym z ∧ c.a = S.group.exp nym.b key.s2 ∧
          c.b = S.group.exp (S.group.compose nym.a c.a) key.s1) ∧
    ∀ e1 e2,
      (∀ nym c, Serves S.group history nym c → e1 < q → e2 < q →
        ∃ z1 z2 I', I.respond S.group e1 e2 = (.ok (z1, z2), I') ∧
          CredentialRequest.AnswersHold S.group nym (key.publicKey S.group) c e1 e2 z1 z2) ∧
      (¬(e1 < q ∧ e2 < q) → ∃ error I', I.respond S.group e1 e2 = (.error error, I') ∧
        ∀ nym c, Serves S.group history nym c →
          ∀ later I'', (party S.group).Run I' later I'' → (party S.group).answered later = []) := by
  have := SchnorrGroup.lawful_of_ofParams hS
  rw [← SchnorrGroup.order_of_ofParams hS] at h1 h2 ⊢
  have hrecorded := Recorded.run hrun
  refine ⟨(tolerant S.group).answered ⟨key, rfl⟩ hrun, fun z => ⟨?_, ?_, ?_⟩, fun e1 e2 => ⟨?_, ?_⟩⟩
  · intro nym haccepts
    exact hrecorded.verify_accepted h1 h2 haccepts
  · intro hnone
    refine Ownership.verify_refused ?_
    rintro ⟨nym, haccepted⟩
    exact hnone nym (hrecorded.accepts_iff.mpr haccepted)
  · intro c I' hstep
    exact hrecorded.tags_of_verify hstep
  · intro nym c hserves he1 he2
    obtain ⟨ha, hb, r1, r2, rfl, rfl⟩ := hrecorded.serves hserves
    have htagged := member_compose ha (S.group.member_exp hb key.s2)
    exact ⟨_, _, _, respond_served nym r1 r2 he1 he2, answers_hold hb htagged r1 r2 e1 e2⟩
  · intro hrange
    obtain ⟨error, hrespond⟩ := respond_unreduced hrange
    refine ⟨error, _, hrespond, fun nym c hserves later I'' hlater => ?_⟩
    obtain ⟨-, -, r1, r2, -, rfl⟩ := hrecorded.serves hserves
    exact answered_after_respond nym r1 r2 hlater

/-- The issuer with the key `(2, 3)` over the squares modulo 23 takes the answer 1 of the owner of
`(4, 12)`, whose secret is 5; a statement about the identity in between is forgotten. It answers the
challenges 8 and 8 about the tags, and for 11 and 8 it has no answer, then and later. -/
theorem tags_accounted_squares23 : ∃ (c : IssuanceCommitments Nat) (I I' : Issuer Nat),
    (party SchnorrGroup.squares23.group).Run (start ⟨2, 3⟩)
      [.challenge ⟨4, 12⟩ 9 (.ok 3),
        .challenge ⟨1, 12⟩ 9 (.error (.element (.isIdentity "pseudonym base"))),
        .verify 1 (.ok c)] I ∧
    c.a = SchnorrGroup.squares23.group.exp 12 3 ∧
    (∃ z1 z2 I', I.respond SchnorrGroup.squares23.group 8 8 = (.ok (z1, z2), I') ∧
      CredentialRequest.AnswersHold SchnorrGroup.squares23.group ⟨4, 12⟩ ⟨16, 18⟩ c 8 8 z1 z2) ∧
    (∃ error, I.respond SchnorrGroup.squares23.group 11 8 = (.error error, I')) ∧
    ∀ later I'', (party SchnorrGroup.squares23.group).Run I' later I'' →
      (party SchnorrGroup.squares23.group).answered later = [] := by
  have hchallenge : ((start ⟨2, 3⟩).challenge SchnorrGroup.squares23.group ⟨4, 12⟩ 9).Possible
      (.ok 3, asked ⟨2, 3⟩ ⟨4, 12⟩ 9 3) :=
    Draw.possible_of_map ⟨fun _ => 0x35, 0, 1⟩ (by decide +kernel)
  have hvoid : ((asked ⟨2, 3⟩ ⟨4, 12⟩ 9 3).challenge SchnorrGroup.squares23.group
      ⟨1, 12⟩ 9).Possible (.error (.element (.isIdentity "pseudonym base")),
        asked ⟨2, 3⟩ ⟨4, 12⟩ 9 3) :=
    Draw.possible_of_map ⟨fun _ => 0x35, 0, 1⟩ (by decide +kernel)
  have hbefore : (party SchnorrGroup.squares23.group).Run (start ⟨2, 3⟩)
      ([.challenge ⟨4, 12⟩ 9 (.ok 3)] ++
        [.challenge ⟨1, 12⟩ 9 (.error (.element (.isIdentity "pseudonym base")))])
      (asked ⟨2, 3⟩ ⟨4, 12⟩ 9 3) :=
    .cons hchallenge (.cons hvoid (.nil _))
  have hawaits : Awaits SchnorrGroup.squares23.group
      ([.challenge ⟨4, 12⟩ 9 (.ok 3)] ++
        [.challenge ⟨1, 12⟩ 9 (.error (.element (.isIdentity "pseudonym base")))]) ⟨4, 12⟩ 9 3 :=
    awaits_concat.mpr (.inr ⟨.inl rfl, [], _, [], rfl, rfl, by simp⟩)
  obtain ⟨-, hverify, -⟩ :=
    tags_accounted SchnorrGroup.ofParams_squares23 (by decide) (by decide) hbefore
  have haccepted := (hverify 1).1 ⟨4, 12⟩ ⟨9, 3, hawaits, by decide, by decide +kernel⟩
  -- the two nonces are 3 on this stream
  have hstep : (party SchnorrGroup.squares23.group).Step (asked ⟨2, 3⟩ ⟨4, 12⟩ 9 3)
      (.verify 1 (.ok (commit SchnorrGroup.squares23.group ⟨2, 3⟩ ⟨4, 12⟩ 3 3)))
      (served SchnorrGroup.squares23.group ⟨2, 3⟩ ⟨4, 12⟩ 3 3) := by
    show ((asked ⟨2, 3⟩ ⟨4, 12⟩ 9 3).verify SchnorrGroup.squares23.group 1).Possible _
    rw [haccepted]
    exact ⟨⟨fun _ => 0x35, 0, 1⟩, _, rfl⟩
  have hrun := Party.run_append.mpr ⟨_, hbefore, Party.run_singleton.mpr hstep⟩
  have hserves := hawaits.serves 1 (commit SchnorrGroup.squares23.group ⟨2, 3⟩ ⟨4, 12⟩ 3 3)
  obtain ⟨-, -, hrespond⟩ :=
    tags_accounted SchnorrGroup.ofParams_squares23 (by decide) (by decide) hrun
  obtain ⟨z1, z2, I', hanswer, hold⟩ := (hrespond 8 8).1 ⟨4, 12⟩ _ hserves (by decide) (by decide)
  have hpublic : IssuerKey.publicKey SchnorrGroup.squares23.group ⟨2, 3⟩ = ⟨16, 18⟩ := by
    decide +kernel
  rw [hpublic] at hold
  obtain ⟨error, I'', hrefused, hover⟩ := (hrespond 11 8).2 (by decide)
  exact ⟨_, _, I'', hrun, rfl, ⟨z1, z2, I', hanswer, hold⟩, ⟨error, hrefused⟩,
    hover ⟨4, 12⟩ _ hserves⟩

end AnonCred.Issuer

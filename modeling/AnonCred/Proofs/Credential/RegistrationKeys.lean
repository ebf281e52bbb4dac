import AnonCred.Proofs.Deployment
import AnonCred.Proofs.Party.Sessions
import Mathlib.Data.Set.Card

/-!
# What a registration key is good for

One store of registration keys, and the sessions that were opened with them: any number of clients
call on both in any order, and every session may be over a group of its own. A history says which
keys are outstanding; the store holds these and no others (`Registry.Recorded`). How often a key
admits is then a matter of counting: an admission takes the key away, so between two admissions it
was added again.

* `Registrar.Recorded.run` — what a session has asked for is what it answers for
* `Registry.Recorded.step` — no call takes the store and the outstanding keys apart
* `Registry.admissions_add_outstanding` — every appearance of a key is used up or outstanding
* `Registry.keys_spent_once` — whole histories: who is admitted, and how many pseudonyms a key is
  good for
-/

namespace AnonCred

open CyclicGroup

/-! ## One session -/

namespace Registrar

variable {E : Type} {G : CyclicGroup E} {authorityKey : Ecdsa.PublicKey} {history : List (Event E)}
  {R R' : Registrar E} {nym : Pseudonym E} {certificate : Certificate E} {x1 x2 : E} {e z : Nat}

/-- The statement of a challenge: the certificate is signed by the authority, and no part of the
statement is the identity. -/
structure Stated (G : CyclicGroup E) (authorityKey : Ecdsa.PublicKey) (nym : Pseudonym E)
    (certificate : Certificate E) : Prop where
  signed : certificate.verify G authorityKey = .ok ()
  pseudonym : nym.a ≠ G.identity ∧ nym.b ≠ G.identity
  certified : certificate.blindedA ≠ G.identity ∧ certificate.blindedB ≠ G.identity

/-- A session that waits was asked about a statement, and has answered with the challenge. -/
structure Recorded (G : CyclicGroup E) (authorityKey : Ecdsa.PublicKey) (history : List (Event E))
    (R : Registrar E) : Prop where
  sameKey : R.authorityKey = authorityKey
  asked : ∀ {stated e}, R.verifier = some (.awaitingResponse stated e) →
    ∃ nym certificate x1 x2, stated = claim nym certificate x1 x2 ∧
      .challenge nym certificate x1 x2 (.ok e) ∈ history ∧ Stated G authorityKey nym certificate

namespace Recorded

theorem new : Recorded G authorityKey [] (⟨authorityKey, some .ready⟩ : Registrar E) where
  sameKey := rfl
  asked := nofun

variable [DecidableEq E]

theorem step {event : Event E} (h : Recorded G authorityKey history R)
    (hstep : (party G).Step R event R') : Recorded G authorityKey (history ++ [event]) R' := by
  have hended : Recorded G authorityKey (history ++ [event]) R.ended := ⟨h.sameKey, nofun⟩
  cases event with
  | challenge nym certificate x1 x2 answer =>
    obtain ⟨source, next, hstep⟩ := hstep
    rcases answer with error | e
    · rw [(challenge_eq_error hstep).1]
      exact hended
    · obtain ⟨_, _, -, hcheck, hchallenge, rfl⟩ := challenge_eq_ok.mp hstep
      obtain ⟨-, -, -, rfl⟩ := Equality.Verifier.challenge_eq_ok.mp hchallenge
      obtain ⟨hsigned, ha, hb, hbase, hvalue⟩ := checkStatement_eq_ok.mp hcheck
      refine ⟨h.sameKey, ?_⟩
      rintro _ _ ⟨⟩
      exact ⟨nym, certificate, x1, x2, rfl, by simp, h.sameKey ▸ hsigned, ⟨ha, hb⟩, hbase, hvalue⟩
  | verify z answer =>
    rcases answer with error | accepted
    · rw [(verify_eq_error hstep).1]
      exact hended
    · obtain ⟨_, -, -, rfl⟩ := verify_eq_ok.mp hstep
      exact hended

theorem run (hrun : (party G).Run ⟨authorityKey, some .ready⟩ history R) :
    Recorded G authorityKey history R :=
  hrun.invariant new fun h hstep => h.step hstep

/-- A pseudonym that is registered was stated before, and its owner has answered for both parts. -/
theorem registered (h : Recorded G authorityKey history R)
    (hverify : R.verify G z = (.ok true, R')) :
    ∃ nym certificate x1 x2 e, .challenge nym certificate x1 x2 (.ok e) ∈ history ∧
      Stated G authorityKey nym certificate ∧ (claim nym certificate x1 x2).Holds G e z := by
  obtain ⟨verifier, hverifier, haccepted, -⟩ := verify_eq_ok.mp hverify
  obtain ⟨stated, e, rfl, haccepted, -⟩ :=
    Equality.Verifier.verify_eq_ok.mp (eq_of_fst_eq haccepted)
  obtain ⟨nym, certificate, x1, x2, rfl, hmem, hstated⟩ := h.asked hverifier
  exact ⟨nym, certificate, x1, x2, e, hmem, hstated, of_decide_eq_true haccepted.symm⟩

end Recorded

/-- A session answers one challenge. -/
theorem challenge_unique [DecidableEq E]
    (hrun : (party G).Run ⟨authorityKey, some .ready⟩ history R)
    {first second : Event E} (hfirst : first ∈ history) (hsecond : second ∈ history)
    (hanswered : (party G).refusal first = none ∧ (party G).refusal second = none)
    (hmove : (party G).move first = .challenge ∧ (party G).move second = .challenge) :
    first = second := by
  have hvalid : schedule.Valid (⟨authorityKey, some .ready⟩ : Registrar E) := by rintro ⟨⟩
  have hcount := (strict.keeps.run hvalid hrun).2.1.sublist.count_le .challenge
  exact Party.eq_of_count_le_one hcount hfirst hsecond hanswered hmove

end Registrar

/-! ## The store and its sessions -/

/-- The store, and the sessions in the order in which they were opened. -/
structure Registry {ι : Type} (E : ι → Type) where
  store : RegistrationStore
  sessions : List (Σ i, Registrar (E i))

namespace Registry

variable {ι : Type} {E : ι → Type}

def start (keys : List String) : Registry E := ⟨.ofList keys, []⟩

/-- A call on the store or on the session of a number, with its answer. A session that is opened
gets the next number. -/
inductive Event (E : ι → Type)
  | insert (key : String)
  | consume (key : String) (admitted : Bool)
  | size (count : Nat)
  | start (i : ι) (authorityKey : Ecdsa.PublicKey) (key : String) (answer : Except Error Nat)
  | call (n : Nat) (i : ι) (event : Registrar.Event (E i))

/-- The key is admitted: it is spent by itself, or opens a session. -/
def Admits (key : String) : Event E → Prop
  | .consume key' admitted => key' = key ∧ admitted = true
  | .start _ _ key' answer => key' = key ∧ ∃ n, answer = .ok n
  | _ => False

/-- The key was added, at the start or later, and was not admitted since. -/
def Outstanding (keys : List String) (history : List (Event E)) (key : String) : Prop :=
  key ∈ keys ∧ (∀ event ∈ history, ¬Admits key event) ∨
    Party.Standing (fun event => ¬Admits key event) history (.insert key)

/-- The session of the number was opened with the key, and has registered a pseudonym. -/
def Registered (history : List (Event E)) (key : String) (n : Nat) : Prop :=
  ∃ i authorityKey z, .start i authorityKey key (.ok n) ∈ history ∧
    .call n i (.verify z (.ok true)) ∈ history

variable {keys : List String} {history : List (Event E)} {key : String} {S S' : Registry E}

theorem outstanding_nil : Outstanding (E := E) keys [] key ↔ key ∈ keys := by
  simp [Outstanding, Party.not_standing_nil]

theorem outstanding_concat {last : Event E} :
    Outstanding keys (history ++ [last]) key ↔
      last = .insert key ∨ ¬Admits key last ∧ Outstanding keys history key := by
  unfold Outstanding
  rw [Party.standing_concat, List.forall_mem_append, List.forall_mem_singleton]
  tauto

/-! ### Steps -/

variable {G : ∀ i, CyclicGroup (E i)} [∀ i, DecidableEq (E i)]

/-- The store and the sessions as a party. What a call on a session is for is the session's matter;
an admission is the opening. -/
def party (G : ∀ i, CyclicGroup (E i)) : Party (Registry E) (Event E) where
  Step S event S' :=
    match event with
    | .insert key => S' = { S with store := S.store.insert key }
    | .consume key admitted =>
      S.store.consume key = (admitted, S'.store) ∧ S'.sessions = S.sessions
    | .size count => count = S.store.size ∧ S' = S
    | .start i authorityKey key answer =>
      match (Registrar.start authorityKey S.store key : Except Error (Registrar (E i)) × _) with
      | (.ok R, store) => answer = .ok S.sessions.length ∧ S' = ⟨store, S.sessions ++ [⟨i, R⟩]⟩
      | (.error error, store) => answer = .error error ∧ S' = { S with store }
    | .call n i event => ∃ R R', S.sessions[n]? = some ⟨i, R⟩ ∧
      (Registrar.party (G i)).Step R event R' ∧
      S' = { S with sessions := S.sessions.set n ⟨i, R'⟩ }
  move
    | .call _ i event => (Registrar.party (G i)).move event
    | _ => .opening
  refusal
    | .consume _ false => some .registrationDenied
    | .start _ _ _ answer => refusalOf answer
    | .call _ i event => (Registrar.party (G i)).refusal event
    | _ => none

/-- A key that is there is admitted and taken away; one that is not changes nothing. -/
theorem step_consume {admitted : Bool} (hstep : (party G).Step S (.consume key admitted) S') :
    key ∈ S.store.keys ∧ admitted = true ∧ S' = { S with store := (S.store.consume key).2 } ∨
      key ∉ S.store.keys ∧ admitted = false ∧ S' = S := by
  obtain ⟨hconsume, hsessions⟩ := hstep
  obtain ⟨store, sessions⟩ := S'
  cases hsessions
  by_cases hmem : key ∈ S.store.keys
  · rw [RegistrationStore.consume_of_mem hmem] at hconsume
    cases hconsume
    exact .inl ⟨hmem, rfl, rfl⟩
  · rw [RegistrationStore.consume_of_not_mem hmem] at hconsume
    cases hconsume
    exact .inr ⟨hmem, rfl, rfl⟩

/-- A key that is there opens the next session and is taken away; one that is not there changes
nothing. -/
theorem step_start {i : ι} {authorityKey : Ecdsa.PublicKey} {answer : Except Error Nat}
    (hstep : (party G).Step S (.start i authorityKey key answer) S') :
    key ∈ S.store.keys ∧ answer = .ok S.sessions.length ∧
        S' = ⟨(S.store.consume key).2, S.sessions ++ [⟨i, authorityKey, some .ready⟩]⟩ ∨
      key ∉ S.store.keys ∧ answer = .error .registrationDenied ∧ S' = S := by
  simp only [party, Registrar.start_eq] at hstep
  by_cases hmem : key ∈ S.store.keys
  · rw [if_pos hmem] at hstep
    exact .inl ⟨hmem, hstep⟩
  · rw [if_neg hmem] at hstep
    exact .inr ⟨hmem, hstep⟩

/-- What a call does to the store: a key is there afterwards if it was added, or was there and not
admitted; and only a key that is there is admitted. -/
theorem store_step {event : Event E} (hstep : (party G).Step S event S') :
    (∀ key, key ∈ S'.store.keys ↔ event = .insert key ∨ ¬Admits key event ∧ key ∈ S.store.keys) ∧
      (∀ key, Admits key event → key ∈ S.store.keys) ∧
      (S.store.keys.Nodup → S'.store.keys.Nodup) := by
  cases event with
  | insert added =>
    rw [show S' = { S with store := S.store.insert added } from hstep]
    refine ⟨fun key => ?_, nofun, fun h => RegistrationStore.nodup_insert h added⟩
    simp [RegistrationStore.mem_insert, Admits, eq_comm]
  | consume spent admitted =>
    rcases step_consume hstep with ⟨hmem, rfl, rfl⟩ | ⟨hmem, rfl, rfl⟩
    · refine ⟨fun key => ?_, ?_, fun h => RegistrationStore.nodup_consume h spent⟩
      · simp [RegistrationStore.mem_consume, Admits, and_comm, eq_comm]
      · rintro _ ⟨rfl, -⟩
        exact hmem
    · exact ⟨by simp [Admits], by simp [Admits], id⟩
  | size count =>
    rw [hstep.2]
    exact ⟨by simp [Admits], nofun, id⟩
  | start i authorityKey spent answer =>
    rcases step_start hstep with ⟨hmem, rfl, rfl⟩ | ⟨hmem, rfl, rfl⟩
    · refine ⟨fun key => ?_, ?_, fun h => RegistrationStore.nodup_consume h spent⟩
      · simp [RegistrationStore.mem_consume, Admits, and_comm, eq_comm]
      · rintro _ ⟨rfl, -⟩
        exact hmem
    · exact ⟨by simp [Admits], by simp [Admits], id⟩
  | call n i event =>
    obtain ⟨R, R', -, -, rfl⟩ := hstep
    exact ⟨by simp [Admits], nofun, id⟩

/-! ### The state after a history -/

/-- The session has come to its state by the calls on its number alone. -/
def Traces (G : ∀ i, CyclicGroup (E i)) (history : List (Event E)) (n : Nat) (i : ι)
    (R : Registrar (E i)) : Prop :=
  ∃ authorityKey key own, .start i authorityKey key (.ok n) ∈ history ∧
    (Registrar.party (G i)).Run ⟨authorityKey, some .ready⟩ own R ∧
    ∀ event, event ∈ own ↔ .call n i event ∈ history

/-- The store holds the outstanding keys, each once, and the sessions are those that were opened. -/
structure Recorded (G : ∀ i, CyclicGroup (E i)) (keys : List String) (history : List (Event E))
    (S : Registry E) : Prop where
  nodup : S.store.keys.Nodup
  outstanding : ∀ {key}, key ∈ S.store.keys ↔ Outstanding keys history key
  opened : ∀ {i authorityKey key n}, .start i authorityKey key (.ok n) ∈ history →
    n < S.sessions.length
  once : ∀ {i authorityKey key n i' authorityKey' key'},
    .start i authorityKey key (.ok n) ∈ history → .start i' authorityKey' key' (.ok n) ∈ history →
    (.start i authorityKey key (.ok n) : Event E) = .start i' authorityKey' key' (.ok n)
  called : ∀ {n i event}, .call n i event ∈ history → ∃ R, S.sessions[n]? = some ⟨i, R⟩
  traced : ∀ {n i R}, S.sessions[n]? = some ⟨i, R⟩ → Traces G history n i R

/-- What other calls do does not show in a session. -/
theorem Traces.concat {last : Event E} {n : Nat} {i : ι} {R : Registrar (E i)}
    (h : Traces G history n i R) (hlast : ∀ event, last ≠ .call n i event) :
    Traces G (history ++ [last]) n i R := by
  obtain ⟨authorityKey, key, own, hstart, hrun, hown⟩ := h
  refine ⟨authorityKey, key, own, List.mem_append_left _ hstart, hrun, fun event => ?_⟩
  rw [hown, List.mem_append, List.mem_singleton]
  exact ⟨.inl, fun hmem => hmem.resolve_right fun h => hlast event h.symm⟩

namespace Recorded

theorem new (G : ∀ i, CyclicGroup (E i)) (keys : List String) :
    Recorded G keys [] (Registry.start keys) where
  nodup := RegistrationStore.nodup_ofList keys
  outstanding := by
    intro key
    rw [outstanding_nil]
    exact RegistrationStore.mem_ofList
  opened := nofun
  once := nofun
  called := nofun
  traced := nofun

/-- A call that neither opens a session nor is on one. -/
theorem keep {event : Event E} (h : Recorded G keys history S)
    (hnodup : S'.store.keys.Nodup)
    (houtstanding : ∀ {key}, key ∈ S'.store.keys ↔ Outstanding keys (history ++ [event]) key)
    (hsessions : S'.sessions = S.sessions)
    (hstart : ∀ i authorityKey key n, event ≠ .start i authorityKey key (.ok n))
    (hcall : ∀ n i own, event ≠ .call n i own) : Recorded G keys (history ++ [event]) S' := by
  have hopened {i authorityKey key n}
      (hmem : .start i authorityKey key (.ok n) ∈ history ++ [event]) :
      .start i authorityKey key (.ok n) ∈ history := by
    rw [List.mem_append, List.mem_singleton] at hmem
    exact hmem.resolve_right fun h => hstart i authorityKey key n h.symm
  have hcalled {n i own} (hmem : .call n i own ∈ history ++ [event]) : .call n i own ∈ history := by
    rw [List.mem_append, List.mem_singleton] at hmem
    exact hmem.resolve_right fun h => hcall n i own h.symm
  refine ⟨hnodup, houtstanding, ?_, ?_, ?_, ?_⟩
  · intro i authorityKey key n hmem
    rw [hsessions]
    exact h.opened (hopened hmem)
  · intro i authorityKey key n i' authorityKey' key' hfirst hsecond
    exact h.once (hopened hfirst) (hopened hsecond)
  · intro n i own hmem
    rw [hsessions]
    exact h.called (hcalled hmem)
  · intro n i R hsession
    rw [hsessions] at hsession
    exact (h.traced hsession).concat (hcall n i)

/-- A session is opened under the next number. -/
theorem start {i : ι} {authorityKey : Ecdsa.PublicKey} {store : RegistrationStore}
    (h : Recorded G keys history S) (hnodup : store.keys.Nodup)
    (houtstanding : ∀ {other}, other ∈ store.keys ↔
      Outstanding keys (history ++ [.start i authorityKey key (.ok S.sessions.length)]) other) :
    Recorded G keys (history ++ [.start i authorityKey key (.ok S.sessions.length)])
      ⟨store, S.sessions ++ [⟨i, authorityKey, some .ready⟩]⟩ := by
  have hfresh {i' authorityKey' key'} :
      .start i' authorityKey' key' (.ok S.sessions.length) ∉ history :=
    fun hmem => Nat.lt_irrefl _ (h.opened hmem)
  have hcalled {n i' own}
      (hmem : .call n i' own ∈ history ++ [.start i authorityKey key (.ok S.sessions.length)]) :
      .call n i' own ∈ history := by
    rw [List.mem_append, List.mem_singleton] at hmem
    exact hmem.resolve_right nofun
  refine ⟨hnodup, houtstanding, ?_, ?_, ?_, ?_⟩
  · intro i' authorityKey' key' n hmem
    rw [List.length_append, List.length_singleton]
    rw [List.mem_append, List.mem_singleton] at hmem
    rcases hmem with hmem | hmem
    · exact Nat.lt_succ_of_lt (h.opened hmem)
    · cases hmem
      exact Nat.lt_succ_self _
  · intro i₁ authorityKey₁ key₁ n i₂ authorityKey₂ key₂ hfirst hsecond
    rw [List.mem_append, List.mem_singleton] at hfirst hsecond
    rcases hfirst with hfirst | hfirst <;> rcases hsecond with hsecond | hsecond
    · exact h.once hfirst hsecond
    · cases hsecond
      exact absurd hfirst hfresh
    · cases hfirst
      exact absurd hsecond hfresh
    · rw [hfirst, hsecond]
  · intro n i' own hmem
    obtain ⟨R, hsession⟩ := h.called (hcalled hmem)
    refine ⟨R, ?_⟩
    rw [List.getElem?_append_left (List.getElem?_eq_some_iff.mp hsession).1]
    exact hsession
  · intro n i' R hsession
    rcases Nat.lt_trichotomy n S.sessions.length with hlt | rfl | hgt
    · rw [List.getElem?_append_left hlt] at hsession
      exact (h.traced hsession).concat nofun
    · rw [List.getElem?_concat_length] at hsession
      cases hsession
      refine ⟨authorityKey, key, [], by simp, .nil _, fun own => ⟨nofun, fun hmem => ?_⟩⟩
      -- nobody has called on a session that was not there
      obtain ⟨R, hsession⟩ := h.called (hcalled hmem)
      rw [List.getElem?_eq_none (Nat.le_refl _)] at hsession
      cases hsession
    · rw [List.getElem?_eq_none (by simp; omega)] at hsession
      cases hsession

/-- A call on a session is one more of its own calls. -/
theorem call {n : Nat} {i : ι} {event : Registrar.Event (E i)} {R R' : Registrar (E i)}
    (h : Recorded G keys history S) (hsession : S.sessions[n]? = some ⟨i, R⟩)
    (hstep : (Registrar.party (G i)).Step R event R')
    (houtstanding : ∀ {other}, other ∈ S.store.keys ↔
      Outstanding keys (history ++ [.call n i event]) other) :
    Recorded G keys (history ++ [.call n i event])
      { S with sessions := S.sessions.set n ⟨i, R'⟩ } := by
  have hlt : n < S.sessions.length := (List.getElem?_eq_some_iff.mp hsession).1
  have hopened {i' authorityKey key m}
      (hmem : .start i' authorityKey key (.ok m) ∈ history ++ [.call n i event]) :
      .start i' authorityKey key (.ok m) ∈ history := by
    rw [List.mem_append, List.mem_singleton] at hmem
    exact hmem.resolve_right nofun
  refine ⟨h.nodup, houtstanding, ?_, ?_, ?_, ?_⟩
  · intro i' authorityKey key m hmem
    rw [List.length_set]
    exact h.opened (hopened hmem)
  · intro i₁ authorityKey₁ key₁ m i₂ authorityKey₂ key₂ hfirst hsecond
    exact h.once (hopened hfirst) (hopened hsecond)
  · intro m i' own hmem
    rw [List.mem_append, List.mem_singleton] at hmem
    by_cases hm : n = m
    · subst hm
      rw [List.getElem?_set_self hlt]
      rcases hmem with hmem | hmem
      · obtain ⟨R₁, hsession₁⟩ := h.called hmem
        rw [hsession] at hsession₁
        cases hsession₁
        exact ⟨R', rfl⟩
      · cases hmem
        exact ⟨R', rfl⟩
    · rw [List.getElem?_set_ne hm]
      refine h.called (hmem.resolve_right ?_)
      rintro ⟨⟩
      exact hm rfl
  · intro m i' R₁ hsession₁
    by_cases hm : n = m
    · subst hm
      rw [List.getElem?_set_self hlt] at hsession₁
      cases hsession₁
      obtain ⟨authorityKey, key, own, hstart, hrun, hown⟩ := h.traced hsession
      refine ⟨authorityKey, key, own ++ [event], List.mem_append_left _ hstart,
        Party.run_append.mpr ⟨R, hrun, Party.run_singleton.mpr hstep⟩, fun other => ?_⟩
      rw [List.mem_append, List.mem_append, hown, List.mem_singleton, List.mem_singleton]
      refine or_congr_right ⟨?_, ?_⟩
      · rintro rfl
        rfl
      · rintro ⟨⟩
        rfl
    · rw [List.getElem?_set_ne hm] at hsession₁
      refine (h.traced hsession₁).concat ?_
      rintro other ⟨⟩
      exact hm rfl

theorem step {event : Event E} (h : Recorded G keys history S)
    (hstep : (party G).Step S event S') : Recorded G keys (history ++ [event]) S' := by
  obtain ⟨hstore, -, hkept⟩ := store_step hstep
  have hnodup := hkept h.nodup
  have houtstanding {key} :
      key ∈ S'.store.keys ↔ Outstanding keys (history ++ [event]) key := by
    rw [hstore, outstanding_concat, h.outstanding]
  cases event with
  | insert added =>
    rw [show S' = { S with store := S.store.insert added } from hstep] at hnodup houtstanding ⊢
    exact h.keep hnodup houtstanding rfl nofun nofun
  | consume spent admitted => exact h.keep hnodup houtstanding hstep.2 nofun nofun
  | size count =>
    exact h.keep hnodup houtstanding (congrArg Registry.sessions hstep.2) nofun nofun
  | start i authorityKey spent answer =>
    rcases step_start hstep with ⟨-, rfl, rfl⟩ | ⟨-, rfl, rfl⟩
    · exact h.start hnodup houtstanding
    · exact h.keep hnodup houtstanding rfl nofun nofun
  | call n i event =>
    obtain ⟨R, R', hsession, hown, rfl⟩ := hstep
    exact h.call hsession hown houtstanding

theorem run (hrun : (party G).Run (Registry.start keys) history S) :
    Recorded G keys history S :=
  hrun.invariant (new G keys) fun h hstep => h.step hstep

end Recorded

/-! ### Counting -/

/-- The store counts the outstanding keys. -/
theorem Recorded.encard_outstanding (h : Recorded G keys history S) :
    {key | Outstanding keys history key}.encard = S.store.size := by
  have hset : {key | Outstanding keys history key} = (S.store.keys.toFinset : Set String) := by
    ext key
    rw [Set.mem_ofPred_eq, Finset.mem_coe, List.mem_toFinset, h.outstanding]
  rw [hset, Set.encard_coe_eq_coe_finsetCard, List.toFinset_card_of_nodup h.nodup]
  rfl

open Classical in
/-- How often the key has appeared: at the start if it is there, and whenever it was added while it
was not outstanding. -/
noncomputable def appearances (keys : List String) (history : List (Event E)) (key : String) :
    Nat :=
  (if key ∈ keys then 1 else 0) + (List.range history.length).countP fun n =>
    history[n]? = some (.insert key) ∧ ¬Outstanding keys (history.take n) key

open Classical in
/-- How often the key was admitted. -/
noncomputable def admissions (history : List (Event E)) (key : String) : Nat :=
  history.countP fun event => Admits key event

open Classical in
omit [∀ i, DecidableEq (E i)] in
theorem appearances_concat (keys : List String) (history : List (Event E)) (last : Event E)
    (key : String) :
    appearances keys (history ++ [last]) key = appearances keys history key +
      if last = .insert key ∧ ¬Outstanding keys history key then 1 else 0 := by
  unfold appearances
  rw [List.length_append, List.length_singleton, List.range_succ, List.countP_append,
    List.countP_singleton, ← Nat.add_assoc]
  congr 2
  · refine List.countP_congr fun n hn => ?_
    rw [List.mem_range] at hn
    rw [List.getElem?_append_left hn, List.take_append_of_le_length (Nat.le_of_lt hn)]
  · rw [List.getElem?_concat_length, List.take_left]
    simp

open Classical in
omit [∀ i, DecidableEq (E i)] in
theorem admissions_concat (history : List (Event E)) (last : Event E) (key : String) :
    admissions (history ++ [last]) key = admissions history key +
      if Admits key last then 1 else 0 := by
  unfold admissions
  rw [List.countP_append, List.countP_singleton]
  simp

open Classical in
/-- Every appearance of a key is used up by an admission, or the key is outstanding. -/
theorem admissions_add_outstanding (hrun : (party G).Run (Registry.start keys) history S)
    (key : String) :
    admissions history key + (if Outstanding keys history key then 1 else 0)
      = appearances keys history key := by
  refine (hrun.invariant (I := fun history S => Recorded G keys history S ∧
    admissions history key + (if Outstanding keys history key then 1 else 0)
      = appearances keys history key) ?_ ?_).2
  · refine ⟨Recorded.new G keys, ?_⟩
    simp [admissions, appearances, outstanding_nil]
  · rintro history S event S' ⟨hrecorded, hlaw⟩ hstep
    refine ⟨hrecorded.step hstep, ?_⟩
    have hadmits := (store_step hstep).2.1 key
    rw [hrecorded.outstanding] at hadmits
    rw [admissions_concat, appearances_concat, ← hlaw]
    simp only [outstanding_concat]
    by_cases hinsert : event = .insert key
    · subst hinsert
      by_cases hout : Outstanding keys history key <;> simp [Admits, hout]
    · by_cases hadmit : Admits key event
      · simp [hinsert, hadmit, hadmits hadmit]
      · simp [hinsert, hadmit]

/-- The number of the session that is opened with the key. -/
def opening (key : String) : Event E → Option Nat
  | .start _ _ key' (.ok n) => if key' = key then some n else none
  | _ => none

open Classical in
omit [∀ i, DecidableEq (E i)] in
/-- A session that registers a pseudonym was opened by an admission. -/
theorem encard_registered_le (history : List (Event E)) (key : String) :
    {n | Registered history key n}.encard ≤ admissions history key := by
  have hsubset : {n | Registered history key n} ⊆
      ((history.filterMap (opening key)).toFinset : Set Nat) := by
    rintro n ⟨i, authorityKey, z, hstart, -⟩
    rw [Finset.mem_coe, List.mem_toFinset, List.mem_filterMap]
    exact ⟨_, hstart, if_pos rfl⟩
  have hlength : (history.filterMap (opening key)).length ≤ admissions history key := by
    rw [List.length_filterMap_eq_countP]
    refine List.countP_mono_left fun event _ hsome => ?_
    rw [decide_eq_true_iff]
    cases event with
    | start i authorityKey key' answer =>
      rcases answer with error | n
      · cases hsome
      · by_cases hkey : key' = key
        · exact ⟨hkey, n, rfl⟩
        · simp [opening, hkey] at hsome
    | _ => cases hsome
  calc {n | Registered history key n}.encard
      ≤ ((history.filterMap (opening key)).toFinset : Set Nat).encard :=
        Set.encard_le_encard hsubset
    _ = (history.filterMap (opening key)).toFinset.card := Set.encard_coe_eq_coe_finsetCard _
    _ ≤ (history.filterMap (opening key)).length := Nat.cast_le.mpr (List.toFinset_card_le _)
    _ ≤ admissions history key := Nat.cast_le.mpr hlength

/-! ### Whole histories -/

/-- A call that is refused changes nothing but the session that it is on, if it is on one. -/
theorem step_refused {event : Event E} (hstep : (party G).Step S event S')
    (hrefused : (party G).refusal event ≠ none) :
    S' = S ∨ ∃ n i own, event = .call n i own ∧ S'.store = S.store ∧
      ∀ m, n ≠ m → S'.sessions[m]? = S.sessions[m]? := by
  cases event with
  | insert added => exact absurd rfl hrefused
  | consume spent admitted =>
    rcases step_consume hstep with ⟨-, rfl, -⟩ | ⟨-, -, rfl⟩
    · exact absurd rfl hrefused
    · exact .inl rfl
  | size count => exact absurd rfl hrefused
  | start i authorityKey spent answer =>
    rcases step_start hstep with ⟨-, rfl, -⟩ | ⟨-, -, rfl⟩
    · exact absurd rfl hrefused
    · exact .inl rfl
  | call n i own =>
    obtain ⟨R, R', -, -, rfl⟩ := hstep
    exact .inr ⟨n, i, own, rfl, rfl, fun m hm => List.getElem?_set_ne hm⟩

/-- A registered pseudonym is accounted for by the session's own opening and its own challenge. -/
theorem Recorded.registered {before after : List (Event E)} {n : Nat} {i : ι} {z : Nat}
    (hrun : (party G).Run (Registry.start keys)
      (before ++ .call n i (.verify z (.ok true)) :: after) S) :
    ∃ authorityKey key nym certificate x1 x2 e,
      .start i authorityKey key (.ok n) ∈ before ∧
      .call n i (.challenge nym certificate x1 x2 (.ok e)) ∈ before ∧
      Registrar.Stated (G i) authorityKey nym certificate ∧
      (Registrar.claim nym certificate x1 x2).Holds (G i) e z := by
  obtain ⟨middle, next, hbefore, ⟨R, R', hsession, hverify, -⟩, -⟩ := hrun.split
  obtain ⟨authorityKey, key, own, hstart, hown, hcalls⟩ :=
    (Recorded.run hbefore).traced hsession
  obtain ⟨nym, certificate, x1, x2, e, hmem, hstated, hholds⟩ :=
    (Registrar.Recorded.run hown).registered hverify
  exact ⟨authorityKey, key, nym, certificate, x1, x2, e, hstart, (hcalls _).mp hmem, hstated,
    hholds⟩

/-- A session answers one challenge in all. -/
theorem Recorded.challenge_unique (h : Recorded G keys history S) {n : Nat} {i : ι}
    {nym nym' : Pseudonym (E i)} {certificate certificate' : Certificate (E i)}
    {x1 x2 x1' x2' : E i} {e e' : Nat}
    (hfirst : .call n i (.challenge nym certificate x1 x2 (.ok e)) ∈ history)
    (hsecond : .call n i (.challenge nym' certificate' x1' x2' (.ok e')) ∈ history) :
    nym' = nym ∧ certificate' = certificate ∧ x1' = x1 ∧ x2' = x2 ∧ e' = e := by
  obtain ⟨R, hsession⟩ := h.called hfirst
  obtain ⟨authorityKey, key, own, -, hown, hcalls⟩ := h.traced hsession
  have hsame := Registrar.challenge_unique hown ((hcalls _).mpr hsecond) ((hcalls _).mpr hfirst)
    ⟨rfl, rfl⟩ ⟨rfl, rfl⟩
  cases hsame
  exact ⟨rfl, rfl, rfl, rfl, rfl⟩

/-- Any number of clients call on one store of keys and on the sessions that were opened with them.

A key is admitted exactly if it is outstanding, whoever asks and whether or not for a session, and
it is then taken away; a call that is refused changes nothing, but for the session that it is on.
The store counts the outstanding keys. A key is good for at most as many pseudonyms as it has
appeared, and each of them is registered by a session of its own: it was opened once, the authority
has signed the certificate, nothing in the statement is the identity, and the owner has answered its
one challenge for both parts. -/
theorem keys_spent_once (hrun : (party G).Run (Registry.start keys) history S) :
    (∀ key,
      (Outstanding keys history key → (S.store.consume key).1 = true ∧ ∀ i authorityKey,
        (Registrar.start authorityKey S.store key : Except Error (Registrar (E i)) × _)
          = (.ok ⟨authorityKey, some .ready⟩, (S.store.consume key).2)) ∧
      (¬Outstanding keys history key → S.store.consume key = (false, S.store) ∧ ∀ i authorityKey,
        (Registrar.start authorityKey S.store key : Except Error (Registrar (E i)) × _)
          = (.error .registrationDenied, S.store))) ∧
    (∀ event S', (party G).Step S event S' → (party G).refusal event ≠ none →
      S' = S ∨ ∃ n i own, event = .call n i own ∧ S'.store = S.store ∧
        ∀ m, n ≠ m → S'.sessions[m]? = S.sessions[m]?) ∧
    {key | Outstanding keys history key}.encard = S.store.size ∧
    (∀ key, {n | Registered history key n}.encard ≤ appearances keys history key) ∧
    ∀ before n i z after, history = before ++ .call n i (.verify z (.ok true)) :: after →
      ∃ authorityKey key nym certificate x1 x2 e,
        .start i authorityKey key (.ok n) ∈ before ∧
        (∀ i' authorityKey' key', .start i' authorityKey' key' (.ok n) ∈ history →
          (.start i' authorityKey' key' (.ok n) : Event E) = .start i authorityKey key (.ok n)) ∧
        .call n i (.challenge nym certificate x1 x2 (.ok e)) ∈ before ∧
        (∀ nym' certificate' x1' x2' e',
          .call n i (.challenge nym' certificate' x1' x2' (.ok e')) ∈ history →
          nym' = nym ∧ certificate' = certificate ∧ x1' = x1 ∧ x2' = x2 ∧ e' = e) ∧
        certificate.verify (G i) authorityKey = .ok () ∧
        nym.a ≠ (G i).identity ∧ nym.b ≠ (G i).identity ∧
        certificate.blindedA ≠ (G i).identity ∧ certificate.blindedB ≠ (G i).identity ∧
        z < (G i).order ∧ (G i).Responds nym.a nym.b x1 e z ∧
        (G i).Responds certificate.blindedA certificate.blindedB x2 e z := by
  have hrecorded := Recorded.run hrun
  refine ⟨fun key => ⟨fun hout => ?_, fun hnot => ?_⟩, fun event S' hstep hrefused =>
    step_refused hstep hrefused, hrecorded.encard_outstanding, fun key => ?_, ?_⟩
  · have hmem := hrecorded.outstanding.mpr hout
    refine ⟨congrArg Prod.fst (RegistrationStore.consume_of_mem hmem), fun i authorityKey => ?_⟩
    rw [Registrar.start_eq, if_pos hmem]
  · have hmem := fun h => hnot (hrecorded.outstanding.mp h)
    refine ⟨RegistrationStore.consume_of_not_mem hmem, fun i authorityKey => ?_⟩
    rw [Registrar.start_eq, if_neg hmem]
  · refine (encard_registered_le history key).trans (Nat.cast_le.mpr ?_)
    rw [← admissions_add_outstanding hrun key]
    exact Nat.le_add_right _ _
  · rintro before n i z after rfl
    obtain ⟨authorityKey, key, nym, certificate, x1, x2, e, hstart, hchallenge, hstated, hz, h1,
      h2⟩ := Recorded.registered hrun
    refine ⟨authorityKey, key, nym, certificate, x1, x2, e, hstart, ?_, hchallenge, ?_,
      hstated.signed, hstated.pseudonym.1, hstated.pseudonym.2, hstated.certified.1,
      hstated.certified.2, hz, h1, h2⟩
    · intro i' authorityKey' key' hmem
      exact hrecorded.once hmem (List.mem_append_left _ hstart)
    · intro nym' certificate' x1' x2' e' hmem
      exact hrecorded.challenge_unique (List.mem_append_left _ hchallenge) hmem

/-- A key that was given twice at the start opens one session, for the owner of the pseudonym
`(4, 12)` over the squares modulo 23; it is refused then, and admitted once it is added again. -/
theorem keys_spent_once_squares23 :
    ∃ (certificate : Certificate Nat) (S : Registry fun _ : Unit => Nat),
      (party fun _ => SchnorrGroup.squares23.group).Run (Registry.start ["k", "k"])
        [.start () Deployment.steadyKey.publicKey "k" (.ok 0), .consume "k" false, .insert "k",
          .call 0 () (.challenge ⟨4, 12⟩ certificate 9 2 (.ok 3)),
          .call 0 () (.verify 1 (.ok true))] S ∧
      (S.store.consume "k").1 = true ∧
      certificate.verify SchnorrGroup.squares23.group Deployment.steadyKey.publicKey = .ok () := by
  obtain ⟨signature, -, hverifies⟩ := Deployment.signs_steady
  -- only the signature depends on the key
  generalize Deployment.steadyKey.publicKey = authorityKey at hverifies ⊢
  have hcertificate : Certificate.verify SchnorrGroup.squares23.group
      authorityKey ⟨13, 4, signature⟩ = .ok () := if_pos hverifies
  have hstart : (party fun _ : Unit => SchnorrGroup.squares23.group).Step
      (Registry.start ["k", "k"]) (.start () authorityKey "k" (.ok 0))
      ⟨⟨[]⟩, [⟨(), authorityKey, some .ready⟩]⟩ := ⟨rfl, rfl⟩
  have hrefused : (party fun _ : Unit => SchnorrGroup.squares23.group).Step
      ⟨⟨[]⟩, [⟨(), authorityKey, some .ready⟩]⟩ (.consume "k" false)
      ⟨⟨[]⟩, [⟨(), authorityKey, some .ready⟩]⟩ := ⟨rfl, rfl⟩
  have hinsert : (party fun _ : Unit => SchnorrGroup.squares23.group).Step
      ⟨⟨[]⟩, [⟨(), authorityKey, some .ready⟩]⟩ (.insert "k")
      ⟨⟨["k"]⟩, [⟨(), authorityKey, some .ready⟩]⟩ := rfl
  have hchallenge : (party fun _ : Unit => SchnorrGroup.squares23.group).Step
      ⟨⟨["k"]⟩, [⟨(), authorityKey, some .ready⟩]⟩
      (.call 0 () (.challenge ⟨4, 12⟩ ⟨13, 4, signature⟩ 9 2 (.ok 3)))
      ⟨⟨["k"]⟩, [⟨(), Registrar.registering authorityKey
        ⟨4, 13, 12, 4, 9, 2⟩ 3⟩]⟩ := by
    obtain ⟨source, next, hscalar⟩ : SchnorrGroup.squares23.group.randomScalar.Possible 3 :=
      Draw.possible_of_map ⟨fun _ => 0x35, 0, 1⟩ (by decide +kernel)
    have hmembers : ∀ x ∈ (⟨4, 13, 12, 4, 9, 2⟩ : Equality.Claim Nat).elements,
        SchnorrGroup.squares23.group.Member x := by decide +kernel
    have hidentity : 13 ≠ SchnorrGroup.squares23.group.identity ∧
        4 ≠ SchnorrGroup.squares23.group.identity := by decide
    have hcheck : (⟨authorityKey, some .ready⟩ : Registrar Nat).checkStatement
        SchnorrGroup.squares23.group ⟨4, 12⟩ ⟨13, 4, signature⟩ = .ok () :=
      Registrar.checkStatement_eq_ok.mpr
        ⟨hcertificate, by decide, by decide, hidentity.1, hidentity.2⟩
    exact ⟨_, _, rfl, ⟨source, next, Registrar.challenge_eq_ok.mpr ⟨_, _, rfl, hcheck,
      Equality.Verifier.challenge_eq_ok.mpr ⟨rfl, hmembers, hscalar, rfl⟩, rfl⟩⟩, rfl⟩
  have hverify : (party fun _ : Unit => SchnorrGroup.squares23.group).Step
      ⟨⟨["k"]⟩, [⟨(), Registrar.registering authorityKey
        ⟨4, 13, 12, 4, 9, 2⟩ 3⟩]⟩ (.call 0 () (.verify 1 (.ok true)))
      ⟨⟨["k"]⟩, [⟨(), authorityKey, none⟩]⟩ := by
    have hholds : (⟨4, 13, 12, 4, 9, 2⟩ : Equality.Claim Nat).Holds
        SchnorrGroup.squares23.group 3 1 := by decide +kernel
    exact ⟨_, _, rfl, Registrar.verify_registering hholds, rfl⟩
  have hrun := Party.Run.cons hstart (.cons hrefused (.cons hinsert (.cons hchallenge
    (.cons hverify (.nil _)))))
  obtain ⟨hadmitted, -, -, -, hregistered⟩ := keys_spent_once hrun
  -- the key was added again after it was spent
  have hagain := (hadmitted "k").1 (.inr ⟨[_, _], _, [_, _], rfl, rfl, by simp [Admits]⟩)
  obtain ⟨authorityKey', key, nym, certificate, x1, x2, e, -, hopened, -, hasked, hsigned, -⟩ :=
    hregistered [_, _, _, _] 0 () 1 [] rfl
  cases hopened () authorityKey "k" List.mem_cons_self
  obtain ⟨-, rfl, -⟩ := hasked ⟨4, 12⟩ ⟨13, 4, signature⟩ 9 2 3 (by simp)
  exact ⟨_, _, hrun, hagain.1, hsigned⟩

end Registry

end AnonCred

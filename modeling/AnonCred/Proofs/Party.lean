import AnonCred.Proofs.Session
import Mathlib.Data.List.Induction

/-!
# Parties and their runs

A party is described as its environment sees it. An event is a call together with the answer that it
got; a `Party` says which events can happen in a state and which state they leave, and a `Party.Run`
is a finite sequence of events. The arguments and the random numbers of the calls are arbitrary, and
new for each call.

The calls of a session are answered in a fixed order. A `Schedule` says which moves are still to
come in a state. This turns an order into conditions on single events, and from these follows what
holds of a whole run:

* `Keeps.run` — the answered calls are the first ones of the order
* `Strict.singleUse` — where every refusal ends the session, it is good for one pass through the
  order (`SingleUse`)
* `Patient.tolerant` — what is left of this where a call that comes too early is refused and
  forgotten (`Tolerant`)
-/

namespace AnonCred

/-! ## Events -/

/-- What a call is for in a protocol. -/
inductive Move
  | opening
  | commitment
  | randomData
  | challenge
  | response
  | verification
deriving DecidableEq, Repr

/-- The error of an answer that is a refusal. -/
def refusalOf {α : Type} : Except Error α → Option Error
  | .ok _ => none
  | .error error => some error

/-- A party: which event leads from one state to another, which move its call is, and why the call
was refused, if it was. -/
structure Party (σ ε : Type) where
  Step : σ → ε → σ → Prop
  move : ε → Move
  refusal : ε → Option Error

variable {σ ε : Type} {P : Party σ ε}

namespace Party

/-! ## Runs -/

/-- The events that happen one after another, from one state to another. -/
inductive Run (P : Party σ ε) : σ → List ε → σ → Prop
  | nil (s : σ) : Run P s [] s
  | cons {s middle t : σ} {event : ε} {history : List ε} (step : P.Step s event middle)
      (run : Run P middle history t) : Run P s (event :: history) t

theorem run_append {s t : σ} {first second : List ε} :
    P.Run s (first ++ second) t ↔ ∃ middle, P.Run s first middle ∧ P.Run middle second t := by
  constructor
  · intro h
    induction first generalizing s with
    | nil => exact ⟨s, .nil s, h⟩
    | cons event first ih =>
      cases h with
      | cons step run =>
        obtain ⟨middle, hfirst, hsecond⟩ := ih run
        exact ⟨middle, .cons step hfirst, hsecond⟩
  · rintro ⟨middle, hfirst, hsecond⟩
    induction hfirst with
    | nil => exact hsecond
    | cons step _ ih => exact .cons step (ih hsecond)

theorem run_singleton {s t : σ} {event : ε} : P.Run s [event] t ↔ P.Step s event t := by
  constructor
  · intro h
    cases h with
    | cons step run =>
      cases run
      exact step
  · intro h
    exact .cons h (.nil t)

/-- A run is cut at one of its events. -/
theorem Run.split {s t : σ} {before after : List ε} {event : ε}
    (h : P.Run s (before ++ event :: after) t) :
    ∃ middle next, P.Run s before middle ∧ P.Step middle event next ∧ P.Run next after t := by
  obtain ⟨middle, hbefore, hrest⟩ := run_append.mp h
  cases hrest with
  | cons step run => exact ⟨middle, _, hbefore, step, run⟩

/-- What holds at the start and is kept by every event holds of the history and the state after
it. -/
theorem Run.invariant {I : List ε → σ → Prop} {s t : σ} {history : List ε}
    (h : P.Run s history t) (hstart : I [] s)
    (hstep : ∀ {history s event s'}, I history s → P.Step s event s' → I (history ++ [event]) s') :
    I history t := by
  -- the induction is on the events from the last one on
  induction history using List.reverseRecOn generalizing t with
  | nil =>
    cases h
    exact hstart
  | append_singleton history event ih =>
    obtain ⟨middle, hhistory, hlast⟩ := run_append.mp h
    exact hstep (ih hhistory) (run_singleton.mp hlast)

/-- The moves of the calls that were answered. -/
def answered (P : Party σ ε) (history : List ε) : List Move :=
  (history.filter fun event => (P.refusal event).isNone).map P.move

theorem answered_cons_of_ok {event : ε} (h : P.refusal event = none) (history : List ε) :
    P.answered (event :: history) = P.move event :: P.answered history := by
  simp [answered, h]

theorem answered_cons_of_error {event : ε} {error : Error} (h : P.refusal event = some error)
    (history : List ε) : P.answered (event :: history) = P.answered history := by
  simp [answered, h]

theorem answered_append (first second : List ε) :
    P.answered (first ++ second) = P.answered first ++ P.answered second := by
  simp [answered]

/-- A move that was made once was made by one event. -/
theorem eq_of_count_le_one {history : List ε} {move : Move}
    (hcount : (P.answered history).count move ≤ 1) {first second : ε} (hfirst : first ∈ history)
    (hsecond : second ∈ history) (hanswered : P.refusal first = none ∧ P.refusal second = none)
    (hmove : P.move first = move ∧ P.move second = move) : first = second := by
  have hlength : ((history.filter fun event => (P.refusal event).isNone).filter
      fun event => P.move event == move).length ≤ 1 := by
    rw [← List.countP_eq_length_filter]
    rwa [answered, List.count, List.countP_map] at hcount
  have hmem {event : ε} (h : event ∈ history) (hnone : P.refusal event = none)
      (hmove : P.move event = move) :
      event ∈ (history.filter fun event => (P.refusal event).isNone).filter
        fun event => P.move event == move := by
    simp [h, hnone, hmove]
  have h1 := hmem hfirst hanswered.1 hmove.1
  have h2 := hmem hsecond hanswered.2 hmove.2
  rcases hfound : (history.filter fun event => (P.refusal event).isNone).filter
    (fun event => P.move event == move) with _ | ⟨event, rest⟩
  · rw [hfound] at h1
    cases h1
  · rw [hfound] at h1 h2 hlength
    cases rest with
    | nil => rw [List.mem_singleton.mp h1, List.mem_singleton.mp h2]
    | cons => simp at hlength

/-! ## What stands -/

/-- An event of the kind has happened after the history that it had then, and everything since is of
a kind that leaves it in force. -/
def Since (Leaves : ε → Prop) (Kind : List ε → ε → Prop) (history : List ε) : Prop :=
  ∃ before event after, history = before ++ event :: after ∧ Kind before event ∧
    ∀ later ∈ after, Leaves later

/-- The event has happened, and is still in force. -/
def Standing (Leaves : ε → Prop) (history : List ε) (event : ε) : Prop :=
  Since Leaves (fun _ happened => happened = event) history

variable {Leaves : ε → Prop} {Kind : List ε → ε → Prop} {history : List ε} {event last : ε}

theorem not_since_nil : ¬Since Leaves Kind [] := by
  rintro ⟨before, event, after, hnil, -⟩
  simp at hnil

theorem not_standing_nil : ¬Standing Leaves [] event := not_since_nil

/-- After one event more it is that event that counts, or one before it that it leaves in force. -/
theorem since_concat :
    Since Leaves Kind (history ++ [last]) ↔
      Kind history last ∨ Leaves last ∧ Since Leaves Kind history := by
  constructor
  · rintro ⟨before, event, after, hhistory, hkind, hall⟩
    rcases List.eq_nil_or_concat after with rfl | ⟨after, latest, rfl⟩
    · obtain ⟨rfl, hlast⟩ := List.append_inj' hhistory rfl
      cases hlast
      exact .inl hkind
    · rw [List.concat_eq_append] at hhistory hall
      rw [← List.cons_append, ← List.append_assoc] at hhistory
      obtain ⟨rfl, hlast⟩ := List.append_inj' hhistory rfl
      cases hlast
      rw [List.forall_mem_append, List.forall_mem_singleton] at hall
      exact .inr ⟨hall.2, before, event, after, rfl, hkind, hall.1⟩
  · rintro (hkind | ⟨hlast, before, event, after, rfl, hkind, hall⟩)
    · exact ⟨history, last, [], rfl, hkind, by simp⟩
    · refine ⟨before, event, after ++ [last], by simp, hkind, ?_⟩
      rw [List.forall_mem_append, List.forall_mem_singleton]
      exact ⟨hall, hlast⟩

theorem standing_concat :
    Standing Leaves (history ++ [last]) event ↔
      last = event ∨ Leaves last ∧ Standing Leaves history event :=
  since_concat

/-- What stands has happened. -/
theorem Standing.mem (h : Standing Leaves history event) : event ∈ history := by
  obtain ⟨before, _, after, rfl, rfl, -⟩ := h
  simp

end Party

/-! ## Schedules -/

/-- The states that a session can be in, and in each of them the moves that are still to come. -/
structure Schedule (σ : Type) where
  Valid : σ → Prop
  rest : σ → List Move

variable {S : Schedule σ} {s s' t : σ} {history : List ε}

namespace Party

/-- An answered call is the first of the moves to come; after a refused one either all of them still
are, or none. -/
structure Keeps (P : Party σ ε) (S : Schedule σ) : Prop where
  answered : ∀ {s event s'}, S.Valid s → P.Step s event s' → P.refusal event = none →
    S.Valid s' ∧ S.rest s = P.move event :: S.rest s'
  refused : ∀ {s event s' error}, S.Valid s → P.Step s event s' → P.refusal event = some error →
    S.Valid s' ∧ (S.rest s' = S.rest s ∨ S.rest s' = [])

theorem Keeps.valid (h : P.Keeps S) {event : ε} (hvalid : S.Valid s) (hstep : P.Step s event s') :
    S.Valid s' := by
  rcases hrefusal : P.refusal event with _ | error
  · exact (h.answered hvalid hstep hrefusal).1
  · exact (h.refused hvalid hstep hrefusal).1

/-- The answered calls are the first of the moves to come; the others still are, unless none is. -/
theorem Keeps.run (h : P.Keeps S) (hvalid : S.Valid s) (hrun : P.Run s history t) :
    S.Valid t ∧ P.answered history <+: S.rest s ∧
      (S.rest t = [] ∨ S.rest s = P.answered history ++ S.rest t) := by
  -- from the first event on: an answered call takes the first move off those to come
  induction hrun with
  | nil s => exact ⟨hvalid, List.nil_prefix, .inr rfl⟩
  | @cons s middle t event history step run ih =>
    rcases hrefusal : P.refusal event with _ | error
    · obtain ⟨hmiddle, hrest⟩ := h.answered hvalid step hrefusal
      obtain ⟨hvalid', hinitial, hleft⟩ := ih hmiddle
      rw [answered_cons_of_ok hrefusal, hrest]
      refine ⟨hvalid', List.cons_prefix_cons.mpr ⟨rfl, hinitial⟩, ?_⟩
      rcases hleft with hnone | hsome
      · exact .inl hnone
      · exact .inr (by rw [hsome, List.cons_append])
    · obtain ⟨hmiddle, hkept⟩ := h.refused hvalid step hrefusal
      obtain ⟨hvalid', hinitial, hleft⟩ := ih hmiddle
      rw [answered_cons_of_error hrefusal]
      rcases hkept with hsame | hnone
      · rw [← hsame]
        exact ⟨hvalid', hinitial, hleft⟩
      · rw [hnone, List.prefix_nil] at hinitial
        rw [hnone, hinitial] at hleft
        refine ⟨hvalid', by rw [hinitial]; exact List.nil_prefix, .inl ?_⟩
        rcases hleft with hleft | hleft
        · exact hleft
        · exact hleft.symm

/-- The next answered call is the one that the order names. -/
theorem getElem?_of_initial {order : List Move} {before after : List ε} {event : ε}
    (h : P.answered (before ++ event :: after) <+: order) (hanswered : P.refusal event = none) :
    order[(P.answered before).length]? = some (P.move event) := by
  obtain ⟨tail, rfl⟩ := h
  rw [answered_append, answered_cons_of_ok hanswered]
  simp

end Party

/-! ## Sessions that a refusal ends -/

/-- What a call comes to where every refusal is the end. In turn the call is answered, or it fails;
when nothing is to come any more it is refused as out of order. An error that the party only passes
on may be any error. -/
inductive Schedule.Settles (S : Schedule σ) (Foreign : Error → Prop) (move : Move) (s : σ) :
    Option Error → σ → Prop
  | answered {s' : σ} (valid : S.Valid s') (next : S.rest s = move :: S.rest s') :
      S.Settles Foreign move s none s'
  | refused {error : Error} {s' : σ} (valid : S.Valid s') (finished : S.rest s' = [])
      (late : S.rest s = [] → error.IsOutOfOrder)
      (inTurn : (S.rest s).head? = some move → error.IsOutOfOrder → Foreign error) :
      S.Settles Foreign move s (some error) s'

variable {Foreign : Error → Prop}

namespace Schedule.Settles

variable {move : Move} {error : Error}

/-- Out of turn it is enough that the error says so. -/
theorem outOfTurn (valid : S.Valid s') (finished : S.rest s' = [])
    (hturn : (S.rest s).head? ≠ some move) (hout : error.IsOutOfOrder) :
    S.Settles Foreign move s (some error) s' :=
  .refused valid finished (fun _ => hout) fun h => absurd h hturn

/-- A failure in turn has another reason, or comes from outside. -/
theorem failed (valid : S.Valid s') (finished : S.rest s' = [])
    (hturn : (S.rest s).head? = some move) (hfailed : error.IsOutOfOrder → Foreign error) :
    S.Settles Foreign move s (some error) s' :=
  .refused valid finished (fun h => by rw [h] at hturn; cases hturn) fun _ => hfailed

end Schedule.Settles

namespace Party

/-- Every call on the party comes to what the schedule says. -/
def Strict (P : Party σ ε) (S : Schedule σ) (Foreign : Error → Prop) : Prop :=
  ∀ {s event s'}, S.Valid s → P.Step s event s' →
    S.Settles Foreign (P.move event) s (P.refusal event) s'

/-- A session that is good for one pass through the order of its calls. -/
structure SingleUse (P : Party σ ε) (Starts : σ → Prop) (order : List Move)
    (Foreign : Error → Prop) : Prop where
  /-- The answered calls of a run are the first ones of the order. -/
  answered : ∀ {s history t}, Starts s → P.Run s history t → P.answered history <+: order
  /-- A call that is not the next one of the order is refused. -/
  outOfTurn : ∀ {s before event after t}, Starts s → P.Run s (before ++ event :: after) t →
    order[(P.answered before).length]? ≠ some (P.move event) → P.refusal event ≠ none
  /-- The next one of the order is not refused as out of order, as long as nothing was refused
  before, unless the party passes on an error from outside. -/
  inTurn : ∀ {s before event after t error}, Starts s → P.Run s (before ++ event :: after) t →
    (∀ earlier ∈ before, P.refusal earlier = none) →
    order[before.length]? = some (P.move event) → P.refusal event = some error →
    error.IsOutOfOrder → Foreign error
  /-- After a refusal every call is refused as out of order. -/
  ended : ∀ {s before event after t}, Starts s → P.Run s (before ++ event :: after) t →
    P.refusal event ≠ none →
    ∀ later ∈ after, ∃ error, P.refusal later = some error ∧ error.IsOutOfOrder

/-- A move is answered at most as often as the order has it. -/
theorem SingleUse.count_le {Starts : σ → Prop} {order : List Move}
    (h : P.SingleUse Starts order Foreign) (hs : Starts s) (hrun : P.Run s history t) (move : Move) :
    (P.answered history).count move ≤ order.count move :=
  (h.answered hs hrun).sublist.count_le move

namespace Strict

theorem keeps (h : P.Strict S Foreign) : P.Keeps S where
  answered hvalid hstep hrefusal := by
    have hsettles := h hvalid hstep
    rw [hrefusal] at hsettles
    cases hsettles with
    | answered valid next => exact ⟨valid, next⟩
  refused hvalid hstep hrefusal := by
    have hsettles := h hvalid hstep
    rw [hrefusal] at hsettles
    cases hsettles with
    | refused valid finished => exact ⟨valid, .inr finished⟩

/-- Where no move is to come, nothing but refusals is. -/
theorem run_over (h : P.Strict S Foreign) (hrun : P.Run s history t) (hvalid : S.Valid s)
    (hover : S.rest s = []) :
    ∀ event ∈ history, ∃ error, P.refusal event = some error ∧ error.IsOutOfOrder := by
  induction hrun with
  | nil => simp
  | @cons s middle t event history step run ih =>
    have hsettles := h hvalid step
    rcases hrefusal : P.refusal event with _ | error
    · rw [(h.keeps.answered hvalid step hrefusal).2] at hover
      cases hover
    · rw [hrefusal] at hsettles
      cases hsettles with
      | refused hmiddle hnone late =>
        rw [List.forall_mem_cons]
        exact ⟨⟨error, hrefusal, late hover⟩, ih hmiddle hnone⟩

/-- Without a refusal the moves to come are the ones that were not made. -/
theorem run_answered (h : P.Strict S Foreign) (hrun : P.Run s history t) (hvalid : S.Valid s)
    (hanswered : ∀ event ∈ history, P.refusal event = none) :
    S.rest s = history.map P.move ++ S.rest t := by
  induction hrun with
  | nil => rfl
  | @cons s middle t event history step run ih =>
    rw [List.forall_mem_cons] at hanswered
    obtain ⟨hmiddle, hrest⟩ := h.keeps.answered hvalid step hanswered.1
    rw [hrest, ih hmiddle hanswered.2]
    rfl

theorem singleUse {Starts : σ → Prop} {order : List Move} (h : P.Strict S Foreign)
    (hstarts : ∀ {s}, Starts s → S.Valid s ∧ S.rest s = order) :
    P.SingleUse Starts order Foreign where
  answered hs hrun := by
    obtain ⟨hvalid, rfl⟩ := hstarts hs
    exact (h.keeps.run hvalid hrun).2.1
  outOfTurn hs hrun hturn hanswered := by
    obtain ⟨hvalid, rfl⟩ := hstarts hs
    exact hturn (getElem?_of_initial (h.keeps.run hvalid hrun).2.1 hanswered)
  inTurn hs hrun hbefore hturn hrefusal hout := by
    obtain ⟨hvalid, rfl⟩ := hstarts hs
    obtain ⟨middle, next, hfirst, hstep, -⟩ := hrun.split
    have hsettles := h (h.keeps.run hvalid hfirst).1 hstep
    rw [hrefusal] at hsettles
    cases hsettles with
    | refused valid finished late inTurn =>
      refine inTurn ?_ hout
      rw [h.run_answered hfirst hvalid hbefore, List.getElem?_append_right (by simp)] at hturn
      simpa [List.head?_eq_getElem?] using hturn
  ended hs hrun hrefusal := by
    obtain ⟨hvalid, rfl⟩ := hstarts hs
    obtain ⟨middle, next, hfirst, hstep, hafter⟩ := hrun.split
    have hsettles := h (h.keeps.run hvalid hfirst).1 hstep
    obtain ⟨error, herror⟩ := Option.ne_none_iff_exists'.mp hrefusal
    rw [herror] at hsettles
    cases hsettles with
    | refused hnext hover => exact h.run_over hafter hnext hover

end Strict

end Party

/-! ## Sessions that a refusal need not end -/

/-- What a call comes to where a call out of turn is refused and forgotten, except that a second
challenge is the end, as a failure in turn is. -/
inductive Schedule.Bears (S : Schedule σ) (move : Move) (s : σ) : Option Error → σ → Prop
  | answered {s' : σ} (valid : S.Valid s') (next : S.rest s = move :: S.rest s') :
      S.Bears move s none s'
  | failed {error : Error} {s' : σ} (turn : (S.rest s).head? = some move) (valid : S.Valid s')
      (finished : S.rest s' = []) : S.Bears move s (some error) s'
  | forgotten {error : Error} (turn : (S.rest s).head? ≠ some move) (out : error.IsOutOfOrder)
      (first : ¬(move = .challenge ∧ (S.rest s).head? = some .verification)) :
      S.Bears move s (some error) s
  | ended {error : Error} {s' : σ} (turn : (S.rest s).head? ≠ some move)
      (out : error.IsOutOfOrder)
      (again : S.rest s = [] ∨ move = .challenge ∧ (S.rest s).head? = some .verification)
      (valid : S.Valid s') (finished : S.rest s' = []) : S.Bears move s (some error) s'

namespace Party

variable {Void : ε → Prop}

/-- Every call comes to what the schedule says, but for the calls of a kind `Void`: these are refused
because of an identity, in whatever state, and change nothing. -/
structure Patient (P : Party σ ε) (S : Schedule σ) (Void : ε → Prop) : Prop where
  void : ∀ {s event s'}, S.Valid s → P.Step s event s' → Void event →
    (∃ what, P.refusal event = some (.element (.isIdentity what))) ∧ s' = s
  step : ∀ {s event s'}, S.Valid s → P.Step s event s' → ¬Void event →
    S.Bears (P.move event) s (P.refusal event) s'

/-- From now on every call that is not void is refused as out of order. -/
def Over (P : Party σ ε) (Void : ε → Prop) (s : σ) : Prop :=
  ∀ later t, P.Run s later t → ∀ event ∈ later, ¬Void event →
    ∃ error, P.refusal event = some error ∧ error.IsOutOfOrder

/-- A session that ends with a failure in turn and with a second challenge, and with nothing else. -/
structure Tolerant (P : Party σ ε) (Starts : σ → Prop) (order : List Move)
    (Void : ε → Prop) : Prop where
  /-- The answered calls of a run are the first ones of the order. -/
  answered : ∀ {s history t}, Starts s → P.Run s history t → P.answered history <+: order
  /-- A void call is refused because of an identity and changes nothing. -/
  void : ∀ {s before middle event next}, Starts s → P.Run s before middle →
    P.Step middle event next → Void event →
    (∃ what, P.refusal event = some (.element (.isIdentity what))) ∧ next = middle
  /-- The next call of the order ends the session if it is refused. -/
  inTurn : ∀ {s before middle event next}, Starts s → P.Run s before middle →
    P.Step middle event next → ¬Void event →
    order[(P.answered before).length]? = some (P.move event) → P.refusal event ≠ none →
    P.Over Void next
  /-- Any other call is refused as out of order. It ends the session if it is a second challenge;
  otherwise it changes nothing, or the session is over already. -/
  outOfTurn : ∀ {s before middle event next}, Starts s → P.Run s before middle →
    P.Step middle event next → ¬Void event →
    order[(P.answered before).length]? ≠ some (P.move event) →
    (∃ error, P.refusal event = some error ∧ error.IsOutOfOrder) ∧
      if P.move event = .challenge ∧ order[(P.answered before).length]? = some .verification then
        P.Over Void next
      else next = middle ∨ P.Over Void middle

theorem Tolerant.count_le {Starts : σ → Prop} {order : List Move}
    (h : P.Tolerant Starts order Void) (hs : Starts s) (hrun : P.Run s history t) (move : Move) :
    (P.answered history).count move ≤ order.count move :=
  (h.answered hs hrun).sublist.count_le move

namespace Patient

theorem keeps (h : P.Patient S Void) : P.Keeps S where
  answered hvalid hstep hrefusal := by
    have hbears := h.step hvalid hstep fun hvoid => by
      obtain ⟨⟨what, hwhat⟩, -⟩ := h.void hvalid hstep hvoid
      rw [hrefusal] at hwhat
      cases hwhat
    rw [hrefusal] at hbears
    cases hbears with
    | answered valid next => exact ⟨valid, next⟩
  refused {s event s' error} hvalid hstep hrefusal := by
    by_cases hvoid : Void event
    · obtain ⟨-, rfl⟩ := h.void hvalid hstep hvoid
      exact ⟨hvalid, .inl rfl⟩
    · have hbears := h.step hvalid hstep hvoid
      rw [hrefusal] at hbears
      cases hbears with
      | failed turn valid finished => exact ⟨valid, .inr finished⟩
      | forgotten => exact ⟨hvalid, .inl rfl⟩
      | ended turn out again valid finished => exact ⟨valid, .inr finished⟩

/-- Where no move is to come, every call that is not void is refused, and none will come. -/
theorem step_over (h : P.Patient S Void) {event : ε} (hvalid : S.Valid s)
    (hover : S.rest s = []) (hstep : P.Step s event s') :
    S.Valid s' ∧ S.rest s' = [] ∧
      (¬Void event → ∃ error, P.refusal event = some error ∧ error.IsOutOfOrder) := by
  by_cases hvoid : Void event
  · obtain ⟨-, rfl⟩ := h.void hvalid hstep hvoid
    exact ⟨hvalid, hover, fun hnot => absurd hvoid hnot⟩
  · have hbears := h.step hvalid hstep hvoid
    rcases hrefusal : P.refusal event with _ | error
    · rw [(h.keeps.answered hvalid hstep hrefusal).2] at hover
      cases hover
    · rw [hrefusal] at hbears
      cases hbears with
      | failed turn =>
        -- nothing is in turn any more
        rw [hover] at turn
        cases turn
      | forgotten _ out => exact ⟨hvalid, hover, fun _ => ⟨error, rfl, out⟩⟩
      | ended _ out _ valid finished => exact ⟨valid, finished, fun _ => ⟨error, rfl, out⟩⟩

theorem over_of_rest (h : P.Patient S Void) (hvalid : S.Valid s) (hover : S.rest s = []) :
    P.Over Void s := by
  intro later t hrun
  induction hrun with
  | nil => simp
  | @cons s middle t event history step run ih =>
    obtain ⟨hmiddle, hrest, hrefused⟩ := h.step_over hvalid hover step
    rw [List.forall_mem_cons]
    exact ⟨hrefused, ih hmiddle hrest⟩

/-- The next move of the order is the first of those to come, unless none is. -/
theorem turn (h : P.Patient S Void) (hvalid : S.Valid s) (hrun : P.Run s history t) :
    S.Valid t ∧
      (S.rest t = [] ∨ (S.rest s)[(P.answered history).length]? = (S.rest t).head?) := by
  obtain ⟨hvalid', -, hnone | hleft⟩ := h.keeps.run hvalid hrun
  · exact ⟨hvalid', .inl hnone⟩
  · refine ⟨hvalid', .inr ?_⟩
    rw [hleft, List.getElem?_append_right (Nat.le_refl _), Nat.sub_self, List.head?_eq_getElem?]

theorem tolerant {Starts : σ → Prop} {order : List Move} (h : P.Patient S Void)
    (hstarts : ∀ {s}, Starts s → S.Valid s ∧ S.rest s = order) :
    P.Tolerant Starts order Void where
  answered hs hrun := by
    obtain ⟨hvalid, rfl⟩ := hstarts hs
    exact (h.keeps.run hvalid hrun).2.1
  void hs hrun hstep hvoid := by
    obtain ⟨hvalid, rfl⟩ := hstarts hs
    exact h.void (h.turn hvalid hrun).1 hstep hvoid
  inTurn hs hrun hstep hvoid hturn hrefusal := by
    obtain ⟨hvalid, rfl⟩ := hstarts hs
    -- unless the session is over already, the call is in turn, and so its refusal is a failure
    obtain ⟨hmiddle, hnone | hhead⟩ := h.turn hvalid hrun
    · obtain ⟨hnext, hrest, -⟩ := h.step_over hmiddle hnone hstep
      exact h.over_of_rest hnext hrest
    · rw [hhead] at hturn
      have hbears := h.step hmiddle hstep hvoid
      obtain ⟨error, herror⟩ := Option.ne_none_iff_exists'.mp hrefusal
      rw [herror] at hbears
      cases hbears with
      | failed turn valid finished => exact h.over_of_rest valid finished
      | forgotten turn => exact absurd hturn turn
      | ended turn => exact absurd hturn turn
  outOfTurn {s before middle event next} hs hrun hstep hvoid hturn := by
    obtain ⟨hvalid, rfl⟩ := hstarts hs
    obtain ⟨hmiddle, hnone | hhead⟩ := h.turn hvalid hrun
    · obtain ⟨hnext, hrest, hrefused⟩ := h.step_over hmiddle hnone hstep
      refine ⟨hrefused hvoid, ?_⟩
      split
      · exact h.over_of_rest hnext hrest
      · exact .inr (h.over_of_rest hmiddle hnone)
    · rw [hhead] at hturn ⊢
      have hbears := h.step hmiddle hstep hvoid
      rcases hrefusal : P.refusal event with _ | error
      · rw [(h.keeps.answered hmiddle hstep hrefusal).2] at hturn
        exact absurd rfl hturn
      · rw [hrefusal] at hbears
        cases hbears with
        | failed turn => exact absurd turn hturn
        | forgotten _ out first =>
          rw [if_neg first]
          exact ⟨⟨error, rfl, out⟩, .inl rfl⟩
        | ended _ out again valid finished =>
          refine ⟨⟨error, rfl, out⟩, ?_⟩
          split
          · exact h.over_of_rest valid finished
          · next hfirst => exact .inr (h.over_of_rest hmiddle (again.resolve_right hfirst))

end Patient

end Party

end AnonCred

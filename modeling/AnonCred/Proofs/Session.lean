import AnonCred.Session
import AnonCred.Proofs.Random

/-!
# Runs of a protocol

A computation of type `Drawn` has three ways to end on a stream: it runs out of patience, it is
refused, or it gives an answer. `Drawn.Succeeds` says that it is not refused and that its answer
meets a condition; it is proved step by step along the computation.

* `Drawn.bind_eq_ok` and its neighbours — an answer of a computation gives answers of its steps
* `Drawn.Succeeds.bind` — the steps succeed, so the computation does
* `settleDrawn_eq_ok`, `settleDrawn_eq_error` — what an engine answers is what its transition answers,
  and its refusals are those of its transition
* `Answers.settleDrawn`, `Answers.bindDrawn` — the same step by step for the calls of a party
-/

namespace AnonCred

/-- The call does not fit the state of the session. -/
def Error.IsOutOfOrder (error : Error) : Prop :=
  ∃ expected state, error = .outOfOrder expected state

theorem Error.isOutOfOrder (expected state : String) :
    (Error.outOfOrder expected state).IsOutOfOrder := ⟨expected, state, rfl⟩

/-! ## Refusable computations -/

section Refusable

variable {ε α β : Type}

theorem except_bind_eq_ok {x : Except ε α} {f : α → Except ε β} {b : β} :
    (x >>= f) = .ok b ↔ ∃ a, x = .ok a ∧ f a = .ok b := by
  cases x with
  | error e => simp [bind, Except.bind]
  | ok a => simp [bind, Except.bind]

theorem except_pure_eq_ok {a b : α} : (pure a : Except ε α) = .ok b ↔ a = b := by
  simp [pure, Except.pure]

/-- A value that is made once a check passes. -/
theorem except_checked_eq_ok {check : Except ε Unit} {a b : α} :
    (do check; pure a) = .ok b ↔ check = .ok () ∧ b = a := by
  rw [except_bind_eq_ok]
  constructor
  · rintro ⟨⟨⟩, hcheck, hpure⟩
    exact ⟨hcheck, (except_pure_eq_ok.mp hpure).symm⟩
  · rintro ⟨hcheck, rfl⟩
    exact ⟨(), hcheck, rfl⟩

theorem except_bind_eq_error {x : Except ε α} {f : α → Except ε β} {e : ε} :
    (x >>= f) = .error e ↔ x = .error e ∨ ∃ a, x = .ok a ∧ f a = .error e := by
  cases x with
  | error e => simp [bind, Except.bind]
  | ok a => simp [bind, Except.bind]

theorem except_pure_ne_error {a : α} {e : ε} : (pure a : Except ε α) ≠ .error e := by
  intro h
  cases h

end Refusable

namespace Drawn

variable {α β γ σ : Type} {source next : Source}

/-! ## Steps -/

theorem run_pure {a : α} : (pure a : Drawn α).run source = some (.ok a, source) := rfl

theorem run_except (x : Except Error α) : (liftM x : Drawn α).run source = some (x, source) := rfl

theorem run_draw {d : Draw α} {a : α} (h : d source = some (a, next)) :
    (liftM d : Drawn α).run source = some (.ok a, next) := by
  show (d >>= fun a => pure (Except.ok a)) source = _
  rw [Draw.bind_of_eq_some h]
  rfl

theorem run_bind_ok {m : Drawn α} {a : α} (h : m.run source = some (.ok a, next))
    (f : α → Drawn β) : (m >>= f).run source = (f a).run next :=
  Draw.bind_of_eq_some (d := m.run) h _

theorem run_bind_error {m : Drawn α} {e : Error} (h : m.run source = some (.error e, next))
    (f : α → Drawn β) : (m >>= f).run source = some (.error e, next) :=
  Draw.bind_of_eq_some (d := m.run) h _

theorem run_draw_none {d : Draw α} (h : d source = none) :
    (liftM d : Drawn α).run source = none := by
  show (d >>= fun a => pure (Except.ok a)) source = _
  exact Draw.bind_of_eq_none h _

theorem run_bind_none {m : Drawn α} (h : m.run source = none) (f : α → Drawn β) :
    (m >>= f).run source = none :=
  Draw.bind_of_eq_none (d := m.run) h _

/-- Every outcome of a sequence starts with an outcome of the first step. -/
theorem bind_eq_some {m : Drawn α} {f : α → Drawn β} {outcome : Except Error β}
    (h : (m >>= f).run source = some (outcome, next)) :
    ∃ first middle, m.run source = some (first, middle) ∧
      match first with
      | .ok a => (f a).run middle = some (outcome, next)
      | .error e => outcome = .error e ∧ middle = next := by
  obtain ⟨first, middle, hfirst, hrest⟩ := Draw.bind_eq_some.mp h
  refine ⟨first, middle, hfirst, ?_⟩
  cases first with
  | ok a => exact hrest
  | error e =>
    obtain ⟨rfl, rfl⟩ := Draw.pure_eq_some.mp hrest
    exact ⟨rfl, rfl⟩

theorem bind_eq_ok {m : Drawn α} {f : α → Drawn β} {b : β} :
    (m >>= f).run source = some (.ok b, next) ↔
      ∃ a middle, m.run source = some (.ok a, middle) ∧ (f a).run middle = some (.ok b, next) := by
  constructor
  · intro h
    obtain ⟨first, middle, hfirst, hrest⟩ := bind_eq_some h
    cases first with
    | ok a => exact ⟨a, middle, hfirst, hrest⟩
    | error e => cases hrest.1
  · rintro ⟨a, middle, hfirst, hrest⟩
    rw [run_bind_ok hfirst, hrest]

theorem pure_eq_ok {a b : α} :
    (pure a : Drawn α).run source = some (.ok b, next) ↔ a = b ∧ source = next := by
  rw [run_pure, Option.some.injEq, Prod.mk.injEq, Except.ok.injEq]

theorem except_eq_ok {x : Except Error α} {a : α} :
    (liftM x : Drawn α).run source = some (.ok a, next) ↔ x = .ok a ∧ source = next := by
  rw [run_except, Option.some.injEq, Prod.mk.injEq]

theorem exists_of_isOk {m : Drawn α} (h : (m.run source).any (fun out => out.1.isOk) = true) :
    ∃ a next, m.run source = some (.ok a, next) := by
  obtain ⟨⟨outcome, next⟩, hrun, hok⟩ := (Option.any_eq_true ..).mp h
  cases outcome with
  | ok a => exact ⟨a, next, hrun⟩
  | error e => cases hok

theorem draw_eq_some {d : Draw α} {outcome : Except Error α}
    (h : (liftM d : Drawn α).run source = some (outcome, next)) :
    ∃ a, outcome = .ok a ∧ d source = some (a, next) := by
  change (d >>= fun a => pure (Except.ok a)) source = _ at h
  obtain ⟨a, middle, hd, hrest⟩ := Draw.bind_eq_some.mp h
  obtain ⟨rfl, rfl⟩ := Draw.pure_eq_some.mp hrest
  exact ⟨a, rfl, hd⟩

theorem draw_eq_ok {d : Draw α} {a : α} :
    (liftM d : Drawn α).run source = some (.ok a, next) ↔ d source = some (a, next) := by
  constructor
  · intro h
    obtain ⟨b, hb, hd⟩ := draw_eq_some h
    cases hb
    exact hd
  · exact run_draw

theorem throw_ne_ok {e : Error} {a : α} :
    (throw e : Drawn α).run source ≠ some (.ok a, next) := by
  intro h
  cases h

/-! Where a computation is refused, one of its steps is. -/

theorem bind_eq_error {m : Drawn α} {f : α → Drawn β} {e : Error} :
    (m >>= f).run source = some (.error e, next) ↔
      m.run source = some (.error e, next) ∨
        ∃ a middle, m.run source = some (.ok a, middle) ∧
          (f a).run middle = some (.error e, next) := by
  constructor
  · intro h
    obtain ⟨first, middle, hfirst, hrest⟩ := bind_eq_some h
    cases first with
    | ok a => exact .inr ⟨a, middle, hfirst, hrest⟩
    | error e' =>
      obtain ⟨he, rfl⟩ := hrest
      cases he
      exact .inl hfirst
  · rintro (hfirst | ⟨a, middle, hfirst, hrest⟩)
    · rw [run_bind_error hfirst]
    · rw [run_bind_ok hfirst, hrest]

theorem pure_ne_error {a : α} {e : Error} :
    (pure a : Drawn α).run source ≠ some (.error e, next) := by
  intro h
  cases h

theorem except_eq_error {x : Except Error α} {e : Error} :
    (liftM x : Drawn α).run source = some (.error e, next) ↔ x = .error e ∧ source = next := by
  rw [run_except, Option.some.injEq, Prod.mk.injEq]

theorem draw_ne_error {d : Draw α} {e : Error} :
    (liftM d : Drawn α).run source ≠ some (.error e, next) := by
  intro h
  obtain ⟨a, ha, -⟩ := draw_eq_some h
  cases ha

theorem throw_eq_error {e e' : Error} :
    (throw e : Drawn α).run source = some (.error e', next) ↔ e = e' ∧ source = next := by
  rw [show (throw e : Drawn α).run source = some (.error e, source) from rfl, Option.some.injEq,
    Prod.mk.injEq, Except.error.injEq]

theorem draw_isSome {d : Draw α} : ((liftM d : Drawn α).run source).isSome = (d source).isSome := by
  rcases hd : d source with _ | ⟨a, next⟩
  · rw [run_draw_none hd]
    rfl
  · rw [run_draw hd]
    rfl

/-! ## Equations -/

theorem ext {m m' : Drawn α} (h : ∀ source, m.run source = m'.run source) : m = m' :=
  ExceptT.ext (funext h)

theorem bind_except {x : Except Error α} {a : α} (hx : x = .ok a) (f : α → Drawn β) :
    (liftM x >>= f) = f a :=
  ext fun _ => run_bind_ok (except_eq_ok.mpr ⟨hx, rfl⟩) f

/-- What follows a draw counts for possible answers only. -/
theorem bind_congr_possible {d : Draw α} {f g : α → Drawn β}
    (h : ∀ a, d.Possible a → f a = g a) : (liftM d >>= f) = (liftM d >>= g) := by
  refine ext fun source => ?_
  rcases hd : d source with _ | ⟨a, next⟩
  · rw [run_bind_none (run_draw_none hd), run_bind_none (run_draw_none hd)]
  · rw [run_bind_ok (run_draw hd), run_bind_ok (run_draw hd), h a ⟨source, next, hd⟩]

/-! ## Success -/

/-- On the stream the computation is not refused, and its answer and the stream after it meet the
condition. Whether a rejection loop runs out of patience is left open. -/
def Succeeds (m : Drawn α) (source : Source) (P : α → Source → Prop) : Prop :=
  ∀ outcome next, m.run source = some (outcome, next) → ∃ a, outcome = .ok a ∧ P a next

namespace Succeeds

variable {P Q : α → Source → Prop} {R : β → Source → Prop}

theorem mono {m : Drawn α} (h : Succeeds m source P) (himp : ∀ a next, P a next → Q a next) :
    Succeeds m source Q := by
  intro outcome next hrun
  obtain ⟨a, rfl, ha⟩ := h outcome next hrun
  exact ⟨a, rfl, himp a next ha⟩

theorem pure {a : α} (h : P a source) : Succeeds (pure a) source P := by
  intro outcome next hrun
  rw [run_pure] at hrun
  cases hrun
  exact ⟨a, rfl, h⟩

theorem bind {m : Drawn α} {f : α → Drawn β} (hm : Succeeds m source P)
    (hf : ∀ a middle, P a middle → Succeeds (f a) middle R) : Succeeds (m >>= f) source R := by
  intro outcome next hrun
  obtain ⟨first, middle, hfirst, hrest⟩ := bind_eq_some hrun
  obtain ⟨a, rfl, ha⟩ := hm first middle hfirst
  exact hf a middle ha outcome next hrest

/-- A draw is never refused. -/
theorem draw (d : Draw α) : Succeeds (liftM d) source fun a next => d source = some (a, next) := by
  intro outcome next hrun
  exact draw_eq_some hrun

theorem except {x : Except Error α} {a : α} (hx : x = .ok a) (h : P a source) :
    Succeeds (liftM x) source P := by
  subst hx
  exact pure h

/-! A step of which the outcome is known is taken by `bindRun` or one of its special cases. -/

theorem bindDraw {d : Draw α} {f : α → Drawn β}
    (hf : ∀ a middle, d source = some (a, middle) → Succeeds (f a) middle R) :
    Succeeds (liftM d >>= f) source R := (draw d).bind hf

theorem bindRun {m : Drawn α} {f : α → Drawn β} {a : α} (hrun : m.run source = some (.ok a, next))
    (hf : Succeeds (f a) next R) : Succeeds (m >>= f) source R := by
  intro outcome after houtcome
  rw [run_bind_ok hrun] at houtcome
  exact hf outcome after houtcome

theorem bindExcept {x : Except Error α} {f : α → Drawn β} {a : α} (hx : x = .ok a)
    (hf : Succeeds (f a) source R) : Succeeds (liftM x >>= f) source R :=
  bindRun (except_eq_ok.mpr ⟨hx, rfl⟩) hf

theorem bindCall {outcome : Except Error α × σ} {f : α × σ → Drawn β} {a : α} {st : σ}
    (h : outcome = (.ok a, st)) (hf : Succeeds (f (a, st)) source R) :
    Succeeds (call outcome >>= f) source R := by
  subst h
  exact bindRun run_pure hf

end Succeeds

/-! ## Ends -/

theorem bind_isSome {m : Drawn α} {f : α → Drawn β} (hm : (m.run source).isSome)
    (hf : ∀ a middle, m.run source = some (.ok a, middle) → ((f a).run middle).isSome) :
    ((m >>= f).run source).isSome := by
  obtain ⟨⟨outcome, next⟩, hrun⟩ := Option.isSome_iff_exists.mp hm
  cases outcome with
  | ok a =>
    rw [run_bind_ok hrun]
    exact hf a next hrun
  | error e =>
    rw [run_bind_error hrun]
    rfl

/-- One computation ends wherever the other one does. -/
def EndsWith (m : Drawn α) (m' : Drawn β) : Prop :=
  ∀ source, (m'.run source).isSome → (m.run source).isSome

namespace EndsWith

theorem bind {m : Drawn α} {f : α → Drawn β} {f' : α → Drawn γ}
    (h : ∀ a, EndsWith (f a) (f' a)) : EndsWith (m >>= f) (m >>= f') := by
  intro source hends
  obtain ⟨⟨outcome, next⟩, hrun⟩ := Option.isSome_iff_exists.mp hends
  obtain ⟨first, middle, hfirst, hrest⟩ := bind_eq_some hrun
  refine bind_isSome (Option.isSome_iff_exists.mpr ⟨_, hfirst⟩) ?_
  intro a after hok
  rw [hfirst] at hok
  cases hok
  exact h a middle (Option.isSome_iff_exists.mpr ⟨_, hrest⟩)

/-- Steps that are not refused: what counts is what follows. -/
theorem bindExcept {x : Except Error α} {x' : Except Error σ} {a : α} {a' : σ}
    {f : α → Drawn β} {f' : σ → Drawn γ} (hx : x = .ok a) (hx' : x' = .ok a')
    (h : EndsWith (f a) (f' a')) : EndsWith (liftM x >>= f) (liftM x' >>= f') := by
  intro source hends
  rw [run_bind_ok (except_eq_ok.mpr ⟨hx', rfl⟩)] at hends
  rw [run_bind_ok (except_eq_ok.mpr ⟨hx, rfl⟩)]
  exact h source hends

end EndsWith

end Drawn

/-! ## Engines -/

section Engines

variable {α σ : Type} {source next : Source} {ended st : σ}

theorem settleDrawn_eq_some {t : Drawn (α × σ)} {answer : Except Error α} :
    settleDrawn ended t source = some ((answer, st), next) ↔
      ∃ outcome, t.run source = some (outcome, next) ∧ settle ended outcome = (answer, st) := by
  unfold settleDrawn
  rw [Draw.bind_eq_some]
  constructor
  · rintro ⟨outcome, middle, hrun, hrest⟩
    obtain ⟨hsettle, rfl⟩ := Draw.pure_eq_some.mp hrest
    exact ⟨outcome, hrun, hsettle⟩
  · rintro ⟨outcome, hrun, hsettle⟩
    exact ⟨outcome, next, hrun, Draw.pure_eq_some.mpr ⟨hsettle, rfl⟩⟩

theorem settle_eq_ok {t : Except Error (α × σ)} {a : α} :
    settle ended t = (.ok a, st) ↔ t = .ok (a, st) := by
  cases t with
  | ok pair =>
    obtain ⟨answer, after⟩ := pair
    rw [settle_ok, Except.ok.injEq, Prod.mk.injEq, Prod.mk.injEq, Except.ok.injEq]
  | error e =>
    rw [settle_error]
    constructor
    · intro h; cases h
    · intro h; cases h

/-- A call of which the answer is known. -/
theorem eq_of_fst_eq {outcome : Except Error α × σ} {answer : Except Error α}
    (h : outcome.1 = answer) : outcome = (answer, outcome.2) := Prod.ext h rfl

/-- An engine gives an answer exactly where its transition does, and goes on from its state. -/
theorem settleDrawn_eq_ok {t : Drawn (α × σ)} {a : α} :
    settleDrawn ended t source = some ((.ok a, st), next) ↔
      t.run source = some (.ok (a, st), next) := by
  rw [settleDrawn_eq_some]
  constructor
  · rintro ⟨outcome, hrun, hsettle⟩
    rw [hrun, settle_eq_ok.mp hsettle]
  · intro hrun
    exact ⟨_, hrun, rfl⟩

theorem settle_eq_error {t : Except Error (α × σ)} {e : Error} :
    settle ended t = (.error e, st) ↔ t = .error e ∧ st = ended := by
  cases t with
  | ok pair =>
    constructor
    · intro h; cases h
    · rintro ⟨h, -⟩; cases h
  | error e' =>
    rw [settle_error, Prod.mk.injEq, Except.error.injEq, Except.error.injEq, eq_comm (a := st)]

/-- An engine refuses exactly where its transition does, and its session is over. -/
theorem settleDrawn_eq_error {t : Drawn (α × σ)} {e : Error} :
    settleDrawn ended t source = some ((.error e, st), next) ↔
      t.run source = some (.error e, next) ∧ st = ended := by
  rw [settleDrawn_eq_some]
  constructor
  · rintro ⟨outcome, hrun, hsettle⟩
    obtain ⟨rfl, rfl⟩ := settle_eq_error.mp hsettle
    exact ⟨hrun, rfl⟩
  · rintro ⟨hrun, rfl⟩
    exact ⟨_, hrun, rfl⟩

/-- Inside another computation a call on an engine is its transition. -/
theorem callDrawn_settleDrawn (t : Drawn (α × σ)) : callDrawn (settleDrawn ended t) = t := by
  refine Drawn.ext fun source => ?_
  rcases hrun : t.run source with _ | ⟨outcome, next⟩
  · have hsettled : settleDrawn ended t source = none := by
      unfold settleDrawn
      rw [Draw.bind_of_eq_none hrun]
    exact Drawn.run_bind_none (Drawn.run_draw_none hsettled) _
  · have hsettled : settleDrawn ended t source = some (settle ended outcome, next) := by
      unfold settleDrawn
      rw [Draw.bind_of_eq_some hrun]
      rfl
    refine (Drawn.run_bind_ok (Drawn.run_draw hsettled) _).trans ?_
    cases outcome <;> rfl

/-- On the stream the call is not refused, and its answer, the party after it and the stream after
it meet the condition. -/
def Answers (d : Draw (Except Error α × σ)) (source : Source) (P : α → σ → Source → Prop) : Prop :=
  ∀ answer st next, d source = some ((answer, st), next) → ∃ a, answer = .ok a ∧ P a st next

namespace Answers

variable {P Q : α → σ → Source → Prop}

theorem mono {d : Draw (Except Error α × σ)} (h : Answers d source P)
    (himp : ∀ a st next, P a st next → Q a st next) : Answers d source Q := by
  intro answer st next hd
  obtain ⟨a, rfl, ha⟩ := h answer st next hd
  exact ⟨a, rfl, himp a st next ha⟩

theorem pure {a : α} (h : P a st source) :
    Answers (Pure.pure (.ok a, st) : Draw (Except Error α × σ)) source P := by
  intro answer st' next hd
  obtain ⟨hpair, rfl⟩ := Draw.pure_eq_some.mp hd
  cases hpair
  exact ⟨a, rfl, h⟩

/-- A draw before a call. -/
theorem bind {β : Type} {d : Draw β} {f : β → Draw (Except Error α × σ)}
    (h : ∀ b middle, d source = some (b, middle) → Answers (f b) middle P) :
    Answers (d >>= f) source P := by
  intro answer st next hd
  obtain ⟨b, middle, hfirst, hrest⟩ := Draw.bind_eq_some.mp hd
  exact h b middle hfirst answer st next hrest

/-- A call before a call. -/
theorem bindCall {β τ : Type} {d : Draw (Except Error β × τ)}
    {f : Except Error β × τ → Draw (Except Error α × σ)} {R : β → τ → Source → Prop}
    (h : Answers d source R) (hf : ∀ b t middle, R b t middle → Answers (f (.ok b, t)) middle P) :
    Answers (d >>= f) source P := by
  refine bind ?_
  rintro ⟨answer, t⟩ middle hd
  obtain ⟨b, rfl, hb⟩ := h answer t middle hd
  exact hf b t middle hb

/-- An engine answers where its transition succeeds. -/
theorem settleDrawn {t : Drawn (α × σ)}
    (h : Drawn.Succeeds t source fun out next => P out.1 out.2 next) :
    Answers (settleDrawn ended t) source P := by
  intro answer st next hd
  obtain ⟨outcome, hrun, hsettle⟩ := settleDrawn_eq_some.mp hd
  obtain ⟨⟨a, st'⟩, rfl, ha⟩ := h outcome next hrun
  cases hsettle
  exact ⟨a, rfl, ha⟩

/-- A call inside another computation succeeds where the call itself does. -/
theorem bindDrawn {β : Type} {d : Draw (Except Error α × σ)} {f : α × σ → Drawn β}
    {R : β → Source → Prop} (h : Answers d source P)
    (hf : ∀ a st middle, P a st middle → Drawn.Succeeds (f (a, st)) middle R) :
    Drawn.Succeeds (callDrawn d >>= f) source R := by
  have hcall : Drawn.Succeeds (callDrawn d) source fun out next => P out.1 out.2 next := by
    refine Drawn.Succeeds.bindDraw ?_
    rintro ⟨answer, st⟩ middle hd
    obtain ⟨a, rfl, ha⟩ := h answer st middle hd
    exact Drawn.Succeeds.pure ha
  refine hcall.bind ?_
  rintro ⟨a, st⟩ middle ha
  exact hf a st middle ha

end Answers

theorem Drawn.call_eq_ok {outcome : Except Error α × σ} {a : α} :
    (call outcome).run source = some (.ok (a, st), next) ↔
      outcome = (.ok a, st) ∧ source = next := by
  rcases outcome with ⟨answer, after⟩
  cases answer with
  | ok b =>
    show (Pure.pure (b, after) : Drawn (α × σ)).run source = _ ↔ _
    rw [pure_eq_ok, Prod.mk.injEq, Prod.mk.injEq, Except.ok.injEq]
  | error e =>
    constructor
    · intro h
      exact absurd h throw_ne_ok
    · rintro ⟨h, -⟩
      cases h

theorem Drawn.callDrawn_isSome {d : Draw (Except Error α × σ)} (h : (d source).isSome) :
    ((callDrawn d).run source).isSome := by
  obtain ⟨⟨⟨answer, after⟩, next⟩, hd⟩ := Option.isSome_iff_exists.mp h
  unfold callDrawn
  rw [run_bind_ok (run_draw hd)]
  cases answer with
  | ok a => rfl
  | error e => rfl

theorem Drawn.callDrawn_eq_ok {d : Draw (Except Error α × σ)} {a : α} :
    (callDrawn d).run source = some (.ok (a, st), next) ↔
      d source = some ((.ok a, st), next) := by
  unfold callDrawn
  rw [Drawn.bind_eq_ok]
  constructor
  · rintro ⟨⟨answer, after⟩, middle, hd, hrest⟩
    rw [Drawn.draw_eq_ok] at hd
    cases answer with
    | ok b =>
      obtain ⟨hpair, rfl⟩ := Drawn.pure_eq_ok.mp hrest
      cases hpair
      exact hd
    | error e => exact absurd hrest Drawn.throw_ne_ok
  · intro hd
    exact ⟨_, _, Drawn.draw_eq_ok.mpr hd, Drawn.pure_eq_ok.mpr ⟨rfl, rfl⟩⟩

theorem Drawn.callDrawn_eq_error {d : Draw (Except Error α × σ)} {e : Error} :
    (callDrawn d).run source = some (.error e, next) ↔
      ∃ st, d source = some ((.error e, st), next) := by
  unfold callDrawn
  rw [Drawn.bind_eq_error]
  constructor
  · rintro (hd | ⟨⟨answer, after⟩, middle, hd, hrest⟩)
    · exact absurd hd Drawn.draw_ne_error
    rw [Drawn.draw_eq_ok] at hd
    cases answer with
    | ok b => exact absurd hrest Drawn.pure_ne_error
    | error e' =>
      obtain ⟨rfl, rfl⟩ := Drawn.throw_eq_error.mp hrest
      exact ⟨after, hd⟩
  · rintro ⟨st, hd⟩
    exact .inr ⟨_, _, Drawn.draw_eq_ok.mpr hd, Drawn.throw_eq_error.mpr ⟨rfl, rfl⟩⟩

end Engines

end AnonCred

import AnonCred.Error
import AnonCred.Random

/-!
# Sessions

A party in a protocol is a value, and a call on it is a function from the party to an answer and
the party afterwards. A refused call also leaves a party behind. For the engines of the proofs that
is always an ended one: `settle` is this rule, and each of their calls is written as a transition
that either fails or gives an answer and the next state.
-/

namespace AnonCred

/-- A computation that may draw random numbers and may be refused. -/
abbrev Drawn := ExceptT Error Draw

/-- The answer of a transition and the state after it; a transition that fails ends the session. -/
def settle {α σ : Type} (ended : σ) : Except Error (α × σ) → Except Error α × σ
  | .ok (answer, next) => (.ok answer, next)
  | .error error => (.error error, ended)

/-- The same for a transition that draws random numbers. -/
def settleDrawn {α σ : Type} (ended : σ) (transition : Drawn (α × σ)) :
    Draw (Except Error α × σ) := do
  let outcome ← transition.run
  pure (settle ended outcome)

@[simp] theorem settle_ok {α σ : Type} (ended next : σ) (answer : α) :
    settle ended (.ok (answer, next)) = (.ok answer, next) := rfl

@[simp] theorem settle_error {α σ : Type} (ended : σ) (error : Error) :
    settle (α := α) ended (.error error) = (.error error, ended) := rfl

/-- A call on a party inside another one: its answer counts, and so does the party after it. -/
def call {α σ : Type} (outcome : Except Error α × σ) : Drawn (α × σ) :=
  match outcome with
  | (.ok answer, next) => pure (answer, next)
  | (.error error, _) => throw error

/-- The same for a call that draws random numbers. -/
def callDrawn {α σ : Type} (outcome : Draw (Except Error α × σ)) : Drawn (α × σ) := do
  call (← outcome)

end AnonCred

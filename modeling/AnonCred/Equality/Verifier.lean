import AnonCred.Equality.Prover

/-!
# Proving that two exponents are equal: the verifier

The statement with its two commitments is a `Claim`. The verifier answers it with a random
challenge and accepts a reduced answer that satisfies the equation of a proof on both bases.
-/

namespace AnonCred.Equality

/-! ## Claims -/

/-- The claim that one exponent takes `g1` to `t1` and `g2` to `t2`, with the commitments. -/
structure Claim (E : Type) where
  g1 : E
  g2 : E
  t1 : E
  t2 : E
  x1 : E
  x2 : E
deriving DecidableEq, Repr

namespace Claim

variable {E : Type}

/-- The elements of a claim in the order in which they are checked. -/
def elements (c : Claim E) : List E := [c.g1, c.g2, c.t1, c.t2, c.x1, c.x2]

variable (G : CyclicGroup E)

/-- An answer that is reduced and satisfies both equations. -/
def Holds (c : Claim E) (e z : Nat) : Prop :=
  z < G.order ∧ G.Responds c.g1 c.t1 c.x1 e z ∧ G.Responds c.g2 c.t2 c.x2 e z

instance [DecidableEq E] (c : Claim E) (e z : Nat) : Decidable (c.Holds G e z) := by
  unfold Holds; infer_instance

end Claim

/-! ## The verifier -/

/-- How far a verifier is: once the challenge is sent, it keeps the claim that it was sent for. -/
inductive Verifier (E : Type)
  | ready
  | awaitingResponse (claim : Claim E) (e : Nat)
  | done
deriving DecidableEq

namespace Verifier

variable {E : Type} (G : CyclicGroup E)

def name : Verifier E → String
  | .ready => "ready"
  | .awaitingResponse _ _ => "awaiting response"
  | .done => "done"

/-- A random challenge for a claim. -/
def challenge (V : Verifier E) (claim : Claim E) : Draw (Except Error Nat × Verifier E) :=
  settleDrawn .done <|
    match V with
    | .ready => do
      G.validateAll claim.elements
      let e ← G.randomScalar
      pure (e, .awaitingResponse claim e)
    | other => throw (.outOfOrder "ready" other.name)

/-- Whether the answer is accepted. -/
def verify [DecidableEq E] (V : Verifier E) (z : Nat) : Except Error Bool × Verifier E :=
  settle .done <|
    match V with
    | .awaitingResponse claim e => .ok (decide (claim.Holds G e z), .done)
    | other => .error (.outOfOrder "awaiting response" other.name)

end Verifier

end AnonCred.Equality

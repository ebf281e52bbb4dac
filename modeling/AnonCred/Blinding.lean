import AnonCred.Digest
import AnonCred.Equality.Verifier

/-!
# A transcript that the verifier blinds

The verifier of a proof of equality can answer with a challenge that it derives from blinded
commitments instead of a random one. An accepted answer then leaves it with a `Transcript` that
anybody can check against `g1`, `t1` and the powers `g2 ^ γ`, `t2 ^ γ`, and that the prover cannot
tell from any other.

With random `α` and `β` the blinded commitments are `a = x1 * g1 ^ α * t1 ^ β` and
`b = (x2 * g2 ^ α * t2 ^ β) ^ γ`; the challenge is their hash plus `β`, and `α` is added to the
answer.
-/

namespace AnonCred.Blinding

variable {E : Type} (G : CyclicGroup E)

/-! ## Transcripts -/

/-- A proof without interaction: commitments, their hash, and the answer to it. -/
structure Transcript (E : Type) where
  a : E
  b : E
  hash : Nat
  zAlpha : Nat
deriving DecidableEq, Repr

/-- The hash is that of the commitments and the answer fits it on both bases. -/
def Transcript.Valid (t : Transcript E) (g1 t1 g2 t2 : E) : Prop :=
  G.hashNat [t.a, t.b] = t.hash ∧
    G.Responds g1 t1 t.a t.hash t.zAlpha ∧ G.Responds g2 t2 t.b t.hash t.zAlpha

instance [DecidableEq E] (t : Transcript E) (g1 t1 g2 t2 : E) :
    Decidable (t.Valid G g1 t1 g2 t2) := by
  unfold Transcript.Valid; infer_instance

/-- A transcript with the two blinded elements that it speaks about. -/
structure Blinded (E : Type) where
  transcript : Transcript E
  g2 : E
  t2 : E
deriving DecidableEq, Repr

/-! ## The blinding verifier -/

/-- What is kept between challenge and answer. -/
structure Pending (E : Type) where
  claim : Equality.Claim E
  alpha : Nat
  e : Nat
  a : E
  b : E
  hash : Nat
deriving DecidableEq

/-- A claim blinded with given exponents. -/
def Pending.blind (gamma : Nat) (c : Equality.Claim E) (alpha beta : Nat) : Pending E :=
  let a := G.compose (G.compose c.x1 (G.exp c.g1 alpha)) (G.exp c.t1 beta)
  let b := G.exp (G.compose (G.compose c.x2 (G.exp c.g2 alpha)) (G.exp c.t2 beta)) gamma
  let hash := G.hashNat [a, b]
  ⟨c, alpha, Arith.addMod hash beta G.order, a, b, hash⟩

/-- What an accepted answer leaves. -/
def Pending.unblind (gamma : Nat) (p : Pending E) (z : Nat) : Blinded E :=
  ⟨⟨p.a, p.b, p.hash, Arith.addMod z p.alpha G.order⟩, G.exp p.claim.g2 gamma,
    G.exp p.claim.t2 gamma⟩

/-- How far a blinding verifier is. -/
inductive State (E : Type)
  | ready
  | awaitingResponse (pending : Pending E)
  | done
deriving DecidableEq

def State.name : State E → String
  | .ready => "ready"
  | .awaitingResponse _ => "awaiting response"
  | .done => "done"

/-- A verifier that blinds with the exponent `gamma`. -/
structure Verifier (E : Type) where
  gamma : Nat
  state : State E
deriving DecidableEq

namespace Verifier

/-- A verifier with a given exponent, which is reduced and not zero. -/
def start (gamma : Nat) : Except Error (Verifier E) := do
  G.checkScalar gamma "gamma"
  if gamma = 0 then throw (.scalar .zeroGamma)
  pure ⟨gamma, .ready⟩

/-- A verifier with a random exponent. -/
def random : Draw (Verifier E) := do
  let gamma ← G.randomUnit
  pure ⟨gamma, .ready⟩

/-- The verifier whose session is over. -/
def ended (V : Verifier E) : Verifier E := { V with state := .done }

/-- The blinded challenge for a claim. -/
def challenge (V : Verifier E) (claim : Equality.Claim E) :
    Draw (Except Error Nat × Verifier E) :=
  settleDrawn V.ended <|
    match V.state with
    | .ready => do
      G.validateAll claim.elements
      let alpha ← G.randomScalar
      let beta ← G.randomScalar
      let pending := Pending.blind G V.gamma claim alpha beta
      pure (pending.e, { V with state := .awaitingResponse pending })
    | other => throw (.outOfOrder "ready" other.name)

/-- The blinded transcript, if the answer is accepted. -/
def verify [DecidableEq E] (V : Verifier E) (z : Nat) :
    Except Error (Option (Blinded E)) × Verifier E :=
  settle V.ended <|
    match V.state with
    | .awaitingResponse pending =>
      .ok (if pending.claim.Holds G pending.e z then some (pending.unblind G V.gamma z) else none,
        V.ended)
    | other => .error (.outOfOrder "awaiting response" other.name)

end Verifier

end AnonCred.Blinding

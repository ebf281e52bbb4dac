import AnonCred.Knowledge.Prover

/-!
# Proving knowledge of an exponent: the verifier

The verifier sends a random challenge `e` for the commitment `x` of the prover and accepts the
answer `z` when it is reduced and `base ^ z = x * value ^ e`. Where the challenge is committed to,
it is drawn together with its commitment, and opened when the statement arrives; and in the last
mode the answer counts only with the trapdoor of the commitment.
-/

namespace AnonCred.Knowledge

/-- How far a verifier is: with a challenge committed to under `h`, or with a statement and the
challenge that was sent for it. -/
inductive VerifierState (E : Type)
  | ready
  | awaitingRandomData (h : E) (opening : Pedersen.Opening)
  | awaitingResponse (h : Option E) (base value x : E) (e : Nat)
  | done
deriving DecidableEq

def VerifierState.name {E : Type} : VerifierState E → String
  | .ready => "ready"
  | .awaitingRandomData _ _ => "awaiting proof random data"
  | .awaitingResponse _ _ _ _ _ => "awaiting response"
  | .done => "done"

/-- A verifier in a mode. -/
structure Verifier (E : Type) where
  mode : ChallengeMode
  state : VerifierState E
deriving DecidableEq

namespace Verifier

variable {E : Type} (G : CyclicGroup E)

def start (mode : ChallengeMode) : Verifier E := ⟨mode, .ready⟩

/-- The verifier whose session is over. -/
def ended (V : Verifier E) : Verifier E := { V with state := .done }

/-- A random challenge, committed to under `h`: the commitment. -/
def commitChallenge (V : Verifier E) (h : E) : Draw (Except Error E × Verifier E) :=
  settleDrawn V.ended <|
    match V.state with
    | .ready =>
      if V.mode.usesCommitment then do
        G.validate h
        let e ← G.randomScalar
        let r ← G.randomScalar
        pure (Pedersen.commitment G h e r, { V with state := .awaitingRandomData h ⟨e, r⟩ })
      else throw (.outOfOrder "a commitment mode" "sigma")
    | other => throw (.outOfOrder "ready" other.name)

/-- The challenge to send in a state, with the base of its commitment: a new one, or the one that
was committed to. -/
def nextChallenge (V : Verifier E) : Drawn (Challenge × Option E) :=
  match V.state, V.mode.usesCommitment with
  | .ready, false => do
    let e ← G.randomScalar
    pure (⟨e, none⟩, none)
  | .awaitingRandomData h opening, true => pure (⟨opening.value, some opening.r⟩, some h)
  | other, _ => throw (.outOfOrder "proof random data" other.name)

/-- The challenge for the statement that `value` is a power of `base`, and the commitment `x`. -/
def challenge (V : Verifier E) (base value x : E) : Draw (Except Error Challenge × Verifier E) :=
  settleDrawn V.ended do
    let (challenge, h) ← V.nextChallenge G
    G.validateAll [base, value, x]
    pure (challenge, { V with state := .awaitingResponse h base value x challenge.e })

/-- In the last mode an answer counts only with the trapdoor of the challenge commitment. -/
def trapdoorShown [DecidableEq E] (mode : ChallengeMode) (h : Option E) (trapdoor : Option Nat) :
    Bool :=
  match mode, h, trapdoor with
  | .zkpok, some h, some trapdoor => Pedersen.isTrapdoor G h trapdoor
  | .zkpok, _, _ => false
  | _, _, _ => true

/-- Whether the answer is accepted. -/
def verify [DecidableEq E] (V : Verifier E) (response : Response) :
    Except Error Bool × Verifier E :=
  settle V.ended <|
    match V.state with
    | .awaitingResponse h base value x e =>
      .ok (trapdoorShown G V.mode h response.trapdoor &&
        decide (response.z < G.order ∧ G.Responds base value x e response.z), V.ended)
    | other => .error (.outOfOrder "awaiting response" other.name)

end Verifier

end AnonCred.Knowledge

import AnonCred.Arith
import AnonCred.Knowledge.Mode
import AnonCred.Pedersen

/-!
# Proving knowledge of an exponent: the prover

The prover knows the exponent that takes `base` to `value`. It commits to a nonce `r` by
`x = base ^ r` and answers a challenge `e` with `r + e * secret`. When the challenge is committed
to, the prover first sends the base of that commitment, then takes the commitment, and answers
only the challenge that opens it.

A session goes through its states once, in order: `ready`, `awaitingCommitment`,
`awaitingRandomData`, `awaitingChallenge`, `done`. In the plain mode it starts at the third.
-/

namespace AnonCred.Knowledge

/-- A challenge, and what opens the commitment to it where there is one. -/
structure Challenge where
  e : Nat
  decommitment : Option Nat
deriving DecidableEq, Repr

/-- An answer to a challenge, and the trapdoor of the challenge commitment where it is due. -/
structure Response where
  z : Nat
  trapdoor : Option Nat
deriving DecidableEq, Repr

/-- How far a prover is. From `ready` on it carries the receiver of the challenge commitment, if
there is to be one, and from `awaitingChallenge` on its nonce. -/
inductive ProverState (E : Type)
  | ready (receiver : Pedersen.Receiver E)
  | awaitingCommitment (receiver : Pedersen.Receiver E)
  | awaitingRandomData (receiver : Option (Pedersen.Receiver E))
  | awaitingChallenge (receiver : Option (Pedersen.Receiver E)) (r : Nat)
  | done
deriving DecidableEq

def ProverState.name {E : Type} : ProverState E → String
  | .ready _ => "ready"
  | .awaitingCommitment _ => "awaiting challenge commitment"
  | .awaitingRandomData _ => "awaiting proof random data"
  | .awaitingChallenge _ _ => "awaiting challenge"
  | .done => "done"

/-- A prover: what it claims, why the claim is true, and how far it is. -/
structure Prover (E : Type) where
  mode : ChallengeMode
  secret : Nat
  base : E
  value : E
  state : ProverState E
deriving DecidableEq

namespace Prover

variable {E : Type} (G : CyclicGroup E)

/-- The prover whose session is over. -/
def ended (P : Prover E) : Prover E := { P with state := .done }

/-- A prover for the power of `base` to a secret. Where the challenge is committed to, it draws the
trapdoor of the commitment. -/
def start (mode : ChallengeMode) (secret : Nat) (base : E) : Drawn (Prover E) := do
  G.checkScalar secret "secret"
  G.validate base
  let prover := Prover.mk mode secret base (G.exp base secret)
  if mode.usesCommitment then
    let receiver ← Pedersen.Receiver.random G
    pure (prover (.ready receiver))
  else
    pure (prover (.awaitingRandomData none))

/-- The base of the challenge commitment. -/
def openingMessage (P : Prover E) : Except Error E × Prover E :=
  settle P.ended <|
    match P.state with
    | .ready receiver => .ok (receiver.h, { P with state := .awaitingCommitment receiver })
    | other => .error (.outOfOrder "ready" other.name)

/-- Takes the challenge commitment. -/
def setCommitment (P : Prover E) (c : E) : Except Error Unit × Prover E :=
  settle P.ended <|
    match P.state with
    | .awaitingCommitment receiver => do
      let committed ← receiver.setCommitment G c
      pure ((), { P with state := .awaitingRandomData (some committed) })
    | other => .error (.outOfOrder "awaiting challenge commitment" other.name)

/-- The commitment to a random nonce. -/
def randomData (P : Prover E) : Draw (Except Error E × Prover E) :=
  settleDrawn P.ended <|
    match P.state with
    | .awaitingRandomData receiver => do
      let r ← G.randomScalar
      pure (G.exp P.base r, { P with state := .awaitingChallenge receiver r })
    | other => throw (.outOfOrder "awaiting proof random data" other.name)

/-- A challenge that was committed to has to open its commitment; others open nothing. -/
def checkOpening [DecidableEq E] (challenge : Challenge) :
    Option (Pedersen.Receiver E) → Except Error Unit
  | some receiver =>
    match challenge.decommitment with
    | none => .error .decommitment
    | some r => do
      let opens ← receiver.check G ⟨challenge.e, r⟩
      if opens then pure () else .error .decommitment
  | none =>
    match challenge.decommitment with
    | none => .ok ()
    | some _ => .error (.protocol .openingInSigma)

/-- The trapdoor that goes with an answer: only in the last mode. -/
def disclosed (mode : ChallengeMode) : Option (Pedersen.Receiver E) → Option Nat
  | some receiver => if mode = .zkpok then some receiver.trapdoor else none
  | none => none

/-- The answer to a challenge. -/
def respond [DecidableEq E] (P : Prover E) (challenge : Challenge) :
    Except Error Response × Prover E :=
  settle P.ended <|
    match P.state with
    | .awaitingChallenge receiver r => do
      G.checkScalar challenge.e "challenge"
      checkOpening G challenge receiver
      pure (⟨Arith.response r challenge.e P.secret G.order, disclosed P.mode receiver⟩, P.ended)
    | other => .error (.outOfOrder "awaiting challenge" other.name)

end Prover

end AnonCred.Knowledge

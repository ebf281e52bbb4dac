import AnonCred.Knowledge.Verifier

/-!
# One honest proof of knowledge

Prover and verifier run against each other, in the order of their mode.
-/

namespace AnonCred.Knowledge

/-- What is said in a proof, and the verifier that has yet to judge the response. -/
structure Exchange (E : Type) where
  base : E
  value : E
  x : E
  challenge : Challenge
  response : Response
  verifier : Verifier E
deriving DecidableEq

/-- The same, and whether the verifier accepts the response. -/
structure Round (E : Type) extends Exchange E where
  verified : Bool
deriving DecidableEq

variable {E : Type} [DecidableEq E] (G : CyclicGroup E)

/-- The exchange about the challenge commitment, where the mode has one. -/
def exchangeCommitment (prover : Prover E) (verifier : Verifier E) :
    Drawn (Prover E × Verifier E) := do
  if prover.mode.usesCommitment then
    let (h, prover) ← call prover.openingMessage
    let (c, verifier) ← callDrawn (verifier.commitChallenge G h)
    let ((), prover) ← call (prover.setCommitment G c)
    pure (prover, verifier)
  else pure (prover, verifier)

/-- A proof of a secret on a base, up to the response. -/
def exchange (mode : ChallengeMode) (secret : Nat) (base : E) : Drawn (Exchange E) := do
  let prover ← Prover.start G mode secret base
  let (prover, verifier) ← exchangeCommitment G prover (Verifier.start mode)
  let (x, prover) ← callDrawn (prover.randomData G)
  let (challenge, verifier) ← callDrawn (verifier.challenge G base prover.value x)
  let (response, _) ← call (prover.respond G challenge)
  pure ⟨base, prover.value, x, challenge, response, verifier⟩

/-- A proof of a secret on a random base. -/
def round (mode : ChallengeMode) (secret : Nat) : Drawn (Round E) := do
  let base ← G.randomElement
  let said ← exchange G mode secret base
  let (verified, _) ← call (said.verifier.verify G said.response)
  pure ⟨said, verified⟩

end AnonCred.Knowledge

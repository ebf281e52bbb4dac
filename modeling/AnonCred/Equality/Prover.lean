import AnonCred.Arith
import AnonCred.Group
import AnonCred.Session

/-!
# Proving that two exponents are equal: the prover

The prover knows one exponent that takes `g1` to `t1` and `g2` to `t2`. It commits to one nonce on
both bases and answers one challenge for both. It commits once and answers once: any other order
of calls ends the session and forgets the nonce.
-/

namespace AnonCred.Equality

/-- How far a prover is; between commitment and answer it holds its nonce. -/
inductive ProverState
  | fresh
  | committed (r : Nat)
  | finished
deriving DecidableEq, Repr

/-- A prover with its secret and its two bases. -/
structure Prover (E : Type) where
  secret : Nat
  g1 : E
  g2 : E
  state : ProverState
deriving DecidableEq

namespace Prover

variable {E : Type} (G : CyclicGroup E)

def start (secret : Nat) (g1 g2 : E) : Except Error (Prover E) := do
  G.checkScalar secret "secret"
  G.validate g1
  G.validate g2
  pure ⟨secret, g1, g2, .fresh⟩

/-- The prover whose session is over. -/
def ended (P : Prover E) : Prover E := { P with state := .finished }

/-- The two powers that the prover speaks about. -/
def values (P : Prover E) : E × E := (G.exp P.g1 P.secret, G.exp P.g2 P.secret)

/-- The commitments to a given nonce. -/
def commitments (P : Prover E) (r : Nat) : E × E := (G.exp P.g1 r, G.exp P.g2 r)

/-- The commitments to a random nonce. -/
def randomData (P : Prover E) : Draw (Except Error (E × E) × Prover E) :=
  settleDrawn P.ended <|
    match P.state with
    | .fresh => do
      let r ← G.randomScalar
      pure (P.commitments G r, { P with state := .committed r })
    | _ => throw (.outOfOrder "a fresh prover" "already committed")

/-- The answer to a challenge. -/
def respond (P : Prover E) (e : Nat) : Except Error Nat × Prover E :=
  settle P.ended <|
    match P.state with
    | .committed r => do
      G.checkScalar e "challenge"
      pure (Arith.response r e P.secret G.order, P.ended)
    | _ => .error (.outOfOrder "a commitment" "uncommitted")

end Prover

end AnonCred.Equality

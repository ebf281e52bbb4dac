import AnonCred.Credential.Pseudonym
import AnonCred.Knowledge.Verifier

/-!
# Asking for the owner of a pseudonym

The authority and an issuer begin in the same way. Somebody states a pseudonym, is challenged to
prove that it knows the secret, and answers. The two differ in the texts of their refusals, and in
what they do for the owner.

Each of them has a session of its own, with more in it than this exchange. So the calls here take
the verifier, the pseudonym that a challenge is pending for, and how the session is put together
from the two.
-/

namespace AnonCred.Ownership

/-- What a party calls the two parts of a pseudonym, what it expects before an answer, and what an
answer that does not hold has failed to prove. -/
structure Texts where
  base : String
  value : String
  expected : String
  failed : ProofCause
deriving DecidableEq, Repr

variable {E σ α : Type} [DecidableEq E] (G : CyclicGroup E) (texts : Texts)
  (session : Knowledge.Verifier E → Option (Pseudonym E) → σ) (verifier : Knowledge.Verifier E)
  (pending : Option (Pseudonym E))

/-- A challenge for the owner of a pseudonym. The statement is refused, and the session stays as it
is, if either part is the identity. -/
def challenge (nym : Pseudonym E) (x : E) : Draw (Except Error Nat × σ) :=
  match G.checkPair nym.a nym.b texts.base texts.value with
  | .error error => pure (.error error, session verifier pending)
  | .ok () => do
    let (answer, verifier) ← verifier.challenge G nym.a nym.b x
    match answer with
    | .error error => pure (.error error, session verifier pending)
    | .ok challenge => pure (.ok challenge.e, session verifier (some nym))

/-- What is done for the owner of the pending pseudonym, if the answer to the challenge is accepted.
Without a pending pseudonym the verifier is not asked. -/
def verify (z : Nat) (serve : Pseudonym E → σ → Draw (Except Error α × σ)) :
    Draw (Except Error α × σ) :=
  match pending with
  | none => pure (.error (.outOfOrder texts.expected "no pending proof"), session verifier none)
  | some nym =>
    let (answer, verifier) := verifier.verify G ⟨z, none⟩
    let next := session verifier none
    match answer with
    | .error error => pure (.error error, next)
    | .ok false => pure (.error (.verification texts.failed), next)
    | .ok true => serve nym next

end AnonCred.Ownership

import AnonCred.Error
import AnonCred.Text.Blank

/-!
# How a challenge is delivered

In the plain mode the verifier sends a random challenge. In the two others it commits to the
challenge before it sees anything of the proof, and in the last one the prover also hands over the
trapdoor of the commitment at the end.
-/

namespace AnonCred

/-- The three ways to deliver a challenge. -/
inductive ChallengeMode
  | sigma
  | zkp
  | zkpok
deriving DecidableEq, Repr

namespace ChallengeMode

/-- Whether the challenge is committed to. -/
def usesCommitment : ChallengeMode → Bool
  | .sigma => false
  | .zkp | .zkpok => true

/-- The name of a mode. -/
def name : ChallengeMode → String
  | .sigma => "sigma"
  | .zkp => "zkp"
  | .zkpok => "zkpok"

/-- The name of a mode with a capital letter. -/
def title : ChallengeMode → String
  | .sigma => "Sigma"
  | .zkp => "Zkp"
  | .zkpok => "Zkpok"

/-- The mode with exactly the given name. -/
def ofName? (text : String) : Option ChallengeMode :=
  if text = "sigma" then some .sigma
  else if text = "zkp" then some .zkp
  else if text = "zkpok" then some .zkpok
  else none

/-- The mode that a text names: blanks around it and the case of ASCII letters do not count. -/
def parse (text : String) : Except Error ChallengeMode :=
  let word := Text.lower (Text.trim text)
  match ofName? word with
  | some mode => .ok mode
  | none => .error (.params (.unknownMode word))

theorem ofName?_name (mode : ChallengeMode) : ofName? mode.name = some mode := by
  cases mode <;> rfl

/-- A mode has one name. -/
theorem ofName?_eq_some {text : String} {mode : ChallengeMode} :
    ofName? text = some mode ↔ text = mode.name := by
  constructor
  · unfold ofName?
    intro h
    split at h
    · cases h; assumption
    · split at h
      · cases h; assumption
      · split at h
        · cases h; assumption
        · cases h
  · rintro rfl
    exact ofName?_name mode

end ChallengeMode

end AnonCred

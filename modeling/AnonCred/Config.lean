import AnonCred.Knowledge.Mode
import AnonCred.Selector

/-!
# Settings of a deployment

What the parties of a deployment have to agree on, and `Config.validate`, which refuses settings
that nobody could work with.
-/

namespace AnonCred

/-- The group, the way challenges are delivered, the length of session keys in bytes, the names of
the organizations, and the registration keys that are known from the start. -/
structure Config where
  group : GroupSelector
  challengeMode : ChallengeMode
  sessionKeyBytes : UInt64
  organizations : List String
  registrationKeys : List String
deriving DecidableEq, Repr

namespace Config

/-- The settings where nothing is said. -/
def standard : Config where
  group := .p256
  challengeMode := .sigma
  sessionKeyBytes := 32
  organizations := ["org1", "org2"]
  registrationKeys := []

/-! ## Validation -/

/-- Why settings are refused. -/
inductive Flaw
  | noOrganization
  | emptySessionKeys
  | blankName
  | repeatedName (name : String)
deriving DecidableEq, Repr

def Flaw.message : Flaw → String
  | .noOrganization => "at least one organization is required"
  | .emptySessionKeys => "session_key_bytes must be greater than 0"
  | .blankName => "organization names must not be empty"
  | .repeatedName name => s!"organization '{name}' is listed twice"

/-- A name with nothing but blanks in it. -/
def IsBlankName (name : String) : Prop := Text.trim name = ""

instance (name : String) : Decidable (IsBlankName name) := by unfold IsBlankName; infer_instance

/-- Goes over names in order, and refuses the first that is blank or was there before. -/
def checkNames (earlier : List String) : List String → Except Flaw Unit
  | [] => .ok ()
  | name :: rest =>
    if IsBlankName name then .error .blankName
    else if name ∈ earlier then .error (.repeatedName name)
    else checkNames (name :: earlier) rest

/-- Refuses settings without organizations, with empty session keys, or with a name that is blank
or there twice. -/
def validate (config : Config) : Except Flaw Unit :=
  if config.organizations.isEmpty then .error .noOrganization
  else if config.sessionKeyBytes = 0 then .error .emptySessionKeys
  else checkNames [] config.organizations

theorem validate_standard : standard.validate = .ok () := by rfl

end Config

end AnonCred

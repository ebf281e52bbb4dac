import AnonCred.Config.Decode
import AnonCred.Config.Environment
import AnonCred.Config.StandIn
import AnonCred.Toml.Document

/-!
# Settings from layers

The standard settings lie at the bottom, a file over them, and the environment over both. What is
left then is read as settings.
-/

namespace AnonCred

namespace Config

/-- The settings as a value. -/
def toValue (config : Config) : Value :=
  .table <| Value.Entries.ofList [
    ("group", .string config.group.name),
    ("challenge_mode", .string config.challengeMode.name),
    ("session_key_bytes", .int config.sessionKeyBytes.toNat),
    ("organizations", .list (config.organizations.map .string)),
    ("registration_keys", .list (config.registrationKeys.map .string))]

/-- Why settings cannot be loaded: a variable cannot be read, the file is no document, or a setting
is not what it should be. -/
inductive LoadError
  | interrupted (interruption : Interruption)
  | malformed
  | undecodable (error : DecodeError)
deriving DecidableEq, Repr

def LoadError.message : LoadError → String
  | .interrupted interruption => interruption.message
  | .malformed => "the file of settings cannot be read"
  | .undecodable error => error.message

/-- The layer of a file, which need not be there. -/
def fileLayer : Option String → Except LoadError Value
  | none => .ok (.table [])
  | some text =>
    match (Toml.parse text).bind Value.resolveEntries with
    | some entries => .ok (.table entries)
    | none => .error .malformed

/-- The settings with a file and an environment. -/
def load (file : Option String) (environment : List (String × String)) : Except LoadError Config := do
  let upper ← (Environment.layer environment).mapError .interrupted
  let lower ← fileLayer file
  let value := (standard.toValue.overlay lower).overlay upper
  (Decode.layered value).mapError .undecodable

end Config

end AnonCred

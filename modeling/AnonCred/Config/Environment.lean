import AnonCred.Config.Variable

/-!
# Settings from the environment

A variable has a name, which says what entry it sets, and a text, which is read as a value. Dots in
the name lead into tables. A name with nothing in front of, between or behind its dots sets nothing.
-/

namespace AnonCred.Environment

/-- The variable that says where the file of settings is, and is no setting itself. -/
def pathVariable : String := "config_path"

/-- The keys that a name consists of, without the blanks around it. -/
def keys (name : String) : List String :=
  ((Text.lower (Text.trim name)).toList.splitOn '.').map String.ofList

/-- Whether a variable sets anything. -/
def isSetting (name : String) : Bool :=
  Text.lower name != pathVariable && (keys name).all (· != "")

/-- A value under a path of keys. -/
def nest : List String → Value → Value
  | [], value => value
  | key :: path, value => .table [(key, nest path value)]

/-- The settings of a variable. -/
def setting (name text : String) : Except Interruption Value :=
  if isSetting name then nest (keys name) <$> Variable.value text else .ok (.table [])

/-- The settings of all variables; the later ones count more. -/
def layer (environment : List (String × String)) : Except Interruption Value :=
  environment.foldlM (fun lower (name, text) => lower.overlay <$> setting name text) (.table [])

end AnonCred.Environment

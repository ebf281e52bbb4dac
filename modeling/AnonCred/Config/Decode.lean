import AnonCred.Config
import AnonCred.Config.Value

/-!
# Settings from values

Reads settings out of a value, and says where and why it cannot. Of several faults in a table the
one under the first key counts; only after them an entry is missed.

A challenge mode can also be given as a table. In a document it has the name of the mode as its only
key, with nothing under it. Where settings are put together from layers there is no value that is
nothing, so there such a table is always refused; its first key is the one that is looked at.
-/

namespace AnonCred

/-! ## What can go wrong -/

/-- Why a value is refused. -/
inductive DecodeCause
  | wrongKind
  | wrongValue
  | wrongLength
  | unknownName (name : String)
  | missing (field : String)
  | selector (error : Error)
deriving DecidableEq, Repr

def DecodeCause.message : DecodeCause → String
  | .wrongKind => "invalid type"
  | .wrongValue => "invalid value"
  | .wrongLength => "invalid length"
  | .unknownName name => s!"unknown variant `{name}`"
  | .missing field => s!"missing field `{field}`"
  | .selector error => error.message

/-- A place, as the keys and positions that lead there, and what is wrong with it. -/
structure DecodeError where
  path : List String
  cause : DecodeCause
deriving DecidableEq, Repr

namespace DecodeError

def here (cause : DecodeCause) : DecodeError := ⟨[], cause⟩

/-- The same fault, seen from one step further out. -/
def under (step : String) (error : DecodeError) : DecodeError :=
  { error with path := step :: error.path }

def message (error : DecodeError) : String :=
  String.intercalate "." error.path ++ ": " ++ error.cause.message

end DecodeError

/-- Reads something out of a value. -/
abbrev Decode (α : Type) := Value → Except DecodeError α

namespace Decode

/-! ## Parts -/

/-- A text; a single character is one too. -/
def text : Decode String
  | .string s => .ok s
  | .char c => .ok (String.ofList [c])
  | _ => .error (.here .wrongKind)

/-- The texts of a list, which starts at a position. -/
def textsFrom (position : Nat) : List Value → Except DecodeError (List String)
  | [] => .ok []
  | item :: rest => do
    let first ← (text item).mapError (.under (Decimal.text position))
    let others ← textsFrom (position + 1) rest
    pure (first :: others)

def texts : Decode (List String)
  | .list items => textsFrom 0 items
  | _ => .error (.here .wrongKind)

/-- A size: an integer of 64 bits that is not negative. -/
def size : Decode UInt64
  | .int n =>
    if 0 ≤ n ∧ n.toNat < Decimal.wordEnd then .ok (UInt64.ofNat n.toNat)
    else .error (.here .wrongValue)
  | _ => .error (.here .wrongKind)

def group : Decode GroupSelector := fun value => do
  match GroupSelector.parse (← text value) with
  | .ok selector => pure selector
  | .error error => throw (.here (.selector error))

/-- The mode with exactly this name. -/
def namedMode (name : String) : Except DecodeError ChallengeMode :=
  match ChallengeMode.ofName? name with
  | some mode => .ok mode
  | none => .error (.here (.unknownName name))

/-- A mode in a document. -/
def documentMode : Decode ChallengeMode
  | .string name => namedMode name
  | .table [(name, value)] => do
    let mode ← namedMode name
    match value with
    | .null => pure mode
    | _ => throw (.under name (.here .wrongKind))
  | .table _ => .error (.here .wrongValue)
  | _ => .error (.here .wrongKind)

/-- A mode in layered settings. -/
def layeredMode : Decode ChallengeMode
  | .string name => namedMode name
  | .table ((name, _) :: _) => do
    let _ ← (namedMode name).mapError (.under name)
    throw (.under name (.here .wrongKind))
  | _ => .error (.here .wrongKind)

/-! ## Settings -/

/-- An entry of a table, if it is there. -/
def field? {α : Type} (decode : Decode α) (key : String) (entries : Value.Entries) :
    Except DecodeError (Option α) :=
  match entries.find? key with
  | some value => some <$> (decode value).mapError (.under key)
  | none => .ok none

/-- An entry that must not be missing. -/
def required {α : Type} (key : String) : Option α → Except DecodeError α
  | some a => .ok a
  | none => .error (.here (.missing key))

/-- The settings of a table; entries that are no settings do not count. -/
def ofTable (mode : Decode ChallengeMode) (entries : Value.Entries) : Except DecodeError Config := do
  let challengeMode ← field? mode "challenge_mode" entries
  let group ← field? group "group" entries
  let organizations ← field? texts "organizations" entries
  let registrationKeys ← field? texts "registration_keys" entries
  let sessionKeyBytes ← field? size "session_key_bytes" entries
  return {
    group := ← required "group" group
    challengeMode := ← required "challenge_mode" challengeMode
    sessionKeyBytes := ← required "session_key_bytes" sessionKeyBytes
    organizations := ← required "organizations" organizations
    registrationKeys := ← required "registration_keys" registrationKeys }

/-- An item of a list that must not be too short. -/
def item {α : Type} (decode : Decode α) (position : Nat) (items : List Value) :
    Except DecodeError α :=
  match items[position]? with
  | some value => (decode value).mapError (.under (Decimal.text position))
  | none => .error (.here .wrongLength)

/-- The settings of a list without keys. -/
def ofList (mode : Decode ChallengeMode) (items : List Value) : Except DecodeError Config := do
  let config : Config := {
    group := ← item group 0 items
    challengeMode := ← item mode 1 items
    sessionKeyBytes := ← item size 2 items
    organizations := ← item texts 3 items
    registrationKeys := ← item texts 4 items }
  if items.length ≤ 5 then pure config else throw (.here .wrongLength)

/-- Settings, with modes read as given. -/
def configWith (mode : Decode ChallengeMode) : Decode Config
  | .table entries => ofTable mode entries
  | .list items => ofList mode items
  | _ => .error (.here .wrongKind)

/-- The settings of a document. -/
def document : Decode Config := configWith documentMode

/-- The settings of layers that are put together. -/
def layered : Decode Config := configWith layeredMode

end Decode

end AnonCred

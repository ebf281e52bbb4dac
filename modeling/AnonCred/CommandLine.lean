import AnonCred.Knowledge.Mode
import AnonCred.Selector

/-!
# The command line

Options with a value, in a long and a short form. The value stands behind an equals sign, directly
behind a short form, or in the next word. Words are read in order up to the first that is wrong or
asks for help; an option may be given once.
-/

namespace AnonCred.CommandLine

/-! ## Options -/

/-- An option with a value. -/
inductive Parameter
  | group
  | mode
  | secret
deriving DecidableEq, Repr

def Parameter.long : Parameter → String
  | .group => "group"
  | .mode => "mode"
  | .secret => "secret"

def Parameter.ofLong? (name : List Char) : Option Parameter :=
  [Parameter.group, .mode, .secret].find? (·.long.toList = name)

def Parameter.ofShort? (c : Char) : Option Parameter :=
  if c = 'g' then some .group
  else if c = 'm' then some .mode
  else if c = 's' then some .secret
  else none

/-- What a word on the command line is. -/
inductive Word
  | assigns (parameter : Parameter) (value : Option String)
  | help
  | version
  | endOfOptions
  | plain
  | unknown
deriving DecidableEq, Repr

/-- A word behind two hyphens. -/
def Word.ofLong (cs : List Char) : Word :=
  let (name, rest) := cs.span (· ≠ '=')
  let value :=
    match rest with
    | [] => none
    | _ :: value => some (String.ofList value)
  match Parameter.ofLong? name, value with
  | some parameter, value => .assigns parameter value
  | none, some _ => .unknown
  | none, none =>
    if name = "help".toList then .help else if name = "version".toList then .version else .unknown

/-- A word behind one hyphen. -/
def Word.ofShort (c : Char) (rest : List Char) : Word :=
  match Parameter.ofShort? c with
  | some parameter =>
    .assigns parameter <|
      match rest with
      | [] => none
      | '=' :: value => some (String.ofList value)
      | value => some (String.ofList value)
  | none => if c = 'h' then .help else if c = 'V' then .version else .unknown

def Word.ofText (text : String) : Word :=
  match text.toList with
  | ['-', '-'] => .endOfOptions
  | '-' :: '-' :: rest => .ofLong rest
  | '-' :: c :: rest => .ofShort c rest
  | _ => .plain

/-! ## Values -/

/-- What is wrong with a command line. -/
inductive UsageError
  | unexpected (word : String)
  | repeated (parameter : Parameter)
  | noValue (parameter : Parameter)
  | badValue (parameter : Parameter) (value : String)
deriving DecidableEq, Repr

def UsageError.message : UsageError → String
  | .unexpected word => s!"unexpected argument '{word}'"
  | .repeated parameter => s!"the argument '--{parameter.long}' cannot be used more than once"
  | .noValue parameter => s!"a value is required for '--{parameter.long}'"
  | .badValue parameter value => s!"invalid value '{value}' for '--{parameter.long}'"

/-- A number in decimal digits, with one plus sign in front as may be. Underscores behind the first
digit do not count. -/
def secretNumber? (text : String) : Option Nat :=
  match Decimal.dropPlus text.toList with
  | '_' :: _ => none
  | cs => Decimal.ofDigits? (cs.filter (· ≠ '_'))

/-- The values that are given. -/
structure Arguments where
  group : Option GroupSelector
  mode : Option ChallengeMode
  secret : Option Nat
deriving DecidableEq, Repr

namespace Arguments

/-- Nothing is given. -/
def empty : Arguments := ⟨none, none, none⟩

/-- Whether a value is given. -/
def has (given : Arguments) : Parameter → Bool
  | .group => given.group.isSome
  | .mode => given.mode.isSome
  | .secret => given.secret.isSome

/-- Reads a value, and puts it in place of an older one. -/
def set (given : Arguments) (parameter : Parameter) (text : String) : Except UsageError Arguments :=
  match parameter with
  | .group =>
    match GroupSelector.parse text with
    | .ok group => .ok { given with group := some group }
    | .error _ => .error (.badValue .group text)
  | .mode =>
    match ChallengeMode.parse text with
    | .ok mode => .ok { given with mode := some mode }
    | .error _ => .error (.badValue .mode text)
  | .secret =>
    match secretNumber? text with
    | some secret => .ok { given with secret := some secret }
    | none => .error (.badValue .secret text)

/-- Takes a value from the command line, where each may stand once. -/
def add (given : Arguments) (parameter : Parameter) (text : String) : Except UsageError Arguments :=
  if given.has parameter then .error (.repeated parameter) else given.set parameter text

/-- The variable that stands in for an option. -/
def standIn? : Parameter → Option String
  | .group => some "GROUP"
  | .mode => some "CHALLENGE_MODE"
  | .secret => none

/-- Takes the value of a variable where the command line gives none. -/
def fill (environment : List (String × String)) (given : Arguments) (parameter : Parameter) :
    Except UsageError Arguments :=
  match (standIn? parameter).bind fun name => environment.lookup name with
  | some text => if given.has parameter then .ok given else given.set parameter text
  | none => .ok given

end Arguments

/-! ## Command lines -/

/-- What is asked for. -/
inductive Request
  | help
  | version
  | run (arguments : Arguments)
deriving DecidableEq, Repr

/-- Whether a word can be the value of the option in front of it. -/
def isValue (text : String) : Bool :=
  match text.toList with
  | '-' :: _ :: _ => false
  | _ => true

/-- Reads words, behind those that have given some values. -/
def parseWords (given : Arguments) : List String → Except UsageError Request
  | [] => .ok (.run given)
  | text :: rest =>
    match Word.ofText text with
    | .help => .ok .help
    | .version => .ok .version
    | .plain | .unknown => .error (.unexpected text)
    | .endOfOptions =>
      match rest with
      | [] => .ok (.run given)
      | next :: _ => .error (.unexpected next)
    | .assigns parameter (some value) => do
      parseWords (← given.add parameter value) rest
    | .assigns parameter none =>
      match rest with
      | [] => .error (.noValue parameter)
      | value :: rest =>
        if isValue value then do parseWords (← given.add parameter value) rest
        else .error (.noValue parameter)

/-- Reads a command line; variables stand in for options that are not given. -/
def parse (words : List String) (environment : List (String × String)) :
    Except UsageError Request := do
  match ← parseWords .empty words with
  | .run given => do
    let given ← [Parameter.group, .mode].foldlM (Arguments.fill environment) given
    pure (.run given)
  | request => pure request

end AnonCred.CommandLine

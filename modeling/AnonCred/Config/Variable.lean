import AnonCred.Config.Value
import AnonCred.Text.Blank
import AnonCred.Text.Decimal
import AnonCred.Text.Quoted

/-!
# The value of an environment variable

The text of a variable is read as a value: words for truth values, lists between brackets, tables
between braces, quoted texts, single characters between apostrophes, numbers. What is none of these
as a whole is the text itself, with all its space.

Quoted texts are counted in characters and cut in bytes: where there is an escape, the characters in
front of the first one are kept only up to as many bytes as they are characters. That changes
nothing in ASCII. Where the last byte kept is not the last of its character nothing can be read at
all, not even the text itself: this is an `Interruption`.
-/

namespace AnonCred

/-- Why a variable cannot be read at all. -/
inductive Interruption
  | tornCharacter
deriving DecidableEq, Repr

def Interruption.message : Interruption → String
  | .tornCharacter => "a quoted text is cut within a character"

namespace Variable

open Scan

/-- Takes something off the front of a text, or fails, or stops the reading for good. -/
abbrev Reading := ExceptT Interruption Scan

/-! ## Parts -/

/-- White space between the parts of a value. -/
def isSpace (c : Char) : Bool := c == ' ' || c == '\t' || c == '\n' || c == '\x0c' || c == '\r'

def space : Scan Unit := do
  let _ ← run isSpace

/-- A character of a text without quotation marks. -/
def isBare (c : Char) : Bool :=
  !(c == ',' || c == '\x7b' || c == '\x7d' || c == '[' || c == ']')

/-- A character of a key without quotation marks. -/
def isKeyChar (c : Char) : Bool := c.isAlphanum || c == '_' || c == '-'

/-- Digits, a point and digits, with a sign and an exponent as may be; one side of the point must
have a digit. -/
def real : Scan Unit := do
  let isDigit (c : Char) := (Decimal.digitValue? c).isSome
  let isSign (c : Char) := c == '+' || c == '-'
  let _ ← optionally (one isSign)
  let before ← run isDigit
  exactly '.'
  let behind ← run isDigit
  if before.isEmpty && behind.isEmpty then failure
  let _ ← optionally do
    let _ ← one fun c => c == 'e' || c == 'E'
    let _ ← optionally (one isSign)
    let _ ← one isDigit
    run isDigit

/-- The value of a text without quotation marks. -/
def bareValue (cs : List Char) : Value :=
  if (real.whole cs).isSome then .real
  else
    match Decimal.word64? cs with
    | some n => .int n.toNat
    | none =>
      match Decimal.signed64? cs with
      | some n => .int n
      | none => .string (String.ofList cs)

def bare : Scan Value := do
  let cs ← run isBare
  pure (bareValue (Text.trimChars cs))

/-- A character between apostrophes. -/
def character : Scan Value := do
  exactly '\''
  let c ← one fun _ => true
  exactly '\''
  pure (.char c)

/-- A word for a truth value, or a text without quotation marks. -/
def word : Scan Value :=
  ((fun _ => .bool true) <$> Scan.word ['t', 'r', 'u', 'e']) <|>
    ((fun _ => .bool false) <$> Scan.word ['f', 'a', 'l', 's', 'e']) <|> bare

/-! ## Quoted texts -/

/-- The characters that make up the first bytes of a text; none if the last of these bytes is not
the last of its character. -/
def firstBytes? : Nat → List Char → Option (List Char)
  | 0, _ => some []
  | _ + 1, [] => none
  | n + 1, c :: rest =>
    if c.utf8Size ≤ n + 1 then (c :: ·) <$> firstBytes? (n + 1 - c.utf8Size) rest else none

/-- A character between quotation marks, or two where the first one is a backslash. -/
def bodyItem : Scan (List Char) :=
  (do
    exactly '\\'
    let c ← one fun _ => true
    pure ['\\', c]) <|>
  (List.singleton <$> one fun c => c != '"' && c != '\\')

/-- What stands between two quotation marks, as it is written. -/
def body : Scan (List Char) := do
  exactly '"'
  let items ← repeated bodyItem
  exactly '"'
  pure items.flatten

/-- The text that stands for itself in front of the first escape, as far as it is kept, and what
the escapes and the characters behind it stand for. -/
def unescaped (written : List Char) : Reading (List Char) := do
  let plain := written.takeWhile (· != '\\')
  let rest := written.dropWhile (· != '\\')
  if !plain.all Quoted.isPrintable then (failure : Scan Unit)
  if rest.isEmpty then return plain
  match firstBytes? plain.length plain with
  | none => throw .tornCharacter
  | some kept =>
    match (repeated (one Quoted.isPlain <|> Quoted.escape)).whole rest with
    | some more => return kept ++ more
    | none => (failure : Scan (List Char))

/-- A quoted text, with its quotation marks. -/
def quoted : Reading String := do
  let written ← body
  return String.ofList (← unescaped written)

/-! ## Lists and tables -/

/-- Items with commas between them, up to and with the mark that closes them, and no more than a
bound. There may be a comma behind the last one. -/
def itemsUpTo {α : Type} (closing : Char) (item : Reading α) : Nat → Reading (List α)
  | 0 => (failure : Scan (List α))
  | n + 1 => do
    match ← optionally (exactly closing) with
    | some () => pure []
    | none => do
      let a ← item
      match ← optionally (exactly ',') with
      | some () => return a :: (← itemsUpTo closing item n)
      | none => do
        exactly closing
        pure [a]

/-- Items between two marks. Each takes at least a comma, so their number is bounded by the length
of the text. -/
def enclosed {α : Type} (opening closing : Char) (item : Reading α) : Reading (List α) := do
  exactly opening
  let bound := (← get).length + 1
  itemsUpTo closing item bound

/-- A key without quotation marks. -/
def bareKey : Scan String := do
  let first ← one isKeyChar
  let more ← run isKeyChar
  pure (String.ofList (first :: more))

def key : Reading String := do
  match (← get).head? with
  | some '"' => quoted
  | _ => bareKey

/-- A key and its value. -/
def entry (item : Reading Value) : Reading (String × Value) := do
  space
  let key ← key
  space
  exactly '='
  let value ← item
  pure (key, value)

/-- A value without the space around it. Its first character tells what it is. -/
def unspaced (item : Reading Value) : Reading Value := do
  match (← get).head? with
  | some '\x7b' =>
    return .table (Value.Entries.ofList (← enclosed '\x7b' '\x7d' (entry item)))
  | some '[' => return .list (← enclosed '[' ']' item)
  | some '"' => return .string (← quoted)
  | some '\'' => character
  | _ => word

/-- A value with space around it, and with at most the given number of brackets and braces around a
part of it. -/
def valueUpTo : Nat → Reading Value
  | 0 => (failure : Scan Value)
  | depth + 1 => do
    space
    let value ← unspaced (valueUpTo depth)
    space
    pure value

/-- The value of a text. A text is longer than the values in it are deep. -/
def value (text : String) : Except Interruption Value :=
  match (valueUpTo (text.length + 1)).run text.toList with
  | some (.error interruption, _) => .error interruption
  | some (.ok value, []) => .ok value
  | _ => .ok (.string text)

end Variable

end AnonCred

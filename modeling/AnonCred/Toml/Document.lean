import AnonCred.Toml.Number
import AnonCred.Toml.Table

/-!
# TOML documents

A document is a list of lines: `statements` reads them, and `build` does one after the other. A text
that is no document, or defines something twice, has no value; the reason is not kept.

Values are nested less deep than `nestingLimit`, and the recursion of `valueUpTo` goes over the
depth that is left.
-/

namespace AnonCred.Toml

open Scan

/-! ## Values -/

/-- The key under which a moment is kept, in a table of its own. -/
def momentKey : String := "$__toml_private_datetime"

def momentValue : Value := .table [(momentKey, .string "")]

def scalar : Scan Value :=
  (.string <$> string) <|> ((fun _ => momentValue) <$> moment) <|> ((fun _ => .real) <$> real) <|>
    (.int <$> integer) <|> ((fun _ => .real) <$> special) <|>
    ((fun _ => .bool true) <$> word ['t', 'r', 'u', 'e']) <|>
    ((fun _ => .bool false) <$> word ['f', 'a', 'l', 's', 'e'])

/-- Values between brackets, with commas between them; there may be another comma at the end. -/
def array (item : Scan Value) : Scan Value := do
  exactly '['
  let items ← optionally do
    let items ← separated (do gap; let value ← item; gap; pure value) (exactly ',')
    let _ ← optionally (exactly ',')
    pure items
  gap
  exactly ']'
  pure (.list (items.getD []))

/-- A path, and the value that an entry there gets. -/
def assignment (item : Scan Value) : Scan (List String × Value) := do
  let keys ← path
  exactly '='
  space
  let value ← item
  pure (keys, value)

/-- Assignments between braces, with commas between them. -/
def braced (item : Scan Value) : Scan Value := do
  exactly '\x7b'
  let pairs ← optionally (separated (do let pair ← assignment item; space; pure pair) (exactly ','))
  space
  exactly '\x7d'
  match inlineTable (pairs.getD []) with
  | some value => pure value
  | none => failure

/-- A value with at most the given number of brackets and braces around a part of it. -/
def valueUpTo : Nat → Scan Value
  | 0 => scalar
  | depth + 1 => array (valueUpTo depth) <|> braced (valueUpTo depth) <|> scalar

def value : Scan Value := valueUpTo (nestingLimit - 1)

/-! ## Lines -/

/-- What a line does. -/
inductive Statement
  | define (keys : List String) (value : Value)
  | openTable (keys : List String)
  | openItem (keys : List String)

/-- A line, if it is no header or definition nothing. -/
def statement : Scan (Option Statement) :=
  (do
    word ['[', '[']
    let keys ← path
    word [']', ']']
    lineRest
    pure (some (.openItem keys))) <|>
  (do
    exactly '['
    let keys ← path
    exactly ']'
    lineRest
    pure (some (.openTable keys))) <|>
  (do
    let (keys, value) ← assignment value
    lineRest
    pure (some (.define keys value))) <|>
  (do
    comment
    newline <|> ended
    pure none) <|>
  ((fun _ => none) <$> newline)

/-- The lines of a document. -/
def statements : Scan (List Statement) := do
  let _ ← optionally (exactly '\ufeff')
  space
  let lines ← repeated do
    let line ← statement
    space
    pure line
  pure (lines.filterMap id)

/-! ## Building -/

/-- Does what the lines say, the first ones within the table that is open. -/
def build : List Statement → List String → Node.Entries → Option Node.Entries
  | [], _, entries => some entries
  | .define keys value :: rest, opened, entries => do
    build rest opened (← Node.within opened (Node.define keys value) .header entries)
  | .openTable keys :: rest, _, entries => do
    build rest keys (← Node.openTable keys .header entries)
  | .openItem keys :: rest, _, entries => do
    build rest keys (← Node.openItem keys .header entries)

/-- The entries of a document. -/
def parse (text : String) : Option Value.Entries := do
  let lines ← statements.whole text.toList
  let entries ← build lines [] []
  pure (Node.toEntries entries)

end AnonCred.Toml

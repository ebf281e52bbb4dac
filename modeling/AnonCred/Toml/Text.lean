import AnonCred.Text.Quoted

/-!
# Space, strings and keys in TOML

A string is quoted once or three times, with quotation marks or with apostrophes. Between quotation
marks a backslash starts an escape, and between apostrophes it is a character like any other. Only
strings that are quoted three times go over several lines.
-/

namespace AnonCred.Toml

open Scan Quoted

/-! ## Space -/

def isSpace (c : Char) : Bool := c == ' ' || c == '\t'

/-- Space within a line. -/
def space : Scan Unit := do
  let _ ← run isSpace

/-- The end of a line, with or without a carriage return. -/
def newline : Scan Unit := exactly '\n' <|> word ['\r', '\n']

/-- A comment, up to the end of its line. -/
def comment : Scan Unit := do
  exactly '#'
  let _ ← run isPrintable

/-- Space, ends of lines and comments. -/
def gap : Scan Unit := do
  let _ ← repeated ((do let _ ← one isSpace) <|> newline <|> comment)

/-- What may follow on a line behind its contents. -/
def lineRest : Scan Unit := do
  space
  let _ ← optionally comment
  newline <|> ended

/-! ## Strings -/

/-- A string between apostrophes. -/
def literal : Scan String := do
  exactly '\''
  let body ← repeated (one fun c => isPrintable c && c != '\'')
  exactly '\''
  pure (String.ofList body)

/-- A mark within a string that three such marks end. -/
def innerMark (mark : Char) : Scan (List Char) := fun cs =>
  match cs with
  | a :: b :: c :: rest =>
    if a = mark then if b = mark ∧ c = mark then none else some ([mark], b :: c :: rest) else none
  | a :: rest => if a = mark then some ([mark], rest) else none
  | [] => none

/-- The end of a line within a string. -/
def innerNewline : Scan (List Char) := do
  newline
  pure ['\n']

/-- Up to two marks, which belong to the string if they follow the three that end it. -/
def lastMarks (mark : Char) : Scan (List Char) := repeatedUpTo (one (· == mark)) 2

/-- A string between three marks on either side. The end of a line right behind the first ones does
not count. -/
def threefold (mark : Char) (item : Scan (List Char)) : Scan String := do
  word [mark, mark, mark]
  let _ ← optionally newline
  let body ← repeated (item <|> innerMark mark <|> innerNewline)
  word [mark, mark, mark]
  let last ← lastMarks mark
  pure (String.ofList (body.flatten ++ last))

/-- A backslash at the end of a line: it, and all space and ends of lines behind it, do not
count. -/
def continuation : Scan (List Char) := do
  exactly '\\'
  space
  newline
  let _ ← repeated ((do let _ ← one isSpace) <|> newline)
  pure []

/-- What stands in a string of several lines with escapes. -/
def escapedItem : Scan (List Char) :=
  (List.singleton <$> one isPlain) <|> continuation <|> (List.singleton <$> escape)

/-- What stands in a string of several lines without escapes. -/
def literalItem : Scan (List Char) :=
  List.singleton <$> one fun c => isPrintable c && c != '\''

def string : Scan String :=
  threefold '"' escapedItem <|> quoted <|> threefold '\'' literalItem <|> literal

/-! ## Keys -/

def isBare (c : Char) : Bool :=
  let n := c.toNat
  (0x30 ≤ n && n ≤ 0x39) || (0x41 ≤ n && n ≤ 0x5A) || (0x61 ≤ n && n ≤ 0x7A) || c == '-' || c == '_'

/-- A key of letters, digits, hyphens and underscores. -/
def bareKey : Scan String := do
  let first ← one isBare
  let more ← run isBare
  pure (String.ofList (first :: more))

/-- A key with space around it. -/
def spacedKey : Scan String := do
  space
  let key ← quoted <|> literal <|> bareKey
  space
  pure key

/-- A document is nested less deep than this. -/
def nestingLimit : Nat := 80

/-- Keys with dots between them: the path to an entry. -/
def path : Scan (List String) := do
  let keys ← separated spacedKey (exactly '.')
  if keys.length < nestingLimit then pure keys else failure

end AnonCred.Toml

/-!
# Reading a text from its front

A scanner takes something off the front of a text, or fails. One that failed has taken nothing, so
another one can be tried in its place with `<|>`.

Loops are bounded by the length of the text: `repeated` and `separated` stop where an item fails,
and an item that takes nothing cannot keep them from stopping.
-/

namespace AnonCred

/-- Takes something off the front of a text, or fails. -/
abbrev Scan := StateT (List Char) Option

namespace Scan

/-! ## Characters -/

/-- The next character, if there is one and it is in a class. -/
def one (p : Char → Bool) : Scan Char := fun cs =>
  match cs with
  | c :: rest => if p c then some (c, rest) else none
  | [] => none

/-- One given character. -/
def exactly (c : Char) : Scan Unit := do
  let _ ← one (· == c)

/-- The characters of a word, one after the other. -/
def word : List Char → Scan Unit
  | [] => pure ()
  | c :: rest => do
    exactly c
    word rest

/-- The longest run of characters of a class, which may be empty. -/
def run (p : Char → Bool) : Scan (List Char) := fun cs => some (cs.takeWhile p, cs.dropWhile p)

/-- The end of the text. -/
def ended : Scan Unit := fun cs => if cs.isEmpty then some ((), cs) else none

/-- What a scanner makes of a whole text. -/
def whole {α : Type} (scan : Scan α) (cs : List Char) : Option α :=
  match scan cs with
  | some (a, []) => some a
  | _ => none

/-! ## Combinations -/

/-- What a scanner finds, if it does not fail. -/
def optionally {α : Type} (scan : Scan α) : Scan (Option α) :=
  (some <$> scan) <|> pure none

/-- Items up to the first that fails, and no more than a bound. -/
def repeatedUpTo {α : Type} (item : Scan α) : Nat → Scan (List α)
  | 0 => pure []
  | n + 1 => do
    match ← optionally item with
    | some a => return a :: (← repeatedUpTo item n)
    | none => pure []

/-- Items up to the first that fails. -/
def repeated {α : Type} (item : Scan α) : Scan (List α) := do
  repeatedUpTo item (← get).length

/-- One item or more, with a separator between them. -/
def separated {α : Type} (item : Scan α) (separator : Scan Unit) : Scan (List α) := do
  let first ← item
  let more ← repeated do
    separator
    item
  pure (first :: more)

end Scan

end AnonCred

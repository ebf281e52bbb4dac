import AnonCred.Text.Scan

/-!
# Quoted text

Text between two quotation marks. A backslash starts an escape, which stands for one character; the
other characters stand for themselves, but a control character, the tab apart, has to be escaped.
-/

namespace AnonCred.Quoted

open Scan

/-! ## Hexadecimal numbers -/

/-- The value of a hexadecimal digit, of either case. -/
def hexValue? (c : Char) : Option Nat :=
  let n := c.toNat
  if 0x30 ≤ n ∧ n ≤ 0x39 then some (n - 0x30)
  else if 0x41 ≤ n ∧ n ≤ 0x46 then some (n - 0x41 + 10)
  else if 0x61 ≤ n ∧ n ≤ 0x66 then some (n - 0x61 + 10)
  else none

/-- The next hexadecimal digit. -/
def hexDigit : Scan Nat := do
  let c ← one fun c => (hexValue? c).isSome
  pure ((hexValue? c).getD 0)

/-- A number of exactly `width` hexadecimal digits, which continues `n`. -/
def hexNumber (n : Nat) : Nat → Scan Nat
  | 0 => pure n
  | width + 1 => do
    let d ← hexDigit
    hexNumber (n * 16 + d) width

/-! ## Escapes -/

/-- The character with a number, if it has one. -/
def character? (n : Nat) : Option Char := if n.isValidChar then some (Char.ofNat n) else none

/-- The character with the number that `width` hexadecimal digits give. -/
def numbered (width : Nat) : Scan Char := do
  let n ← hexNumber 0 width
  match character? n with
  | some c => pure c
  | none => failure

/-- The character that an escape stands for, behind its backslash. -/
def escaped : Scan Char := do
  match ← one fun _ => true with
  | 'b' => pure '\x08'
  | 'f' => pure '\x0c'
  | 'n' => pure '\n'
  | 'r' => pure '\r'
  | 't' => pure '\t'
  | '"' => pure '"'
  | '\\' => pure '\\'
  | 'u' => numbered 4
  | 'U' => numbered 8
  | _ => failure

/-- An escape with its backslash. -/
def escape : Scan Char := do
  exactly '\\'
  escaped

/-! ## Quotes -/

/-- A character that is no control character, or a tab. -/
def isPrintable (c : Char) : Bool := c == '\t' || (0x20 ≤ c.toNat && c.toNat != 0x7F)

/-- A character that stands for itself between quotation marks. -/
def isPlain (c : Char) : Bool := isPrintable c && c != '"' && c != '\\'

/-- A quoted text, with its quotation marks. -/
def quoted : Scan String := do
  exactly '"'
  let body ← repeated (one isPlain <|> escape)
  exactly '"'
  pure (String.ofList body)

end AnonCred.Quoted

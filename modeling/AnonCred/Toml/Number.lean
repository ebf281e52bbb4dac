import AnonCred.Text.Decimal
import AnonCred.Toml.Text

/-!
# Numbers and moments in TOML

Integers have 64 bits and a sign, or are written without a sign in another base. Of a number with a
fraction or an exponent only counts whether there is one. The same holds of a moment: a date, a
time of the day, or both.
-/

namespace AnonCred.Toml

open Scan Quoted

/-! ## Digits -/

def isDigit (c : Char) : Bool := (Decimal.digitValue? c).isSome

/-- Digits, with single underscores between them that do not count. -/
def digitRun (p : Char → Bool) : Scan (List Char) := do
  let first ← one p
  let more ← repeated do
    let _ ← optionally (exactly '_')
    one p
  pure (first :: more)

/-- The number of a list of digits in some base. -/
def numeral (base : Nat) (digits : List Char) : Nat :=
  digits.foldl (fun n c => n * base + (hexValue? c).getD 0) 0

/-- Whether a minus sign stands in front; a plus sign does not count. -/
def sign : Scan Bool := do
  match ← optionally (one fun c => c == '+' || c == '-') with
  | some c => pure (c == '-')
  | none => pure false

/-- Decimal digits without zeros in front. -/
def wholePart : Scan (List Char) :=
  (List.singleton <$> one (· == '0')) <|> digitRun isDigit

/-! ## Integers -/

/-- An integer in another base, behind a zero and a letter. -/
def radixInteger (letter : Char) (base : Nat) : Scan Int := do
  word ['0', letter]
  let digits ← digitRun fun c => (hexValue? c).any (· < base)
  let n := numeral base digits
  if n < Decimal.signedEnd then pure n else failure

def decimalInteger : Scan Int := do
  let negative ← sign
  let n := numeral 10 (← wholePart)
  if negative then if n ≤ Decimal.signedEnd then pure (-n) else failure
  else if n < Decimal.signedEnd then pure n else failure

def integer : Scan Int :=
  radixInteger 'x' 16 <|> radixInteger 'o' 8 <|> radixInteger 'b' 2 <|> decimalInteger

/-! ## Numbers with a fraction or an exponent -/

/-- Digits behind a point. -/
def fraction : Scan (List Char) := do
  exactly '.'
  digitRun isDigit

/-- A power of ten. -/
def exponent : Scan Int := do
  let _ ← one fun c => c == 'e' || c == 'E'
  let negative ← sign
  let n := numeral 10 (← digitRun isDigit)
  pure (if negative then -n else n)

/-- Where doubles end: the numbers from here on round to infinity. -/
def doubleEnd : Nat := Nat.pow 2 1024 - Nat.pow 2 970

/-- Whether `m * 10 ^ e` is beyond the doubles. The cases with a large exponent are told by the
number of digits in front of the point: `doubleEnd` has 309. -/
def beyondDoubles (m : Nat) (e : Int) : Bool :=
  let places := (Decimal.digits m).length + e
  if m = 0 ∨ places < 309 then false
  else if places > 309 then true
  else decide (doubleEnd * Nat.pow 10 (-e).toNat ≤ m * Nat.pow 10 e.toNat)

/-- A number with a fraction, an exponent or both; a positive one must not be too large. -/
def real : Scan Unit := do
  let negative ← sign
  let front ← wholePart
  let behind ← optionally fraction
  let power ← if behind.isSome then optionally exponent else some <$> exponent
  let behind := behind.getD []
  if !negative && beyondDoubles (numeral 10 (front ++ behind)) (power.getD 0 - behind.length) then
    failure

/-- Infinity, and what is not a number. -/
def special : Scan Unit := do
  let _ ← sign
  word ['i', 'n', 'f'] <|> word ['n', 'a', 'n']

/-! ## Moments -/

/-- Exactly `width` digits. -/
def fixedDigits : Nat → Scan (List Char)
  | 0 => pure []
  | width + 1 => do return (← one isDigit) :: (← fixedDigits width)

/-- A number of `width` digits between two bounds. -/
def field (width low high : Nat) : Scan Nat := do
  let n := numeral 10 (← fixedDigits width)
  if low ≤ n ∧ n ≤ high then pure n else failure

def isLeapYear (year : Nat) : Bool := year % 4 == 0 && (year % 100 != 0 || year % 400 == 0)

def daysOfMonth (year month : Nat) : Nat :=
  if month = 2 then if isLeapYear year then 29 else 28
  else if month = 4 ∨ month = 6 ∨ month = 9 ∨ month = 11 then 30
  else 31

def date : Scan Unit := do
  let year ← field 4 0 9999
  exactly '-'
  let month ← field 2 1 12
  exactly '-'
  let _ ← field 2 1 (daysOfMonth year month)

/-- Hours, minutes and seconds; the last minute of a day may have a second more. -/
def time : Scan Unit := do
  let _ ← field 2 0 23
  exactly ':'
  let _ ← field 2 0 59
  exactly ':'
  let _ ← field 2 0 60
  let _ ← optionally do
    exactly '.'
    let _ ← one isDigit
    run isDigit

/-- The distance of a time from that of the prime meridian. -/
def offset : Scan Unit :=
  (do let _ ← one fun c => c == 'Z' || c == 'z') <|> do
    let _ ← one fun c => c == '+' || c == '-'
    let _ ← field 2 0 23
    exactly ':'
    let _ ← field 2 0 59

/-- A time behind a date. -/
def timeOfDate : Scan Unit := do
  let _ ← one fun c => c == 'T' || c == 't' || c == ' '
  time
  let _ ← optionally offset

def moment : Scan Unit :=
  (do
    date
    let _ ← optionally timeOfDate) <|> time

end AnonCred.Toml

/-!
# Text

White space around a text, and the case of its ASCII letters. The class of blanks is the one that
Unicode calls `White_Space`; letters outside ASCII keep their case.
-/

namespace AnonCred.Text

/-! ## Blanks -/

/-- The characters with the property `White_Space`. -/
def isBlank (c : Char) : Bool :=
  let n := c.toNat
  (0x09 ≤ n && n ≤ 0x0D) || n == 0x20 || n == 0x85 || n == 0xA0 || n == 0x1680 ||
    (0x2000 ≤ n && n ≤ 0x200A) || n == 0x2028 || n == 0x2029 || n == 0x202F || n == 0x205F ||
    n == 0x3000

/-- The characters without the blanks at both ends. -/
def trimChars (cs : List Char) : List Char :=
  ((cs.dropWhile isBlank).reverse.dropWhile isBlank).reverse

/-- A text without the blanks at both ends. -/
def trim (text : String) : String := String.ofList (trimChars text.toList)

/-! ## Case -/

/-- An ASCII capital as a small letter; other characters stay. -/
def lowerChar (c : Char) : Char :=
  if 0x41 ≤ c.toNat ∧ c.toNat ≤ 0x5A then Char.ofNat (c.toNat + 0x20) else c

/-- A text with its ASCII letters in lower case. -/
def lower (text : String) : String := String.ofList (text.toList.map lowerChar)

end AnonCred.Text

/-!
# Decimal numbers

Numbers in ASCII digits. Reading is lenient where a number of 64 bits is expected: one plus sign
may stand in front, and so may any number of zeros.
-/

namespace AnonCred.Decimal

/-! ## Writing -/

/-- A digit below ten as a character. -/
def digitChar (d : Nat) : Char := Char.ofNat (0x30 + d)

/-- The digits of a number, without zeros in front. -/
def digits (n : Nat) : List Char :=
  if n < 10 then [digitChar n] else digits (n / 10) ++ [digitChar (n % 10)]
termination_by n
decreasing_by omega

/-- A number as text. -/
def text (n : Nat) : String := String.ofList (digits n)

/-! ## Reading -/

/-- The value of an ASCII digit. -/
def digitValue? (c : Char) : Option Nat :=
  if 0x30 ≤ c.toNat ∧ c.toNat ≤ 0x39 then some (c.toNat - 0x30) else none

/-- The number that digits continue another one to. -/
def continue? : Nat → List Char → Option Nat
  | n, [] => some n
  | n, c :: rest =>
    match digitValue? c with
    | some d => continue? (n * 10 + d) rest
    | none => none

/-- The number of one or more digits. -/
def ofDigits? : List Char → Option Nat
  | [] => none
  | c :: rest => continue? 0 (c :: rest)

/-- Drops one plus sign in front. -/
def dropPlus : List Char → List Char
  | '+' :: rest => rest
  | cs => cs

/-- Numbers of 64 bits end here. -/
def wordEnd : Nat := 0x10000000000000000

/-- Numbers of 64 bits with a sign end here; the negative ones go just as far. -/
def signedEnd : Nat := 0x8000000000000000

/-- A number of 64 bits. -/
def word64? (cs : List Char) : Option UInt64 :=
  match ofDigits? (dropPlus cs) with
  | some n => if n < wordEnd then some (UInt64.ofNat n) else none
  | none => none

/-- A number of 64 bits with a sign. -/
def signed64? : List Char → Option Int
  | '-' :: rest =>
    match ofDigits? rest with
    | some n => if n ≤ signedEnd then some (-(n : Int)) else none
    | none => none
  | cs =>
    match ofDigits? (dropPlus cs) with
    | some n => if n < signedEnd then some (n : Int) else none
    | none => none

/-! ## Reading what was written -/

theorem digitValue?_digitChar {d : Nat} (h : d < 10) : digitValue? (digitChar d) = some d := by
  have hall : ∀ e ∈ List.range 10, digitValue? (digitChar e) = some e := by decide
  exact hall d (List.mem_range.mpr h)

theorem digits_ne_nil (n : Nat) : digits n ≠ [] := by
  rw [digits]
  split <;> simp

theorem continue?_append (n : Nat) (cs ds : List Char) :
    continue? n (cs ++ ds) = (continue? n cs).bind fun m => continue? m ds := by
  induction cs generalizing n with
  | nil => rfl
  | cons c rest ih =>
    simp only [List.cons_append, continue?]
    cases digitValue? c with
    | none => rfl
    | some d => exact ih _

theorem continue?_digits (n : Nat) : continue? 0 (digits n) = some n := by
  induction n using Nat.strongRecOn with
  | _ n ih =>
    rw [digits]
    split
    · next h => simp [continue?, digitValue?_digitChar h]
    · next h =>
      rw [continue?_append, ih (n / 10) (by omega)]
      simp only [Option.bind_some, continue?, digitValue?_digitChar (Nat.mod_lt n (by omega : 0 < 10))]
      congr 1
      omega

/-- Written digits read back. -/
theorem ofDigits?_digits (n : Nat) : ofDigits? (digits n) = some n := by
  have h := continue?_digits n
  have hne := digits_ne_nil n
  revert h hne
  cases digits n with
  | nil => intro _ hne; exact absurd rfl hne
  | cons c rest => intro h _; exact h

end AnonCred.Decimal

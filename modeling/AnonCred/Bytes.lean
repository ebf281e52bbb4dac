/-!
# Byte strings and the numbers they stand for

Numbers are written most significant byte first: `Bytes.ofNat` in as few bytes as possible (zero
takes one), `Bytes.ofNatWidth` in a fixed number of bytes. Random words are read least significant
byte first (`Bytes.toNatLittle`).

A byte string that is asked for by its length is made in one piece, and there is a longest one
(`Bytes.maxLength`).
-/

namespace AnonCred

/-- A byte string. -/
abbrev Bytes := List UInt8

namespace Bytes

/-! ## Numbers -/

/-- The number that big-endian bytes stand for. -/
def toNat (bytes : Bytes) : Nat :=
  bytes.foldl (fun n b => n * 256 + b.toNat) 0

/-- The number that little-endian bytes stand for. -/
def toNatLittle : Bytes → Nat
  | [] => 0
  | b :: rest => b.toNat + 256 * toNatLittle rest

/-- The big-endian digits of `n` in base 256, put in front of `tail`. -/
def ofNatAppend (n : Nat) (tail : Bytes) : Bytes :=
  if n < 256 then UInt8.ofNat n :: tail
  else ofNatAppend (n / 256) (UInt8.ofNat (n % 256) :: tail)
termination_by n
decreasing_by omega

/-- The shortest big-endian form of a number; zero is the single byte 0. -/
def ofNat (n : Nat) : Bytes := ofNatAppend n []

/-- The last `width` bytes of the big-endian form of a number, zeros in front. -/
def ofNatWidth : Nat → Nat → Bytes
  | 0, _ => []
  | width + 1, n => ofNatWidth width (n / 256) ++ [UInt8.ofNat (n % 256)]

/-- The numbers below this are the ones that fit into `width` bytes. -/
def capacity (width : Nat) : Nat := Nat.pow 256 width

theorem capacity_succ (width : Nat) : capacity (width + 1) = 256 * capacity width := by
  simp [capacity, Nat.pow_succ, Nat.mul_comm]

theorem length_ofNatWidth (width n : Nat) : (ofNatWidth width n).length = width := by
  induction width generalizing n with
  | zero => rfl
  | succ width ih => simp [ofNatWidth, ih]

theorem toNat_append_singleton (bytes : Bytes) (b : UInt8) :
    toNat (bytes ++ [b]) = toNat bytes * 256 + b.toNat := by
  simp [toNat, List.foldl_append]

/-- Written at a fixed width, a number loses what does not fit. -/
theorem toNat_ofNatWidth (width n : Nat) : toNat (ofNatWidth width n) = n % capacity width := by
  induction width generalizing n with
  | zero => simp [ofNatWidth, toNat, capacity, Nat.mod_one]
  | succ width ih =>
    rw [ofNatWidth, toNat_append_singleton, ih, capacity_succ, Nat.mod_mul, UInt8.toNat_ofNat']
    omega

/-! ## Length -/

/-- The most bytes that can stand in one piece of memory: its size is a signed word of 64 bits.
Whether there is as much memory is another question. -/
def maxLength : Nat := Nat.pow 2 63 - 1

/-! ## Hexadecimal text -/

/-- A digit below 16 as a character, letters in lower case. -/
def hexDigit (d : Nat) : Char :=
  if d < 10 then Char.ofNat (0x30 + d) else Char.ofNat (0x61 + d - 10)

/-- Two lower-case hexadecimal digits for each byte. -/
def toHex (bytes : Bytes) : String :=
  String.ofList (bytes.flatMap fun b => [hexDigit (b.toNat / 16), hexDigit (b.toNat % 16)])

end Bytes

end AnonCred

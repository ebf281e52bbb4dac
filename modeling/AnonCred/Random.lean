import AnonCred.Bytes

/-!
# Random numbers

A `Source` is an endless stream of bytes with a position in it. A computation of type `Draw`
reads the stream from that position on.

Numbers below a bound are drawn by rejection, so a draw need not end on every stream. A source
therefore has a patience: the number of attempts after which a rejection loop gives up. Giving up
is `none`, and no answer of the library; whoever has answers with a larger patience has the same
ones. A run that stops without an answer for another reason is `none` as well.

## Main definitions

* `Draw.bytes`, `Draw.bits`: what is read, without rejection.
* `Draw.untilSome`: the one rejection loop, from which all others are made.
* `Draw.below`, `Draw.range`: a number below a bound, or between two.
* `Source.ofTape`: given bytes first, then an endless sequence of 64-bit words from a seed.
-/

namespace AnonCred

/-- An endless stream of bytes, how many of them are read, and how often a rejection loop tries. -/
structure Source where
  byte : Nat → UInt8
  drawn : Nat
  patience : Nat

/-- A computation that reads random bytes; `none` when it stops without an answer, as a rejection loop
does that ran out of patience. -/
abbrev Draw := StateT Source Option

namespace Draw

/-! ## Reading -/

/-- The next `n` bytes. -/
def bytes (n : Nat) : Draw Bytes := fun source =>
  some ((List.range n).map fun i => source.byte (source.drawn + i),
    { source with drawn := source.drawn + n })

/-- A number of at most `k` bits: little-endian words of 32 bits, the least significant word
first, and the last one cut down from below to the bits that are wanted. -/
def bits (k : Nat) : Draw Nat :=
  if k = 0 then pure 0
  else do
    let full := (k - 1) / 32
    let low ← bytes (4 * full)
    let last ← bytes 4
    let cut := last.toNatLittle / Nat.pow 2 (32 * (full + 1) - k)
    pure (low.toNatLittle + Nat.pow 2 (32 * full) * cut)

/-! ## Rejection -/

/-- At most `n` attempts, up to the first that succeeds. -/
def attempts {α : Type} (attempt : Draw (Option α)) : Nat → Draw α
  | 0 => failure
  | n + 1 => do
    match ← attempt with
    | some a => pure a
    | none => attempts attempt n

/-- Attempts until one succeeds, or until the source is out of patience. -/
def untilSome {α : Type} (attempt : Draw (Option α)) : Draw α := do
  attempts attempt (← get).patience

/-- Draws until a value is accepted. -/
def accepted {α : Type} (draw : Draw α) (accept : α → Bool) : Draw α :=
  untilSome do
    let a ← draw
    pure (if accept a then some a else none)

/-- The number of binary digits of a number; zero has none. -/
def bitLength (n : Nat) : Nat := if n = 0 then 0 else n.log2 + 1

/-- A number below `bound`; there is none below zero. -/
def below (bound : Nat) : Draw Nat :=
  if bound = 0 then failure else accepted (bits (bitLength bound)) (· < bound)

/-- A number from `low` up to, but not including, `high`. -/
def range (low high : Nat) : Draw Nat := do
  let offset ← below (high - low)
  pure (low + offset)

end Draw

/-! ## Streams from a seed -/

/-- A finaliser of 64-bit words: two rounds of xor-shift and multiplication, and a last xor-shift. -/
def mixWord (word : UInt64) : UInt64 :=
  let z := (word ^^^ (word >>> 30)) * 0xBF58476D1CE4E5B9
  let z := (z ^^^ (z >>> 27)) * 0x94D049BB133111EB
  z ^^^ (z >>> 31)

/-- Byte `i` of the sequence of a seed: the word at `i / 8` is the finaliser at the seed plus
`i / 8 + 1` steps of the golden ratio, and is written least significant byte first. -/
def seededByte (seed : UInt64) (i : Nat) : UInt8 :=
  let word := mixWord (seed + UInt64.ofNat (i / 8 + 1) * 0x9E3779B97F4A7C15)
  (word >>> UInt64.ofNat (8 * (i % 8))).toUInt8

/-- The bytes of a tape, and the sequence of a seed after them. -/
def Source.ofTape (tape : Array UInt8) (seed : UInt64) (patience : Nat) : Source where
  byte i := if h : i < tape.size then tape[i] else seededByte seed (i - tape.size)
  drawn := 0
  patience := patience

end AnonCred

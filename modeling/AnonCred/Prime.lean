import AnonCred.Arith
import AnonCred.Random

/-!
# Probable primes

Trial division by the primes up to 251, then Miller–Rabin with drawn witnesses. The verdict on one
witness, `witnessPasses`, is a plain function: the random test only chooses the witnesses.

## Main definitions

* `trialDivision`: the verdict of the table, if it has one.
* `witnessPasses`: one round.
* `isProbablePrime`: the test; the answer `false` is always right.
* `randomPrime`, `randomSafePrime`: candidates of a given length until the test accepts.
-/

namespace AnonCred.Prime

/-! ## The test -/

/-- The primes up to 251, in order. -/
def smallPrimes : List Nat :=
  [2, 3, 5, 7, 11, 13, 17, 19, 23, 29, 31, 37, 41, 43, 47, 53, 59, 61, 67, 71, 73, 79, 83, 89,
   97, 101, 103, 107, 109, 113, 127, 131, 137, 139, 149, 151, 157, 163, 167, 173, 179, 181, 191,
   193, 197, 199, 211, 223, 227, 229, 233, 239, 241, 251]

/-- The rounds that a prime is generated with. -/
def rounds : Nat := 40

/-- A number in the table is prime, a proper multiple of one in the table is not; of the rest the
table says nothing. -/
def trialDivision (n : Nat) : Option Bool :=
  smallPrimes.findSome? fun p =>
    if n = p then some true else if n % p = 0 then some false else none

/-- A positive number as `(s, d)` with `d` odd, so that it is `2 ^ s * d`. -/
def splitTwos (n : Nat) : Nat × Nat :=
  if n = 0 then (0, 0)
  else if n % 2 = 0 then ((splitTwos (n / 2)).1 + 1, (splitTwos (n / 2)).2)
  else (0, n)
termination_by n
decreasing_by all_goals omega

/-- At most `k` squarings of `x` modulo `n`: whether `-1` comes up, and comes up before `1`. -/
def reachesMinusOne (n : Nat) : Nat → Nat → Bool
  | 0, _ => false
  | k + 1, x =>
    let y := Arith.modPow x 2 n
    if y = n - 1 then true else if y = 1 then false else reachesMinusOne n k y

/-- Whether witness `a` says nothing against `n`: with `n - 1 = 2 ^ s * d`, the power `a ^ d` is
`1` or `-1`, or turns into `-1` within `s - 1` squarings. -/
def witnessPasses (n a : Nat) : Bool :=
  let split := splitTwos (n - 1)
  let x := Arith.modPow a split.2 n
  x == 1 || x == n - 1 || reachesMinusOne n (split.1 - 1) x

/-- One witness for each round, drawn from `[2, n - 1)`, up to the first that does not pass. -/
def millerRabin (n : Nat) : Nat → Draw Bool
  | 0 => pure true
  | k + 1 => do
    let a ← Draw.range 2 (n - 1)
    if witnessPasses n a then millerRabin n k else pure false

/-- Whether `n` is taken for a prime, with the given number of rounds. -/
def isProbablePrime (n rounds : Nat) : Draw Bool :=
  if n < 2 then pure false
  else
    match trialDivision n with
    | some verdict => pure verdict
    | none => millerRabin n rounds

/-! ## Generation -/

/-- A number of `bits` random bits with the highest and the lowest bit set. -/
def candidate (bits : Nat) : Draw Nat := do
  let n ← Draw.bits bits
  pure (n ||| Nat.pow 2 (bits - 1) ||| 1)

/-- A probable prime of exactly `bits` bits. -/
def randomPrime (bits : Nat) : Draw Nat :=
  Draw.untilSome do
    let n ← candidate bits
    let accepted ← isProbablePrime n rounds
    pure (if accepted then some n else none)

/-- A safe prime and its half: `p = 2 * q + 1`, both probable primes, `p` of `bits` bits. -/
structure SafePrime where
  p : Nat
  q : Nat
deriving DecidableEq, Repr

def randomSafePrime (bits : Nat) : Draw SafePrime :=
  Draw.untilSome do
    let q ← randomPrime (bits - 1)
    let p := 2 * q + 1
    let accepted ← isProbablePrime p rounds
    pure (if accepted then some ⟨p, q⟩ else none)

end AnonCred.Prime

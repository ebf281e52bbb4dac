import AnonCred.Group
import AnonCred.Prime

/-!
# Quadratic residues modulo a product of two safe primes

With safe primes `P = 2p' + 1` and `Q = 2q' + 1` the squares among the units modulo `N = P * Q`
form a cyclic group of order `p' * q'`. A square `g` other than one with `gcd (g - 1, N) = 1` is
one modulo neither prime, so it generates the group.
-/

namespace AnonCred

/-- A modulus, the order of its group of residues, and a generator. -/
structure ResidueGroup where
  n : Nat
  order : Nat
  g : Nat
  name : String
deriving DecidableEq, Repr

namespace ResidueGroup

/-! ## Operations -/

/-- The elements are the units below `n` whose power to the order of the group is one. -/
def validate (R : ResidueGroup) (x : Nat) : Except Error Unit :=
  if x = 0 ∨ R.n ≤ x ∨ Arith.coprime x R.n = false then .error (.element .notUnit)
  else if Arith.modPow x R.order R.n ≠ 1 then .error (.element .notResidue)
  else .ok ()

theorem validate_eq_ok {R : ResidueGroup} {x : Nat} :
    R.validate x = .ok () ↔
      0 < x ∧ x < R.n ∧ x.gcd R.n = 1 ∧ Nat.pow x R.order % R.n = 1 := by
  unfold validate Arith.coprime
  rw [Arith.modPow_eq]
  split
  · next h =>
    simp only [reduceCtorEq, false_iff, not_and, beq_eq_false_iff_ne, ne_eq] at h ⊢
    intro h1 h2 h3
    rcases h with h | h | h
    · omega
    · omega
    · exact absurd h3 h
  · split
    · simp_all
    · next h1 h2 => simp_all; omega

/-- The operations of a group of residues. -/
def group (R : ResidueGroup) : CyclicGroup Nat where
  name := R.name
  order := R.order
  generator := R.g
  identity := 1
  compose x y := x * y % R.n
  exp x k := Arith.modPow x k R.n
  invert x := Arith.unitInverse x R.n
  encode := Bytes.ofNat
  validate := R.validate

/-! ## Generation -/

/-- The square of a base, when it generates the residues modulo `n`. -/
def generatorOf? (n x : Nat) : Option Nat :=
  let g := Arith.modPow x 2 n
  if Arith.coprime x n = true ∧ g ≠ 1 ∧ Arith.coprime (g - 1) n = true then some g else none

/-- The group of two safe primes, with a random generator. -/
def ofSafePrimes (first second : Prime.SafePrime) : Draw ResidueGroup := do
  let n := first.p * second.p
  let g ← Draw.untilSome do
    let x ← Draw.range 2 n
    pure (generatorOf? n x)
  pure ⟨n, first.q * second.q, g, s!"QR-SpecialRSA-{Draw.bitLength n}"⟩

/-- A group of two different random safe primes of `bits` bits each. -/
def generate (bits : Nat) : Draw (Except Error ResidueGroup) :=
  if bits < 16 then pure (.error (.params (.safePrimesTooSmall bits)))
  else do
    let first ← Prime.randomSafePrime bits
    let second ← Draw.accepted (Prime.randomSafePrime bits) (·.p ≠ first.p)
    let R ← ofSafePrimes first second
    pure (.ok R)

end ResidueGroup

end AnonCred

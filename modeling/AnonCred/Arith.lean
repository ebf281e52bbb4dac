import AnonCred.Error

/-!
# Arithmetic of residues

Powers and inverses modulo a number, the response of a proof of knowledge, and the greatest common
divisor test that decides who is a unit. All on natural numbers; a modulus of zero is a `Fault`.
-/

namespace AnonCred.Arith

/-! ## Powers -/

/-- The remainder of `base ^ exponent`, by squaring along the binary digits of the exponent. -/
def modPow (base exponent modulus : Nat) : Nat :=
  if exponent = 0 then 1 % modulus
  else
    let root := modPow base (exponent / 2) modulus
    let square := root * root % modulus
    if exponent % 2 = 1 then square * base % modulus else square
termination_by exponent
decreasing_by omega

/-- The power by squaring is the power. -/
theorem modPow_eq (base exponent modulus : Nat) :
    modPow base exponent modulus = Nat.pow base exponent % modulus := by
  rw [Nat.pow_eq]
  induction exponent using Nat.strongRecOn with
  | _ exponent ih =>
    rw [modPow]
    by_cases h0 : exponent = 0
    · simp [h0]
    · rw [if_neg h0, ih (exponent / 2) (by omega)]
      have hsquare : base ^ (exponent / 2) % modulus * (base ^ (exponent / 2) % modulus) % modulus
          = base ^ (2 * (exponent / 2)) % modulus := by
        rw [← Nat.mul_mod, ← Nat.pow_add]
        congr 2
        omega
      simp only [hsquare]
      split
      · next hodd =>
        rw [Nat.mod_mul_mod, ← Nat.pow_succ]
        congr 2
        omega
      · next heven =>
        congr 2
        omega

/-- A power modulo an odd number; other moduli are refused. -/
def modPow? (base exponent modulus : Nat) : Except Error Nat :=
  if modulus = 0 then .error (.params .zeroModulus)
  else if modulus % 2 = 0 then .error (.params .evenModulus)
  else .ok (modPow base exponent modulus)

/-! ## Inverses -/

/-- Euclid's algorithm on `r` and `next`: their greatest common divisor, and the coefficient of
the first number when `s` and `t` are those of `r` and `next`. -/
def bezout (r next : Nat) (s t : Int) : Nat × Int :=
  if next = 0 then (r, s)
  else bezout next (r % next) t (s - (r / next : Nat) * t)
termination_by next
decreasing_by exact Nat.mod_lt _ (by omega)

/-- The inverse modulo `modulus`, `none` where there is none. Modulo one it is zero. -/
def inverse? (a modulus : Nat) : Option Nat :=
  let (gcd, coefficient) := bezout (a % modulus) modulus 1 0
  if gcd = 1 then some (coefficient % (modulus : Int)).toNat else none

/-- The inverse of a number, once there is a modulus. -/
def modInverse (a modulus : Nat) : Except Fault (Option Nat) :=
  if modulus = 0 then .error .noModulus else .ok (inverse? a modulus)

/-- The inverse of a unit; other numbers are outside the domain. -/
def unitInverse (a modulus : Nat) : Except Fault Nat :=
  match inverse? a modulus with
  | some b => .ok b
  | none => .error .notInvertible

/-- Two numbers without a common divisor above one. -/
def coprime (a b : Nat) : Bool := a.gcd b == 1

/-! ## Responses -/

/-- The sum of two exponents, reduced. -/
def addMod (a b order : Nat) : Nat := (a + b) % order

/-- The response to challenge `e` of a prover with secret `w` who committed to the nonce `r`. -/
def response (r e w order : Nat) : Nat := (r + e * w) % order

/-- The reduced sum, once there is an order to reduce by. -/
def checkedAddMod (a b order : Nat) : Except Fault Nat :=
  if order = 0 then .error .noModulus else .ok (addMod a b order)

/-- The response, once there is an order to reduce by. -/
def checkedResponse (r e w order : Nat) : Except Fault Nat :=
  if order = 0 then .error .noModulus else .ok (response r e w order)

end AnonCred.Arith

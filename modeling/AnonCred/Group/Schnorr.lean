import AnonCred.Group
import AnonCred.Prime

/-!
# Schnorr groups

The subgroup of order `q` of the units modulo a prime `p`, where `q` divides `p - 1`. Elements are
natural numbers. What `ofParams` checks is `SchnorrGroup.WellFormed`: it does not ask whether `p`
and `q` are prime.
-/

namespace AnonCred

/-- A modulus, an order and a generator. -/
structure SchnorrGroup where
  p : Nat
  q : Nat
  g : Nat
  name : String
deriving DecidableEq, Repr

namespace SchnorrGroup

/-- What is asked of the parameters of a group. -/
structure WellFormed (p q g : Nat) : Prop where
  odd : p % 2 = 1
  three_lt : 3 < p
  order_pos : 0 < q
  order_dvd : q ∣ p - 1
  one_lt : 1 < g
  lt_modulus : g < p
  power_order : Nat.pow g q % p = 1

/-- The group of given parameters; the first condition that fails is reported. -/
def ofParams (p q g : Nat) : Except Error SchnorrGroup :=
  if p % 2 = 0 ∨ p ≤ 3 then .error (.params .modulusNotOddPrime)
  else if q = 0 ∨ (p - 1) % q ≠ 0 then .error (.params .orderNotDivisor)
  else if g ≤ 1 ∨ p ≤ g then .error (.params .generatorOutOfRange)
  else if Arith.modPow g q p ≠ 1 then .error (.params .generatorOrder)
  else .ok ⟨p, q, g, s!"Schnorr-{Draw.bitLength p}"⟩

/-- Exactly the well-formed parameters make a group, and the group is made of them. -/
theorem ofParams_eq_ok {p q g : Nat} {S : SchnorrGroup} :
    ofParams p q g = .ok S ↔
      WellFormed p q g ∧ S = ⟨p, q, g, s!"Schnorr-{Draw.bitLength p}"⟩ := by
  unfold ofParams
  rw [Arith.modPow_eq]
  constructor
  · intro h
    split at h
    · simp at h
    · next h1 =>
      split at h
      · simp at h
      · next h2 =>
        split at h
        · simp at h
        · next h3 =>
          split at h
          · simp at h
          · next h4 =>
            refine ⟨⟨by omega, by omega, by omega, ?_, by omega, by omega, by simpa using h4⟩, ?_⟩
            · exact Nat.dvd_of_mod_eq_zero (by omega)
            · simpa using h.symm
  · rintro ⟨⟨h1, h2, h3, h4, h5, h6, h7⟩, rfl⟩
    have hmod := Nat.mod_eq_zero_of_dvd h4
    rw [if_neg (by omega), if_neg (by omega), if_neg (by omega), if_neg (not_not_intro h7)]

/-! ## Operations -/

/-- The elements are the numbers in `[1, p)` whose `q`-th power is one. -/
def validate (S : SchnorrGroup) (x : Nat) : Except Error Unit :=
  if x = 0 ∨ S.p ≤ x then .error (.element .outsideModulus)
  else if Arith.modPow x S.q S.p ≠ 1 then .error (.element .outsideSubgroup)
  else .ok ()

theorem validate_eq_ok {S : SchnorrGroup} {x : Nat} :
    S.validate x = .ok () ↔ 0 < x ∧ x < S.p ∧ Nat.pow x S.q % S.p = 1 := by
  unfold validate
  rw [Arith.modPow_eq]
  split
  · simp; omega
  · split
    · simp_all
    · simp_all; omega

/-- The operations of a Schnorr group. -/
def group (S : SchnorrGroup) : CyclicGroup Nat where
  name := S.name
  order := S.q
  generator := S.g
  identity := 1
  compose x y := x * y % S.p
  exp x k := Arith.modPow x k S.p
  invert x := Arith.unitInverse x S.p
  encode := Bytes.ofNat
  validate := S.validate

/-! ## Groups of a fixed and of a random order -/

/-- The 2048-bit group with a subgroup of 256-bit prime order from the published table of
standard groups. -/
def rfc5114 : SchnorrGroup where
  p := 0x87A8E61DB4B6663CFFBBD19C651959998CEEF608660DD0F25D2CEED4435E3B00E00DF8F1D61957D4FAF7DF4561B2AA3016C3D91134096FAA3BF4296D830E9A7C209E0C6497517ABD5A8A9D306BCF67ED91F9E6725B4758C022E0B1EF4275BF7B6C5BFC11D45F9088B941F54EB1E59BB8BC39A0BF12307F5C4FDB70C581B23F76B63ACAE1CAA6B7902D52526735488A0EF13C6D9A51BFA4AB3AD8347796524D8EF6A167B5A41825D967E144E5140564251CCACB83E6B486F6B3CA3F7971506026C0B857F689962856DED4010ABD0BE621C3A3960A54E710C375F26375D7014103A4B54330C198AF126116D2276E11715F693877FAD7EF09CADB094AE91E1A1597
  q := 0x8CF83642A709A097B447997640129DA299B1A47D1EB3750BA308B0FE64F5FBD3
  g := 0x3FB32C9B73134D0B2E77506660EDBD484CA7B18F21EF205407F4793A1A0BA12510DBC15077BE463FFF4FED4AAC0BB555BE3A6C1B0C6B47B1BC3773BF7E8C6F62901228F8C28CBB18A55AE31341000A650196F931C77A57F2DDF463E5E9EC144B777DE62AAAB8A8628AC376D282D6ED3864E67982428EBC831D14348F6F2F9193B5045AF2767164E1DFC967C1FB3F2E55A4BD1BFFE83B9C80D052B985D182EA0ADB2A3B7313D3FE14C8484B1E052588B9B7D2BBD2DF016199ECD06E1557CD0915B3353BBB64E0EC377FD028370DF92B52C7891428CDC67EB6184B523D1DB246C32F63078490F00EF8D647D148D47954515E2327CFEF98C582664B4C0F6CC41659
  name := "RFC5114-2048-256"

/-- The first even `r` from `start` on for which `r * q + 1` is accepted as a prime. -/
def findCofactor (q : Nat) : Nat → Nat → Draw Nat
  | 0, _ => failure
  | tries + 1, r => do
    if ← Prime.isProbablePrime (r * q + 1) Prime.rounds then pure r
    else findCofactor q tries (r + 2)

/-- A base in `[2, p)` whose `r`-th power is not one: that power. -/
def findGenerator (p r : Nat) : Draw Nat :=
  Draw.untilSome do
    let h ← Draw.range 2 p
    let g := Arith.modPow h r p
    pure (if g = 1 then none else some g)

/-- A group of a random prime order of `bits` bits, with the least cofactor that there is. -/
def generate (bits : Nat) : Draw (Except Error SchnorrGroup) :=
  if bits < 16 then pure (.error (.params (.orderTooSmall bits)))
  else do
    let q ← Prime.randomPrime bits
    let r ← findCofactor q (← get).patience 2
    let p := r * q + 1
    let g ← findGenerator p r
    pure (ofParams p q g)

end SchnorrGroup

end AnonCred

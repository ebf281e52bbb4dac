import AnonCred.Group.Curve
import AnonCred.Hash.Hmac

/-!
# Signatures

ECDSA over the curve P-256 on the first 32 bytes of a digest. The nonce of a signature is derived
from the key and those bytes, so a digest has one signature under a key. A signature with a large
`s` is as good as its reflection.
-/

namespace AnonCred.Ecdsa

/-- The curve that keys and signatures are for. -/
def curve : Curve := Curve.p256

/-- Keys, scalars and the part of a digest that is signed have this many bytes. -/
def width : Nat := 32

/-- A secret key: a number in `[1, order)`. -/
structure SecretKey where
  scalar : Nat
deriving DecidableEq

/-- A public key: a point other than infinity. -/
structure PublicKey where
  point : Point
deriving DecidableEq, Repr

/-- The two scalars of a signature. -/
structure Signature where
  r : Nat
  s : Nat
deriving DecidableEq, Repr

/-- A scalar that a key or a signature may hold. -/
def IsScalar (k : Nat) : Prop := 0 < k ∧ k < curve.order

instance (k : Nat) : Decidable (IsScalar k) := by unfold IsScalar; infer_instance

def SecretKey.ofNat? (k : Nat) : Option SecretKey := if IsScalar k then some ⟨k⟩ else none

def SecretKey.publicKey (key : SecretKey) : PublicKey := ⟨curve.group.power key.scalar⟩

/-- A number in as many bytes as a scalar has, zeros in front. A number too long for them is
refused. -/
def scalarBytes (k : Nat) : Except Error Bytes :=
  let bytes := Bytes.ofNat k
  if width < bytes.length then .error (.signature .scalarTooWide)
  else .ok (List.replicate (width - bytes.length) 0 ++ bytes)

namespace Signature

/-- The signature that is read from the bytes of its two scalars. -/
def ofBytes (r s : Bytes) : Except Error Signature :=
  if IsScalar r.toNat ∧ IsScalar s.toNat then .ok ⟨r.toNat, s.toNat⟩
  else .error (.signature .invalid)

/-- The bytes of the two scalars. -/
def toBytes (signature : Signature) : Bytes × Bytes :=
  (Bytes.ofNatWidth width signature.r, Bytes.ofNatWidth width signature.s)

/-- The signature of two scalars. A scalar that does not fit its bytes is reported before one that
is out of range. -/
def ofScalars (r s : Nat) : Except Error Signature := do
  let rBytes ← scalarBytes r
  let sBytes ← scalarBytes s
  ofBytes rBytes sBytes

end Signature

/-- The part of a digest that is signed. -/
def prehash (digest : Bytes) : Bytes := digest.take width

/-! ## Nonces -/

/-- The state of the nonce generator: the key of its hash, and the last value. -/
structure NonceState where
  key : Bytes
  value : Bytes

/-- Mixes data into the state, behind the last value and a tag. -/
def NonceState.absorb (st : NonceState) (tag : UInt8) (data : Bytes) : NonceState :=
  let key := Hmac.hmacSha256 st.key (st.value ++ tag :: data)
  ⟨key, Hmac.hmacSha256 key st.value⟩

/-- The first value that is a scalar, of at most `tries`. -/
def NonceState.next? (st : NonceState) : Nat → Option Nat
  | 0 => none
  | tries + 1 =>
    let value := Hmac.hmacSha256 st.key st.value
    let k := Bytes.toNat value
    if IsScalar k then some k
    else (NonceState.absorb ⟨st.key, value⟩ 0 []).next? tries

/-- A value is out of range with a probability below `2 ^ -32`, so this many tries are enough. -/
def nonceTries : Nat := 64

/-- The nonce for signing a digest. -/
def nonce? (key : SecretKey) (digest : Bytes) : Option Nat :=
  let data := Bytes.ofNatWidth width key.scalar ++ prehash digest
  let start : NonceState := ⟨List.replicate width 0, List.replicate width 1⟩
  ((start.absorb 0 data).absorb 1 data).next? nonceTries

/-! ## Signing and verifying -/

/-- The abscissa of a point as a scalar; that of infinity is zero. -/
def abscissa : Point → Nat
  | .infinity => 0
  | .affine x _ => x % curve.order

/-- The signature with a given nonce, unless one of its scalars comes out as zero. -/
def signWith (key : SecretKey) (k : Nat) (digest : Bytes) : Option Signature := do
  let r := abscissa (curve.group.power k)
  let w ← Arith.inverse? k curve.order
  let s := w * (Bytes.toNat (prehash digest) + r * key.scalar) % curve.order
  if r = 0 ∨ s = 0 then none else some ⟨r, s⟩

/-- The signature of a digest. -/
def sign (key : SecretKey) (digest : Bytes) : Except Error Signature :=
  match (do signWith key (← nonce? key digest) digest : Option Signature) with
  | some signature => .ok signature
  | none => .error (.signature .invalid)

/-- Whether a signature holds for a digest. -/
def verifies (key : PublicKey) (digest : Bytes) (signature : Signature) : Bool :=
  match Arith.inverse? signature.s curve.order with
  | none => false
  | some w =>
    let u := Bytes.toNat (prehash digest) * w % curve.order
    let v := signature.r * w % curve.order
    let R := curve.add (curve.group.power u) (curve.smul key.point v)
    decide (IsScalar signature.r ∧ IsScalar signature.s ∧ abscissa R = signature.r)

end AnonCred.Ecdsa

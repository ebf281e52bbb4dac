import AnonCred.Arith
import AnonCred.Group

/-!
# Elliptic curves of prime order

The curves `y² = x³ - 3x + b` over a prime field with a prime number of points. A point is the
point at infinity, which is the identity, or a pair of reduced coordinates.

`Curve.ofCoordinates` is the only way in for coordinates from outside. It writes them as bytes of a
point, and reads these: only a pair that satisfies the equation is one. `coordinates` gives it back.

Sums and multiples are computed in Jacobian coordinates, where `(X, Y, Z)` stands for
`(X / Z², Y / Z³)` and `Z = 0` for infinity, so that one inversion is enough for a multiple.
-/

namespace AnonCred

/-- A curve: its field, its coefficient, the number of its points, a generator, and how many bytes
a coordinate takes. -/
structure Curve where
  name : String
  p : Nat
  b : Nat
  order : Nat
  baseX : Nat
  baseY : Nat
  width : Nat
deriving DecidableEq, Repr

/-- A point of a curve. -/
inductive Point
  | infinity
  | affine (x y : Nat)
deriving DecidableEq, Repr

namespace Curve

variable (C : Curve)

/-! ## Coordinates -/

/-- Reduced coordinates that satisfy the equation of the curve. -/
def Contains (x y : Nat) : Prop :=
  x < C.p ∧ y < C.p ∧ y * y % C.p = (x * x * x + (C.p - 3) * x + C.b) % C.p

instance (x y : Nat) : Decidable (C.Contains x y) := by unfold Contains; infer_instance

/-- The coordinates of a point; infinity has none. -/
def coordinates : Point → Option (Nat × Nat)
  | .infinity => none
  | .affine x y => some (x, y)

/-! ## Points as bytes -/

/-- One byte for infinity; for other points a tag and both coordinates at full width. -/
def encode : Point → Bytes
  | .infinity => [0]
  | .affine x y => 4 :: (Bytes.ofNatWidth C.width x ++ Bytes.ofNatWidth C.width y)

/-- The point that bytes stand for. Both coordinates have to be there at full width, and they have
to be those of a point. -/
def decode : Bytes → Option Point
  | [] => none
  | tag :: body =>
    if tag = 0 then if body.isEmpty then some .infinity else none
    else if tag = 4 ∧ body.length = 2 * C.width then
      let x := Bytes.toNat (body.take C.width)
      let y := Bytes.toNat (body.drop C.width)
      if C.Contains x y then some (.affine x y) else none
    else none

/-- A coordinate at full width, zeros in front. A number too long for it is refused. -/
def fieldBytes (x : Nat) : Except Error Bytes :=
  let bytes := Bytes.ofNat x
  if C.width < bytes.length then .error (.element .coordinateTooWide)
  else .ok (List.replicate (C.width - bytes.length) 0 ++ bytes)

/-- The point with the given coordinates. A number too long for the field is told apart from a
pair off the curve. -/
def ofCoordinates (x y : Nat) : Except Error Point := do
  let xBytes ← C.fieldBytes x
  let yBytes ← C.fieldBytes y
  match C.decode (4 :: (xBytes ++ yBytes)) with
  | some P => pure P
  | none => throw (.element (.offCurve C.name))

/-! ## Arithmetic of the field -/

/-- The difference of two reduced numbers. -/
def sub (x y : Nat) : Nat := (x + (C.p - y)) % C.p

def mul (x y : Nat) : Nat := x * y % C.p

/-! ## Jacobian coordinates -/

/-- A point in Jacobian coordinates. -/
structure Jacobian where
  x : Nat
  y : Nat
  z : Nat
deriving DecidableEq, Repr

def toJacobian : Point → Jacobian
  | .infinity => ⟨1, 1, 0⟩
  | .affine x y => ⟨x, y, 1⟩

/-- Back to affine coordinates, by one inversion. -/
def ofJacobian (P : Jacobian) : Point :=
  match Arith.inverse? P.z C.p with
  | none => .infinity
  | some w =>
    let square := C.mul w w
    .affine (C.mul P.x square) (C.mul P.y (C.mul square w))

/-- Twice a point; the tangent's slope is `3(X - Z²)(X + Z²)` over `2YZ`. -/
def double (P : Jacobian) : Jacobian :=
  let zz := C.mul P.z P.z
  let yy := C.mul P.y P.y
  let xyy := C.mul P.x yy
  let slope := 3 * C.sub P.x zz * (P.x + zz) % C.p
  let x := C.sub (C.mul slope slope) (8 * xyy % C.p)
  let y := C.sub (C.mul slope (C.sub (4 * xyy % C.p) x)) (8 * yy * yy % C.p)
  ⟨x, y, 2 * P.y * P.z % C.p⟩

/-- The sum of a point and an affine point. -/
def addAffine (P : Jacobian) : Point → Jacobian
  | .infinity => P
  | .affine x y =>
    if P.z = 0 then ⟨x, y, 1⟩
    else
      let zz := C.mul P.z P.z
      let dx := C.sub (C.mul x zz) P.x
      let dy := C.sub (C.mul y (C.mul P.z zz)) P.y
      if dx = 0 then
        if dy = 0 then C.double P else ⟨1, 1, 0⟩
      else
        let dxx := C.mul dx dx
        let dxxx := C.mul dxx dx
        let v := C.mul P.x dxx
        let x' := C.sub (C.sub (C.mul dy dy) dxxx) (2 * v % C.p)
        let y' := C.sub (C.mul dy (C.sub v x')) (C.mul P.y dxxx)
        ⟨x', y', C.mul P.z dx⟩

/-- A multiple of an affine point, by doubling along the binary digits of the factor. -/
def multiple (P : Point) (k : Nat) : Jacobian :=
  if k = 0 then ⟨1, 1, 0⟩
  else
    let twice := C.double (multiple P (k / 2))
    if k % 2 = 1 then C.addAffine twice P else twice
termination_by k
decreasing_by omega

/-! ## The group -/

/-- The sum of two points. -/
def add (P Q : Point) : Point := C.ofJacobian (C.addAffine (toJacobian P) Q)

/-- A multiple of a point; factors count modulo the order. -/
def smul (P : Point) (k : Nat) : Point := C.ofJacobian (C.multiple P (k % C.order))

/-- The point reflected at the axis of abscissas. -/
def neg : Point → Point
  | .infinity => .infinity
  | .affine x y => .affine x (C.sub 0 y)

/-- The operations on the points of a curve. Points only come from `ofCoordinates` and from these
operations, so every one of them is an element. -/
def group : CyclicGroup Point where
  name := C.name
  order := C.order
  generator := .affine C.baseX C.baseY
  identity := .infinity
  compose := C.add
  exp := C.smul
  invert P := .ok (C.neg P)
  encode := C.encode
  validate _ := .ok ()

/-! ## The four curves -/

def p224 : Curve where
  name := "P-224"
  p := 0xffffffffffffffffffffffffffffffff000000000000000000000001
  b := 0xb4050a850c04b3abf54132565044b0b7d7bfd8ba270b39432355ffb4
  order := 0xffffffffffffffffffffffffffff16a2e0b8f03e13dd29455c5c2a3d
  baseX := 0xb70e0cbd6bb4bf7f321390b94a03c1d356c21122343280d6115c1d21
  baseY := 0xbd376388b5f723fb4c22dfe6cd4375a05a07476444d5819985007e34
  width := 28

def p256 : Curve where
  name := "P-256"
  p := 0xffffffff00000001000000000000000000000000ffffffffffffffffffffffff
  b := 0x5ac635d8aa3a93e7b3ebbd55769886bc651d06b0cc53b0f63bce3c3e27d2604b
  order := 0xffffffff00000000ffffffffffffffffbce6faada7179e84f3b9cac2fc632551
  baseX := 0x6b17d1f2e12c4247f8bce6e563a440f277037d812deb33a0f4a13945d898c296
  baseY := 0x4fe342e2fe1a7f9b8ee7eb4a7c0f9e162bce33576b315ececbb6406837bf51f5
  width := 32

def p384 : Curve where
  name := "P-384"
  p := 0xfffffffffffffffffffffffffffffffffffffffffffffffffffffffffffffffeffffffff0000000000000000ffffffff
  b := 0xb3312fa7e23ee7e4988e056be3f82d19181d9c6efe8141120314088f5013875ac656398d8a2ed19d2a85c8edd3ec2aef
  order := 0xffffffffffffffffffffffffffffffffffffffffffffffffc7634d81f4372ddf581a0db248b0a77aecec196accc52973
  baseX := 0xaa87ca22be8b05378eb1c71ef320ad746e1d3b628ba79b9859f741e082542a385502f25dbf55296c3a545e3872760ab7
  baseY := 0x3617de4a96262c6f5d9e98bf9292dc29f8f41dbd289a147ce9da3113b5f0b8c00a60b1ce1d7e819d7a431d7c90ea0e5f
  width := 48

def p521 : Curve where
  name := "P-521"
  p := 0x1ffffffffffffffffffffffffffffffffffffffffffffffffffffffffffffffffffffffffffffffffffffffffffffffffffffffffffffffffffffffffffffffffff
  b := 0x51953eb9618e1c9a1f929a21a0b68540eea2da725b99b315f3b8b489918ef109e156193951ec7e937b1652c0bd3bb1bf073573df883d2c34f1ef451fd46b503f00
  order := 0x1fffffffffffffffffffffffffffffffffffffffffffffffffffffffffffffffffa51868783bf2f966b7fcc0148f709a5d03bb5c9b8899c47aebb6fb71e91386409
  baseX := 0xc6858e06b70404e9cd9e3ecb662395b4429c648139053fb521f828af606b4d3dbaa14b5e77efe75928fe1dc127a2ffa8de3348b3c1856a429bf97e7e31c2e5bd66
  baseY := 0x11839296a789a3bc0045c8a5fb42c7d1bd998f54449579b446817afbd17273e662c97ee72995ef42640c550b9013fad0761353c7086a272c24088be94769fd16650
  width := 66

end Curve

end AnonCred

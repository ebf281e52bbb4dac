import AnonCred.Group.Curve
import AnonCred.Group.Residues
import AnonCred.Group.Schnorr
import AnonCred.Session
import AnonCred.Text.Blank
import AnonCred.Text.Decimal

/-!
# Choosing a group

A group is named by a short text: one of the curves, the standard Schnorr group, or a family with
the size of what is to be generated for it. `parse` reads names leniently, and `name` writes them.
-/

namespace AnonCred

/-- A group, or a family and a size in bits. -/
inductive GroupSelector
  | schnorr (bits : UInt64)
  | rfc5114
  | p224
  | p256
  | p384
  | p521
  | residues (bits : UInt64)
deriving DecidableEq, Repr

namespace GroupSelector

/-! ## Names -/

/-- The name of a group; a family is followed by a colon and its size. -/
def name : GroupSelector → String
  | .schnorr bits => "schnorr:" ++ Decimal.text bits.toNat
  | .rfc5114 => "rfc5114"
  | .p224 => "p224"
  | .p256 => "p256"
  | .p384 => "p384"
  | .p521 => "p521"
  | .residues bits => "qr:" ++ Decimal.text bits.toNat

/-- The description of a choice, for diagnosis. -/
def describe : GroupSelector → String
  | .schnorr bits => "Schnorr \x7b bits: " ++ Decimal.text bits.toNat ++ " \x7d"
  | .rfc5114 => "Rfc5114"
  | .p224 => "P224"
  | .p256 => "P256"
  | .p384 => "P384"
  | .p521 => "P521"
  | .residues bits => "QrSpecialRsa \x7b bits: " ++ Decimal.text bits.toNat ++ " \x7d"

/-- The groups that have a name without a size. -/
def ofWord? (word : String) : Option GroupSelector :=
  if word = "rfc5114" then some .rfc5114
  else if word = "p224" ∨ word = "p-224" then some .p224
  else if word = "p256" ∨ word = "p-256" then some .p256
  else if word = "p384" ∨ word = "p-384" then some .p384
  else if word = "p521" ∨ word = "p-521" then some .p521
  else none

/-- The families of groups. -/
def family? (word : String) : Option (UInt64 → GroupSelector) :=
  if word = "schnorr" then some .schnorr
  else if word = "qr" then some .residues
  else none

/-- What stands before the first colon, and what stands behind it if there is one. -/
def splitColon (cs : List Char) : List Char × Option (List Char) :=
  match cs.span (· ≠ ':') with
  | (before, []) => (before, none)
  | (before, _ :: behind) => (before, some behind)

/-- The group that a text names: blanks around it and the case of ASCII letters do not count. -/
def parse (text : String) : Except Error GroupSelector :=
  let word := (Text.lower (Text.trim text)).toList
  match splitColon word with
  | (before, none) =>
    match ofWord? (String.ofList before) with
    | some selector => .ok selector
    | none => .error (.params (.unknownGroup text))
  | (before, some size) =>
    match family? (String.ofList before) with
    | none => .error (.params (.unknownGroup text))
    | some family =>
      match Decimal.word64? size with
      | some bits => .ok (family bits)
      | none => .error (.params (.badBitSize text))

/-! ## The group itself -/

/-- Runs a computation over the chosen group, which is generated first where it has to be. -/
def withGroup {α : Type} (selector : GroupSelector)
    (use : {E : Type} → [DecidableEq E] → CyclicGroup E → Drawn α) : Drawn α :=
  match selector with
  | .schnorr bits => do
    let S ← (SchnorrGroup.generate bits.toNat : Drawn SchnorrGroup)
    use S.group
  | .rfc5114 => use SchnorrGroup.rfc5114.group
  | .p224 => use Curve.p224.group
  | .p256 => use Curve.p256.group
  | .p384 => use Curve.p384.group
  | .p521 => use Curve.p521.group
  | .residues bits => do
    let R ← (ResidueGroup.generate bits.toNat : Drawn ResidueGroup)
    use R.group

end GroupSelector

end AnonCred

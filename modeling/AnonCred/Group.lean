import AnonCred.Error
import AnonCred.Random

/-!
# Cyclic groups

A `CyclicGroup` is a group of known order given by its operations on a type of elements. Values
that a party receives are just members of that type: `validate` says which of them belong to the
group, and nothing else assumes that they do.

The protocols are written once, over any such structure. The families of groups are in
`AnonCred.Group.Schnorr`, `AnonCred.Group.Residues` and `AnonCred.Group.Curve`.
-/

namespace AnonCred

/-- A group by its operations. `exp x k` is the `k`-th power of `x`. -/
structure CyclicGroup (E : Type) where
  name : String
  order : Nat
  generator : E
  identity : E
  compose : E → E → E
  exp : E → Nat → E
  invert : E → Except Fault E
  encode : E → Bytes
  validate : E → Except Error Unit

namespace CyclicGroup

variable {E : Type} (G : CyclicGroup E)

/-- A power of the generator. -/
def power (k : Nat) : E := G.exp G.generator k

/-- Exponents are accepted when they are reduced. -/
def checkScalar (k : Nat) (what : String) : Except Error Unit :=
  if k < G.order then .ok () else .error (.scalar (.notReduced what))

/-- Every value of a list is an element of the group; the first that is not is reported. -/
def validateAll : List E → Except Error Unit
  | [] => .ok ()
  | x :: rest => do
    G.validate x
    validateAll rest

/-- The equation of a proof: `z` answers the challenge `e` to the commitment `x` of a prover who
claims to know the exponent that takes `base` to `value`. -/
def Responds (base value x : E) (e z : Nat) : Prop :=
  G.exp base z = G.compose x (G.exp value e)

section Identity

variable [DecidableEq E]

instance (base value x : E) (e z : Nat) : Decidable (G.Responds base value x e z) := by
  unfold Responds; infer_instance

def isIdentity (x : E) : Bool := decide (x = G.identity)

/-- The identity is refused where `what` is expected. -/
def checkNotIdentity (x : E) (what : String) : Except Error Unit :=
  if G.isIdentity x then .error (.element (.isIdentity what)) else .ok ()

/-- The identity is refused in either place of a pair. -/
def checkPair (a b : E) (first second : String) : Except Error Unit := do
  G.checkNotIdentity a first
  G.checkNotIdentity b second

end Identity

/-! ## Random exponents and elements -/

/-- A random exponent. -/
def randomScalar : Draw Nat := Draw.below G.order

/-- A random exponent other than zero. -/
def randomUnit : Draw Nat := Draw.accepted G.randomScalar (· ≠ 0)

/-- A random element. -/
def randomElement : Draw E := do
  let k ← G.randomScalar
  pure (G.power k)

theorem checkScalar_eq_ok {k : Nat} {what : String} :
    G.checkScalar k what = .ok () ↔ k < G.order := by
  unfold checkScalar
  split <;> simp_all

theorem checkPair_eq_ok [DecidableEq E] {a b : E} {first second : String} :
    G.checkPair a b first second = .ok () ↔ a ≠ G.identity ∧ b ≠ G.identity := by
  unfold checkPair checkNotIdentity isIdentity
  by_cases ha : a = G.identity <;> simp [ha, bind, Except.bind]

theorem checkPair_eq_error [DecidableEq E] {a b : E} {first second : String} {error : Error} :
    G.checkPair a b first second = .error error ↔
      a = G.identity ∧ error = .element (.isIdentity first) ∨
        a ≠ G.identity ∧ b = G.identity ∧ error = .element (.isIdentity second) := by
  unfold checkPair checkNotIdentity isIdentity
  by_cases ha : a = G.identity
  · simp [ha, bind, Except.bind, eq_comm]
  · by_cases hb : b = G.identity <;> simp [ha, hb, bind, Except.bind, eq_comm]

theorem validateAll_eq_ok {xs : List E} :
    G.validateAll xs = .ok () ↔ ∀ x ∈ xs, G.validate x = .ok () := by
  induction xs with
  | nil => simp [validateAll]
  | cons x rest ih =>
    rw [validateAll, List.forall_mem_cons, ← ih]
    cases G.validate x <;> simp [bind, Except.bind]

end CyclicGroup

end AnonCred

import AnonCred.Proofs.Arith
import AnonCred.Proofs.Group.Residues

/-!
# The members form a group

Every protocol computes with members only, and by the laws that `GroupLaws` lists. In the groups of
numbers they follow from the range of a member and from its power to the order being one: a power of
it is then its inverse, so it is a unit, and Euclid's algorithm finds that power. That the modulus
or the order of a Schnorr group is prime is not asked.

* `OfResidues.invert_eq` — inverting a member is not a fault, and what it gives
* `Modular.members_form_group` — the laws, for every group of numbers that the library makes
-/

namespace AnonCred.CyclicGroup

/-! ## Laws -/

/-- The members form a commutative group under the operations, `exp` is the power in it, and
exponents count modulo the order. -/
structure GroupLaws {E : Type} (G : CyclicGroup E) : Prop where
  member_identity : G.Member G.identity
  member_generator : G.Member G.generator
  member_random : ∀ {x}, G.randomElement.Possible x → G.Member x
  member_compose : ∀ {x y}, G.Member x → G.Member y → G.Member (G.compose x y)
  member_exp : ∀ {x}, G.Member x → ∀ k, G.Member (G.exp x k)
  compose_assoc : ∀ {x y z}, G.Member x → G.Member y → G.Member z →
    G.compose (G.compose x y) z = G.compose x (G.compose y z)
  compose_comm : ∀ {x y}, G.Member x → G.Member y → G.compose x y = G.compose y x
  compose_identity : ∀ {x}, G.Member x → G.compose x G.identity = x
  /-- Inverting a member is not a fault. -/
  invert : ∀ {x}, G.Member x →
    ∃ y, G.invert x = .ok y ∧ G.Member y ∧ G.compose x y = G.identity
  exp_one : ∀ {x}, G.Member x → G.exp x 1 = x
  exp_add : ∀ {x}, G.Member x → ∀ j k, G.exp x (j + k) = G.compose (G.exp x j) (G.exp x k)
  exp_mul : ∀ {x}, G.Member x → ∀ j k, G.exp x (j * k) = G.exp (G.exp x j) k
  compose_exp : ∀ {x y}, G.Member x → G.Member y → ∀ k,
    G.exp (G.compose x y) k = G.compose (G.exp x k) (G.exp y k)
  exp_mod : ∀ {x}, G.Member x → ∀ k, G.exp x k = G.exp x (k % G.order)

section Members

variable {E : Type} {G : CyclicGroup E} [G.Lawful] {x : E}

theorem compose_inverse (hx : G.Member x) :
    G.compose x (G.exp x (G.order - 1)) = G.identity :=
  congrArg Subtype.val (mul_inv_cancel (Element.ofMember hx))

/-- Where the inverse of a member is the power of it that the laws ask for, all of them hold. -/
theorem groupLaws_of_invert
    (hinvert : ∀ {x}, G.Member x → G.invert x = .ok (G.exp x (G.order - 1))) : G.GroupLaws where
  member_identity := member_identity
  member_generator := member_generator
  member_random := by
    rintro x ⟨source, next, hdraw⟩
    obtain ⟨k, -, rfl⟩ := randomElement_eq_some hdraw
    exact G.member_power k
  member_compose := member_compose
  member_exp hx k := G.member_exp hx k
  compose_assoc _ _ _ := Lawful.compose_assoc _ _ _
  compose_comm _ _ := Lawful.compose_comm _ _
  compose_identity hx := congrArg Subtype.val (mul_one (Element.ofMember hx))
  invert hx := ⟨_, hinvert hx, G.member_exp hx _, compose_inverse hx⟩
  exp_one hx := congrArg Subtype.val (pow_one (Element.ofMember hx))
  exp_add hx j k := congrArg Subtype.val (pow_add (Element.ofMember hx) j k)
  exp_mul hx j k := congrArg Subtype.val (pow_mul (Element.ofMember hx) j k)
  compose_exp _ _ k := G.exp_compose _ _ k
  exp_mod hx k := (congrArg Subtype.val (Element.pow_mod (Element.ofMember hx) k)).symm

end Members

/-! ## Groups of numbers -/

variable {G : CyclicGroup Nat} {n x : Nat}

/-- Euclid's algorithm finds the inverse that a member has as a power of itself. -/
theorem OfResidues.invert_eq (h : OfResidues G n)
    (hinvert : ∀ x, G.invert x = Arith.unitInverse x n) (hx : G.Member x) :
    G.invert x = .ok (G.exp x (G.order - 1)) := by
  have := h.lawful
  have hlt := (h.member_iff.mp (G.member_exp hx (G.order - 1))).2.1
  have hone := compose_inverse hx
  rw [h.compose_eq, h.identity_eq] at hone
  rw [hinvert, Arith.unitInverse_eq_ok (Nat.zero_lt_of_lt h.one_lt)]
  exact ⟨hlt, hone.trans (Nat.mod_eq_of_lt h.one_lt).symm⟩

theorem OfResidues.groupLaws (h : OfResidues G n)
    (hinvert : ∀ x, G.invert x = Arith.unitInverse x n) : G.GroupLaws :=
  have := h.lawful
  groupLaws_of_invert fun hx => h.invert_eq hinvert hx

/-- In every group of numbers that the library makes the members form a group. The modulus and the
order of a Schnorr group may be any that `ofParams` takes. -/
theorem Modular.members_form_group (hG : G.Modular) : G.GroupLaws := by
  cases hG with
  | schnorr h => exact (SchnorrGroup.ofResidues_of_ofParams h).groupLaws fun _ => rfl
  | residues hfirst hsecond hne h =>
    exact (ResidueGroup.ofResidues_of_possible hfirst hsecond hne h).groupLaws fun _ => rfl

/-- The numbers modulo 21 with fourth power one, where neither the modulus nor the order is prime,
and the squares of the units modulo 77. -/
theorem members_form_group_composite :
    ∃ S : SchnorrGroup, SchnorrGroup.ofParams 21 4 8 = .ok S ∧ S.group.Member 13 ∧
      (∃ y, S.group.invert 13 = .ok y ∧ S.group.Member y ∧ S.group.compose 13 y = 1) ∧
      S.group.exp 13 (2 + 5) = S.group.compose (S.group.exp 13 2) (S.group.exp 13 5) ∧
      ResidueGroup.residues77.group.Member 9 ∧
      (∃ y, ResidueGroup.residues77.group.invert 9 = .ok y ∧
        ResidueGroup.residues77.group.Member y ∧
        ResidueGroup.residues77.group.compose 9 y = 1) := by
  have hS : SchnorrGroup.ofParams 21 4 8 = .ok ⟨21, 4, 8, "Schnorr-5"⟩ := by decide +kernel
  have hthirteen : (SchnorrGroup.mk 21 4 8 "Schnorr-5").group.Member 13 := by decide +kernel
  have hnine : ResidueGroup.residues77.group.Member 9 := by decide +kernel
  have hschnorr := Modular.members_form_group (.schnorr hS)
  have hresidues := Modular.members_form_group (.residues ResidueGroup.sound_seven
    ResidueGroup.sound_eleven (by decide) ResidueGroup.possible_residues77)
  exact ⟨_, hS, hthirteen, hschnorr.invert hthirteen, hschnorr.exp_add hthirteen 2 5, hnine,
    hresidues.invert hnine⟩

end AnonCred.CyclicGroup

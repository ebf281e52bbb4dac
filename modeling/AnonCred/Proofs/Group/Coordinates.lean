import AnonCred.Proofs.Bytes
import AnonCred.Proofs.Group.Curve

/-!
# Only points of the curve come in

Coordinates from outside are written at the width of the field and read as the bytes of a point.
The width leaves room for numbers that are not reduced, so the length of a coordinate decides
nothing but which refusal is given: what comes in are the reduced pairs that satisfy the equation,
and each of them has one form in bytes. Since the operations stay on the curve, the points that ever
come up are exactly the points of the curve.

* `decode_eq_some_iff` — the bytes that are read are those that are written for a point
* `ofCoordinates_eq` — what becomes of two numbers
* `reaches_iff` — which points come up
* `coordinates_exact` — coordinates and points of the standard curves determine each other
-/

namespace AnonCred.Curve

variable {C : Curve} {x y : Nat}

/-! ## Coordinates at full width -/

theorem WellFormed.width_pos (hC : C.WellFormed) : 0 < C.width := by
  have hthree := hC.three_lt
  have hle := hC.p_le
  refine Nat.pos_of_ne_zero fun hzero => ?_
  rw [hzero, show Bytes.capacity 0 = 1 from rfl] at hle
  omega

theorem Contains.lt_capacity (hC : C.WellFormed) (h : C.Contains x y) :
    x < Bytes.capacity C.width ∧ y < Bytes.capacity C.width :=
  ⟨Nat.lt_of_lt_of_le h.1 hC.p_le, Nat.lt_of_lt_of_le h.2.1 hC.p_le⟩

theorem fieldBytes_of_lt (hwidth : 0 < C.width) (h : x < Bytes.capacity C.width) :
    C.fieldBytes x = .ok (Bytes.ofNatWidth C.width x) := by
  have hlength := (Bytes.length_ofNat_le hwidth).mpr h
  unfold fieldBytes
  dsimp only
  rw [if_neg (by omega), Bytes.zeros_append_ofNat hlength]

theorem fieldBytes_of_le (hwidth : 0 < C.width) (h : Bytes.capacity C.width ≤ x) :
    C.fieldBytes x = .error (.element .coordinateTooWide) := by
  have hlength := mt (Bytes.length_ofNat_le hwidth).mp (Nat.not_lt.mpr h)
  unfold fieldBytes
  dsimp only
  rw [if_pos (by omega)]

/-! ## Points as bytes -/

theorem decode_affine (hx : x < Bytes.capacity C.width) (hy : y < Bytes.capacity C.width) :
    C.decode (4 :: (Bytes.ofNatWidth C.width x ++ Bytes.ofNatWidth C.width y)) =
      if C.Contains x y then some (.affine x y) else none := by
  have hlength := Bytes.length_ofNatWidth C.width
  rw [decode, if_neg (by decide), if_pos ⟨rfl, by rw [List.length_append, hlength, hlength]; omega⟩,
    List.take_left' (hlength x), List.drop_left' (hlength x), Bytes.toNat_ofNatWidth_of_lt hx,
    Bytes.toNat_ofNatWidth_of_lt hy]

theorem decode_encode (hC : C.WellFormed) {P : Point} (h : C.HasPoint P) :
    C.decode (C.encode P) = some P := by
  cases P with
  | infinity => rfl
  | affine x y =>
    obtain ⟨hx, hy⟩ := Contains.lt_capacity hC h
    rw [encode, decode_affine hx hy]
    exact if_pos h

theorem encode_of_decode {P : Point} {bytes : Bytes} (h : C.decode bytes = some P) :
    C.HasPoint P ∧ C.encode P = bytes := by
  cases bytes with
  | nil => cases h
  | cons tag body =>
    rw [decode] at h
    split at h
    · next htag =>
      split at h
      · next hempty =>
        cases h
        rw [htag, List.isEmpty_iff.mp hempty]
        exact ⟨trivial, rfl⟩
      · cases h
    · split at h
      · next hshape =>
        obtain ⟨rfl, hlength⟩ := hshape
        dsimp only at h
        split at h
        · next hcontains =>
          cases h
          refine ⟨hcontains, ?_⟩
          have hfirst : (body.take C.width).length = C.width := by
            rw [List.length_take]
            omega
          have hsecond : (body.drop C.width).length = C.width := by
            rw [List.length_drop]
            omega
          have hx := Bytes.ofNatWidth_toNat (body.take C.width)
          have hy := Bytes.ofNatWidth_toNat (body.drop C.width)
          rw [hfirst] at hx
          rw [hsecond] at hy
          rw [encode, hx, hy, List.take_append_drop]
        · cases h
      · cases h

/-- Bytes are read as a point exactly when they are written for it. -/
theorem decode_eq_some_iff (hC : C.WellFormed) {P : Point} {bytes : Bytes} :
    C.decode bytes = some P ↔ C.HasPoint P ∧ C.encode P = bytes := by
  refine ⟨encode_of_decode, ?_⟩
  rintro ⟨h, rfl⟩
  exact decode_encode hC h

/-- Two points of the curve are not written alike. -/
theorem encode_injOn (hC : C.WellFormed) : Set.InjOn C.encode {P | C.HasPoint P} := by
  intro P hP Q hQ h
  rw [← Option.some_inj, ← decode_encode hC hP, h, decode_encode hC hQ]

/-! ## Coordinates from outside -/

/-- What becomes of two numbers. -/
theorem ofCoordinates_eq (hC : C.WellFormed) (x y : Nat) :
    C.ofCoordinates x y =
      if Bytes.capacity C.width ≤ x ∨ Bytes.capacity C.width ≤ y then
        .error (.element .coordinateTooWide)
      else if C.Contains x y then .ok (.affine x y)
      else .error (.element (.offCurve C.name)) := by
  have hwidth := hC.width_pos
  unfold ofCoordinates
  by_cases hx : Bytes.capacity C.width ≤ x
  · rw [fieldBytes_of_le hwidth hx, if_pos (.inl hx)]
    rfl
  · rw [fieldBytes_of_lt hwidth (by omega)]
    by_cases hy : Bytes.capacity C.width ≤ y
    · rw [fieldBytes_of_le hwidth hy, if_pos (.inr hy)]
      rfl
    · rw [fieldBytes_of_lt hwidth (by omega), if_neg (by omega)]
      simp only [bind, Except.bind]
      rw [decode_affine (by omega) (by omega)]
      by_cases hcontains : C.Contains x y
      · rw [if_pos hcontains, if_pos hcontains]
        rfl
      · rw [if_neg hcontains, if_neg hcontains]
        rfl

theorem ofCoordinates_eq_ok (hC : C.WellFormed) {P : Point} :
    C.ofCoordinates x y = .ok P ↔ C.Contains x y ∧ P = .affine x y := by
  rw [ofCoordinates_eq hC]
  by_cases h : C.Contains x y
  · obtain ⟨hx, hy⟩ := h.lt_capacity hC
    rw [if_neg (by omega), if_pos h, Except.ok.injEq, eq_comm]
    exact (and_iff_right h).symm
  · rw [if_neg h]
    refine iff_of_false ?_ fun hcontains => h hcontains.1
    split <;> simp

/-! ## The points that come up -/

/-- The points that a party can come to hold: the two that belong to the group, those of coordinates
that are accepted, and what the operations make of such points. -/
inductive Reaches (C : Curve) : Point → Prop
  | generator : Reaches C C.group.generator
  | identity : Reaches C C.group.identity
  | ofCoordinates {x y : Nat} {P : Point} (h : C.ofCoordinates x y = .ok P) : Reaches C P
  | compose {P Q : Point} (hP : Reaches C P) (hQ : Reaches C Q) : Reaches C (C.group.compose P Q)
  | exp {P : Point} (hP : Reaches C P) (k : Nat) : Reaches C (C.group.exp P k)
  | invert {P Q : Point} (hP : Reaches C P) (h : C.group.invert P = .ok Q) : Reaches C Q

theorem Reaches.hasPoint (hC : C.WellFormed) {P : Point} (h : C.Reaches P) : C.HasPoint P := by
  induction h with
  | generator => exact hC.contains_base
  | identity => trivial
  | ofCoordinates h =>
    obtain ⟨hcontains, rfl⟩ := (ofCoordinates_eq_ok hC).mp h
    exact hcontains
  | compose _ _ hP hQ => exact hasPoint_add hC.three_lt hP hQ
  | exp _ k hP => exact hasPoint_smul hC.three_lt hP _
  | invert _ h hP =>
    cases h
    exact hasPoint_neg hC.three_lt hP

/-- The points that come up are the points of the curve. -/
theorem reaches_iff (hC : C.WellFormed) {P : Point} : C.Reaches P ↔ C.HasPoint P := by
  refine ⟨Reaches.hasPoint hC, fun h => ?_⟩
  cases P with
  | infinity => exact .identity
  | affine x y => exact .ofCoordinates ((ofCoordinates_eq_ok hC).mpr ⟨h, rfl⟩)

/-! ## Affine and Jacobian form -/

/-- Nothing changes on the way to Jacobian coordinates and back. -/
theorem ofJacobian_toJacobian (hp : 3 < C.p) {P : Point} (h : C.HasPoint P) :
    C.ofJacobian (toJacobian P) = P := by
  cases P with
  | infinity =>
    have hnone : Arith.inverse? 0 C.p = none := by
      unfold Arith.inverse?
      dsimp only
      rw [Arith.bezout_fst, Nat.zero_mod, Nat.gcd_zero_left, if_neg (by omega)]
    simp only [toJacobian, ofJacobian, hnone]
  | affine x y =>
    obtain ⟨w, hw⟩ := Option.isSome_iff_exists.mp (Arith.inverse?_isSome (Nat.coprime_one_left C.p))
    obtain ⟨hlt, hone⟩ := Arith.mul_modEq_of_inverse? (by omega) hw
    rw [one_mul] at hone
    obtain rfl := hone.eq_of_lt_of_lt hlt (by omega)
    have hunit (z : Nat) (hz : z < C.p) : C.mul z 1 = z := by
      rw [mul, Nat.mul_one, Nat.mod_eq_of_lt hz]
    simp only [toJacobian, ofJacobian, hw]
    rw [hunit 1 hlt, hunit 1 hlt, hunit x h.1, hunit y h.2.1]

/-! ## The standard curves -/

/-- The four curves that there are. -/
def standard : List Curve := [p224, p256, p384, p521]

theorem wellFormed_standard (hC : C ∈ standard) : C.WellFormed := by
  have hall : ∀ D ∈ standard,
      3 < D.p ∧ D.p ≤ Bytes.capacity D.width ∧ D.Contains D.baseX D.baseY := by
    decide +kernel
  obtain ⟨h1, h2, h3⟩ := hall C hC
  exact ⟨h1, h2, h3⟩

theorem coordinates_eq_none {P : Point} : coordinates P = none ↔ P = .infinity := by
  cases P <;> simp [coordinates]

/-- On a standard curve two numbers are the coordinates of a point exactly when they are reduced and
satisfy the equation. The point is then not the identity, it has these coordinates, and its bytes
are a tag and the coordinates at full width. Every point other than the identity is the one of its
coordinates; and the points that come up, however they are made, are the points of the curve, which
Jacobian coordinates stand for as well. -/
theorem coordinates_exact (hC : C ∈ standard) :
    (∀ x y, (∃ P, C.ofCoordinates x y = .ok P) ↔
      x < C.p ∧ y < C.p ∧ (y : ZMod C.p) ^ 2 = (x : ZMod C.p) ^ 3 - 3 * x + C.b) ∧
    (∀ x y P, C.ofCoordinates x y = .ok P →
      coordinates P = some (x, y) ∧ P ≠ C.group.identity ∧
        ∃ xBytes yBytes, C.group.encode P = 4 :: (xBytes ++ yBytes) ∧
          xBytes.length = C.width ∧ Bytes.toNat xBytes = x ∧
          yBytes.length = C.width ∧ Bytes.toNat yBytes = y) ∧
    (∀ P, C.HasPoint P → P ≠ C.group.identity →
      ∃ x y, coordinates P = some (x, y) ∧ C.ofCoordinates x y = .ok P) ∧
    (∀ P, coordinates P = none ↔ P = C.group.identity) ∧
    (∀ P, C.Reaches P ↔ C.HasPoint P) ∧
    (∀ P, C.HasPoint P → C.ofJacobian (toJacobian P) = P) := by
  have hwell := wellFormed_standard hC
  refine ⟨fun x y => ?_, fun x y P h => ?_, fun P hP hne => ?_, fun P => coordinates_eq_none,
    fun P => reaches_iff hwell, fun P => ofJacobian_toJacobian hwell.three_lt⟩
  · rw [← contains_iff hwell.three_lt]
    constructor
    · rintro ⟨P, h⟩
      exact ((ofCoordinates_eq_ok hwell).mp h).1
    · intro h
      exact ⟨.affine x y, (ofCoordinates_eq_ok hwell).mpr ⟨h, rfl⟩⟩
  · obtain ⟨hcontains, rfl⟩ := (ofCoordinates_eq_ok hwell).mp h
    obtain ⟨hx, hy⟩ := hcontains.lt_capacity hwell
    refine ⟨rfl, Point.noConfusion, _, _, rfl, Bytes.length_ofNatWidth _ _, ?_,
      Bytes.length_ofNatWidth _ _, ?_⟩
    · exact Bytes.toNat_ofNatWidth_of_lt hx
    · exact Bytes.toNat_ofNatWidth_of_lt hy
  · cases P with
    | infinity => exact absurd rfl hne
    | affine x y => exact ⟨x, y, rfl, (ofCoordinates_eq_ok hwell).mpr ⟨hP, rfl⟩⟩

/-- The generator of the widest curve. Its bytes have room for the abscissa with the modulus added,
and that is refused. -/
theorem coordinates_exact_p521 :
    p521 ∈ standard ∧ p521.baseX + p521.p < Bytes.capacity p521.width ∧
      p521.ofCoordinates p521.baseX p521.baseY = .ok p521.group.generator ∧
      coordinates p521.group.generator = some (p521.baseX, p521.baseY) ∧
      ¬∃ P, p521.ofCoordinates (p521.baseX + p521.p) p521.baseY = .ok P := by
  have hC : p521 ∈ standard := by decide
  obtain ⟨haccepted, hback, -⟩ := coordinates_exact hC
  have hbase : p521.ofCoordinates p521.baseX p521.baseY = .ok p521.group.generator :=
    (ofCoordinates_eq_ok (wellFormed_standard hC)).mpr ⟨(wellFormed_standard hC).contains_base, rfl⟩
  refine ⟨hC, by decide, hbase, (hback _ _ _ hbase).1, fun h => ?_⟩
  have hlt := ((haccepted _ _).mp h).1
  omega

end AnonCred.Curve

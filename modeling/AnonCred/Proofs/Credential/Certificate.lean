import AnonCred.Proofs.Bytes
import AnonCred.Proofs.Deployment

/-!
# Certificates and the two numbers of their signatures

A number from outside is written at the width of a scalar and read back. The width has room for
numbers from the order of the curve on, so the length decides nothing but which refusal is given:
what comes in are two scalars, and they come out again as they are. The authority signs with scalars,
so what it hands out is made again from its parts.

* `Ecdsa.Signature.ofScalars_eq` — what becomes of two numbers
* `Ecdsa.isScalar_of_sign` — a signature that is made consists of scalars
* `Certificate.rebuilt_exact` — which numbers make a certificate, and that certificates are rebuilt
-/

namespace AnonCred

namespace Ecdsa

variable {k r s : Nat} {signature : Signature}

/-! ## Numbers from outside -/

theorem IsScalar.lt_capacity (h : IsScalar k) : k < Bytes.capacity width :=
  Nat.lt_trans h.2 (by decide)

theorem scalarBytes_eq (k : Nat) :
    scalarBytes k =
      if Bytes.capacity width ≤ k then .error (.signature .scalarTooWide)
      else .ok (Bytes.ofNatWidth width k) := by
  have hlength := @Bytes.length_ofNat_le width k (by decide)
  unfold scalarBytes
  dsimp only
  by_cases hwide : Bytes.capacity width ≤ k
  · rw [if_pos (by omega), if_pos hwide]
  · rw [if_neg (by omega), if_neg hwide, Bytes.zeros_append_ofNat (by omega)]

namespace Signature

/-- The width is judged of both numbers before the range of either. -/
theorem ofScalars_eq (r s : Nat) :
    ofScalars r s =
      if Bytes.capacity width ≤ r ∨ Bytes.capacity width ≤ s then
        .error (.signature .scalarTooWide)
      else if IsScalar r ∧ IsScalar s then .ok ⟨r, s⟩
      else .error (.signature .invalid) := by
  unfold ofScalars
  rw [scalarBytes_eq r]
  by_cases hr : Bytes.capacity width ≤ r
  · rw [if_pos hr, if_pos (.inl hr)]
    rfl
  rw [if_neg hr, scalarBytes_eq s]
  by_cases hs : Bytes.capacity width ≤ s
  · rw [if_pos hs, if_pos (.inr hs)]
    rfl
  · rw [if_neg hs, if_neg (not_or.mpr ⟨hr, hs⟩)]
    simp only [bind, Except.bind]
    rw [ofBytes, Bytes.toNat_ofNatWidth_of_lt (by omega), Bytes.toNat_ofNatWidth_of_lt (by omega)]

/-- The scalars of a signature are those it is made of, and are in range. -/
theorem ofScalars_eq_ok :
    ofScalars r s = .ok signature ↔ IsScalar r ∧ IsScalar s ∧ signature = ⟨r, s⟩ := by
  rw [ofScalars_eq]
  by_cases hrange : IsScalar r ∧ IsScalar s
  · have hr := hrange.1.lt_capacity
    have hs := hrange.2.lt_capacity
    rw [if_neg (by omega), if_pos hrange, Except.ok.injEq, eq_comm, ← and_assoc]
    exact (and_iff_right hrange).symm
  · rw [if_neg hrange]
    refine iff_of_false ?_ fun h => hrange ⟨h.1, h.2.1⟩
    split <;> simp

theorem ofScalars_eq_error {error : Error} :
    ofScalars r s = .error error ↔
      (Bytes.capacity width ≤ r ∨ Bytes.capacity width ≤ s) ∧
        error = .signature .scalarTooWide ∨
      ¬(Bytes.capacity width ≤ r ∨ Bytes.capacity width ≤ s) ∧ ¬(IsScalar r ∧ IsScalar s) ∧
        error = .signature .invalid := by
  rw [ofScalars_eq]
  by_cases hwide : Bytes.capacity width ≤ r ∨ Bytes.capacity width ≤ s
  · simp [hwide, eq_comm]
  rw [if_neg hwide]
  by_cases hrange : IsScalar r ∧ IsScalar s
  · rw [if_pos hrange]
    simp [hwide, hrange]
  · rw [if_neg hrange]
    simp only [hwide, hrange, not_false_eq_true, Except.error.injEq, true_and, false_and, false_or,
      eq_comm]

/-- Scalars are read back from their bytes. -/
theorem toNat_toBytes (hr : IsScalar signature.r) (hs : IsScalar signature.s) :
    signature.toBytes.1.toNat = signature.r ∧ signature.toBytes.2.toNat = signature.s :=
  ⟨Bytes.toNat_ofNatWidth_of_lt hr.lt_capacity, Bytes.toNat_ofNatWidth_of_lt hs.lt_capacity⟩

end Signature

/-! ## Signing -/

theorem abscissa_lt (P : Point) : abscissa P < curve.order := by
  have hpos : 0 < curve.order := by decide
  cases P with
  | infinity => exact hpos
  | affine x y => exact Nat.mod_lt x hpos

theorem isScalar_of_signWith {key : SecretKey} {digest : Bytes}
    (h : signWith key k digest = some signature) : IsScalar signature.r ∧ IsScalar signature.s := by
  have hpos : 0 < curve.order := by decide
  unfold signWith at h
  simp only [Option.bind_eq_bind, Option.bind_eq_some_iff] at h
  obtain ⟨w, -, hrest⟩ := h
  split at hrest
  · cases hrest
  · next hzero =>
    obtain ⟨hr, hs⟩ := not_or.mp hzero
    rw [Option.some.injEq] at hrest
    rw [← hrest]
    exact ⟨⟨Nat.pos_of_ne_zero hr, abscissa_lt _⟩, Nat.pos_of_ne_zero hs, Nat.mod_lt _ hpos⟩

/-- The signer as a function. Under a key and a digest the `match` would be evaluated, and with it
the search for a nonce. -/
theorem sign_def : sign = fun key digest =>
    match (do signWith key (← nonce? key digest) digest : Option Signature) with
    | some signature => .ok signature
    | none => .error (.signature .invalid) := rfl

theorem sign_eq_ok {key : SecretKey} {digest : Bytes} :
    sign key digest = .ok signature ↔
      ∃ k, nonce? key digest = some k ∧ signWith key k digest = some signature := by
  rw [← Option.bind_eq_some_iff, ← Option.bind_eq_bind, sign_def]
  dsimp only
  generalize (do signWith key (← nonce? key digest) digest : Option Signature) = made
  cases made <;> simp

/-- A signature that is made consists of scalars. -/
theorem isScalar_of_sign {key : SecretKey} {digest : Bytes} (h : sign key digest = .ok signature) :
    IsScalar signature.r ∧ IsScalar signature.s := by
  obtain ⟨k, -, hsigned⟩ := sign_eq_ok.mp h
  exact isScalar_of_signWith hsigned

end Ecdsa

namespace Certificate

open Ecdsa

variable {E : Type} {a b : E} {r s : Nat} {c : Certificate E}

/-! ## Certificates -/

theorem ofScalars_eq_ok :
    ofScalars a b r s = .ok c ↔ IsScalar r ∧ IsScalar s ∧ c = ⟨a, b, ⟨r, s⟩⟩ := by
  unfold ofScalars
  simp only [except_bind_eq_ok, except_pure_eq_ok, Signature.ofScalars_eq_ok]
  constructor
  · rintro ⟨signature, ⟨hr, hs, rfl⟩, rfl⟩
    exact ⟨hr, hs, rfl⟩
  · rintro ⟨hr, hs, rfl⟩
    exact ⟨_, ⟨hr, hs, rfl⟩, rfl⟩

theorem ofScalars_eq_error {error : Error} :
    ofScalars a b r s = .error error ↔ Signature.ofScalars r s = .error error := by
  unfold ofScalars
  cases Signature.ofScalars r s <;> simp [bind, Except.bind, pure, Except.pure]

theorem scalars_eq (hr : IsScalar c.signature.r) (hs : IsScalar c.signature.s) :
    c.r = c.signature.r ∧ c.s = c.signature.s :=
  Signature.toNat_toBytes hr hs

/-- A certificate whose signature consists of scalars is made again from its parts. -/
theorem ofScalars_self (hr : IsScalar c.signature.r) (hs : IsScalar c.signature.s) :
    ofScalars c.blindedA c.blindedB c.r c.s = .ok c := by
  obtain ⟨hcr, hcs⟩ := scalars_eq hr hs
  rw [hcr, hcs]
  exact ofScalars_eq_ok.mpr ⟨hr, hs, rfl⟩

/-- Two numbers make a certificate of a pair exactly when both are in the range of scalars, and the
certificate has that pair and these numbers. Otherwise it is the signature that is refused, and for
its width exactly when one of the numbers needs more than 32 bytes, whatever the other one is. What
the authority hands out is made again from its parts, and it holds under the same keys. -/
theorem rebuilt_exact [DecidableEq E] (a b : E) (r s : Nat) :
    ((∃ c, ofScalars a b r s = .ok c) ↔
      (1 ≤ r ∧ r < Curve.p256.order) ∧ 1 ≤ s ∧ s < Curve.p256.order) ∧
    (∀ c, ofScalars a b r s = .ok c → c.blindedA = a ∧ c.blindedB = b ∧ c.r = r ∧ c.s = s) ∧
    (∀ error, ofScalars a b r s = .error error → ∃ cause, error = .signature cause ∧
      (cause.message = "signature scalar is wider than 256 bits" ↔
        Bytes.Exceeds 32 r ∨ Bytes.Exceeds 32 s)) ∧
    ∀ (G : CyclicGroup E) (A A' : Authority E) (z : Nat) (source next : Source) (c : Certificate E),
      A.verify G z source = some ((.ok c, A'), next) →
        ∃ c', ofScalars c.blindedA c.blindedB c.r c.s = .ok c' ∧ c' = c ∧
          ∀ key, c'.verify G key = c.verify G key := by
  refine ⟨⟨?_, ?_⟩, fun c h => ?_, fun error h => ?_, fun G A A' z source next c h => ?_⟩
  · rintro ⟨c, h⟩
    obtain ⟨hr, hs, -⟩ := ofScalars_eq_ok.mp h
    exact ⟨hr, hs⟩
  · rintro ⟨hr, hs⟩
    exact ⟨_, ofScalars_eq_ok.mpr ⟨hr, hs, rfl⟩⟩
  · obtain ⟨hr, hs, rfl⟩ := ofScalars_eq_ok.mp h
    exact ⟨rfl, rfl, scalars_eq hr hs⟩
  · rw [Bytes.exceeds_iff, Bytes.exceeds_iff]
    rcases Signature.ofScalars_eq_error.mp (ofScalars_eq_error.mp h) with
      ⟨hwide, rfl⟩ | ⟨hfits, -, rfl⟩
    · exact ⟨_, rfl, iff_of_true rfl hwide⟩
    · exact ⟨_, rfl, iff_of_false (by decide) hfits⟩
  · obtain ⟨nym, k, -, -, -, hcertify, -⟩ := Authority.verify_eq_ok.mp h
    obtain ⟨-, -, hsign⟩ := Authority.certify_eq_ok.mp hcertify
    obtain ⟨hr, hs⟩ := isScalar_of_sign hsign
    exact ⟨c, ofScalars_self hr hs, rfl, fun key => rfl⟩

/-- The largest scalar, the width before the range, and a certificate of the pair `(13, 4)` over the
squares modulo 23. -/
theorem rebuilt_exact_squares23 :
    (∃ c, ofScalars 13 4 (Curve.p256.order - 1) 1 = .ok c ∧ c.r = Curve.p256.order - 1) ∧
    (∃ cause, ofScalars 13 4 0 (256 ^ 32) = .error (.signature cause) ∧
      cause.message = "signature scalar is wider than 256 bits") ∧
    ∃ (c : Certificate Nat) (A : Authority Nat) (next : Source),
      (Authority.asked Deployment.steadyKey ⟨18, 3⟩ 13 3).verify SchnorrGroup.squares23.group 7
        Deployment.steady = some ((.ok c, A), next) ∧
      ofScalars c.blindedA c.blindedB c.r c.s = .ok c := by
  refine ⟨?_, ?_, ?_⟩
  · obtain ⟨hmade, hback, -⟩ := rebuilt_exact 13 4 (Curve.p256.order - 1) 1
    obtain ⟨c, hc⟩ := hmade.mpr (by decide)
    exact ⟨c, hc, (hback c hc).2.2.1⟩
  · have hwide : Bytes.Exceeds 32 (256 ^ 32) := Bytes.exceeds_iff.mpr (Nat.le_refl _)
    obtain ⟨hmade, -, hrefused, -⟩ := rebuilt_exact 13 4 0 (256 ^ 32)
    rcases hc : ofScalars 13 4 0 (256 ^ 32) with error | c
    · obtain ⟨cause, rfl, hcause⟩ := hrefused error hc
      exact ⟨cause, rfl, hcause.mpr (.inr hwide)⟩
    · exact absurd (hmade.mp ⟨c, hc⟩).1.1 (by decide)
  · obtain ⟨signature, hsign, -⟩ := Deployment.signs_steady
    have hunit : (SchnorrGroup.squares23.group.randomUnit Deployment.steady).map Prod.fst = some 3 := by
      decide +kernel
    obtain ⟨⟨_, next⟩, hscalar, rfl⟩ := Option.map_eq_some_iff.mp hunit
    have hpair : SchnorrGroup.squares23.group.exp 18 3 = 13 ∧
        SchnorrGroup.squares23.group.exp 3 3 = 4 := by decide +kernel
    have hcertify : Authority.certify SchnorrGroup.squares23.group Deployment.steadyKey ⟨18, 3⟩ 3 =
        .ok ⟨13, 4, signature⟩ := by
      refine Authority.certify_eq_ok.mpr ⟨hpair.1.symm, hpair.2.symm, ?_⟩
      dsimp only
      rw [hpair.1, hpair.2]
      exact hsign
    have hverify := Authority.verify_eq_ok.mpr
      ⟨⟨18, 3⟩, 3, rfl, (by decide +kernel :
        ((Authority.asked Deployment.steadyKey ⟨18, 3⟩ 13 3).verifier.verify
          SchnorrGroup.squares23.group ⟨7, none⟩).1 = .ok true), hscalar, hcertify, rfl⟩
    obtain ⟨-, -, -, hrebuilt⟩ := rebuilt_exact 13 4 0 0
    obtain ⟨_, hc, rfl, -⟩ := hrebuilt _ _ _ _ _ _ _ hverify
    exact ⟨_, _, _, hverify, hc⟩

end Certificate

end AnonCred

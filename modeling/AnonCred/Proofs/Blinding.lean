import AnonCred.Blinding
import AnonCred.Proofs.Equality

/-!
# The blinding verifier, call by call

An answer to a blinded challenge, with the blinding added to it, is an answer to the hash of the
blinded commitments. The same equation read the other way gives the commitments back: a view of the
prover and a valid transcript determine each other once the blinding is known.

* `Verifier.challenge_eq_ok`, `Verifier.verify_awaiting` — the calls of the verifier
* `Verifier.challenge_eq_error`, `Verifier.verify_eq_error` — why a call is refused
* `Pending.unblind_valid` — an accepted answer leaves a valid transcript
* `Pending.blind_of_valid` — the blinding that leads from a view to a given valid transcript
-/

namespace AnonCred.Blinding

open CyclicGroup

variable {E : Type} {G : CyclicGroup E} {source next : Source}

theorem modEq_addMod (a b n : Nat) : a + b ≡ Arith.addMod a b n [MOD n] := (Nat.mod_modEq _ _).symm

theorem exists_add_modEq {n : Nat} (hn : 0 < n) (a b : Nat) : ∃ k < n, a + k ≡ b [MOD n] := by
  have hlt := Nat.mod_lt a hn
  refine ⟨(b + (n - a % n)) % n, Nat.mod_lt _ hn, ?_⟩
  calc a + (b + (n - a % n)) % n ≡ a % n + (b + (n - a % n)) [MOD n] :=
        (Nat.mod_modEq a n).symm.add (Nat.mod_modEq _ n)
    _ = b + n := by omega
    _ ≡ b [MOD n] := Nat.add_modEq_right

theorem addMod_inj {n a b c : Nat} (hb : b < n) (hc : c < n)
    (h : Arith.addMod a b n = Arith.addMod a c n) : b = c :=
  (Nat.ModEq.add_left_cancel' a h).eq_of_lt_of_lt hb hc

/-! ## The equation under a blinding -/

section Equation

variable [Lawful G] {g t x : G.Element} {e z h alpha beta zAlpha gamma : Nat}

/-- An answer `z` to `e`, moved by `alpha`, answers `h` for the commitment moved by `alpha` and by
the difference of the challenges. -/
theorem pow_blinded (hz : g ^ z = x * t ^ e) (halpha : z + alpha ≡ zAlpha [MOD G.order])
    (hbeta : h + beta ≡ e [MOD G.order]) :
    g ^ zAlpha = x * g ^ alpha * t ^ beta * t ^ h := by
  calc g ^ zAlpha = g ^ z * g ^ alpha := by rw [← Element.pow_congr g halpha, pow_add]
    _ = x * t ^ (h + beta) * g ^ alpha := by rw [hz, Element.pow_congr t hbeta]
    _ = x * g ^ alpha * t ^ beta * t ^ h := by
      rw [pow_add, mul_right_comm, mul_comm (t ^ h), mul_assoc (x * g ^ alpha)]

/-- The same with all bases raised to one exponent. -/
theorem pow_blinded_pow (hz : g ^ z = x * t ^ e) (halpha : z + alpha ≡ zAlpha [MOD G.order])
    (hbeta : h + beta ≡ e [MOD G.order]) :
    (g ^ gamma) ^ zAlpha = (x * g ^ alpha * t ^ beta) ^ gamma * (t ^ gamma) ^ h := by
  rw [pow_right_comm, pow_blinded hz halpha hbeta, mul_pow, pow_right_comm t]

end Equation

/-! ## Transcripts -/

namespace Transcript

variable [Lawful G] {t : Transcript E}

theorem valid_iff (g1 t1 g2 t2 : G.Element) {a b : G.Element} (ha : t.a = a) (hb : t.b = b) :
    t.Valid G g1 t1 g2 t2 ↔
      G.hashNat [t.a, t.b] = t.hash ∧ g1 ^ t.zAlpha = a * t1 ^ t.hash ∧
        g2 ^ t.zAlpha = b * t2 ^ t.hash := by
  unfold Valid
  rw [ha, hb, Element.responds_iff, Element.responds_iff]

end Transcript

namespace Pending

section Values

variable (gamma : Nat) (claim : Equality.Claim E) (alpha beta : Nat)

theorem blind_hash :
    G.hashNat [(blind G gamma claim alpha beta).a, (blind G gamma claim alpha beta).b]
      = (blind G gamma claim alpha beta).hash := by
  simp only [blind]

theorem blind_e :
    (blind G gamma claim alpha beta).e
      = Arith.addMod (blind G gamma claim alpha beta).hash beta G.order := by
  simp only [blind]

theorem blind_e_lt [Lawful G] : (blind G gamma claim alpha beta).e < G.order := by
  rw [blind_e]
  exact Nat.mod_lt _ order_pos

variable [Lawful G] (g1 g2 t1 t2 x1 x2 : G.Element)

/-- The blinded first commitment as a member. -/
theorem blind_a :
    (blind G gamma ⟨g1, g2, t1, t2, x1, x2⟩ alpha beta).a
      = (x1 * g1 ^ alpha * t1 ^ beta : G.Element) := rfl

theorem blind_b :
    (blind G gamma ⟨g1, g2, t1, t2, x1, x2⟩ alpha beta).b
      = ((x2 * g2 ^ alpha * t2 ^ beta) ^ gamma : G.Element) := rfl

end Values

variable [Lawful G] {gamma alpha beta z : Nat}

/-- The blinded commitments to members are members. -/
theorem member_blind {claim : Equality.Claim E} (hmembers : ∀ x ∈ claim.elements, G.Member x) :
    G.Member (blind G gamma claim alpha beta).a ∧ G.Member (blind G gamma claim alpha beta).b := by
  obtain ⟨g1, g2, t1, t2, x1, x2, rfl⟩ := Equality.Claim.exists_elements hmembers
  rw [blind_a, blind_b]
  exact ⟨Element.member _, Element.member _⟩

/-- An accepted answer leaves a transcript that is valid for the claim's first base and value, and
for the powers of the second ones. -/
theorem unblind_valid {claim : Equality.Claim E} (hmembers : ∀ x ∈ claim.elements, G.Member x)
    (hholds : claim.Holds G (blind G gamma claim alpha beta).e z) :
    ((blind G gamma claim alpha beta).unblind G gamma z).transcript.Valid G claim.g1 claim.t1
      (G.exp claim.g2 gamma) (G.exp claim.t2 gamma) := by
  obtain ⟨g1, g2, t1, t2, x1, x2, rfl⟩ := Equality.Claim.exists_elements hmembers
  have ha := blind_a gamma alpha beta g1 g2 t1 t2 x1 x2
  have hb := blind_b gamma alpha beta g1 g2 t1 t2 x1 x2
  have hhash := blind_hash (G := G) gamma ⟨g1, g2, t1, t2, x1, x2⟩ alpha beta
  have hchallenge := blind_e (G := G) gamma ⟨g1, g2, t1, t2, x1, x2⟩ alpha beta
  have halpha : (blind G gamma ⟨g1, g2, t1, t2, x1, x2⟩ alpha beta).alpha = alpha := rfl
  have hsame : (blind G gamma ⟨g1, g2, t1, t2, x1, x2⟩ alpha beta).claim
      = ⟨g1, g2, t1, t2, x1, x2⟩ := rfl
  -- from here on the hash is a number like any other
  generalize blind G gamma ⟨g1, g2, t1, t2, x1, x2⟩ alpha beta = p at *
  obtain ⟨-, h1, h2⟩ := (Equality.Claim.holds_iff ..).mp hholds
  have hresponse := modEq_addMod z alpha G.order
  have hbeta : p.hash + beta ≡ p.e [MOD G.order] := by
    rw [hchallenge]
    exact modEq_addMod _ _ _
  unfold unblind
  rw [halpha]
  refine (Transcript.valid_iff g1 t1 (g2 ^ gamma) (t2 ^ gamma) ha hb).mpr ⟨hhash, ?_, ?_⟩
  · exact pow_blinded h1 hresponse hbeta
  · exact pow_blinded_pow h2 hresponse hbeta

/-- The blinding that leads from an accepted answer to a valid transcript gives its commitments and
its hash, and the challenge that was answered. -/
theorem blind_of_valid (g1 g2 t1 t2 x1 x2 : G.Element) {a b : G.Element} {t : Transcript E}
    (ha : t.a = a) (hb : t.b = b)
    (hvalid : t.Valid G g1 t1 (G.exp g2 gamma) (G.exp t2 gamma)) {e : Nat} (he : e < G.order)
    (hholds : (Equality.Claim.mk (g1 : E) g2 t1 t2 x1 x2).Holds G e z)
    (halpha : z + alpha ≡ t.zAlpha [MOD G.order]) (hbeta : t.hash + beta ≡ e [MOD G.order]) :
    blind G gamma ⟨g1, g2, t1, t2, x1, x2⟩ alpha beta
      = ⟨⟨g1, g2, t1, t2, x1, x2⟩, alpha, e, t.a, t.b, t.hash⟩ := by
  obtain ⟨hhash, hv1, hv2⟩ :=
    (Transcript.valid_iff g1 t1 (g2 ^ gamma) (t2 ^ gamma) ha hb).mp hvalid
  obtain ⟨-, h1, h2⟩ := (Equality.Claim.holds_iff ..).mp hholds
  have hfirst : x1 * g1 ^ alpha * t1 ^ beta = a :=
    mul_right_cancel ((pow_blinded h1 halpha hbeta).symm.trans hv1)
  have hsecond : (x2 * g2 ^ alpha * t2 ^ beta) ^ gamma = b :=
    mul_right_cancel ((pow_blinded_pow h2 halpha hbeta).symm.trans hv2)
  have ha' := (blind_a gamma alpha beta g1 g2 t1 t2 x1 x2).trans
    ((congrArg Subtype.val hfirst).trans ha.symm)
  have hb' := (blind_b gamma alpha beta g1 g2 t1 t2 x1 x2).trans
    ((congrArg Subtype.val hsecond).trans hb.symm)
  have hchallenge : Arith.addMod t.hash beta G.order = e :=
    Eq.trans hbeta (Nat.mod_eq_of_lt he)
  unfold blind at ha' hb' ⊢
  dsimp only at ha' hb' ⊢
  rw [ha', hb', hhash, hchallenge]

/-- The same for the claim of a prover that answered `e`. -/
theorem blind_of_response (g1 g2 : G.Element) (w r : Nat) {t : Transcript E}
    (hmembers : G.Member t.a ∧ G.Member t.b)
    (hvalid : t.Valid G g1 (G.exp g1 w) (G.exp g2 gamma) (G.exp (G.exp g2 w) gamma)) {e : Nat}
    (he : e < G.order)
    (halpha : Arith.response r e w G.order + alpha ≡ t.zAlpha [MOD G.order])
    (hbeta : t.hash + beta ≡ e [MOD G.order]) :
    blind G gamma ⟨g1, g2, G.exp g1 w, G.exp g2 w, G.exp g1 r, G.exp g2 r⟩ alpha beta
      = ⟨⟨g1, g2, G.exp g1 w, G.exp g2 w, G.exp g1 r, G.exp g2 r⟩, alpha, e, t.a, t.b, t.hash⟩ :=
  blind_of_valid g1 g2 (g1 ^ w) (g2 ^ w) (g1 ^ r) (g2 ^ r)
    (a := ⟨t.a, hmembers.1⟩) (b := ⟨t.b, hmembers.2⟩) rfl rfl hvalid he
    (Equality.Claim.holds_response g1 g2 w r e) halpha hbeta

omit [Lawful G] in
theorem unblind_transcript {t : Transcript E} (claim : Equality.Claim E) (e : Nat)
    (halpha : z + alpha ≡ t.zAlpha [MOD G.order]) (hreduced : t.zAlpha < G.order) :
    ((Pending.mk claim alpha e t.a t.b t.hash).unblind G gamma z).transcript = t := by
  have hanswer : Arith.addMod z alpha G.order = t.zAlpha :=
    Eq.trans halpha (Nat.mod_eq_of_lt hreduced)
  unfold unblind
  dsimp only
  rw [hanswer]

end Pending

/-! ## The verifier -/

namespace Verifier

theorem start_eq_ok {gamma : Nat} {V : Verifier E} :
    start G gamma = .ok V ↔ 0 < gamma ∧ gamma < G.order ∧ V = ⟨gamma, .ready⟩ := by
  unfold start
  rw [except_bind_eq_ok]
  simp only [G.checkScalar_eq_ok]
  by_cases hzero : gamma = 0
  · rw [if_pos hzero]
    constructor
    · rintro ⟨-, -, h⟩
      cases h
    · rintro ⟨hpos, -⟩
      omega
  · rw [if_neg hzero]
    constructor
    · rintro ⟨-, hlt, h⟩
      cases h
      exact ⟨Nat.pos_of_ne_zero hzero, hlt, rfl⟩
    · rintro ⟨-, hlt, rfl⟩
      exact ⟨(), hlt, rfl⟩

theorem challenge_eq_ok {V V' : Verifier E} {claim : Equality.Claim E} {e : Nat} :
    V.challenge G claim source = some ((.ok e, V'), next) ↔
      V.state = .ready ∧ (∀ x ∈ claim.elements, G.Member x) ∧
        ∃ alpha beta middle, G.randomScalar source = some (alpha, middle) ∧
          G.randomScalar middle = some (beta, next) ∧
          e = (Pending.blind G V.gamma claim alpha beta).e ∧
          V' = ⟨V.gamma, .awaitingResponse (Pending.blind G V.gamma claim alpha beta)⟩ := by
  unfold challenge
  rw [settleDrawn_eq_ok]
  split
  · next hstate =>
    simp only [Drawn.bind_eq_ok, Drawn.except_eq_ok, Drawn.draw_eq_ok, Drawn.pure_eq_ok,
      G.validateAll_eq_ok, Prod.mk.injEq]
    constructor
    · rintro ⟨-, before, ⟨hmembers, rfl⟩, alpha, middle, halpha, beta, after, hbeta,
        ⟨rfl, rfl⟩, rfl⟩
      exact ⟨hstate, hmembers, alpha, beta, middle, halpha, hbeta, rfl, rfl⟩
    · rintro ⟨-, hmembers, alpha, beta, middle, halpha, hbeta, rfl, rfl⟩
      exact ⟨(), source, ⟨hmembers, rfl⟩, alpha, middle, halpha, beta, next, hbeta, ⟨rfl, rfl⟩, rfl⟩
  · next hstate =>
    constructor
    · intro h
      exact absurd h Drawn.throw_ne_ok
    · rintro ⟨hready, -⟩
      exact absurd hready hstate

theorem challenge_eq_error {V V' : Verifier E} {claim : Equality.Claim E} {error : Error}
    (h : V.challenge G claim source = some ((.error error, V'), next)) :
    V' = V.ended ∧ (V.state = .ready ∧ G.validateAll claim.elements = .error error ∨
      V.state ≠ .ready ∧ error.IsOutOfOrder) := by
  unfold challenge at h
  obtain ⟨hrun, rfl⟩ := settleDrawn_eq_error.mp h
  refine ⟨rfl, ?_⟩
  split at hrun
  · next hstate =>
    simp only [Drawn.bind_eq_error, Drawn.except_eq_error, Drawn.draw_ne_error,
      Drawn.pure_ne_error, and_false, exists_false, or_false] at hrun
    exact .inl ⟨hstate, hrun.1⟩
  · next hstate =>
    obtain ⟨rfl, -⟩ := Drawn.throw_eq_error.mp hrun
    exact .inr ⟨hstate, Error.isOutOfOrder _ _⟩

/-- A new verifier answers a claim about members. -/
theorem challenge_answers {gamma : Nat} {claim : Equality.Claim E}
    (hmembers : ∀ x ∈ claim.elements, G.Member x) :
    Answers ((Verifier.mk gamma .ready).challenge G claim) source fun e V' next =>
      ∃ alpha beta middle, G.randomScalar source = some (alpha, middle) ∧
        G.randomScalar middle = some (beta, next) ∧
        e = (Pending.blind G gamma claim alpha beta).e ∧
        V' = ⟨gamma, .awaitingResponse (Pending.blind G gamma claim alpha beta)⟩ := by
  refine Answers.settleDrawn ?_
  refine Drawn.Succeeds.bindExcept (G.validateAll_eq_ok.mpr hmembers) ?_
  refine Drawn.Succeeds.bindDraw fun alpha middle halpha => ?_
  refine Drawn.Succeeds.bindDraw fun beta after hbeta => ?_
  exact Drawn.Succeeds.pure ⟨alpha, beta, middle, halpha, hbeta, rfl, rfl⟩

theorem verify_awaiting [DecidableEq E] (gamma : Nat) (p : Pending E) (z : Nat) :
    (Verifier.mk gamma (.awaitingResponse p)).verify G z =
      (.ok (if p.claim.Holds G p.e z then some (p.unblind G gamma z) else none),
        ⟨gamma, .done⟩) := rfl

theorem verify_eq_ok [DecidableEq E] {V V' : Verifier E} {z : Nat} {blinded : Option (Blinded E)} :
    V.verify G z = (.ok blinded, V') ↔
      ∃ p, V.state = .awaitingResponse p ∧
        blinded = (if p.claim.Holds G p.e z then some (p.unblind G V.gamma z) else none) ∧
        V' = V.ended := by
  unfold verify
  rw [settle_eq_ok]
  split
  · next p hstate =>
    simp only [Except.ok.injEq, Prod.mk.injEq, hstate, State.awaitingResponse.injEq]
    constructor
    · rintro ⟨rfl, rfl⟩
      exact ⟨p, rfl, rfl, rfl⟩
    · rintro ⟨p', rfl, rfl, rfl⟩
      exact ⟨rfl, rfl⟩
  · next hstate =>
    constructor
    · intro h
      cases h
    · rintro ⟨p, h, -⟩
      exact absurd h (hstate p)

theorem verify_eq_error [DecidableEq E] {V V' : Verifier E} {z : Nat} {error : Error}
    (h : V.verify G z = (.error error, V')) :
    V' = V.ended ∧ (∀ p, V.state ≠ .awaitingResponse p) ∧ error.IsOutOfOrder := by
  unfold verify at h
  obtain ⟨hrefused, rfl⟩ := settle_eq_error.mp h
  split at hrefused
  · cases hrefused
  · next hstate =>
    cases hrefused
    exact ⟨rfl, hstate, Error.isOutOfOrder _ _⟩

end Verifier

end AnonCred.Blinding

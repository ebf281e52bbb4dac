import AnonCred.Equality.Verifier
import AnonCred.Proofs.Group.Element
import AnonCred.Proofs.Session

/-!
# The proof of equal exponents, call by call

What each call of the prover and of the verifier answers, and the state that it leaves. Where the
values of a claim are members, the equations of the proof are equations of the group of members.

* `Claim.holds_iff` — an accepted answer, in the group of members
* `Claim.holds_response` — the answer of the prover is accepted
* `Prover.randomData_eq_ok`, `Prover.respond_eq_ok` — the calls of the prover
* `Verifier.challenge_eq_ok`, `Verifier.verify_awaiting` — the calls of the verifier
* `Prover.respond_eq_error`, `Verifier.challenge_eq_error` and their neighbours — why a call is refused
-/

namespace AnonCred.Equality

open CyclicGroup

variable {E : Type} {G : CyclicGroup E} {source next : Source}

/-! ## Claims about members -/

namespace Claim

theorem exists_elements {c : Claim E} (h : ∀ x ∈ c.elements, G.Member x) :
    ∃ g1 g2 t1 t2 x1 x2 : G.Element, c = ⟨g1, g2, t1, t2, x1, x2⟩ := by
  obtain ⟨g1, g2, t1, t2, x1, x2⟩ := c
  simp only [elements, List.forall_mem_cons] at h
  obtain ⟨h1, h2, h3, h4, h5, h6, -⟩ := h
  exact ⟨⟨g1, h1⟩, ⟨g2, h2⟩, ⟨t1, h3⟩, ⟨t2, h4⟩, ⟨x1, h5⟩, ⟨x2, h6⟩, rfl⟩

theorem mem_elements (g1 g2 t1 t2 x1 x2 : G.Element) :
    ∀ x ∈ (Claim.mk (g1 : E) g2 t1 t2 x1 x2).elements, G.Member x := by
  simp only [elements, List.forall_mem_cons]
  exact ⟨g1.member, g2.member, t1.member, t2.member, x1.member, x2.member, by simp⟩

variable [Lawful G]

theorem holds_iff (g1 g2 t1 t2 x1 x2 : G.Element) {e z : Nat} :
    (Claim.mk (g1 : E) g2 t1 t2 x1 x2).Holds G e z ↔
      z < G.order ∧ g1 ^ z = x1 * t1 ^ e ∧ g2 ^ z = x2 * t2 ^ e := by
  unfold Holds
  rw [Element.responds_iff, Element.responds_iff]

/-- What the prover answers fits its commitment. -/
theorem pow_response (g : G.Element) (w r e : Nat) :
    g ^ Arith.response r e w G.order = g ^ r * (g ^ w) ^ e := by
  unfold Arith.response
  rw [Element.pow_mod, pow_add, mul_comm e w, pow_mul]

theorem responds_response (g : G.Element) (w r e : Nat) :
    G.Responds (g : E) (G.exp g w) (G.exp g r) e (Arith.response r e w G.order) :=
  (Element.responds_iff g (g ^ w) (g ^ r) e _).mpr (pow_response g w r e)

/-- The answer of the prover is accepted, whatever the challenge. -/
theorem holds_response (g1 g2 : G.Element) (w r e : Nat) :
    (Claim.mk (g1 : E) g2 (G.exp g1 w) (G.exp g2 w) (G.exp g1 r) (G.exp g2 r)).Holds G e
      (Arith.response r e w G.order) :=
  ⟨Nat.mod_lt _ order_pos, responds_response g1 w r e, responds_response g2 w r e⟩

end Claim

/-! ## The prover -/

namespace Prover

theorem start_eq_ok {w : Nat} {g1 g2 : E} {P : Prover E} :
    start G w g1 g2 = .ok P ↔
      w < G.order ∧ G.Member g1 ∧ G.Member g2 ∧ P = ⟨w, g1, g2, .fresh⟩ := by
  unfold start Member
  simp only [except_bind_eq_ok, except_pure_eq_ok, G.checkScalar_eq_ok]
  constructor
  · rintro ⟨⟨⟩, hw, ⟨⟩, h1, ⟨⟩, h2, rfl⟩
    exact ⟨hw, h1, h2, rfl⟩
  · rintro ⟨hw, h1, h2, rfl⟩
    exact ⟨(), hw, (), h1, (), h2, rfl⟩

theorem randomData_eq_ok {P P' : Prover E} {xs : E × E} :
    P.randomData G source = some ((.ok xs, P'), next) ↔
      P.state = .fresh ∧ ∃ r, G.randomScalar source = some (r, next) ∧
        xs = P.commitments G r ∧ P' = { P with state := .committed r } := by
  unfold randomData
  rw [settleDrawn_eq_ok]
  split
  · next hstate =>
    rw [Drawn.bind_eq_ok]
    simp only [Drawn.draw_eq_ok, Drawn.pure_eq_ok, Prod.mk.injEq]
    constructor
    · rintro ⟨r, middle, hr, ⟨rfl, rfl⟩, rfl⟩
      exact ⟨hstate, r, hr, rfl, rfl⟩
    · rintro ⟨-, r, hr, rfl, rfl⟩
      exact ⟨r, next, hr, ⟨rfl, rfl⟩, rfl⟩
  · next hstate =>
    constructor
    · intro h
      exact absurd h Drawn.throw_ne_ok
    · rintro ⟨hfresh, -⟩
      exact absurd hfresh hstate

theorem randomData_eq_error {P P' : Prover E} {error : Error}
    (h : P.randomData G source = some ((.error error, P'), next)) :
    P' = P.ended ∧ P.state ≠ .fresh ∧ error.IsOutOfOrder := by
  unfold randomData at h
  obtain ⟨hrun, rfl⟩ := settleDrawn_eq_error.mp h
  split at hrun
  · simp only [Drawn.bind_eq_error, Drawn.draw_ne_error, Drawn.pure_ne_error, and_false,
      exists_false, or_false] at hrun
  · next hstate =>
    obtain ⟨rfl, -⟩ := Drawn.throw_eq_error.mp hrun
    exact ⟨rfl, hstate, Error.isOutOfOrder _ _⟩

/-- A fresh prover commits. -/
theorem randomData_answers {P : Prover E} (hfresh : P.state = .fresh) :
    Answers (P.randomData G) source fun xs P' next => ∃ r, G.randomScalar source = some (r, next) ∧
      xs = P.commitments G r ∧ P' = { P with state := .committed r } := by
  unfold randomData
  rw [hfresh]
  refine Answers.settleDrawn (Drawn.Succeeds.bindDraw fun r middle hr => ?_)
  exact Drawn.Succeeds.pure ⟨r, hr, rfl, rfl⟩

theorem respond_eq_ok {P P' : Prover E} {e z : Nat} :
    P.respond G e = (.ok z, P') ↔
      ∃ r, P.state = .committed r ∧ e < G.order ∧ z = Arith.response r e P.secret G.order ∧
        P' = P.ended := by
  unfold respond
  rw [settle_eq_ok]
  split
  · next r hstate =>
    simp only [except_bind_eq_ok, except_pure_eq_ok, G.checkScalar_eq_ok, Prod.mk.injEq]
    constructor
    · rintro ⟨-, he, rfl, rfl⟩
      exact ⟨r, hstate, he, rfl, rfl⟩
    · rintro ⟨r', hr', he, rfl, rfl⟩
      rw [hstate] at hr'
      cases hr'
      exact ⟨(), he, rfl, rfl⟩
  · next hstate =>
    constructor
    · intro h
      cases h
    · rintro ⟨r, hr, -⟩
      exact absurd hr (hstate r)

theorem respond_eq_error {P P' : Prover E} {e : Nat} {error : Error}
    (h : P.respond G e = (.error error, P')) :
    P' = P.ended ∧ ((∃ r, P.state = .committed r ∧ G.checkScalar e "challenge" = .error error) ∨
      (∀ r, P.state ≠ .committed r) ∧ error.IsOutOfOrder) := by
  unfold respond at h
  obtain ⟨hrefused, rfl⟩ := settle_eq_error.mp h
  refine ⟨rfl, ?_⟩
  split at hrefused
  · next r hstate =>
    simp only [except_bind_eq_error, except_pure_ne_error, and_false, exists_false,
      or_false] at hrefused
    exact .inl ⟨r, hstate, hrefused⟩
  · next hstate =>
    cases hrefused
    exact .inr ⟨hstate, Error.isOutOfOrder _ _⟩

end Prover

/-! ## The verifier -/

namespace Verifier

theorem challenge_eq_ok {V V' : Verifier E} {claim : Claim E} {e : Nat} :
    V.challenge G claim source = some ((.ok e, V'), next) ↔
      V = .ready ∧ (∀ x ∈ claim.elements, G.Member x) ∧
        G.randomScalar source = some (e, next) ∧ V' = .awaitingResponse claim e := by
  unfold challenge
  rw [settleDrawn_eq_ok]
  cases V with
  | ready =>
    dsimp only
    simp only [Drawn.bind_eq_ok, Drawn.except_eq_ok, Drawn.draw_eq_ok, Drawn.pure_eq_ok,
      G.validateAll_eq_ok, Prod.mk.injEq]
    constructor
    · rintro ⟨-, middle, ⟨hmembers, rfl⟩, e', after, he, ⟨rfl, rfl⟩, rfl⟩
      exact ⟨trivial, hmembers, he, rfl⟩
    · rintro ⟨-, hmembers, he, rfl⟩
      exact ⟨(), source, ⟨hmembers, rfl⟩, e, next, he, ⟨rfl, rfl⟩, rfl⟩
  | _ =>
    constructor
    · intro h
      exact absurd h Drawn.throw_ne_ok
    · rintro ⟨h, -⟩
      cases h

theorem challenge_eq_error {V V' : Verifier E} {claim : Claim E} {error : Error}
    (h : V.challenge G claim source = some ((.error error, V'), next)) :
    V' = .done ∧ (V = .ready ∧ G.validateAll claim.elements = .error error ∨
      V ≠ .ready ∧ error.IsOutOfOrder) := by
  unfold challenge at h
  obtain ⟨hrun, rfl⟩ := settleDrawn_eq_error.mp h
  refine ⟨rfl, ?_⟩
  split at hrun
  · simp only [Drawn.bind_eq_error, Drawn.except_eq_error, Drawn.draw_ne_error,
      Drawn.pure_ne_error, and_false, exists_false, or_false] at hrun
    exact .inl ⟨rfl, hrun.1⟩
  · next hstate =>
    obtain ⟨rfl, -⟩ := Drawn.throw_eq_error.mp hrun
    exact .inr ⟨hstate, Error.isOutOfOrder _ _⟩

/-- A new verifier answers a claim about members. -/
theorem challenge_answers {claim : Claim E} (hmembers : ∀ x ∈ claim.elements, G.Member x) :
    Answers (Verifier.ready.challenge G claim) source fun e V' _ =>
      e < G.order ∧ V' = .awaitingResponse claim e := by
  refine Answers.settleDrawn ?_
  refine Drawn.Succeeds.bindExcept (G.validateAll_eq_ok.mpr hmembers) ?_
  refine Drawn.Succeeds.bindDraw fun e middle he => ?_
  exact Drawn.Succeeds.pure ⟨randomScalar_lt he, rfl⟩

theorem verify_awaiting [DecidableEq E] (claim : Claim E) (e z : Nat) :
    (awaitingResponse claim e).verify G z = (.ok (decide (claim.Holds G e z)), .done) := rfl

theorem verify_eq_ok [DecidableEq E] {V V' : Verifier E} {z : Nat} {accepted : Bool} :
    V.verify G z = (.ok accepted, V') ↔
      ∃ claim e, V = .awaitingResponse claim e ∧ accepted = decide (claim.Holds G e z) ∧
        V' = .done := by
  unfold verify
  rw [settle_eq_ok]
  split
  · next claim e =>
    simp only [Except.ok.injEq, Prod.mk.injEq, awaitingResponse.injEq]
    constructor
    · rintro ⟨rfl, rfl⟩
      exact ⟨claim, e, ⟨rfl, rfl⟩, rfl, rfl⟩
    · rintro ⟨claim', e', ⟨rfl, rfl⟩, rfl, rfl⟩
      exact ⟨rfl, rfl⟩
  · next hstate =>
    constructor
    · intro h
      cases h
    · rintro ⟨claim, e, h, -⟩
      exact absurd h (hstate claim e)

theorem verify_eq_error [DecidableEq E] {V V' : Verifier E} {z : Nat} {error : Error}
    (h : V.verify G z = (.error error, V')) :
    V' = .done ∧ (∀ claim e, V ≠ .awaitingResponse claim e) ∧ error.IsOutOfOrder := by
  unfold verify at h
  obtain ⟨hrefused, rfl⟩ := settle_eq_error.mp h
  split at hrefused
  · cases hrefused
  · next hstate =>
    cases hrefused
    exact ⟨rfl, hstate, Error.isOutOfOrder _ _⟩

end Verifier

end AnonCred.Equality

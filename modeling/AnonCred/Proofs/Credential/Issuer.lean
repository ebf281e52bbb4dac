import AnonCred.Credential.Issuer
import AnonCred.Proofs.Credential.Ownership

/-!
# The issuer, call by call

What the issuer answers, and what an issuance looks like from its side: the commitments, the two
challenges and the two answers. All of it is determined by the key, the pseudonym, the challenges
and the two nonces.

* `Issuer.challenge_eq_ok`, `Issuer.verify_eq_ok`, `Issuer.respond_eq_ok` — the calls of the issuer
* `Issuer.challenge_eq_error`, `Issuer.verify_eq_error`, `Issuer.respond_eq_error` — why a call is
  refused, and what is left of the session
* `IssuerView.Honest.exists_nonces` — the view of an issuer that keeps to the protocol
-/

namespace AnonCred

open CyclicGroup

variable {E : Type} {G : CyclicGroup E} {source next : Source}

namespace Issuer

/-! ## The tags -/

/-- The tags and the commitments to two given nonces. -/
def commit (G : CyclicGroup E) (key : IssuerKey) (nym : Pseudonym E) (r1 r2 : Nat) :
    IssuanceCommitments E where
  x11 := G.power r1
  x12 := G.exp nym.b r1
  x21 := G.power r2
  x22 := G.exp (G.compose nym.a (G.exp nym.b key.s2)) r2
  a := G.exp nym.b key.s2
  b := G.exp (G.compose nym.a (G.exp nym.b key.s2)) key.s1

/-- The prover of the first tag after its commitment. -/
def firstProver (G : CyclicGroup E) (key : IssuerKey) (nym : Pseudonym E) (r : Nat) :
    Equality.Prover E :=
  ⟨key.s2, G.generator, nym.b, .committed r⟩

/-- The prover of the second tag after its commitment. -/
def secondProver (G : CyclicGroup E) (key : IssuerKey) (nym : Pseudonym E) (r : Nat) :
    Equality.Prover E :=
  ⟨key.s1, G.generator, G.compose nym.a (G.exp nym.b key.s2), .committed r⟩

theorem tag_eq_ok {key : IssuerKey} {nym : Pseudonym E} {c : IssuanceCommitments E}
    {first second : Equality.Prover E} :
    (tag G key nym).run source = some (.ok (c, first, second), next) ↔
      key.s1 < G.order ∧ key.s2 < G.order ∧ G.Member G.generator ∧ G.Member nym.b ∧
        G.Member (G.compose nym.a (G.exp nym.b key.s2)) ∧
        ∃ r1 r2 middle, G.randomScalar source = some (r1, middle) ∧
          G.randomScalar middle = some (r2, next) ∧ c = commit G key nym r1 r2 ∧
          first = firstProver G key nym r1 ∧ second = secondProver G key nym r2 := by
  unfold tag
  simp only [Drawn.bind_eq_ok, Drawn.except_eq_ok, Drawn.callDrawn_eq_ok, Drawn.pure_eq_ok,
    Equality.Prover.start_eq_ok, Equality.Prover.randomData_eq_ok, Prod.exists, Prod.mk.injEq]
  constructor
  · rintro ⟨_, _, ⟨⟨h2, hg, hb, rfl⟩, rfl⟩, _, _, ⟨⟨h1, -, htagged, rfl⟩, rfl⟩, _, _, _, middle,
      ⟨-, r1, hr1, hx1, rfl⟩, _, _, _, _, ⟨-, r2, hr2, hx2, rfl⟩, ⟨rfl, rfl, rfl⟩, rfl⟩
    cases hx1
    cases hx2
    exact ⟨h1, h2, hg, hb, htagged, r1, r2, middle, hr1, hr2, rfl, rfl, rfl⟩
  · rintro ⟨h1, h2, hg, hb, htagged, r1, r2, middle, hr1, hr2, rfl, rfl, rfl⟩
    exact ⟨_, _, ⟨⟨h2, hg, hb, rfl⟩, rfl⟩, _, _, ⟨⟨h1, hg, htagged, rfl⟩, rfl⟩, _, _, _, middle,
      ⟨rfl, r1, hr1, rfl, rfl⟩, _, _, _, _, ⟨rfl, r2, hr2, rfl, rfl⟩, ⟨rfl, rfl, rfl⟩, rfl⟩

/-- Keys in range and a pseudonym of members: the tags are made. -/
theorem tag_succeeds [Lawful G] {key : IssuerKey} (h1 : key.s1 < G.order) (h2 : key.s2 < G.order)
    (a b : G.Element) :
    Drawn.Succeeds (tag G key ⟨a, b⟩) source fun out _ => ∃ r1 r2,
      out = (commit G key ⟨a, b⟩ r1 r2, firstProver G key ⟨a, b⟩ r1,
        secondProver G key ⟨a, b⟩ r2) := by
  have hfirst := Equality.Prover.start_eq_ok.mpr ⟨h2, member_generator, b.member, rfl⟩
  have hsecond := Equality.Prover.start_eq_ok.mpr
    ⟨h1, member_generator, (a * b ^ key.s2).member, rfl⟩
  unfold tag
  refine Drawn.Succeeds.bindExcept hfirst ?_
  refine Drawn.Succeeds.bindExcept hsecond ?_
  refine (Equality.Prover.randomData_answers rfl).bindDrawn ?_
  rintro _ _ s1 ⟨r1, -, rfl, rfl⟩
  refine (Equality.Prover.randomData_answers rfl).bindDrawn ?_
  rintro _ _ s2 ⟨r2, -, rfl, rfl⟩
  exact Drawn.Succeeds.pure ⟨r1, r2, rfl⟩

/-- The same as an equation: two nonces are drawn, and nothing else can happen. -/
theorem tag_run [Lawful G] {key : IssuerKey} (h1 : key.s1 < G.order) (h2 : key.s2 < G.order)
    {nym : Pseudonym E} (ha : G.Member nym.a) (hb : G.Member nym.b) :
    (tag G key nym).run = (do
      let r1 ← G.randomScalar
      let r2 ← G.randomScalar
      pure (.ok (commit G key nym r1 r2,
        firstProver G key nym r1, secondProver G key nym r2))) := by
  have htagged : G.Member (G.compose nym.a (G.exp nym.b key.s2)) :=
    member_compose ha (G.member_exp hb _)
  funext source
  refine Option.ext fun ⟨outcome, next⟩ => ?_
  simp only [Draw.bind_eq_some, Draw.pure_eq_some]
  constructor
  · intro hrun
    obtain ⟨⟨c, first, second⟩, rfl, -⟩ :=
      tag_succeeds h1 h2 ⟨nym.a, ha⟩ ⟨nym.b, hb⟩ outcome next hrun
    obtain ⟨-, -, -, -, -, r1, r2, middle, hr1, hr2, rfl, rfl, rfl⟩ := tag_eq_ok.mp hrun
    exact ⟨r1, middle, hr1, r2, next, hr2, rfl, rfl⟩
  · rintro ⟨r1, middle, hr1, r2, after, hr2, rfl, rfl⟩
    exact tag_eq_ok.mpr ⟨h1, h2, member_generator, hb, htagged, r1, r2, middle, hr1, hr2, rfl, rfl,
      rfl⟩

/-! ## The calls -/

variable [DecidableEq E]

theorem challenge_eq_ok {I I' : Issuer E} {nym : Pseudonym E} {x : E} {e : Nat} :
    I.challenge G nym x source = some ((.ok e, I'), next) ↔
      nym.a ≠ G.identity ∧ nym.b ≠ G.identity ∧
        ∃ challenge verifier,
          I.verifier.challenge G nym.a nym.b x source = some ((.ok challenge, verifier), next) ∧
          e = challenge.e ∧ I' = { I with verifier, pending := some nym } :=
  Ownership.challenge_eq_ok

/-- The statement is refused and nothing changes, or the verifier refuses. -/
theorem challenge_eq_error {I I' : Issuer E} {nym : Pseudonym E} {x : E} {error : Error}
    (h : I.challenge G nym x source = some ((.error error, I'), next)) :
    (nym.a = G.identity ∨ nym.b = G.identity) ∧ (∃ what, error = .element (.isIdentity what)) ∧
        I' = I ∨
      nym.a ≠ G.identity ∧ nym.b ≠ G.identity ∧ ∃ verifier,
        I.verifier.challenge G nym.a nym.b x source = some ((.error error, verifier), next) ∧
        I' = { I with verifier } :=
  Ownership.challenge_eq_error h

/-- The issuer after its challenge. -/
def asked (key : IssuerKey) (nym : Pseudonym E) (x : E) (e : Nat) : Issuer E :=
  ⟨key, ⟨.sigma, .awaitingResponse none nym.a nym.b x e⟩, some nym, none⟩

/-- The issuer after the tags. -/
def served (G : CyclicGroup E) (key : IssuerKey) (nym : Pseudonym E) (r1 r2 : Nat) : Issuer E :=
  ⟨key, ⟨.sigma, .done⟩, none, some (firstProver G key nym r1, secondProver G key nym r2)⟩

/-- A new issuer answers the owner of a pseudonym without the identity. -/
theorem challenge_answers [Lawful G] (key : IssuerKey) {a b x : G.Element} (ha : a ≠ 1)
    (hb : b ≠ 1) :
    Answers ((start key : Issuer E).challenge G ⟨a, b⟩ x) source fun e I' _ =>
      e < G.order ∧ I' = asked key ⟨(a : E), b⟩ (x : E) e := by
  refine (Ownership.challenge_answers ha hb).mono ?_
  rintro e I' after ⟨he, rfl⟩
  exact ⟨randomScalar_lt he, rfl⟩

/-- For the owner's answer the tags are handed out, and nothing fails after the check. -/
theorem verify_asked [Lawful G] {key : IssuerKey} (h1 : key.s1 < G.order) (h2 : key.s2 < G.order)
    (nym : Pseudonym E) (ha : G.Member nym.a) (hb : G.Member nym.b) {x : E} {e z : Nat}
    (hz : z < G.order) (hresponds : G.Responds nym.a nym.b x e z) :
    (asked key nym x e).verify G z = (do
      let r1 ← G.randomScalar
      let r2 ← G.randomScalar
      pure (.ok (commit G key nym r1 r2), served G key nym r1 r2)) := by
  have haccepted := Knowledge.Verifier.verify_awaiting (G := G) nym.a nym.b x e ⟨z, none⟩
  rw [decide_eq_true ⟨hz, hresponds⟩] at haccepted
  unfold verify asked
  rw [Ownership.verify_of_accepted haccepted]
  dsimp only
  rw [tag_run h1 h2 ha hb]
  simp only [bind_assoc, pure_bind]
  rfl

/-- The issuer accepts the owner and hands out the tags. -/
theorem verify_answers [Lawful G] {key : IssuerKey} (h1 : key.s1 < G.order)
    (h2 : key.s2 < G.order) (a : G.Element) (w r e : Nat) :
    Answers ((asked key ⟨(a : E), G.exp a w⟩ (G.exp a r) e).verify G
      (Arith.response r e w G.order)) source
      fun c I' _ => ∃ r1 r2, c = commit G key ⟨a, G.exp a w⟩ r1 r2 ∧
        I' = served G key ⟨a, G.exp a w⟩ r1 r2 := by
  have hz : Arith.response r e w G.order < G.order := Nat.mod_lt _ order_pos
  have hresponds := Equality.Claim.responds_response a w r e
  rw [verify_asked h1 h2 ⟨a, G.exp a w⟩ a.member (a ^ w).member hz hresponds]
  refine Answers.bind fun r1 _ _ => Answers.bind fun r2 _ _ => ?_
  exact Answers.pure ⟨r1, r2, rfl, rfl⟩

theorem verify_eq_ok {I I' : Issuer E} {z : Nat} {c : IssuanceCommitments E} :
    I.verify G z source = some ((.ok c, I'), next) ↔
      ∃ nym first second, I.pending = some nym ∧ (I.verifier.verify G ⟨z, none⟩).1 = .ok true ∧
        (tag G I.key nym).run source = some (.ok (c, first, second), next) ∧
        I' = ⟨I.key, (I.verifier.verify G ⟨z, none⟩).2, none, some (first, second)⟩ := by
  unfold verify
  rw [Ownership.verify_eq_ok]
  constructor
  · rintro ⟨nym, hpending, hok, hserve⟩
    obtain ⟨outcome, middle, hrun, hrest⟩ := Draw.bind_eq_some.mp hserve
    rcases outcome with error | ⟨c', first, second⟩
    · cases (Draw.pure_eq_some.mp hrest).1
    · obtain ⟨hpair, rfl⟩ := Draw.pure_eq_some.mp hrest
      cases hpair
      exact ⟨nym, first, second, hpending, hok, hrun, rfl⟩
  · rintro ⟨nym, first, second, hpending, hok, hrun, rfl⟩
    exact ⟨nym, hpending, hok, Draw.bind_eq_some.mpr ⟨_, next, hrun, rfl⟩⟩

/-- Nothing is pending and nothing changes; or the verifier refuses, or it has waited and something
fails after its answer. -/
theorem verify_eq_error {I I' : Issuer E} {z : Nat} {error : Error}
    (h : I.verify G z source = some ((.error error, I'), next)) :
    I.pending = none ∧ error.IsOutOfOrder ∧ I' = I ∨
      ∃ nym, I.pending = some nym ∧
        I' = ⟨I.key, (I.verifier.verify G ⟨z, none⟩).2, none, I.provers⟩ ∧
        ((I.verifier.verify G ⟨z, none⟩).1 = .error error ∨
          ∃ accepted, (I.verifier.verify G ⟨z, none⟩).1 = .ok accepted) := by
  refine Ownership.verify_eq_error ?_ h
  intro nym session after hserve
  obtain ⟨outcome, middle, -, hrest⟩ := Draw.bind_eq_some.mp hserve
  rcases outcome with error' | ⟨c, provers⟩
  · exact (Prod.mk.inj (Draw.pure_eq_some.mp hrest).1).2.symm
  · cases (Draw.pure_eq_some.mp hrest).1

omit [DecidableEq E] in
theorem respond_eq_error {I I' : Issuer E} {e1 e2 : Nat} {error : Error}
    (h : I.respond G e1 e2 = (.error error, I')) :
    I' = { I with provers := none } ∧ (I.provers = none → error.IsOutOfOrder) := by
  unfold respond at h
  obtain ⟨hrefused, rfl⟩ := settle_eq_error.mp h
  refine ⟨rfl, fun hnone => ?_⟩
  rw [hnone] at hrefused
  cases hrefused
  exact Error.isOutOfOrder _ _

omit [DecidableEq E] in
theorem respond_eq_ok {I I' : Issuer E} {e1 e2 z1 z2 : Nat} :
    I.respond G e1 e2 = (.ok (z1, z2), I') ↔
      ∃ first second, I.provers = some (first, second) ∧ (first.respond G e1).1 = .ok z1 ∧
        (second.respond G e2).1 = .ok z2 ∧ I' = { I with provers := none } := by
  unfold respond
  rw [settle_eq_ok]
  rcases I.provers with _ | ⟨first, second⟩
  · constructor
    · intro h
      cases h
    · rintro ⟨_, _, h, -⟩
      cases h
  · simp only [except_bind_eq_ok, except_pure_eq_ok, Prod.mk.injEq]
    constructor
    · rintro ⟨z1', h1, z2', h2, ⟨rfl, rfl⟩, rfl⟩
      exact ⟨first, second, rfl, h1, h2, rfl⟩
    · rintro ⟨first', second', hpair, h1, h2, rfl⟩
      cases hpair
      exact ⟨z1, h1, z2, h2, ⟨rfl, rfl⟩, rfl⟩

omit [DecidableEq E] in
/-- Challenges in range are answered. -/
theorem respond_served {key : IssuerKey} (nym : Pseudonym E) (r1 r2 : Nat) {e1 e2 : Nat}
    (h1 : e1 < G.order) (h2 : e2 < G.order) :
    (served G key nym r1 r2).respond G e1 e2
      = (.ok (Arith.response r1 e1 key.s2 G.order, Arith.response r2 e2 key.s1 G.order),
        { served G key nym r1 r2 with provers := none }) := by
  refine respond_eq_ok.mpr ⟨_, _, rfl, ?_, ?_, rfl⟩
  · exact congrArg Prod.fst (Equality.Prover.respond_eq_ok.mpr ⟨r1, rfl, h1, rfl, rfl⟩)
  · exact congrArg Prod.fst (Equality.Prover.respond_eq_ok.mpr ⟨r2, rfl, h2, rfl, rfl⟩)

end Issuer

/-! ## The view of an issuance -/

/-- What is said between issuer and user once the user is accepted. -/
structure IssuerView (E : Type) where
  commitments : IssuanceCommitments E
  e1 : Nat
  e2 : Nat
  z1 : Nat
  z2 : Nat

/-- The view is one that an issuer with the key has of a whole session about the pseudonym. -/
def IssuerView.Honest [DecidableEq E] (G : CyclicGroup E) (key : IssuerKey) (nym : Pseudonym E)
    (view : IssuerView E) : Prop :=
  ∃ x e z, ∃ asked served ended : Issuer E,
    ((Issuer.start key).challenge G nym x).Possible (.ok e, asked) ∧
    (asked.verify G z).Possible (.ok view.commitments, served) ∧
    served.respond G view.e1 view.e2 = (.ok (view.z1, view.z2), ended)

/-- The view is determined by the key, the pseudonym, the two nonces and the challenges. -/
theorem IssuerView.Honest.exists_nonces [DecidableEq E] {key : IssuerKey} {nym : Pseudonym E}
    {view : IssuerView E} (h : view.Honest G key nym) :
    key.s1 < G.order ∧ key.s2 < G.order ∧ G.Member nym.a ∧ G.Member nym.b ∧
      view.e1 < G.order ∧ view.e2 < G.order ∧
      ∃ r1 r2, view.commitments = Issuer.commit G key nym r1 r2 ∧
        view.z1 = Arith.response r1 view.e1 key.s2 G.order ∧
        view.z2 = Arith.response r2 view.e2 key.s1 G.order := by
  obtain ⟨x, e, z, asked, served, ended, ⟨_, _, hchallenge⟩, ⟨_, _, hverify⟩, hrespond⟩ := h
  obtain ⟨-, -, challenge, verifier, hsent, -, rfl⟩ := Issuer.challenge_eq_ok.mp hchallenge
  obtain ⟨ha, hb, -⟩ := Knowledge.Verifier.challenge_eq_ok.mp hsent
  obtain ⟨nym', first, second, hnym, -, htag, rfl⟩ := Issuer.verify_eq_ok.mp hverify
  cases hnym
  obtain ⟨h1, h2, -, -, -, r1, r2, middle, -, -, hcommit, rfl, rfl⟩ := Issuer.tag_eq_ok.mp htag
  obtain ⟨first, second, hprovers, hz1, hz2, -⟩ := Issuer.respond_eq_ok.mp hrespond
  cases hprovers
  obtain ⟨_, hr1, he1, hz1, -⟩ :=
    Equality.Prover.respond_eq_ok.mp (Prod.ext hz1 rfl : (Issuer.firstProver G key nym r1).respond
      G view.e1 = (.ok view.z1, _))
  obtain ⟨_, hr2, he2, hz2, -⟩ :=
    Equality.Prover.respond_eq_ok.mp (Prod.ext hz2 rfl : (Issuer.secondProver G key nym r2).respond
      G view.e2 = (.ok view.z2, _))
  cases hr1
  cases hr2
  exact ⟨h1, h2, ha, hb, he1, he2, r1, r2, hcommit, hz1, hz2⟩

end AnonCred

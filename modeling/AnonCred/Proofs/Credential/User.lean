import AnonCred.Credential.User
import AnonCred.Proofs.Credential.Request

/-!
# The user's side of an issuance

The holder of a credential made five random choices while it was issued: the blinding exponent, and
two exponents for each of the two proofs. What it sent and what it holds is determined by them and
by what the issuer said.

* `User.pseudonym_eq_some` — what a pseudonym can be
* `holder_eq_ok` — a run of the holder is a draw of its choices and their `Outcome`
* `Outcome.credential_eq` — the credential of a run
* `Outcome.determined` — the choices can be read off the view of the issuer and the credential
-/

namespace AnonCred

open CyclicGroup Blinding

variable {E : Type} {G : CyclicGroup E} {source next : Source}

/-! ## Pseudonyms -/

theorem User.ofSecret_eq_ok {secret : Nat} {user : User} :
    ofSecret G secret = .ok user ↔ secret < G.order ∧ user = ⟨secret⟩ := by
  unfold ofSecret
  simp only [except_bind_eq_ok, except_pure_eq_ok, G.checkScalar_eq_ok]
  constructor
  · rintro ⟨⟨⟩, hlt, rfl⟩
    exact ⟨hlt, rfl⟩
  · rintro ⟨hlt, rfl⟩
    exact ⟨(), hlt, rfl⟩

/-- The base of a pseudonym is a power of the generator other than the identity. -/
theorem User.pseudonym_eq_some [DecidableEq E] [Lawful G] {user : User} {nym : Pseudonym E}
    (h : user.pseudonym G source = some (nym, next)) :
    ∃ k, (Element.gen ^ k : G.Element) ≠ 1 ∧
      nym = ⟨(Element.gen ^ k : G.Element), G.exp (Element.gen ^ k : G.Element) user.secret⟩ := by
  unfold pseudonym at h
  obtain ⟨a, middle, ha, hrest⟩ := Draw.bind_eq_some.mp h
  obtain ⟨rfl, rfl⟩ := Draw.pure_eq_some.mp hrest
  obtain ⟨haccept, before, hbefore⟩ := Draw.accepted_eq_some ha
  obtain ⟨k, -, rfl⟩ := randomElement_eq_some hbefore
  refine ⟨k, ?_, rfl⟩
  intro hone
  have hidentity : G.power k = G.identity := Element.coe_eq_identity.mpr hone
  simp [isIdentity, hidentity] at haccept

/-! ## The choices of the holder -/

/-- What the holder draws in one issuance: the blinding exponent, and two exponents for each of the
two proofs. -/
structure Coins where
  gamma : Nat
  alpha1 : Nat
  beta1 : Nat
  alpha2 : Nat
  beta2 : Nat

namespace Coins

def InRange (G : CyclicGroup E) (coins : Coins) : Prop :=
  (0 < coins.gamma ∧ coins.gamma < G.order) ∧ coins.alpha1 < G.order ∧ coins.beta1 < G.order ∧
    coins.alpha2 < G.order ∧ coins.beta2 < G.order

/-- The choices in the order in which they are drawn. -/
def draw (G : CyclicGroup E) : Draw Coins := do
  let gamma ← G.randomUnit
  let alpha1 ← G.randomScalar
  let beta1 ← G.randomScalar
  let alpha2 ← G.randomScalar
  let beta2 ← G.randomScalar
  pure ⟨gamma, alpha1, beta1, alpha2, beta2⟩

theorem draw_eq_some {coins : Coins} :
    draw G source = some (coins, next) ↔
      ∃ s0 s1 s2 s3, G.randomUnit source = some (coins.gamma, s0) ∧
        G.randomScalar s0 = some (coins.alpha1, s1) ∧ G.randomScalar s1 = some (coins.beta1, s2) ∧
        G.randomScalar s2 = some (coins.alpha2, s3) ∧
        G.randomScalar s3 = some (coins.beta2, next) := by
  unfold draw
  simp only [Draw.bind_eq_some, Draw.pure_eq_some]
  constructor
  · rintro ⟨_, s0, h0, _, s1, h1, _, s2, h2, _, s3, h3, _, _, h4, rfl, rfl⟩
    exact ⟨s0, s1, s2, s3, h0, h1, h2, h3, h4⟩
  · rintro ⟨s0, s1, s2, s3, h0, h1, h2, h3, h4⟩
    exact ⟨_, s0, h0, _, s1, h1, _, s2, h2, _, s3, h3, _, next, h4, rfl, rfl⟩

theorem inRange_of_draw {coins : Coins} (h : draw G source = some (coins, next)) :
    coins.InRange G := by
  obtain ⟨s0, s1, s2, s3, h0, h1, h2, h3, h4⟩ := draw_eq_some.mp h
  exact ⟨randomUnit_range h0, randomScalar_lt h1, randomScalar_lt h2, randomScalar_lt h3,
    randomScalar_lt h4⟩

/-- Every choice in range is drawn from some stream. -/
theorem InRange.possible {coins : Coins} (h : coins.InRange G) : (draw G).Possible coins := by
  obtain ⟨⟨hpos, h0⟩, h1, h2, h3, h4⟩ := h
  have hsteerable : (draw G).Steerable coins :=
    (steerable_unit hpos h0).bind <| (steerable_scalar h1).bind <| (steerable_scalar h2).bind <|
      (steerable_scalar h3).bind <| (steerable_scalar h4).bind (.pure coins)
  exact hsteerable.possible

end Coins

/-! ## The holder's side of an issuance -/

/-- A request starts with a blinding exponent in range. -/
theorem User.credentialRequest_succeeds (user : User) (nym : Pseudonym E)
    (issuer : IssuerPublicKey E) :
    Drawn.Succeeds (user.credentialRequest G nym issuer) source fun request _ =>
      ∃ gamma, 0 < gamma ∧ gamma < G.order ∧
        request = CredentialRequest.fresh nym issuer gamma := by
  refine Drawn.Succeeds.bindDraw fun gamma middle hgamma => ?_
  obtain ⟨hpos, hlt⟩ := randomUnit_range hgamma
  exact Drawn.Succeeds.except (CredentialRequest.ofGamma_eq_ok.mpr ⟨hpos, hlt, rfl⟩)
    ⟨gamma, hpos, hlt, rfl⟩

variable [DecidableEq E]

/-- What the holder sends to the issuer, and the credential it is left with, when the issuer says
`c` first and `z1` and `z2` at the end. -/
def holder (G : CyclicGroup E) (user : User) (nym : Pseudonym E) (issuer : IssuerPublicKey E)
    (c : IssuanceCommitments E) (z1 z2 : Nat) : Drawn ((Nat × Nat) × Credential E) := do
  let request ← user.credentialRequest G nym issuer
  let (challenges, request) ← callDrawn (request.challenges G c)
  let credential ← request.finish G z1 z2
  pure (challenges, credential)

section Holder

variable {user : User} {nym : Pseudonym E} {issuer : IssuerPublicKey E}
  {c : IssuanceCommitments E} {e1 e2 z1 z2 : Nat} {credential : Credential E} {coins : Coins}

/-- The two claims of the issuer, blinded by the choices. -/
def Coins.first (G : CyclicGroup E) (coins : Coins) (nym : Pseudonym E)
    (issuer : IssuerPublicKey E) (c : IssuanceCommitments E) : Pending E :=
  .blind G coins.gamma ⟨G.generator, nym.b, issuer.h2, c.a, c.x11, c.x12⟩ coins.alpha1 coins.beta1

@[inherit_doc Coins.first]
def Coins.second (G : CyclicGroup E) (coins : Coins) (nym : Pseudonym E)
    (issuer : IssuerPublicKey E) (c : IssuanceCommitments E) : Pending E :=
  .blind G coins.gamma ⟨G.generator, G.compose nym.a c.a, issuer.h1, c.b, c.x21, c.x22⟩
    coins.alpha2 coins.beta2

/-- Where the choices lead: the challenges and the credential. -/
structure Outcome (G : CyclicGroup E) (nym : Pseudonym E) (issuer : IssuerPublicKey E)
    (c : IssuanceCommitments E) (z1 z2 : Nat) (coins : Coins) (e1 e2 : Nat)
    (credential : Credential E) : Prop where
  members1 : ∀ x ∈ [G.generator, nym.b, issuer.h2, c.a, c.x11, c.x12], G.Member x
  members2 : ∀ x ∈ [G.generator, G.compose nym.a c.a, issuer.h1, c.b, c.x21, c.x22], G.Member x
  challenge1 : e1 = (coins.first G nym issuer c).e
  challenge2 : e2 = (coins.second G nym issuer c).e
  finish : (CredentialRequest.awaiting nym issuer coins.gamma (coins.first G nym issuer c)
    (coins.second G nym issuer c)).finish G z1 z2 = .ok credential

/-- A run of the holder is a draw of its choices and where they lead. -/
theorem holder_eq_ok :
    (holder G user nym issuer c z1 z2).run source = some (.ok ((e1, e2), credential), next) ↔
      ∃ coins, Coins.draw G source = some (coins, next) ∧
        Outcome G nym issuer c z1 z2 coins e1 e2 credential := by
  unfold holder User.credentialRequest
  simp only [Drawn.bind_eq_ok, Drawn.draw_eq_ok, Drawn.except_eq_ok, Drawn.callDrawn_eq_ok,
    Drawn.pure_eq_ok, CredentialRequest.ofGamma_eq_ok, Coins.draw_eq_some, Prod.exists,
    Prod.mk.injEq]
  constructor
  · rintro ⟨request, s0, ⟨gamma, s0', hgamma, ⟨hpos, hlt, rfl⟩, rfl⟩, _, _, request', s4,
      hchallenges, credential', s5, ⟨hfinish, rfl⟩, ⟨⟨rfl, rfl⟩, rfl⟩, rfl⟩
    obtain ⟨hm1, hm2, alpha1, beta1, alpha2, beta2, s1, s2, s3, h1, h2, h3, h4, he1, he2, rfl⟩ :=
      CredentialRequest.challenges_eq_ok.mp hchallenges
    exact ⟨⟨gamma, alpha1, beta1, alpha2, beta2⟩, ⟨s0', s1, s2, s3, hgamma, h1, h2, h3, h4⟩,
      hm1, hm2, he1, he2, hfinish⟩
  · rintro ⟨coins, ⟨s0, s1, s2, s3, h0, h1, h2, h3, h4⟩, hm1, hm2, he1, he2, hfinish⟩
    obtain ⟨hpos, hlt⟩ := randomUnit_range h0
    exact ⟨_, s0, ⟨coins.gamma, s0, h0, ⟨hpos, hlt, rfl⟩, rfl⟩, e1, e2, _, next,
      CredentialRequest.challenges_eq_ok.mpr ⟨hm1, hm2, _, _, _, _, s1, s2, s3, h1, h2, h3, h4,
        he1, he2, rfl⟩, credential, next, ⟨hfinish, rfl⟩, ⟨⟨rfl, rfl⟩, rfl⟩, rfl⟩

/-- Both claims held, and the credential is made of them. -/
theorem Outcome.credential_eq [Lawful G] (h : Outcome G nym issuer c z1 z2 coins e1 e2 credential) :
    credential = CredentialRequest.credential G nym coins.gamma (coins.first G nym issuer c)
      (coins.second G nym issuer c) z1 z2 ∧ credential.ValidFor G issuer := by
  have hstep : (CredentialRequest.awaiting nym issuer coins.gamma (coins.first G nym issuer c)
      (coins.second G nym issuer c)).finish G z1 z2 = _ :=
    CredentialRequest.finish_of_challenges h.members1 h.members2 rfl rfl z1 z2
  have hfinish := hstep.symm.trans h.finish
  split at hfinish
  · next hboth =>
    cases hfinish
    exact ⟨rfl, CredentialRequest.credential_validFor h.members1 h.members2 rfl rfl hboth.1
      hboth.2⟩
  · cases hfinish

/-- What the choices were can be read off the credential and the challenges. -/
theorem Outcome.reads [Lawful G] (h : Outcome G nym issuer c z1 z2 coins e1 e2 credential) :
    credential.base = G.exp nym.a coins.gamma ∧
      credential.t1.zAlpha = Arith.addMod z1 coins.alpha1 G.order ∧
      credential.t2.zAlpha = Arith.addMod z2 coins.alpha2 G.order ∧
      e1 = Arith.addMod credential.t1.hash coins.beta1 G.order ∧
      e2 = Arith.addMod credential.t2.hash coins.beta2 G.order := by
  obtain ⟨rfl, -⟩ := h.credential_eq
  obtain ⟨hhash1, hhash2⟩ := CredentialRequest.credential_hash G nym coins.gamma
    (coins.first G nym issuer c) (coins.second G nym issuer c) z1 z2
  rw [hhash1, hhash2]
  exact ⟨rfl, rfl, rfl, h.challenge1.trans (Pending.blind_e coins.gamma _ coins.alpha1 coins.beta1),
    h.challenge2.trans (Pending.blind_e coins.gamma _ coins.alpha2 coins.beta2)⟩

/-- No two choices have one outcome, where the base of the pseudonym has prime order. -/
theorem Outcome.determined [Lawful G] (hq : G.order.Prime) {a : G.Element} (ha : a ≠ 1)
    (hnym : nym.a = a) {coins' : Coins} (hrange : coins.InRange G) (hrange' : coins'.InRange G)
    (h : Outcome G nym issuer c z1 z2 coins e1 e2 credential)
    (h' : Outcome G nym issuer c z1 z2 coins' e1 e2 credential) : coins = coins' := by
  obtain ⟨hbase, hz1, hz2, he1, he2⟩ := h.reads
  obtain ⟨hbase', hz1', hz2', he1', he2'⟩ := h'.reads
  obtain ⟨⟨-, hgamma⟩, halpha1, hbeta1, halpha2, hbeta2⟩ := hrange
  obtain ⟨⟨-, hgamma'⟩, halpha1', hbeta1', halpha2', hbeta2'⟩ := hrange'
  have hpow : a ^ coins.gamma = a ^ coins'.gamma := by
    rw [hnym] at hbase hbase'
    exact Element.ext (hbase.symm.trans hbase')
  have hsame := (Element.pow_eq_pow_iff hq ha).mp hpow
  rcases coins with ⟨gamma, alpha1, beta1, alpha2, beta2⟩
  rcases coins' with ⟨gamma', alpha1', beta1', alpha2', beta2'⟩
  rw [Coins.mk.injEq]
  exact ⟨hsame.eq_of_lt_of_lt hgamma hgamma', addMod_inj halpha1 halpha1' (hz1.symm.trans hz1'),
    addMod_inj hbeta1 hbeta1' (he1.symm.trans he1'),
    addMod_inj halpha2 halpha2' (hz2.symm.trans hz2'),
    addMod_inj hbeta2 hbeta2' (he2.symm.trans he2')⟩

end Holder

end AnonCred

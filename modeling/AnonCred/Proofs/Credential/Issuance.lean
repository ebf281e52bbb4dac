import AnonCred.Proofs.Credential.Issuer
import AnonCred.Proofs.Credential.User

/-!
# What an honest issuer issues

With an honest issuer a request always finishes, whatever both sides draw and whatever the key is.
The credential that it finishes with has one form: the powers of one member by the user's secret
and by the key, with two valid transcripts.

* `Credential.Issued` — the form of an issued credential
* `issued_of_outcome` — the credential of a run with an honest issuer has this form
* `CredentialRequest.challenges_answered` — a request to an honest issuer finishes
-/

namespace AnonCred

open CyclicGroup Blinding

variable {E : Type} [DecidableEq E] {G : CyclicGroup E}

/-- A credential of an honest issuer: the powers of one member by the user's secret and the
issuer's, and two valid transcripts. -/
structure Credential.Issued (G : CyclicGroup E) [Lawful G] (key : IssuerKey) (w : Nat)
    (u : G.Element) (c : Credential E) : Prop where
  base : c.base = u
  value : c.value = (u ^ w : G.Element)
  tagA : c.tagA = ((u ^ w) ^ key.s2 : G.Element)
  tagB : c.tagB = ((u * (u ^ w) ^ key.s2) ^ key.s1 : G.Element)
  members1 : G.Member c.t1.a ∧ G.Member c.t1.b
  members2 : G.Member c.t2.a ∧ G.Member c.t2.b
  reduced1 : c.t1.zAlpha < G.order
  reduced2 : c.t2.zAlpha < G.order
  valid : c.ValidFor G (key.publicKey G)

variable [Lawful G] {key : IssuerKey} {a : G.Element} {w r1 r2 e1 e2 z1 z2 : Nat}
  {credential : Credential E} {coins : Coins}

omit [DecidableEq E] in
/-- What an honest issuer claims is about members. -/
theorem commit_members (key : IssuerKey) (a : G.Element) (w r1 r2 : Nat) :
    (∀ x ∈ [G.generator, G.exp a w, (key.publicKey G).h2,
        (Issuer.commit G key ⟨a, G.exp a w⟩ r1 r2).a,
        (Issuer.commit G key ⟨a, G.exp a w⟩ r1 r2).x11,
        (Issuer.commit G key ⟨a, G.exp a w⟩ r1 r2).x12], G.Member x) ∧
      ∀ x ∈ [G.generator, G.compose a (Issuer.commit G key ⟨a, G.exp a w⟩ r1 r2).a,
        (key.publicKey G).h1, (Issuer.commit G key ⟨a, G.exp a w⟩ r1 r2).b,
        (Issuer.commit G key ⟨a, G.exp a w⟩ r1 r2).x21,
        (Issuer.commit G key ⟨a, G.exp a w⟩ r1 r2).x22], G.Member x := by
  constructor
  · exact Equality.Claim.mem_elements (Element.gen : G.Element) (a ^ w) (Element.gen ^ key.s2)
      ((a ^ w) ^ key.s2) (Element.gen ^ r1) ((a ^ w) ^ r1)
  · exact Equality.Claim.mem_elements (Element.gen : G.Element) (a * (a ^ w) ^ key.s2)
      (Element.gen ^ key.s1) ((a * (a ^ w) ^ key.s2) ^ key.s1) (Element.gen ^ r2)
      ((a * (a ^ w) ^ key.s2) ^ r2)

omit [DecidableEq E] in
/-- A valid credential that is made of the tags of an honest issuer. -/
theorem issued_credential {first second : Pending E} {gamma alpha1 beta1 alpha2 beta2 : Nat}
    (hfirst : first = .blind G gamma ((CredentialRequest.fresh ⟨(a : E), G.exp a w⟩
      (key.publicKey G) gamma).firstClaim G (Issuer.commit G key ⟨a, G.exp a w⟩ r1 r2)) alpha1
      beta1)
    (hsecond : second = .blind G gamma ((CredentialRequest.fresh ⟨(a : E), G.exp a w⟩
      (key.publicKey G) gamma).secondClaim G (Issuer.commit G key ⟨a, G.exp a w⟩ r1 r2)) alpha2
      beta2)
    (hvalid : (CredentialRequest.credential G ⟨a, G.exp a w⟩ gamma first second z1 z2).ValidFor G
      (key.publicKey G)) :
    (CredentialRequest.credential G ⟨a, G.exp a w⟩ gamma first second z1 z2).Issued G key w
      (a ^ gamma) := by
  obtain ⟨hmembers1, hmembers2⟩ := commit_members key a w r1 r2
  subst hfirst hsecond
  refine ⟨rfl, ?_, ?_, ?_, Pending.member_blind hmembers1, Pending.member_blind hmembers2,
    Nat.mod_lt _ order_pos, Nat.mod_lt _ order_pos, hvalid⟩
  · show (((a ^ w) ^ gamma : G.Element) : E) = _
    rw [pow_right_comm]
  · show ((((a ^ w) ^ key.s2) ^ gamma : G.Element) : E) = _
    rw [pow_right_comm _ key.s2, pow_right_comm a]
  · show ((((a * (a ^ w) ^ key.s2) ^ key.s1) ^ gamma : G.Element) : E) = _
    rw [pow_right_comm _ key.s1, mul_pow, pow_right_comm _ key.s2, pow_right_comm a]

/-- The credential of a run with an honest issuer. -/
theorem issued_of_outcome
    (h : Outcome G ⟨a, G.exp a w⟩ (key.publicKey G) (Issuer.commit G key ⟨a, G.exp a w⟩ r1 r2)
      z1 z2 coins e1 e2 credential) :
    credential.Issued G key w (a ^ coins.gamma) := by
  obtain ⟨rfl, hvalid⟩ := h.credential_eq
  exact issued_credential rfl rfl hvalid

/-- What a request sends to an honest issuer is in range, and with the answers to it the request
finishes. -/
theorem CredentialRequest.challenges_answered {source : Source} (key : IssuerKey) (a : G.Element)
    (w r1 r2 gamma : Nat) :
    Answers ((fresh ⟨(a : E), G.exp a w⟩ (key.publicKey G) gamma).challenges G
      (Issuer.commit G key ⟨a, G.exp a w⟩ r1 r2)) source fun es Q' _ =>
        es.1 < G.order ∧ es.2 < G.order ∧ ∃ credential,
          Q'.finish G (Arith.response r1 es.1 key.s2 G.order)
            (Arith.response r2 es.2 key.s1 G.order) = .ok credential ∧
          credential.Issued G key w (a ^ gamma) := by
  obtain ⟨hmembers1, hmembers2⟩ := commit_members key a w r1 r2
  refine Answers.mono (challenges_answers hmembers1 hmembers2) ?_
  rintro _ _ next ⟨alpha1, beta1, alpha2, beta2, rfl, rfl⟩
  refine ⟨Pending.blind_e_lt _ _ _ _, Pending.blind_e_lt _ _ _ _, ?_⟩
  -- the blinded claims under names of their own, so that nothing looks into their hashes
  obtain ⟨first, hfirst⟩ : ∃ first, first = Pending.blind G gamma
    ((fresh ⟨(a : E), G.exp a w⟩ (key.publicKey G) gamma).firstClaim G
      (Issuer.commit G key ⟨a, G.exp a w⟩ r1 r2)) alpha1 beta1 := ⟨_, rfl⟩
  obtain ⟨second, hsecond⟩ : ∃ second, second = Pending.blind G gamma
    ((fresh ⟨(a : E), G.exp a w⟩ (key.publicKey G) gamma).secondClaim G
      (Issuer.commit G key ⟨a, G.exp a w⟩ r1 r2)) alpha2 beta2 := ⟨_, rfl⟩
  have hholds1 : first.claim.Holds G first.e (Arith.response r1 first.e key.s2 G.order) := by
    have hclaim : first.claim = ⟨(Element.gen : G.Element), (a ^ w : G.Element), G.power key.s2,
        G.exp (G.exp a w) key.s2, G.power r1, G.exp (G.exp a w) r1⟩ := by
      rw [hfirst]
      rfl
    rw [hclaim]
    exact Equality.Claim.holds_response Element.gen (a ^ w) key.s2 r1 first.e
  have hholds2 : second.claim.Holds G second.e (Arith.response r2 second.e key.s1 G.order) := by
    have hclaim : second.claim = ⟨(Element.gen : G.Element), (a * (a ^ w) ^ key.s2 : G.Element),
        G.power key.s1, G.exp (a * (a ^ w) ^ key.s2 : G.Element) key.s1, G.power r2,
        G.exp (a * (a ^ w) ^ key.s2 : G.Element) r2⟩ := by
      rw [hsecond]
      rfl
    rw [hclaim]
    exact Equality.Claim.holds_response Element.gen (a * (a ^ w) ^ key.s2) key.s1 r2 second.e
  rw [← hfirst, ← hsecond]
  have hfinish := finish_of_challenges hmembers1 hmembers2 hfirst hsecond
    (Arith.response r1 first.e key.s2 G.order) (Arith.response r2 second.e key.s1 G.order)
  rw [if_pos ⟨hholds1, hholds2⟩] at hfinish
  have hvalid := credential_validFor hmembers1 hmembers2 hfirst hsecond hholds1 hholds2
  exact ⟨_, hfinish, issued_credential hfirst hsecond hvalid⟩

end AnonCred

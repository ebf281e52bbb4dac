import AnonCred.Proofs.Credential.Issuance

/-!
# An issuer cannot link what it issued

What an issuer saw of an issuance fits every credential that it issued to the same user: there is
exactly one choice of the holder that leads from that view to that credential. The exponent `γ` is
found from the base of the credential, and each `α` and `β` from the answers and the hashes.

* `outcome_of_issued` — the choices that lead from a view to a credential
* `unique_coins` — there is exactly one such choice
-/

namespace AnonCred

open CyclicGroup Blinding

variable {E : Type} [DecidableEq E] {G : CyclicGroup E}

section Honest

variable [Lawful G] {key : IssuerKey} {a : G.Element} {w r1 r2 e1 e2 : Nat}
  {credential : Credential E} {coins : Coins}

/-- Choices that fit a credential and the view of an issuance lead from the view to it. -/
theorem outcome_of_issued {u : G.Element} (hissued : credential.Issued G key w u)
    (hgamma : a ^ coins.gamma = u) (he1 : e1 < G.order) (he2 : e2 < G.order)
    (halpha1 : Arith.response r1 e1 key.s2 G.order + coins.alpha1
      ≡ credential.t1.zAlpha [MOD G.order])
    (hbeta1 : credential.t1.hash + coins.beta1 ≡ e1 [MOD G.order])
    (halpha2 : Arith.response r2 e2 key.s1 G.order + coins.alpha2
      ≡ credential.t2.zAlpha [MOD G.order])
    (hbeta2 : credential.t2.hash + coins.beta2 ≡ e2 [MOD G.order]) :
    Outcome G ⟨a, G.exp a w⟩ (key.publicKey G) (Issuer.commit G key ⟨a, G.exp a w⟩ r1 r2)
      (Arith.response r1 e1 key.s2 G.order) (Arith.response r2 e2 key.s1 G.order) coins e1 e2
      credential := by
  have hvalue : credential.value = ((a ^ w) ^ coins.gamma : G.Element) := by
    rw [hissued.value, ← hgamma, pow_right_comm]
  have htagA : credential.tagA = (((a ^ w) ^ key.s2) ^ coins.gamma : G.Element) := by
    rw [hissued.tagA, ← hgamma, pow_right_comm _ key.s2, pow_right_comm a]
  have hbase : G.compose credential.base credential.tagA
      = ((a * (a ^ w) ^ key.s2) ^ coins.gamma : G.Element) := by
    rw [hissued.base, htagA, ← hgamma, mul_pow, Element.coe_mul]
  have htagB : credential.tagB
      = (((a * (a ^ w) ^ key.s2) ^ key.s1) ^ coins.gamma : G.Element) := by
    have hpower : u * (u ^ w) ^ key.s2 = (a * (a ^ w) ^ key.s2) ^ coins.gamma := by
      rw [← hgamma, mul_pow, pow_right_comm _ key.s2, pow_right_comm a]
    rw [hissued.tagB, hpower, pow_right_comm]
  -- both claims of the issuer hold, and both transcripts are valid for their powers
  obtain ⟨hvalid1, hvalid2⟩ := hissued.valid
  rw [hvalue, htagA] at hvalid1
  rw [hbase, htagB] at hvalid2
  have hfirst : coins.first G ⟨a, G.exp a w⟩ (key.publicKey G)
      (Issuer.commit G key ⟨a, G.exp a w⟩ r1 r2) = _ :=
    Pending.blind_of_response Element.gen (a ^ w) key.s2 r1 hissued.members1 hvalid1
    he1 halpha1 hbeta1
  have hsecond : coins.second G ⟨a, G.exp a w⟩ (key.publicKey G)
      (Issuer.commit G key ⟨a, G.exp a w⟩ r1 r2) = _ :=
    Pending.blind_of_response Element.gen (a * (a ^ w) ^ key.s2) key.s1 r2
    hissued.members2 hvalid2 he2 halpha2 hbeta2
  have hholds1 := Equality.Claim.holds_response (Element.gen : G.Element) (a ^ w) key.s2 r1 e1
  have hholds2 := Equality.Claim.holds_response (Element.gen : G.Element)
    (a * (a ^ w) ^ key.s2) key.s1 r2 e2
  obtain ⟨hmembers1, hmembers2⟩ := commit_members key a w r1 r2
  refine ⟨hmembers1, hmembers2, (congrArg Pending.e hfirst).symm, (congrArg Pending.e hsecond).symm,
    ?_⟩
  have hcredential : CredentialRequest.credential G ⟨a, G.exp a w⟩ coins.gamma
      (coins.first G ⟨a, G.exp a w⟩ (key.publicKey G) (Issuer.commit G key ⟨a, G.exp a w⟩ r1 r2))
      (coins.second G ⟨a, G.exp a w⟩ (key.publicKey G) (Issuer.commit G key ⟨a, G.exp a w⟩ r1 r2))
      (Arith.response r1 e1 key.s2 G.order) (Arith.response r2 e2 key.s1 G.order)
      = credential := by
    rw [hfirst, hsecond]
    unfold CredentialRequest.credential
    rw [Pending.unblind_transcript _ _ halpha1 hissued.reduced1,
      Pending.unblind_transcript _ _ halpha2 hissued.reduced2]
    rcases credential with ⟨base, value, tagA, tagB, t1, t2⟩
    rw [Credential.mk.injEq]
    exact ⟨(congrArg Subtype.val hgamma).trans hissued.base.symm, hvalue.symm, htagA.symm,
      htagB.symm, rfl, rfl⟩
  rw [CredentialRequest.finish_awaiting, hcredential, if_pos hissued.valid, hfirst, hsecond,
    if_pos ⟨hholds1, hholds2⟩]

/-- Every credential of the issuer for the user fits every view of an honest issuance to the same
user, if only the bases are powers of one another. -/
theorem exists_outcome {u : G.Element} (hissued : credential.Issued G key w u) (hu : u ≠ 1)
    {gamma : Nat} (hlt : gamma < G.order) (hgamma : a ^ gamma = u) (r1 r2 : Nat)
    (he1 : e1 < G.order) (he2 : e2 < G.order) :
    ∃ coins : Coins, coins.InRange G ∧
      Outcome G ⟨a, G.exp a w⟩ (key.publicKey G) (Issuer.commit G key ⟨a, G.exp a w⟩ r1 r2)
        (Arith.response r1 e1 key.s2 G.order) (Arith.response r2 e2 key.s1 G.order) coins e1 e2
        credential := by
  have hpos : 0 < gamma := by
    refine Nat.pos_of_ne_zero fun hzero => hu ?_
    rw [← hgamma, hzero, pow_zero]
  have hq : 0 < G.order := order_pos
  obtain ⟨alpha1, ha1, halpha1⟩ := exists_add_modEq hq
    (Arith.response r1 e1 key.s2 G.order) credential.t1.zAlpha
  obtain ⟨beta1, hb1, hbeta1⟩ := exists_add_modEq hq credential.t1.hash e1
  obtain ⟨alpha2, ha2, halpha2⟩ := exists_add_modEq hq
    (Arith.response r2 e2 key.s1 G.order) credential.t2.zAlpha
  obtain ⟨beta2, hb2, hbeta2⟩ := exists_add_modEq hq credential.t2.hash e2
  exact ⟨⟨gamma, alpha1, beta1, alpha2, beta2⟩, ⟨⟨hpos, hlt⟩, ha1, hb1, ha2, hb2⟩,
    outcome_of_issued hissued hgamma he1 he2 halpha1 hbeta1 halpha2 hbeta2⟩

end Honest

/-! ## Unlinkability -/

/-- Two issuances to one user by one honest issuer, over a group of prime order: the view of the
first and the credential of the second determine one choice of the holder's exponents with which
the first issuance would have sent the same challenges and ended with that credential. -/
theorem unique_coins {p q g : Nat} {S : SchnorrGroup} (hS : SchnorrGroup.ofParams p q g = .ok S)
    (hq : q.Prime) {user : User} {nym nym' : Pseudonym Nat}
    (hnym : (user.pseudonym S.group).Possible nym) (hnym' : (user.pseudonym S.group).Possible nym')
    {key : IssuerKey} {view view' : IssuerView Nat} (hview : view.Honest S.group key nym)
    (hview' : view'.Honest S.group key nym') {credential : Credential Nat}
    (hissued : (holder S.group user nym' (key.publicKey S.group) view'.commitments view'.z1
      view'.z2).run.Possible (.ok ((view'.e1, view'.e2), credential))) :
    ∃! coins : Coins, coins.InRange S.group ∧
      ∀ source next, Coins.draw S.group source = some (coins, next) →
        (holder S.group user nym (key.publicKey S.group) view.commitments view.z1 view.z2).run
          source = some (.ok ((view.e1, view.e2), credential), next) := by
  have := SchnorrGroup.lawful_of_ofParams hS
  rw [← SchnorrGroup.order_of_ofParams hS] at hq
  obtain ⟨source, next, hsource⟩ := hnym
  obtain ⟨k, ha, rfl⟩ := User.pseudonym_eq_some hsource
  obtain ⟨source', next', hsource'⟩ := hnym'
  obtain ⟨k', ha', rfl⟩ := User.pseudonym_eq_some hsource'
  obtain ⟨-, -, -, -, he1, he2, r1, r2, hcommit, hz1, hz2⟩ := hview.exists_nonces
  obtain ⟨-, -, -, -, -, -, r1', r2', hcommit', -, -⟩ := hview'.exists_nonces
  -- the credential, and the exponent that takes the base of the first pseudonym to its base
  obtain ⟨_, _, hrun⟩ := hissued
  rw [hcommit'] at hrun
  obtain ⟨coins', hdraw', houtcome'⟩ := holder_eq_ok.mp hrun
  obtain ⟨⟨hpos', hlt'⟩, -⟩ := Coins.inRange_of_draw hdraw'
  have hcredential := issued_of_outcome houtcome'
  have hbase := Element.pow_ne_one hq ha' hpos' hlt'
  obtain ⟨gamma, hlt, hgamma⟩ := Element.exists_pow_pow_eq hq ha (k' * coins'.gamma)
  rw [pow_mul Element.gen k'] at hgamma
  obtain ⟨coins, hrange, houtcome⟩ := exists_outcome hcredential hbase hlt hgamma r1 r2 he1 he2
  rw [hcommit, hz1, hz2]
  refine ⟨coins, ⟨hrange, fun source next hdraw => holder_eq_ok.mpr ⟨coins, hdraw, houtcome⟩⟩, ?_⟩
  rintro other ⟨hother, hleads⟩
  obtain ⟨source, next, hdraw⟩ := hother.possible
  obtain ⟨same, hsame, houtcome'⟩ := holder_eq_ok.mp (hleads source next hdraw)
  have : same = other := by
    rw [hdraw] at hsame
    cases hsame
    rfl
  subst this
  exact Outcome.determined hq ha rfl hother hrange houtcome' houtcome

/-- Two pseudonyms of one user over the squares modulo 23, and an issuance for each. -/
theorem unique_coins_squares23 :
    ∃ credential : Credential Nat, ∃! coins : Coins, coins.InRange SchnorrGroup.squares23.group ∧
      ∀ source next, Coins.draw SchnorrGroup.squares23.group source = some (coins, next) →
        (holder SchnorrGroup.squares23.group ⟨5⟩ ⟨18, 3⟩ ⟨16, 18⟩ ⟨18, 4, 18, 4, 4, 9⟩ 7 6).run
          source = some (.ok ((5, 7), credential), next) := by
  have hnym : ((User.mk 5).pseudonym SchnorrGroup.squares23.group).Possible ⟨18, 3⟩ :=
    Draw.possible_of_map ⟨fun _ => 0x35, 0, 1⟩ (by decide +kernel)
  have hnym' : ((User.mk 5).pseudonym SchnorrGroup.squares23.group).Possible ⟨4, 12⟩ :=
    Draw.possible_of_map ⟨fun _ => 0x15, 0, 1⟩ (by decide +kernel)
  have hview : (IssuerView.mk ⟨18, 4, 18, 4, 4, 9⟩ 5 7 7 6).Honest
      SchnorrGroup.squares23.group ⟨2, 3⟩ ⟨18, 3⟩ := by
    refine ⟨13, 3, 7, ⟨⟨2, 3⟩, ⟨.sigma, .awaitingResponse none 18 3 13 3⟩, some ⟨18, 3⟩, none⟩,
      ⟨⟨2, 3⟩, ⟨.sigma, .done⟩, none, some (⟨3, 4, 3, .committed 3⟩, ⟨2, 4, 3, .committed 3⟩)⟩,
      ⟨⟨2, 3⟩, ⟨.sigma, .done⟩, none, none⟩, ?_, ?_, by decide +kernel⟩
    · exact Draw.possible_of_map ⟨fun _ => 0x35, 0, 1⟩ (by decide +kernel)
    · exact Draw.possible_of_map ⟨fun _ => 0x35, 0, 1⟩ (by decide +kernel)
  have hview' : (IssuerView.mk ⟨18, 3, 18, 3, 3, 6⟩ 8 8 5 8).Honest
      SchnorrGroup.squares23.group ⟨2, 3⟩ ⟨4, 12⟩ := by
    refine ⟨18, 3, 7, ⟨⟨2, 3⟩, ⟨.sigma, .awaitingResponse none 4 12 18 3⟩, some ⟨4, 12⟩, none⟩,
      ⟨⟨2, 3⟩, ⟨.sigma, .done⟩, none,
        some (⟨3, 4, 12, .committed 3⟩, ⟨2, 4, 12, .committed 3⟩)⟩,
      ⟨⟨2, 3⟩, ⟨.sigma, .done⟩, none, none⟩, ?_, ?_, by decide +kernel⟩
    · exact Draw.possible_of_map ⟨fun _ => 0x35, 0, 1⟩ (by decide +kernel)
    · exact Draw.possible_of_map ⟨fun _ => 0x35, 0, 1⟩ (by decide +kernel)
  have hmembers1 : ∀ x ∈ [4, 12, 18, 3, 18, 3], SchnorrGroup.squares23.group.Member x := by
    decide +kernel
  have hmembers2 : ∀ x ∈ [4, 12, 16, 6, 18, 3], SchnorrGroup.squares23.group.Member x := by
    decide +kernel
  have := SchnorrGroup.lawful_of_ofParams SchnorrGroup.ofParams_squares23
  have hrun : ∃ credential, (holder SchnorrGroup.squares23.group ⟨5⟩ ⟨4, 12⟩ ⟨16, 18⟩
      ⟨18, 3, 18, 3, 3, 6⟩ 5 8).run.Possible (.ok ((8, 8), credential)) := by
    refine ⟨_, ⟨fun _ => 0x35, 0, 1⟩, _, holder_eq_ok.mpr ⟨⟨3, 3, 3, 3, 3⟩,
      Coins.draw_eq_some.mpr ⟨_, _, _, _, rfl, rfl, rfl, rfl, rfl⟩, hmembers1, hmembers2, ?_, ?_,
      (CredentialRequest.finish_of_challenges hmembers1 hmembers2 rfl rfl 5 8).trans
        (if_pos ?_)⟩⟩
    · decide +kernel
    · decide +kernel
    · decide +kernel
  have hkey : (IssuerKey.mk 2 3).publicKey SchnorrGroup.squares23.group = ⟨16, 18⟩ := by
    decide +kernel
  rw [← hkey] at hrun ⊢
  obtain ⟨credential, hcredential⟩ := hrun
  exact ⟨credential, unique_coins SchnorrGroup.ofParams_squares23 (by decide) hnym hnym' hview
    hview' hcredential⟩

end AnonCred

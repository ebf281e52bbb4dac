import AnonCred.Credential.Request
import AnonCred.Proofs.Blinding
import AnonCred.Proofs.Group.Schnorr

/-!
# What a request for a credential accepts

The user checks the issuer's answers against the claims, and the credential against the issuer's
key. The second check never fails: the blinded equations follow from the equations of the claims,
also where the pseudonym's base itself was never checked.

* `challenges_eq_ok` — what the challenges of a new request are made of
* `finish_awaiting` — the answer of a request that has sent its challenges
* `credential_validFor` — what accepted answers are put together to is valid for the issuer
* `challenges_eq_error`, `finish_eq_error` — why a call is refused
* `finish_exact` — a request finishes exactly on the answers that satisfy the claims
-/

namespace AnonCred.CredentialRequest

open CyclicGroup Blinding

variable {E : Type} {G : CyclicGroup E} {source next : Source}
  {nym : Pseudonym E} {issuer : IssuerPublicKey E} {gamma : Nat}

/-- A request that has sent nothing yet. -/
def fresh (nym : Pseudonym E) (issuer : IssuerPublicKey E) (gamma : Nat) : CredentialRequest E :=
  ⟨nym, issuer, gamma, ⟨gamma, .ready⟩, ⟨gamma, .ready⟩, false⟩

/-- A request that has sent both challenges. -/
def awaiting (nym : Pseudonym E) (issuer : IssuerPublicKey E) (gamma : Nat)
    (first second : Pending E) : CredentialRequest E :=
  ⟨nym, issuer, gamma, ⟨gamma, .awaitingResponse first⟩, ⟨gamma, .awaitingResponse second⟩, true⟩

/-! ## Challenges -/

theorem ofGamma_eq_ok {Q : CredentialRequest E} :
    ofGamma G nym issuer gamma = .ok Q ↔
      0 < gamma ∧ gamma < G.order ∧ Q = fresh nym issuer gamma := by
  unfold ofGamma
  simp only [except_bind_eq_ok, except_pure_eq_ok, Verifier.start_eq_ok]
  constructor
  · rintro ⟨first, ⟨hpos, hlt, rfl⟩, second, ⟨-, -, rfl⟩, rfl⟩
    exact ⟨hpos, hlt, rfl⟩
  · rintro ⟨hpos, hlt, rfl⟩
    exact ⟨_, ⟨hpos, hlt, rfl⟩, _, ⟨hpos, hlt, rfl⟩, rfl⟩

theorem challenges_eq_some {Q Q' : CredentialRequest E} {c : IssuanceCommitments E} {e1 e2 : Nat} :
    Q.challenges G c source = some ((.ok (e1, e2), Q'), next) ↔
      ∃ first second middle,
        Q.first.challenge G (Q.firstClaim G c) source = some ((.ok e1, first), middle) ∧
        Q.second.challenge G (Q.secondClaim G c) middle = some ((.ok e2, second), next) ∧
        Q' = { Q with first, second, challenged := true } := by
  unfold challenges
  rw [Draw.bind_eq_some]
  constructor
  · rintro ⟨⟨answer, first⟩, middle, hfirst, hrest⟩
    rcases answer with error | e1'
    · cases (Draw.pure_eq_some.mp hrest).1
    · obtain ⟨⟨answer, second⟩, after, hsecond, hrest⟩ := Draw.bind_eq_some.mp hrest
      rcases answer with error | e2'
      · cases (Draw.pure_eq_some.mp hrest).1
      · obtain ⟨hpair, rfl⟩ := Draw.pure_eq_some.mp hrest
        cases hpair
        exact ⟨first, second, middle, hfirst, hsecond, rfl⟩
  · rintro ⟨first, second, middle, hfirst, hsecond, rfl⟩
    refine ⟨_, middle, hfirst, ?_⟩
    dsimp only
    rw [Draw.bind_of_eq_some hsecond]
    rfl

/-- The first blinding verifier refuses, or the second one does once the first has answered. -/
theorem challenges_eq_error {Q Q' : CredentialRequest E} {c : IssuanceCommitments E}
    {error : Error} (h : Q.challenges G c source = some ((.error error, Q'), next)) :
    (∃ first, Q.first.challenge G (Q.firstClaim G c) source = some ((.error error, first), next) ∧
        Q' = { Q with first }) ∨
      ∃ e1 first second middle,
        Q.first.challenge G (Q.firstClaim G c) source = some ((.ok e1, first), middle) ∧
        Q.second.challenge G (Q.secondClaim G c) middle
          = some ((.error error, second), next) ∧
        Q' = { Q with first, second } := by
  unfold challenges at h
  obtain ⟨⟨answer, first⟩, middle, hfirst, hrest⟩ := Draw.bind_eq_some.mp h
  rcases answer with error' | e1
  · obtain ⟨hpair, rfl⟩ := Draw.pure_eq_some.mp hrest
    cases hpair
    exact .inl ⟨first, hfirst, rfl⟩
  · obtain ⟨⟨answer, second⟩, after, hsecond, hrest⟩ := Draw.bind_eq_some.mp hrest
    rcases answer with error' | e2
    · obtain ⟨hpair, rfl⟩ := Draw.pure_eq_some.mp hrest
      cases hpair
      exact .inr ⟨e1, first, second, middle, hfirst, hsecond, rfl⟩
    · cases (Draw.pure_eq_some.mp hrest).1

/-- A new request sends challenges for claims about members, blinded with four exponents that it
draws. -/
theorem challenges_eq_ok {Q' : CredentialRequest E} {c : IssuanceCommitments E} {e1 e2 : Nat} :
    (fresh nym issuer gamma).challenges G c source = some ((.ok (e1, e2), Q'), next) ↔
      (∀ x ∈ ((fresh nym issuer gamma).firstClaim G c).elements, G.Member x) ∧
      (∀ x ∈ ((fresh nym issuer gamma).secondClaim G c).elements, G.Member x) ∧
      ∃ alpha1 beta1 alpha2 beta2 s1 s2 s3,
        G.randomScalar source = some (alpha1, s1) ∧ G.randomScalar s1 = some (beta1, s2) ∧
        G.randomScalar s2 = some (alpha2, s3) ∧ G.randomScalar s3 = some (beta2, next) ∧
        e1 = (Pending.blind G gamma ((fresh nym issuer gamma).firstClaim G c) alpha1 beta1).e ∧
        e2 = (Pending.blind G gamma ((fresh nym issuer gamma).secondClaim G c) alpha2 beta2).e ∧
        Q' = awaiting nym issuer gamma
          (Pending.blind G gamma ((fresh nym issuer gamma).firstClaim G c) alpha1 beta1)
          (Pending.blind G gamma ((fresh nym issuer gamma).secondClaim G c) alpha2 beta2) := by
  rw [challenges_eq_some]
  simp only [Verifier.challenge_eq_ok]
  constructor
  · rintro ⟨first, second, middle, ⟨-, hm1, alpha1, beta1, s1, h1, h2, he1, rfl⟩,
      ⟨-, hm2, alpha2, beta2, s2, h3, h4, he2, rfl⟩, rfl⟩
    exact ⟨hm1, hm2, alpha1, beta1, alpha2, beta2, s1, middle, s2, h1, h2, h3, h4, he1, he2, rfl⟩
  · rintro ⟨hm1, hm2, alpha1, beta1, alpha2, beta2, s1, s2, s3, h1, h2, h3, h4, he1, he2, rfl⟩
    exact ⟨_, _, s2, ⟨rfl, hm1, alpha1, beta1, s1, h1, h2, he1, rfl⟩,
      ⟨rfl, hm2, alpha2, beta2, s3, h3, h4, he2, rfl⟩, rfl⟩

/-- The same as a statement about every outcome: a new request about members is not refused. -/
theorem challenges_answers {c : IssuanceCommitments E}
    (hm1 : ∀ x ∈ ((fresh nym issuer gamma).firstClaim G c).elements, G.Member x)
    (hm2 : ∀ x ∈ ((fresh nym issuer gamma).secondClaim G c).elements, G.Member x) :
    Answers ((fresh nym issuer gamma).challenges G c) source fun es Q' _ =>
      ∃ alpha1 beta1 alpha2 beta2,
        es = ((Pending.blind G gamma ((fresh nym issuer gamma).firstClaim G c) alpha1 beta1).e,
          (Pending.blind G gamma ((fresh nym issuer gamma).secondClaim G c) alpha2 beta2).e) ∧
        Q' = awaiting nym issuer gamma
          (Pending.blind G gamma ((fresh nym issuer gamma).firstClaim G c) alpha1 beta1)
          (Pending.blind G gamma ((fresh nym issuer gamma).secondClaim G c) alpha2 beta2) := by
  refine (Verifier.challenge_answers hm1).bindCall ?_
  rintro e1 first middle ⟨alpha1, beta1, -, -, -, rfl, rfl⟩
  refine (Verifier.challenge_answers hm2).bindCall ?_
  rintro e2 second after ⟨alpha2, beta2, -, -, -, rfl, rfl⟩
  exact Answers.pure ⟨alpha1, beta1, alpha2, beta2, rfl, rfl⟩

/-! ## Answers -/

variable [DecidableEq E]

/-- The credential that two accepted answers make. -/
def credential (G : CyclicGroup E) (nym : Pseudonym E) (gamma : Nat) (first second : Pending E)
    (z1 z2 : Nat) : Credential E where
  base := G.exp nym.a gamma
  value := G.exp first.claim.g2 gamma
  tagA := G.exp first.claim.t2 gamma
  tagB := G.exp second.claim.t2 gamma
  t1 := (first.unblind G gamma z1).transcript
  t2 := (second.unblind G gamma z2).transcript

omit [DecidableEq E] in
theorem credential_hash (G : CyclicGroup E) (nym : Pseudonym E) (gamma : Nat)
    (first second : Pending E) (z1 z2 : Nat) :
    (credential G nym gamma first second z1 z2).t1.hash = first.hash ∧
      (credential G nym gamma first second z1 z2).t2.hash = second.hash :=
  ⟨rfl, rfl⟩

/-- Two accepted answers are put together, and checked once more. -/
theorem finish_of_accepted {Q : CredentialRequest E} (hchallenged : Q.challenged = true)
    {z1 z2 : Nat} {first second : Blinded E} (h1 : (Q.first.verify G z1).1 = .ok (some first))
    (h2 : (Q.second.verify G z2).1 = .ok (some second)) :
    Q.finish G z1 z2 =
      if (Q.assemble G first second).ValidFor G Q.issuer then .ok (Q.assemble G first second)
      else .error (.verification .inconsistentTranscripts) := by
  simp only [finish, hchallenged, h1, h2, Bool.true_eq_false, if_false, bind, Except.bind]
  -- both sides are split by hand: a comparison of the two would evaluate the check
  by_cases hvalid : (Q.assemble G first second).ValidFor G Q.issuer
  · rw [if_pos hvalid, if_pos hvalid]
    rfl
  · rw [if_neg hvalid, if_neg hvalid]
    rfl

/-- One answer that is not accepted is enough for a refusal. -/
theorem finish_of_rejected {Q : CredentialRequest E} (hchallenged : Q.challenged = true)
    {z1 z2 : Nat} {first second : Option (Blinded E)} (h1 : (Q.first.verify G z1).1 = .ok first)
    (h2 : (Q.second.verify G z2).1 = .ok second) (hnone : first = none ∨ second = none) :
    Q.finish G z1 z2 = .error (.verification .issuerProof) := by
  unfold finish
  rw [hchallenged, h1, h2]
  rcases hnone with rfl | rfl
  · rfl
  · cases first with
    | none => rfl
    | some first => rfl

/-- What is refused at the end: a request without challenges, an answer that a blinding verifier does
not wait for, or a proof. -/
theorem finish_eq_error {Q : CredentialRequest E} {z1 z2 : Nat} {error : Error}
    (h : Q.finish G z1 z2 = .error error) :
    Q.challenged = false ∧ error.IsOutOfOrder ∨
      Q.challenged = true ∧ ((Q.first.verify G z1).1 = .error error ∨
        (Q.second.verify G z2).1 = .error error ∨
        ∃ first second, (Q.first.verify G z1).1 = .ok first ∧
          (Q.second.verify G z2).1 = .ok second ∧ ∃ cause, error = .verification cause) := by
  cases hchallenged : Q.challenged with
  | false =>
    unfold finish at h
    rw [hchallenged] at h
    cases h
    exact .inl ⟨rfl, Error.isOutOfOrder _ _⟩
  | true =>
    refine .inr ⟨rfl, ?_⟩
    rcases h1 : (Q.first.verify G z1).1 with error' | first
    · unfold finish at h
      rw [hchallenged, h1] at h
      cases h
      exact .inl rfl
    rcases h2 : (Q.second.verify G z2).1 with error' | second
    · unfold finish at h
      rw [hchallenged, h1, h2] at h
      cases h
      exact .inr (.inl rfl)
    refine .inr (.inr ⟨first, second, rfl, rfl, ?_⟩)
    by_cases hnone : first = none ∨ second = none
    · rw [finish_of_rejected hchallenged h1 h2 hnone] at h
      cases h
      exact ⟨_, rfl⟩
    · rw [not_or] at hnone
      obtain ⟨first, rfl⟩ := Option.ne_none_iff_exists'.mp hnone.1
      obtain ⟨second, rfl⟩ := Option.ne_none_iff_exists'.mp hnone.2
      rw [finish_of_accepted hchallenged h1 h2] at h
      split at h
      · cases h
      · cases h
        exact ⟨_, rfl⟩

/-- A request that finishes has sent its challenges, and both blinding verifiers have waited. -/
theorem finish_eq_ok {Q : CredentialRequest E} {z1 z2 : Nat} {made : Credential E}
    (h : Q.finish G z1 z2 = .ok made) :
    Q.challenged = true ∧ ∃ first second, (Q.first.verify G z1).1 = .ok (some first) ∧
      (Q.second.verify G z2).1 = .ok (some second) := by
  unfold finish at h
  cases hchallenged : Q.challenged with
  | false =>
    rw [hchallenged] at h
    cases h
  | true =>
    rw [hchallenged] at h
    obtain ⟨-, -, h⟩ := except_bind_eq_ok.mp h
    obtain ⟨first, h1, h⟩ := except_bind_eq_ok.mp h
    obtain ⟨second, h2, h⟩ := except_bind_eq_ok.mp h
    refine ⟨rfl, ?_⟩
    rcases first with _ | first
    · cases h
    rcases second with _ | second
    · cases h
    exact ⟨first, second, h1, h2⟩

/-- What a request that awaits its answers makes of them. -/
theorem finish_awaiting (first second : Pending E) (z1 z2 : Nat) :
    (awaiting nym issuer gamma first second).finish G z1 z2 =
      if first.claim.Holds G first.e z1 ∧ second.claim.Holds G second.e z2 then
        if (credential G nym gamma first second z1 z2).ValidFor G issuer then
          .ok (credential G nym gamma first second z1 z2)
        else .error (.verification .inconsistentTranscripts)
      else .error (.verification .issuerProof) := by
  have hfirst := congrArg Prod.fst (Verifier.verify_awaiting (G := G) gamma first z1)
  have hsecond := congrArg Prod.fst (Verifier.verify_awaiting (G := G) gamma second z2)
  by_cases hboth : first.claim.Holds G first.e z1 ∧ second.claim.Holds G second.e z2
  · rw [if_pos hboth]
    rw [if_pos hboth.1] at hfirst
    rw [if_pos hboth.2] at hsecond
    exact finish_of_accepted rfl hfirst hsecond
  · rw [if_neg hboth]
    refine finish_of_rejected rfl hfirst hsecond ?_
    by_cases h1 : first.claim.Holds G first.e z1
    · exact .inr (if_neg fun h2 => hboth ⟨h1, h2⟩)
    · exact .inl (if_neg h1)

section Members

variable [Lawful G] {c : IssuanceCommitments E} {alpha1 beta1 alpha2 beta2 : Nat}
  {first second : Pending E}
  (hm1 : ∀ x ∈ ((fresh nym issuer gamma).firstClaim G c).elements, G.Member x)
  (hm2 : ∀ x ∈ ((fresh nym issuer gamma).secondClaim G c).elements, G.Member x)
  (hfirst : first = Pending.blind G gamma ((fresh nym issuer gamma).firstClaim G c) alpha1 beta1)
  (hsecond :
    second = Pending.blind G gamma ((fresh nym issuer gamma).secondClaim G c) alpha2 beta2)

include hm1 hm2 hfirst hsecond

omit [DecidableEq E] in
/-- What accepted answers are put together to is valid for the issuer. -/
theorem credential_validFor {z1 z2 : Nat} (h1 : first.claim.Holds G first.e z1)
    (h2 : second.claim.Holds G second.e z2) :
    (credential G nym gamma first second z1 z2).ValidFor G issuer := by
  subst hfirst hsecond
  refine ⟨Pending.unblind_valid hm1 h1, ?_⟩
  -- the claim is about the product of base and tag, the check about the product of their powers
  have hbase :
      G.compose (G.exp nym.a gamma) (G.exp c.a gamma) = G.exp (G.compose nym.a c.a) gamma :=
    (G.exp_compose nym.a c.a gamma).symm
  show Transcript.Valid G _ G.generator issuer.h1
    (G.compose (G.exp nym.a gamma) (G.exp c.a gamma)) (G.exp c.b gamma)
  rw [hbase]
  exact Pending.unblind_valid hm2 h2

/-- The check of the transcripts is never the one that fails. -/
theorem finish_of_challenges (z1 z2 : Nat) :
    (awaiting nym issuer gamma first second).finish G z1 z2 =
      if first.claim.Holds G first.e z1 ∧ second.claim.Holds G second.e z2 then
        .ok (credential G nym gamma first second z1 z2)
      else .error (.verification .issuerProof) := by
  rw [finish_awaiting]
  by_cases hboth : first.claim.Holds G first.e z1 ∧ second.claim.Holds G second.e z2
  · have hvalid := credential_validFor hm1 hm2 hfirst hsecond hboth.1 hboth.2
    rw [if_pos hboth, if_pos hboth, if_pos hvalid]
  · rw [if_neg hboth, if_neg hboth]

end Members

/-! ## Schnorr groups -/

variable {p q g : Nat} {S : SchnorrGroup}

/-- What the answers of an issuer have to satisfy: they are reduced, and the equations of the two
proofs hold, with the second one about the product of the pseudonym's base and the first tag. -/
def AnswersHold (G : CyclicGroup E) (nym : Pseudonym E) (issuer : IssuerPublicKey E)
    (c : IssuanceCommitments E) (e1 e2 z1 z2 : Nat) : Prop :=
  z1 < G.order ∧ z2 < G.order ∧
    G.Responds G.generator issuer.h2 c.x11 e1 z1 ∧ G.Responds nym.b c.a c.x12 e1 z1 ∧
    G.Responds G.generator issuer.h1 c.x21 e2 z2 ∧
    G.Responds (G.compose nym.a c.a) c.b c.x22 e2 z2

instance (nym : Pseudonym E) (issuer : IssuerPublicKey E) (c : IssuanceCommitments E)
    (e1 e2 z1 z2 : Nat) : Decidable (AnswersHold G nym issuer c e1 e2 z1 z2) := by
  unfold AnswersHold; infer_instance

omit [DecidableEq E] in
theorem answersHold_iff {c : IssuanceCommitments E} {first second : Pending E} {z1 z2 : Nat}
    (hfirst : first.claim = (fresh nym issuer gamma).firstClaim G c)
    (hsecond : second.claim = (fresh nym issuer gamma).secondClaim G c) :
    AnswersHold G nym issuer c first.e second.e z1 z2 ↔
      first.claim.Holds G first.e z1 ∧ second.claim.Holds G second.e z2 := by
  rw [hfirst, hsecond]
  constructor
  · rintro ⟨hz1, hz2, h11, h12, h21, h22⟩
    exact ⟨⟨hz1, h11, h12⟩, hz2, h21, h22⟩
  · rintro ⟨⟨hz1, h11, h12⟩, hz2, h21, h22⟩
    exact ⟨hz1, hz2, h11, h12, h21, h22⟩

/-- Whoever the issuer is: a request that has sent its challenges finishes exactly on the answers
that satisfy both proofs, and what it finishes with are the powers of the pseudonym and of the tags
with transcripts that are reduced and valid for the issuer's key. That the transcripts do not fit
is never the reason why it does not finish. -/
theorem finish_exact (hS : SchnorrGroup.ofParams p q g = .ok S) {nym : Pseudonym Nat}
    {issuer : IssuerPublicKey Nat} {request request' : CredentialRequest Nat}
    {c : IssuanceCommitments Nat} {e1 e2 : Nat}
    (hrequest : ofGamma S.group nym issuer gamma = .ok request)
    (hchallenges : request.challenges S.group c source = some ((.ok (e1, e2), request'), next))
    (z1 z2 : Nat) :
    ((∃ credential, request'.finish S.group z1 z2 = .ok credential) ↔
      AnswersHold S.group nym issuer c e1 e2 z1 z2) ∧
    (∀ credential, request'.finish S.group z1 z2 = .ok credential →
      credential.base = S.group.exp nym.a gamma ∧ credential.value = S.group.exp nym.b gamma ∧
      credential.tagA = S.group.exp c.a gamma ∧ credential.tagB = S.group.exp c.b gamma ∧
      credential.t1.zAlpha < S.group.order ∧ credential.t2.zAlpha < S.group.order ∧
      credential.ValidFor S.group issuer) ∧
    request'.finish S.group z1 z2 ≠ .error (.verification .inconsistentTranscripts) := by
  have := SchnorrGroup.lawful_of_ofParams hS
  obtain ⟨-, -, rfl⟩ := ofGamma_eq_ok.mp hrequest
  obtain ⟨hm1, hm2, alpha1, beta1, alpha2, beta2, s1, s2, s3, -, -, -, -, rfl, rfl, rfl⟩ :=
    challenges_eq_ok.mp hchallenges
  -- the blinded claims under names of their own, so that nothing looks into their hashes
  obtain ⟨first, hfirst⟩ : ∃ first, Pending.blind S.group gamma
    ((fresh nym issuer gamma).firstClaim S.group c) alpha1 beta1 = first := ⟨_, rfl⟩
  obtain ⟨second, hsecond⟩ : ∃ second, Pending.blind S.group gamma
    ((fresh nym issuer gamma).secondClaim S.group c) alpha2 beta2 = second := ⟨_, rfl⟩
  have hclaim1 : first.claim = (fresh nym issuer gamma).firstClaim S.group c := by
    rw [← hfirst]
    rfl
  have hclaim2 : second.claim = (fresh nym issuer gamma).secondClaim S.group c := by
    rw [← hsecond]
    rfl
  rw [hfirst, hsecond, finish_of_challenges hm1 hm2 hfirst.symm hsecond.symm,
    answersHold_iff hclaim1 hclaim2]
  by_cases hboth : first.claim.Holds S.group first.e z1 ∧ second.claim.Holds S.group second.e z2
  · have hvalid := credential_validFor hm1 hm2 hfirst.symm hsecond.symm hboth.1 hboth.2
    rw [if_pos hboth]
    refine ⟨⟨fun _ => hboth, fun _ => ⟨_, rfl⟩⟩, ?_, by rintro ⟨⟩⟩
    intro credential hcredential
    cases hcredential
    refine ⟨rfl, ?_, ?_, ?_, Nat.mod_lt _ order_pos, Nat.mod_lt _ order_pos, hvalid⟩
    · exact congrArg (fun claim => S.group.exp claim.g2 gamma) hclaim1
    · exact congrArg (fun claim => S.group.exp claim.t2 gamma) hclaim1
    · exact congrArg (fun claim => S.group.exp claim.t2 gamma) hclaim2
  · rw [if_neg hboth]
    refine ⟨⟨?_, fun h => absurd h hboth⟩, ?_, by rintro ⟨⟩⟩
    · rintro ⟨_, h⟩
      cases h
    · intro _ h
      cases h

/-- An honest issuer over the squares modulo 23: its answers are accepted. -/
theorem finish_exact_honest :
    ∃ request' : CredentialRequest Nat, ∃ credential,
      request'.finish SchnorrGroup.squares23.group 5 8 = .ok credential ∧
        credential.ValidFor SchnorrGroup.squares23.group ⟨16, 18⟩ := by
  have hchallenges : ∃ request' next, (fresh ⟨4, 12⟩ ⟨16, 18⟩ 3).challenges
      SchnorrGroup.squares23.group ⟨18, 3, 18, 3, 3, 6⟩ ⟨fun _ => 0x35, 0, 1⟩
        = some ((.ok (8, 8), request'), next) := by
    refine ⟨_, _, challenges_eq_ok.mpr ⟨by decide +kernel, by decide +kernel, 3, 3, 3, 3, _, _, _,
      rfl, rfl, rfl, rfl, ?_, ?_, rfl⟩⟩
    · decide +kernel
    · decide +kernel
  obtain ⟨request', next, hchallenges⟩ := hchallenges
  have hrequest : ofGamma SchnorrGroup.squares23.group ⟨4, 12⟩ ⟨16, 18⟩ 3
      = .ok (fresh ⟨4, 12⟩ ⟨16, 18⟩ 3) := rfl
  obtain ⟨hiff, hall, -⟩ := finish_exact SchnorrGroup.ofParams_squares23 hrequest hchallenges 5 8
  obtain ⟨credential, hcredential⟩ := hiff.mpr (by decide +kernel)
  exact ⟨request', credential, hcredential, (hall credential hcredential).2.2.2.2.2.2⟩

end AnonCred.CredentialRequest

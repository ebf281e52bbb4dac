import AnonCred.Deployment
import AnonCred.Proofs.Credential.Issuance
import AnonCred.Proofs.Credential.Registration
import AnonCred.Proofs.Credential.Transfer

/-!
# A user goes all the way

Every session of a run ends well: what one party checks is what the other one made. Each step has a
theorem of its own that says what it hands on, and `run_succeeds` puts them together.

* `certify_succeeds`, `register_succeeds`, `issue_succeeds`, `transfer_succeeds` — the sessions
* `run_succeeds` — no step of a run is refused
* `Favourable.of_run` — a run that is not refused was on a favourable stream
* `run_complete` — on a favourable stream a run ends with a session key of the wanted length
-/

namespace AnonCred

open CyclicGroup

variable {E : Type} {G : CyclicGroup E} {source next : Source}

/-! ## Keys of organizations -/

namespace KeyStore

/-- The store has a key for the name, and its exponents are in range. -/
def Has (G : CyclicGroup E) (S : KeyStore) (name : String) : Prop :=
  ∃ key, S.secretKey name = .ok key ∧ key.s1 < G.order ∧ key.s2 < G.order

/-- Dropping the entries of one name hides no other name. -/
theorem lookup_filter_ne (entries : List (String × IssuerKey)) {organization other : String}
    (h : other ≠ organization) :
    (entries.filter (·.1 ≠ organization)).lookup other = entries.lookup other := by
  induction entries with
  | nil => rfl
  | cons entry rest ih =>
    rcases entry with ⟨name, key⟩
    by_cases hname : name = organization
    · have hother : (other == name) = false := by simp [hname, h]
      rw [List.filter_cons_of_neg (by simp [hname]), List.lookup_cons, hother]
      exact ih
    · rw [List.filter_cons_of_pos (by simp [hname]), List.lookup_cons, List.lookup_cons, ih]

theorem find?_insert_of_ne (S : KeyStore) {organization other : String} (key : IssuerKey)
    (h : other ≠ organization) : (S.insert organization key).find? other = S.find? other := by
  have hhead : (other == organization) = false := by simp [h]
  unfold insert find?
  rw [List.lookup_cons, hhead]
  exact lookup_filter_ne S.entries h

theorem Has.insert {S : KeyStore} {organization name : String} {key : IssuerKey}
    (h1 : key.s1 < G.order) (h2 : key.s2 < G.order) (h : name = organization ∨ S.Has G name) :
    (S.insert organization key).Has G name := by
  by_cases hname : name = organization
  · subst hname
    refine ⟨key, ?_, h1, h2⟩
    unfold secretKey
    rw [find?_insert_self]
  · obtain ⟨stored, hstored, hrange⟩ := h.resolve_left hname
    refine ⟨stored, ?_, hrange⟩
    unfold secretKey
    rw [find?_insert_of_ne S key hname]
    exact hstored

theorem addRandom_has {S S' : KeyStore} {names : List String} {name : String}
    (h : S.addRandom G names source = some (S', next)) (hname : name ∈ names ∨ S.Has G name) :
    S'.Has G name := by
  induction names generalizing S source with
  | nil =>
    obtain ⟨rfl, -⟩ := Draw.pure_eq_some.mp h
    rcases hname with hname | hname
    · cases hname
    · exact hname
  | cons organization rest ih =>
    obtain ⟨key, middle, hkey, hrest⟩ := Draw.bind_eq_some.mp h
    obtain ⟨s1, s, h1, hs2⟩ := Draw.bind_eq_some.mp hkey
    obtain ⟨s2, _, h2, hpure⟩ := Draw.bind_eq_some.mp hs2
    obtain ⟨rfl, -⟩ := Draw.pure_eq_some.mp hpure
    refine ih hrest ?_
    rw [List.mem_cons, or_comm (a := name = organization), or_assoc] at hname
    exact hname.imp_right (Has.insert (randomScalar_lt h1) (randomScalar_lt h2))

/-- Every organization of a list gets a key in range. -/
theorem random_has {S : KeyStore} {names : List String} {name : String}
    (h : random G names source = some (S, next)) (hname : name ∈ names) : S.Has G name :=
  addRandom_has h (.inl hname)

end KeyStore

namespace Deployment

/-! ## Registration keys -/

theorem length_makeKeys {n : Nat} {keys : List String}
    (h : makeKeys n source = some (keys, next)) : keys.length = n := by
  induction n generalizing source keys with
  | zero =>
    obtain ⟨rfl, -⟩ := Draw.pure_eq_some.mp h
    rfl
  | succ n ih =>
    obtain ⟨bytes, middle, -, hrest⟩ := Draw.bind_eq_some.mp h
    obtain ⟨made, after, hmade, hpure⟩ := Draw.bind_eq_some.mp hrest
    obtain ⟨rfl, rfl⟩ := Draw.pure_eq_some.mp hpure
    rw [List.length_cons, ih hmade]

/-- There are at least two registration keys. -/
theorem two_le_length {known keys : List String}
    (h : enoughKeys known source = some (keys, next)) : 2 ≤ keys.length := by
  obtain ⟨made, middle, hmade, hpure⟩ := Draw.bind_eq_some.mp h
  obtain ⟨rfl, -⟩ := Draw.pure_eq_some.mp hpure
  rw [List.length_append, length_makeKeys hmade]
  omega

theorem getD_mem {keys : List String} {i : Nat} (h : i < keys.length) : keys.getD i "" ∈ keys := by
  rw [List.getD_eq_getElem?_getD, List.getElem?_eq_getElem h, Option.getD_some]
  exact List.getElem_mem h

/-! ## The sessions -/

variable [DecidableEq E]

/-- A pseudonym of the secret: a base other than the identity and its power. -/
def Owns (G : CyclicGroup E) [Lawful G] (w : Nat) (nym : Pseudonym E) : Prop :=
  ∃ a : G.Element, a ≠ 1 ∧ nym = ⟨a, G.exp a w⟩

/-- What the authority signs in its session with a user, with the draws before it: the base of the
pseudonym, the nonce of the user, the challenge, and the exponent that blinds the pseudonym. -/
def certifiedPair (G : CyclicGroup E) (user : User) : Draw (Pseudonym E) := do
  let nym ← user.pseudonym G
  let _ ← G.randomScalar
  let _ ← G.randomScalar
  let k ← G.randomUnit
  pure ⟨G.exp nym.a k, G.exp nym.b k⟩

section Sessions

variable [Lawful G] {w : Nat}

theorem pseudonym_succeeds :
    Drawn.Succeeds (liftM ((User.mk w).pseudonym G)) source fun nym next =>
      (User.mk w).pseudonym G source = some (nym, next) ∧ Owns G w nym := by
  refine (Drawn.Succeeds.draw _).mono ?_
  intro nym next hnym
  obtain ⟨k, ha, rfl⟩ := User.pseudonym_eq_some hnym
  exact ⟨hnym, Element.gen ^ k, ha, rfl⟩

variable (hq : G.order.Prime) (hpos : 0 < w) (hlt : w < G.order)

include hq hpos hlt

/-- The authority certifies the user, if the signer does its part for the pair that is signed. -/
theorem certify_succeeds {key : Ecdsa.SecretKey}
    (hsigns : ∀ pair next, certifiedPair G ⟨w⟩ source = some (pair, next) → Signs G key pair) :
    Drawn.Succeeds (certify G ⟨w⟩ key) source fun certificate next => ∃ pair u,
      certifiedPair G ⟨w⟩ source = some (pair, next) ∧
        certificate.Certifies G key.publicKey w u := by
  unfold certify
  refine pseudonym_succeeds.bind ?_
  rintro nym s1 ⟨hnym, a, ha, rfl⟩
  have haw : a ^ w ≠ 1 := Element.pow_ne_one hq ha hpos hlt
  refine Drawn.Succeeds.bindRun (Knowledge.Prover.start_sigma hlt a.member) ?_
  refine (Knowledge.Prover.randomData_answers rfl).bindDrawn ?_
  rintro _ _ s2 ⟨r, hr, rfl, rfl⟩
  refine (Authority.challenge_answers (x := a ^ r) key ha haw).bindDrawn ?_
  rintro e _ s3 ⟨he, rfl⟩
  refine Drawn.Succeeds.bindCall (Knowledge.Prover.respond_plain rfl (randomScalar_lt he)) ?_
  -- the draws up to here and the authority's exponent are those of `certifiedPair`
  have hpair (k : Nat) (next : Source) (hk : G.randomUnit s3 = some (k, next)) :
      certifiedPair G ⟨w⟩ source = some (⟨G.exp a k, G.exp (G.exp a w) k⟩, next) := by
    unfold certifiedPair
    rw [Draw.bind_of_eq_some hnym, Draw.bind_of_eq_some hr, Draw.bind_of_eq_some he,
      Draw.bind_of_eq_some hk]
    rfl
  refine (Authority.verify_answers hq ha w r e ?_).bindDrawn ?_
  · intro k next hk
    exact hsigns _ next (hpair k next hk)
  · rintro certificate _ s4 ⟨k, u, hk, hcertificate⟩
    exact Drawn.Succeeds.pure ⟨_, u, hpair k s4 hk, hcertificate⟩

/-- A pseudonym is registered for a key that is there, and the key is spent. -/
theorem register_succeeds {authority : Ecdsa.PublicKey} {certificate : Certificate E}
    {u : G.Element} (hcertificate : certificate.Certifies G authority w u) {key : String}
    {store : RegistrationStore} (hkey : key ∈ store.keys) :
    Drawn.Succeeds (register G ⟨w⟩ authority certificate key store) source fun out _ =>
      Owns G w out.1 ∧ out.2 = (store.consume key).2 := by
  unfold register
  refine pseudonym_succeeds.bind ?_
  rintro nym s1 ⟨-, a, ha, rfl⟩
  have haw : a ^ w ≠ 1 := Element.pow_ne_one hq ha hpos hlt
  have huw : u ^ w ≠ 1 := Element.pow_ne_one hq hcertificate.1 hpos hlt
  have hprover : (User.mk w).registrationProver G ⟨(a : E), G.exp a w⟩ certificate
      = .ok ⟨w, a, u, .fresh⟩ := by
    obtain ⟨-, hblindedA, -, -⟩ := hcertificate
    unfold User.registrationProver
    rw [hblindedA]
    exact Equality.Prover.start_eq_ok.mpr ⟨hlt, a.member, u.member, rfl⟩
  refine Drawn.Succeeds.bindCall (Registrar.start_eq_ok.mpr ⟨hkey, rfl, rfl⟩) ?_
  refine Drawn.Succeeds.bindExcept hprover ?_
  refine (Equality.Prover.randomData_answers rfl).bindDrawn ?_
  rintro _ _ s2 ⟨r, -, rfl, rfl⟩
  refine (Registrar.challenge_answers hcertificate huw ha haw (a ^ r) (u ^ r)).bindDrawn ?_
  rintro e _ s3 ⟨he, rfl⟩
  refine Drawn.Succeeds.bindCall (Equality.Prover.respond_eq_ok.mpr ⟨r, rfl, he, rfl, rfl⟩) ?_
  refine Drawn.Succeeds.bindCall (Registrar.verify_registering
    (Equality.Claim.holds_response a u w r e)) ?_
  exact Drawn.Succeeds.pure ⟨⟨a, ha, rfl⟩, rfl⟩

/-- A credential of an honest issuer for the secret, on a base other than the identity. -/
def Holds (G : CyclicGroup E) [Lawful G] (key : IssuerKey) (w : Nat) (c : Credential E) : Prop :=
  ∃ u : G.Element, u ≠ 1 ∧ c.Issued G key w u

/-- Whatever its key is, zeros included, an organization issues a credential for a pseudonym. -/
theorem issue_succeeds {key : IssuerKey} (h1 : key.s1 < G.order) (h2 : key.s2 < G.order)
    {nym : Pseudonym E} (hnym : Owns G w nym) :
    Drawn.Succeeds (issue G ⟨w⟩ nym key) source fun credential _ => Holds G key w credential := by
  obtain ⟨a, ha, rfl⟩ := hnym
  have haw : a ^ w ≠ 1 := Element.pow_ne_one hq ha hpos hlt
  unfold issue
  refine Drawn.Succeeds.bindRun (Knowledge.Prover.start_sigma hlt a.member) ?_
  refine (Knowledge.Prover.randomData_answers rfl).bindDrawn ?_
  rintro _ _ s1 ⟨r, -, rfl, rfl⟩
  refine (Issuer.challenge_answers (x := a ^ r) key ha haw).bindDrawn ?_
  rintro e _ s2 ⟨he, rfl⟩
  refine Drawn.Succeeds.bindCall (Knowledge.Prover.respond_plain rfl he) ?_
  refine (Issuer.verify_answers h1 h2 a w r e).bindDrawn ?_
  rintro _ _ s3 ⟨r1, r2, rfl, rfl⟩
  -- `a * A` may be the identity from here on: the request and the issuer only ask for members
  refine (User.credentialRequest_succeeds _ _ _).bind ?_
  rintro _ s4 ⟨gamma, hgammaPos, hgammaLt, rfl⟩
  refine (CredentialRequest.challenges_answered key a w r1 r2 gamma).bindDrawn ?_
  rintro ⟨e1, e2⟩ request s5 ⟨he1, he2, credential, hfinish, hissued⟩
  refine Drawn.Succeeds.bindCall (Issuer.respond_served _ r1 r2 he1 he2) ?_
  exact Drawn.Succeeds.except hfinish
    ⟨a ^ gamma, Element.pow_ne_one hq ha hgammaPos hgammaLt, hissued⟩

/-- A credential and its issuer's key get a session key for another pseudonym. -/
theorem transfer_succeeds {key : IssuerKey} {nym : Pseudonym E} {credential : Credential E}
    (hnym : Owns G w nym) (hcredential : Holds G key w credential) (R : SessionKey.Random) :
    Drawn.Succeeds (transfer G ⟨w⟩ nym credential (key.publicKey G) R) source fun out _ =>
      ∃ sessionKey, out = some sessionKey ∧ sessionKey.bytes.length = R.length := by
  obtain ⟨a, ha, rfl⟩ := hnym
  obtain ⟨u, hu, hissued⟩ := hcredential
  have haw : a ^ w ≠ 1 := Element.pow_ne_one hq ha hpos hlt
  have huw : u ^ w ≠ 1 := Element.pow_ne_one hq hu hpos hlt
  have hprover : (User.mk w).transferProver G ⟨(a : E), G.exp a w⟩ credential
      = .ok ⟨w, a, u, .fresh⟩ := by
    unfold User.transferProver
    rw [hissued.base]
    exact Equality.Prover.start_eq_ok.mpr ⟨hlt, a.member, u.member, rfl⟩
  unfold transfer
  refine Drawn.Succeeds.bindExcept hprover ?_
  refine (Equality.Prover.randomData_answers rfl).bindDrawn ?_
  rintro _ _ s1 ⟨r, -, rfl, rfl⟩
  refine (CredentialVerifier.challenge_answers hissued.base hissued.value ha haw hu huw (a ^ r)
    (u ^ r)).bindDrawn ?_
  rintro e _ s2 ⟨he, rfl⟩
  refine Drawn.Succeeds.bindCall (Equality.Prover.respond_eq_ok.mpr ⟨r, rfl, he, rfl, rfl⟩) ?_
  refine (CredentialVerifier.verify_answers (Equality.Claim.holds_response a u w r e)
    hissued.valid R).bindDrawn ?_
  intro out _ s3 hout
  exact Drawn.Succeeds.pure hout

/-- Both pseudonyms are registered if their keys are there and differ. -/
theorem registerTwo_succeeds {authority : Ecdsa.PublicKey} {certificate : Certificate E}
    {u : G.Element} (hcertificate : certificate.Certifies G authority w u) {keys : List String}
    (hlength : 2 ≤ keys.length) (hdiffer : keys.getD 0 "" ≠ keys.getD 1 "") :
    Drawn.Succeeds (registerTwo G ⟨w⟩ authority certificate keys (.ofList keys)) source
      fun nyms _ => Owns G w nyms.1 ∧ Owns G w nyms.2 := by
  have hfirst : keys.getD 0 "" ∈ (RegistrationStore.ofList keys).keys :=
    RegistrationStore.mem_ofList.mpr (getD_mem (by omega))
  have hsecond : keys.getD 1 "" ∈ (RegistrationStore.ofList keys).keys :=
    RegistrationStore.mem_ofList.mpr (getD_mem (by omega))
  unfold registerTwo
  refine (register_succeeds hq hpos hlt hcertificate hfirst).bind ?_
  rintro ⟨first, store⟩ s1 ⟨hnym1, hstore⟩
  dsimp only at hstore
  subst hstore
  -- spending the first key leaves the second one, since they differ
  have hleft : keys.getD 1 "" ∈ ((RegistrationStore.ofList keys).consume (keys.getD 0 "")).2.keys :=
    RegistrationStore.mem_consume.mpr ⟨hsecond, hdiffer.symm⟩
  refine (register_succeeds hq hpos hlt hcertificate hleft).bind ?_
  rintro ⟨second, _⟩ s2 ⟨hnym2, -⟩
  exact Drawn.Succeeds.pure ⟨hnym1, hnym2⟩

end Sessions

/-! ## The whole way -/

/-- What a run uses before the first registration: the registration keys, the key of the authority,
and the pair that it signs. -/
structure Opening (E : Type) where
  keys : List String
  authorityKey : Ecdsa.SecretKey
  pair : Pseudonym E

/-- The draws of a run up to the certificate. -/
def Opening.draw (G : CyclicGroup E) (config : Config) (w : Nat) : Draw (Opening E) := do
  let _ ← KeyStore.random G config.organizations
  let keys ← enoughKeys config.registrationKeys
  let authorityKey ← Ecdsa.SecretKey.random
  let pair ← certifiedPair G ⟨w⟩
  pure ⟨keys, authorityKey, pair⟩

/-- The two registration keys that a run uses differ, and the signer does its part for the pair that
the authority signs. -/
def Opening.Sound (G : CyclicGroup E) (opening : Opening E) : Prop :=
  opening.keys.getD 0 "" ≠ opening.keys.getD 1 "" ∧ Signs G opening.authorityKey opening.pair

instance (opening : Opening E) : Decidable (opening.Sound G) := by
  unfold Opening.Sound; infer_instance

theorem validate_eq_ok {config : Config} (h : config.validate = .ok ()) :
    config.organizations.headD "" ∈ config.organizations ∧ config.sessionKeyBytes ≠ 0 := by
  unfold Config.validate at h
  rcases horganizations : config.organizations with _ | ⟨first, rest⟩
  · rw [horganizations] at h
    cases h
  · rw [horganizations] at h
    refine ⟨by simp, fun hzero => ?_⟩
    rw [hzero] at h
    cases h

/-- No step of a run is refused. -/
theorem run_succeeds [Lawful G] {w : Nat} (hq : G.order.Prime) (hpos : 0 < w) (hlt : w < G.order)
    {config : Config} (hvalid : config.validate = .ok ())
    (hsound : ∀ opening next, Opening.draw G config w source = some (opening, next) →
      opening.Sound G) :
    Drawn.Succeeds (run G config w) source fun out _ =>
      ∃ key, out = some key ∧ key.bytes.length = config.sessionKeyBytes.toNat := by
  obtain ⟨hhead, hbytes⟩ := validate_eq_ok hvalid
  have hlength : config.sessionKeyBytes.toNat ≠ 0 := fun h => hbytes (UInt64.toNat_inj.mp h)
  unfold run
  refine Drawn.Succeeds.bindDraw fun store s1 hstore => ?_
  refine Drawn.Succeeds.bindDraw fun keys s2 hkeys => ?_
  refine Drawn.Succeeds.bindExcept (SessionKey.Random.ofLength_eq_ok.mpr ⟨hlength, rfl⟩) ?_
  refine Drawn.Succeeds.bindExcept (User.ofSecret_eq_ok.mpr ⟨hlt, rfl⟩) ?_
  refine Drawn.Succeeds.bindDraw fun authorityKey s3 hauthority => ?_
  -- the condition on the opening can be used as soon as the certified pair is drawn
  have hopening (pair : Pseudonym E) (next : Source)
      (hpair : certifiedPair G ⟨w⟩ s3 = some (pair, next)) :
      (Opening.mk keys authorityKey pair).Sound G := by
    refine hsound _ next ?_
    unfold Opening.draw
    rw [Draw.bind_of_eq_some hstore, Draw.bind_of_eq_some hkeys, Draw.bind_of_eq_some hauthority,
      Draw.bind_of_eq_some hpair]
    rfl
  refine (certify_succeeds hq hpos hlt fun pair next hpair => (hopening pair next hpair).2).bind ?_
  rintro certificate s4 ⟨pair, u, hpair, hcertificate⟩
  refine (registerTwo_succeeds hq hpos hlt hcertificate (two_le_length hkeys)
    (hopening pair s4 hpair).1).bind ?_
  rintro ⟨issuerNym, verifierNym⟩ s5 ⟨hissuerNym, hverifierNym⟩
  obtain ⟨issuerKey, hissuerKey, h1, h2⟩ := KeyStore.random_has hstore hhead
  refine Drawn.Succeeds.bindExcept hissuerKey ?_
  refine (issue_succeeds hq hpos hlt h1 h2 hissuerNym).bind ?_
  intro credential s6 hcredential
  exact transfer_succeeds hq hpos hlt hverifierNym hcredential _

/-- The session key of a transfer was made for it. -/
theorem transfer_eq_key {user : User} {nym : Pseudonym E} {credential : Credential E}
    {issuer : IssuerPublicKey E} {R : SessionKey.Random} {key : SessionKey}
    (h : (transfer G user nym credential issuer R).run source = some (.ok (some key), next)) :
    ∃ middle, R.generate middle = some (.ok key, next) := by
  unfold transfer at h
  obtain ⟨prover, s1, -, h⟩ := Drawn.bind_eq_ok.mp h
  obtain ⟨⟨xs, _⟩, s2, -, h⟩ := Drawn.bind_eq_ok.mp h
  obtain ⟨⟨e, verifier⟩, s3, -, h⟩ := Drawn.bind_eq_ok.mp h
  obtain ⟨⟨z, _⟩, s4, -, h⟩ := Drawn.bind_eq_ok.mp h
  obtain ⟨⟨out, _⟩, s5, hverify, h⟩ := Drawn.bind_eq_ok.mp h
  obtain ⟨rfl, rfl⟩ := Drawn.pure_eq_ok.mp h
  exact ⟨s4, CredentialVerifier.verify_eq_key (Drawn.callDrawn_eq_ok.mp hverify)⟩

/-- A run makes no session key that cannot stand in one piece. -/
theorem run_ne_key {config : Config} (hlong : Bytes.maxLength < config.sessionKeyBytes.toNat)
    (w : Nat) (key : SessionKey) :
    (run G config w).run source ≠ some (.ok (some key), next) := by
  intro h
  unfold run at h
  obtain ⟨store, s1, -, h⟩ := Drawn.bind_eq_ok.mp h
  obtain ⟨keys, s2, -, h⟩ := Drawn.bind_eq_ok.mp h
  obtain ⟨R, s3, hlength, h⟩ := Drawn.bind_eq_ok.mp h
  obtain ⟨-, rfl⟩ := SessionKey.Random.ofLength_eq_ok.mp (Drawn.except_eq_ok.mp hlength).1
  obtain ⟨user, s4, -, h⟩ := Drawn.bind_eq_ok.mp h
  obtain ⟨authorityKey, s5, -, h⟩ := Drawn.bind_eq_ok.mp h
  obtain ⟨certificate, s6, -, h⟩ := Drawn.bind_eq_ok.mp h
  obtain ⟨nyms, s7, -, h⟩ := Drawn.bind_eq_ok.mp h
  obtain ⟨issuerKey, s8, -, h⟩ := Drawn.bind_eq_ok.mp h
  obtain ⟨credential, s9, -, h⟩ := Drawn.bind_eq_ok.mp h
  obtain ⟨middle, hgenerate⟩ := transfer_eq_key h
  rw [SessionKey.Random.generate_of_lt hlong] at hgenerate
  cases hgenerate

/-- For a key that can be made a transfer comes to an end wherever it does for another key. -/
theorem transfer_endsWith (user : User) (nym : Pseudonym E) (credential : Credential E)
    (issuer : IssuerPublicKey E) {R : SessionKey.Random} (R' : SessionKey.Random)
    (hle : R.length ≤ Bytes.maxLength) :
    Drawn.EndsWith (transfer G user nym credential issuer R)
      (transfer G user nym credential issuer R') := by
  unfold transfer
  refine Drawn.EndsWith.bind fun prover => Drawn.EndsWith.bind fun ⟨xs, prover⟩ => ?_
  refine Drawn.EndsWith.bind fun ⟨e, verifier⟩ => Drawn.EndsWith.bind fun ⟨z, _⟩ => ?_
  -- only the last call makes a key, and for one that is not too long it always ends
  intro source _
  refine Drawn.bind_isSome (Drawn.callDrawn_isSome (CredentialVerifier.verify_isSome
    (SessionKey.Random.generate_of_le hle) verifier z issuer)) ?_
  intro out middle _
  rfl

/-- How long the session key is has no part in whether a run comes to an end, as long as the key
can be made. -/
theorem run_endsWith {config : Config} {bytes : UInt64} (hne : config.sessionKeyBytes.toNat ≠ 0)
    (hle : config.sessionKeyBytes.toNat ≤ Bytes.maxLength) (hbytes : bytes.toNat ≠ 0) (w : Nat) :
    Drawn.EndsWith (run G config w) (run G { config with sessionKeyBytes := bytes } w) := by
  unfold run
  refine Drawn.EndsWith.bind fun store => Drawn.EndsWith.bind fun keys => ?_
  refine Drawn.EndsWith.bindExcept (SessionKey.Random.ofLength_eq_ok.mpr ⟨hne, rfl⟩)
    (SessionKey.Random.ofLength_eq_ok.mpr ⟨hbytes, rfl⟩) ?_
  refine Drawn.EndsWith.bind fun user => Drawn.EndsWith.bind fun authorityKey => ?_
  refine Drawn.EndsWith.bind fun certificate => ?_
  refine Drawn.EndsWith.bind fun ⟨issuerNym, verifierNym⟩ => ?_
  refine Drawn.EndsWith.bind fun issuerKey => Drawn.EndsWith.bind fun credential => ?_
  exact transfer_endsWith user verifierNym credential _ _ hle

/-! ## Favourable streams -/

/-- A stream that a run can work with: the rejection loops end on it, the two registration keys
differ, and the signer does its part. The loops are those of a run for a key of one byte, since no
loop depends on the length of the session key. -/
structure Favourable (G : CyclicGroup E) (config : Config) (w : Nat) (source : Source) : Prop where
  ends : ((run G { config with sessionKeyBytes := 1 } w).run source).isSome
  sound : ∀ opening next, Opening.draw G config w source = some (opening, next) → opening.Sound G

/-- Whether a stream is favourable has nothing to do with the length of the session key. -/
theorem Favourable.ofLength {config : Config} {w : Nat} (h : Favourable G config w source)
    (bytes : UInt64) : Favourable G { config with sessionKeyBytes := bytes } w source :=
  ⟨h.ends, h.sound⟩

/-- A certificate is about the pair that was drawn, and the signer made its signature. -/
theorem signs_of_certify {user : User} {key : Ecdsa.SecretKey} {certificate : Certificate E}
    (h : (certify G user key).run source = some (.ok certificate, next)) :
    ∃ pair, certifiedPair G user source = some (pair, next) ∧ certificate.blindedA = pair.a ∧
      certificate.blindedB = pair.b ∧
      Ecdsa.sign key (Certificate.digest G pair.a pair.b) = .ok certificate.signature := by
  unfold certify at h
  obtain ⟨nym, s1, hnym, h⟩ := Drawn.bind_eq_ok.mp h
  obtain ⟨prover, s2, hprover, h⟩ := Drawn.bind_eq_ok.mp h
  obtain ⟨⟨x, prover'⟩, s3, hx, h⟩ := Drawn.bind_eq_ok.mp h
  obtain ⟨⟨e, authority⟩, s4, he, h⟩ := Drawn.bind_eq_ok.mp h
  obtain ⟨⟨response, _⟩, s5, hresponse, h⟩ := Drawn.bind_eq_ok.mp h
  obtain ⟨⟨made, _⟩, s6, hmade, h⟩ := Drawn.bind_eq_ok.mp h
  obtain ⟨rfl, rfl⟩ := Drawn.pure_eq_ok.mp h
  obtain ⟨-, -, -, rfl⟩ := Knowledge.Prover.start_sigma_eq_ok.mp hprover
  obtain ⟨_, r, -, hr, -, -⟩ :=
    Knowledge.Prover.randomData_eq_ok.mp (Drawn.callDrawn_eq_ok.mp hx)
  obtain ⟨-, -, challenge, verifier, hchallenge, -, rfl⟩ :=
    Authority.challenge_eq_ok.mp (Drawn.callDrawn_eq_ok.mp he)
  obtain ⟨-, -, -, _, hnext, -⟩ := Knowledge.Verifier.challenge_eq_ok.mp hchallenge
  obtain ⟨c, hc, -, -⟩ := Knowledge.Verifier.nextChallenge_sigma.mp hnext
  obtain ⟨-, rfl⟩ := Drawn.call_eq_ok.mp hresponse
  obtain ⟨_, k, hpending, -, hk, hcertify, -⟩ :=
    Authority.verify_eq_ok.mp (Drawn.callDrawn_eq_ok.mp hmade)
  cases hpending
  obtain ⟨ha, hb, hsign⟩ := Authority.certify_eq_ok.mp hcertify
  refine ⟨⟨G.exp nym.a k, G.exp nym.b k⟩, ?_, ha, hb, hsign⟩
  unfold certifiedPair
  rw [Draw.bind_of_eq_some (Drawn.draw_eq_ok.mp hnym), Draw.bind_of_eq_some hr,
    Draw.bind_of_eq_some hc, Draw.bind_of_eq_some hk]
  rfl

/-- A registration has spent a key, and the certificate was checked. -/
theorem mem_of_register {user : User} {authority : Ecdsa.PublicKey} {certificate : Certificate E}
    {key : String} {store store' : RegistrationStore} {nym : Pseudonym E}
    (h : (register G user authority certificate key store).run source
      = some (.ok (nym, store'), next)) :
    key ∈ store.keys ∧ store' = (store.consume key).2 ∧
      certificate.verify G authority = .ok () := by
  unfold register at h
  obtain ⟨nym', s1, -, h⟩ := Drawn.bind_eq_ok.mp h
  obtain ⟨⟨registrar, after⟩, s2, hstart, h⟩ := Drawn.bind_eq_ok.mp h
  obtain ⟨prover, s3, -, h⟩ := Drawn.bind_eq_ok.mp h
  obtain ⟨⟨⟨x1, x2⟩, prover'⟩, s4, -, h⟩ := Drawn.bind_eq_ok.mp h
  obtain ⟨⟨e, registrar'⟩, s5, he, h⟩ := Drawn.bind_eq_ok.mp h
  obtain ⟨⟨z, _⟩, s6, -, h⟩ := Drawn.bind_eq_ok.mp h
  obtain ⟨⟨accepted, _⟩, s7, -, h⟩ := Drawn.bind_eq_ok.mp h
  obtain ⟨hmem, rfl, hafter⟩ := Registrar.start_eq_ok.mp (Drawn.call_eq_ok.mp hstart).1
  obtain ⟨_, _, -, hcheck, -⟩ := Registrar.challenge_eq_ok.mp (Drawn.callDrawn_eq_ok.mp he)
  obtain ⟨hverify, -⟩ := Registrar.checkStatement_eq_ok.mp hcheck
  refine ⟨hmem, ?_, hverify⟩
  rcases accepted with _ | _
  · exact absurd h Drawn.throw_ne_ok
  · obtain ⟨hpair, -⟩ := Drawn.pure_eq_ok.mp h
    cases hpair
    exact hafter

/-- A run that is not refused has used two different registration keys and a signature that holds,
so it cannot do with less than a favourable stream. -/
theorem Favourable.of_run {config : Config} {w : Nat} {out : Option SessionKey}
    (h : (run G { config with sessionKeyBytes := 1 } w).run source = some (.ok out, next)) :
    Favourable G config w source := by
  refine ⟨Option.isSome_iff_exists.mpr ⟨_, h⟩, ?_⟩
  intro opening after hopening
  unfold run at h
  obtain ⟨store, s1, hstore, h⟩ := Drawn.bind_eq_ok.mp h
  obtain ⟨keys, s2, hkeys, h⟩ := Drawn.bind_eq_ok.mp h
  obtain ⟨R, s3, hlength, h⟩ := Drawn.bind_eq_ok.mp h
  obtain ⟨user, s4, hsecret, h⟩ := Drawn.bind_eq_ok.mp h
  obtain ⟨authorityKey, s5, hauthority, h⟩ := Drawn.bind_eq_ok.mp h
  obtain ⟨certificate, s6, hcertify, h⟩ := Drawn.bind_eq_ok.mp h
  obtain ⟨nyms, s7, hregister, -⟩ := Drawn.bind_eq_ok.mp h
  obtain ⟨-, rfl⟩ := Drawn.except_eq_ok.mp hlength
  obtain ⟨huser, rfl⟩ := Drawn.except_eq_ok.mp hsecret
  obtain ⟨-, rfl⟩ := User.ofSecret_eq_ok.mp huser
  obtain ⟨pair, hpair, ha, hb, hsign⟩ := signs_of_certify hcertify
  have hsame : Opening.draw G config w source = some (⟨keys, authorityKey, pair⟩, s6) := by
    unfold Opening.draw
    rw [Draw.bind_of_eq_some (Drawn.draw_eq_ok.mp hstore),
      Draw.bind_of_eq_some (Drawn.draw_eq_ok.mp hkeys),
      Draw.bind_of_eq_some (Drawn.draw_eq_ok.mp hauthority), Draw.bind_of_eq_some hpair]
    rfl
  rw [hsame] at hopening
  cases hopening
  -- the second registration found its key after the first one had spent its own
  unfold registerTwo at hregister
  obtain ⟨⟨first, store1⟩, _, hfirst, hregister⟩ := Drawn.bind_eq_ok.mp hregister
  obtain ⟨⟨second, store2⟩, _, hsecond, -⟩ := Drawn.bind_eq_ok.mp hregister
  obtain ⟨-, rfl, hverify⟩ := mem_of_register hfirst
  obtain ⟨hmem, -, -⟩ := mem_of_register hsecond
  obtain ⟨-, hdiffer⟩ := RegistrationStore.mem_consume.mp hmem
  refine ⟨hdiffer.symm, certificate.signature, hsign, ?_⟩
  unfold Certificate.verify at hverify
  rw [ha, hb] at hverify
  by_contra hnot
  rw [if_neg hnot] at hverify
  cases hverify

/-! ## Completeness -/

/-- Over a Schnorr group of prime order and with settings that are not refused, every user gets a
session key of the length that is asked for, whatever the organizations' keys are, if only a key of
that length can stand in one piece. -/
theorem run_complete {p q g : Nat} {S : SchnorrGroup} (hS : SchnorrGroup.ofParams p q g = .ok S)
    (hq : q.Prime) {w : Nat} (hpos : 0 < w) (hlt : w < q) {config : Config}
    (hvalid : config.validate = .ok ())
    (hlength : config.sessionKeyBytes.toNat ≤ Bytes.maxLength)
    (hsource : Favourable S.group config w source) :
    ∃ key next, (run S.group config w).run source = some (.ok (some key), next) ∧
      key.bytes.length = config.sessionKeyBytes.toNat := by
  have := SchnorrGroup.lawful_of_ofParams hS
  rw [← SchnorrGroup.order_of_ofParams hS] at hq hlt
  have hne : config.sessionKeyBytes.toNat ≠ 0 := fun h =>
    (validate_eq_ok hvalid).2 (UInt64.toNat_inj.mp h)
  have hends := run_endsWith hne hlength (by decide : (1 : UInt64).toNat ≠ 0) w source hsource.ends
  obtain ⟨⟨outcome, next⟩, hrun⟩ := Option.isSome_iff_exists.mp hends
  obtain ⟨_, rfl, key, rfl, hkey⟩ :=
    run_succeeds hq hpos hlt hvalid hsource.sound outcome next hrun
  exact ⟨key, next, hrun, hkey⟩

/-! ### A run over a small group -/

/-- Two organizations and two registration keys. -/
def twoKeys : Config := { Config.standard with registrationKeys := ["k1", "k2"] }

/-- A stream on which every rejection loop over the small group and the curve ends. -/
def steady : Source := ⟨fun _ => 0x35, 0, 4⟩

theorem run_steady : ∃ out next, (run SchnorrGroup.squares23.group
    { twoKeys with sessionKeyBytes := 1 } 5).run steady = some (.ok out, next) := by
  have hrun : ((run SchnorrGroup.squares23.group { twoKeys with sessionKeyBytes := 1 } 5).run
      steady).any (fun out => out.1.isOk) = true := by decide +kernel
  exact Drawn.exists_of_isOk hrun

theorem favourable_steady : Favourable SchnorrGroup.squares23.group twoKeys 5 steady := by
  obtain ⟨out, next, hrun⟩ := run_steady
  exact .of_run hrun

/-- The authority's key that is drawn from the stream. -/
def steadyKey : Ecdsa.SecretKey :=
  ⟨0x3535353535353535353535353535353535353535353535353535353535353535⟩

theorem signs_steady : Signs SchnorrGroup.squares23.group steadyKey ⟨13, 4⟩ := by
  have hopening : ((Opening.draw SchnorrGroup.squares23.group twoKeys 5 steady).map fun out =>
      (out.1.authorityKey, out.1.pair)) = some (steadyKey, ⟨13, 4⟩) := by decide +kernel
  obtain ⟨⟨opening, next⟩, hdraw, hvalues⟩ := Option.map_eq_some_iff.mp hopening
  obtain ⟨hkey, hpair⟩ := Prod.mk.inj hvalues
  rw [← hkey, ← hpair]
  exact (favourable_steady.sound opening next hdraw).2

theorem run_complete_steady :
    ∃ key next, (run SchnorrGroup.squares23.group twoKeys 5).run steady
      = some (.ok (some key), next) ∧ key.bytes.length = 32 :=
  run_complete SchnorrGroup.ofParams_squares23 (by decide) (by decide) (by decide) (by rfl)
    (by decide) favourable_steady

/-- Settings with the longest session key that can be written down are not refused, and a run with
them hands out no key. -/
theorem longest_key_not_made :
    SchnorrGroup.ofParams 23 11 4 = .ok SchnorrGroup.squares23 ∧ Nat.Prime 11 ∧
      ({ twoKeys with sessionKeyBytes := 18446744073709551615 } : Config).validate = .ok () ∧
      Favourable SchnorrGroup.squares23.group
        { twoKeys with sessionKeyBytes := 18446744073709551615 } 5 steady ∧
      ¬∃ key next, (run SchnorrGroup.squares23.group
          { twoKeys with sessionKeyBytes := 18446744073709551615 } 5).run steady
        = some (.ok (some key), next) ∧ key.bytes.length = 18446744073709551615 := by
  refine ⟨SchnorrGroup.ofParams_squares23, by decide, by rfl, favourable_steady.ofLength _, ?_⟩
  rintro ⟨key, next, hrun, -⟩
  exact run_ne_key (by decide) 5 key hrun

end Deployment

end AnonCred

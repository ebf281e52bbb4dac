import AnonCred.Credential.Transfer
import AnonCred.Proofs.Equality

/-!
# The transfer of a credential, call by call

An organization answers the holder of a credential, and hands out a session key for an accepted
answer and a valid credential.

* `CredentialVerifier.challenge_answers`, `CredentialVerifier.verify_accepted` — the calls
* `CredentialVerifier.accept_cases`, `CredentialVerifier.verify_eq_some` — when a key is asked for
* `SessionKey.Random.generate_eq_some` — a random key has the length that is asked for
-/

namespace AnonCred

open CyclicGroup

variable {E : Type} {G : CyclicGroup E} {source next : Source}

/-! ## Session keys -/

namespace SessionKey.Random

theorem ofLength_eq_ok {length : Nat} {R : Random} :
    ofLength length = .ok R ↔ length ≠ 0 ∧ R = ⟨length⟩ := by
  unfold ofLength
  split
  · next h => simp [h]
  · next h => simp [h, eq_comm]

/-- A key has the length that is asked for. -/
theorem generate_eq_some {R : Random} {answer : Except Error SessionKey}
    (h : R.generate source = some (answer, next)) :
    ∃ key, answer = .ok key ∧ key.bytes.length = R.length := by
  unfold generate at h
  by_cases hlong : Bytes.maxLength < R.length
  · rw [if_pos hlong] at h
    cases h
  · rw [if_neg hlong] at h
    obtain ⟨bytes, middle, hbytes, hrest⟩ := Draw.bind_eq_some.mp h
    obtain ⟨rfl, -⟩ := Draw.pure_eq_some.mp hrest
    cases hbytes
    refine ⟨_, rfl, ?_⟩
    rw [List.length_map, List.length_range]

/-- A key that can stand in one piece is made, wherever the stream stands. -/
theorem generate_of_le {R : Random} (h : R.length ≤ Bytes.maxLength) (source : Source) :
    (R.generate source).isSome := by
  unfold generate
  rw [if_neg (Nat.not_lt.mpr h)]
  rfl

/-- A longer key is not made. -/
theorem generate_of_lt {R : Random} (h : Bytes.maxLength < R.length) (source : Source) :
    R.generate source = none := by
  unfold generate
  rw [if_pos h]
  rfl

end SessionKey.Random

/-! ## The session -/

namespace CredentialVerifier

/-- A session after its challenge. -/
def asked (credential : Credential E) (claim : Equality.Claim E) (e : Nat) : CredentialVerifier E :=
  ⟨.awaitingResponse claim e, some credential⟩

variable [DecidableEq E]

theorem checkStatement_eq_ok {nym : Pseudonym E} {credential : Credential E} :
    checkStatement G nym credential = .ok () ↔
      nym.a ≠ G.identity ∧ nym.b ≠ G.identity ∧ credential.base ≠ G.identity ∧
        credential.value ≠ G.identity := by
  unfold checkStatement
  simp only [except_bind_eq_ok, G.checkPair_eq_ok]
  constructor
  · rintro ⟨-, ⟨ha, hb⟩, hbase, hvalue⟩
    exact ⟨ha, hb, hbase, hvalue⟩
  · rintro ⟨ha, hb, hbase, hvalue⟩
    exact ⟨(), ⟨ha, hb⟩, hbase, hvalue⟩

theorem checkStatement_eq_error {nym : Pseudonym E} {credential : Credential E} {error : Error}
    (h : checkStatement G nym credential = .error error) :
    (nym.a = G.identity ∨ nym.b = G.identity ∨ credential.base = G.identity ∨
      credential.value = G.identity) ∧ ∃ what, error = .element (.isIdentity what) := by
  unfold checkStatement at h
  simp only [except_bind_eq_error, G.checkPair_eq_error] at h
  rcases h with (⟨ha, rfl⟩ | ⟨-, hb, rfl⟩) | ⟨-, -, ⟨hbase, rfl⟩ | ⟨-, hvalue, rfl⟩⟩
  · exact ⟨.inl ha, _, rfl⟩
  · exact ⟨.inr (.inl hb), _, rfl⟩
  · exact ⟨.inr (.inr (.inl hbase)), _, rfl⟩
  · exact ⟨.inr (.inr (.inr hvalue)), _, rfl⟩

theorem challenge_eq_ok {V V' : CredentialVerifier E} {nym : Pseudonym E}
    {credential : Credential E} {x1 x2 : E} {e : Nat} :
    V.challenge G nym credential x1 x2 source = some ((.ok e, V'), next) ↔
      checkStatement G nym credential = .ok () ∧ ∃ verifier,
        V.verifier.challenge G (claim nym credential x1 x2) source
          = some ((.ok e, verifier), next) ∧
        V' = ⟨verifier, some credential⟩ := by
  unfold challenge
  rcases hcheck : checkStatement G nym credential with error | u
  · constructor
    · intro h
      cases (Draw.pure_eq_some.mp h).1
    · rintro ⟨h, -⟩
      cases h
  · dsimp only
    rw [Draw.bind_eq_some]
    constructor
    · rintro ⟨⟨answer, verifier⟩, middle, hanswer, hrest⟩
      rcases answer with error | e'
      · cases (Draw.pure_eq_some.mp hrest).1
      · obtain ⟨hpair, rfl⟩ := Draw.pure_eq_some.mp hrest
        cases hpair
        exact ⟨rfl, verifier, hanswer, rfl⟩
    · rintro ⟨-, verifier, hanswer, rfl⟩
      exact ⟨_, next, hanswer, Draw.pure_eq_some.mpr ⟨rfl, rfl⟩⟩

/-- The statement is refused and nothing changes, or the verifier refuses. -/
theorem challenge_eq_error {V V' : CredentialVerifier E} {nym : Pseudonym E}
    {credential : Credential E} {x1 x2 : E} {error : Error}
    (h : V.challenge G nym credential x1 x2 source = some ((.error error, V'), next)) :
    checkStatement G nym credential = .error error ∧ V' = V ∨
      checkStatement G nym credential = .ok () ∧ ∃ verifier,
        V.verifier.challenge G (claim nym credential x1 x2) source
          = some ((.error error, verifier), next) ∧
        V' = { V with verifier } := by
  unfold challenge at h
  rcases hcheck : checkStatement G nym credential with error' | u
  · rw [hcheck] at h
    obtain ⟨hpair, -⟩ := Draw.pure_eq_some.mp h
    cases hpair
    exact .inl ⟨rfl, rfl⟩
  · rw [hcheck] at h
    obtain ⟨⟨answer, verifier⟩, middle, hanswer, hrest⟩ := Draw.bind_eq_some.mp h
    rcases answer with error' | e
    · obtain ⟨hpair, rfl⟩ := Draw.pure_eq_some.mp hrest
      cases hpair
      exact .inr ⟨rfl, verifier, hanswer, rfl⟩
    · cases (Draw.pure_eq_some.mp hrest).1

/-- Nothing is pending and nothing changes; or the verifier refuses; or it has waited, and it says
whether the answer is accepted together with the credential. -/
theorem accept_cases (V : CredentialVerifier E) (z : Nat) (issuer : IssuerPublicKey E) :
    (V.pending = none ∧ ∃ error, error.IsOutOfOrder ∧ V.accept G z issuer = (.error error, V)) ∨
    (∃ credential error, V.pending = some credential ∧ V.verifier.verify G z = (.error error, .done) ∧
      V.accept G z issuer = (.error error, ⟨.done, none⟩)) ∨
    ∃ credential claim e, V.pending = some credential ∧ V.verifier = .awaitingResponse claim e ∧
      V.accept G z issuer = (.ok (decide (claim.Holds G e z) && decide (credential.ValidFor G issuer)),
        ⟨.done, none⟩) := by
  unfold accept
  rcases V.pending with _ | credential
  · exact .inl ⟨rfl, _, Error.isOutOfOrder _ _, rfl⟩
  rcases hverify : V.verifier.verify G z with ⟨error | accepted, verifier⟩
  · obtain ⟨rfl, -⟩ := Equality.Verifier.verify_eq_error hverify
    exact .inr (.inl ⟨credential, error, rfl, rfl, rfl⟩)
  · obtain ⟨claim, e, hstate, rfl, rfl⟩ := Equality.Verifier.verify_eq_ok.mp hverify
    exact .inr (.inr ⟨credential, claim, e, rfl, hstate, rfl⟩)

/-- A new session answers the holder of a credential for the secret of its pseudonym. -/
theorem challenge_answers [Lawful G] {a u : G.Element} {w : Nat} {credential : Credential E}
    (hbase : credential.base = u) (hvalue : credential.value = (u ^ w : G.Element)) (ha : a ≠ 1)
    (haw : a ^ w ≠ 1) (hu : u ≠ 1) (huw : u ^ w ≠ 1) (x1 x2 : G.Element) :
    Answers (start.challenge G ⟨a, G.exp a w⟩ credential x1 x2) source fun e V' _ =>
      e < G.order ∧ V' = asked credential ⟨(a : E), u, G.exp a w, G.exp u w, x1, x2⟩ e := by
  have hcheck : checkStatement G ⟨(a : E), G.exp a w⟩ credential = .ok () := by
    refine checkStatement_eq_ok.mpr ⟨fun h => ha (Element.coe_eq_identity.mp h), ?_, ?_, ?_⟩
    · exact fun h => haw (Element.coe_eq_identity.mp h)
    · rw [hbase]
      exact fun h => hu (Element.coe_eq_identity.mp h)
    · rw [hvalue]
      exact fun h => huw (Element.coe_eq_identity.mp h)
  have hclaim : claim ⟨(a : E), G.exp a w⟩ credential x1 x2
      = ⟨(a : E), u, G.exp a w, G.exp u w, x1, x2⟩ := by
    unfold claim
    rw [hbase, hvalue]
    rfl
  unfold challenge
  rw [hcheck]
  dsimp only
  rw [hclaim]
  refine (Equality.Verifier.challenge_answers (Equality.Claim.mem_elements a u (a ^ w) (u ^ w) x1
    x2)).bindCall ?_
  rintro e verifier middle ⟨he, rfl⟩
  exact Answers.pure ⟨he, rfl⟩

/-- For an accepted answer and a valid credential a session key is asked for. -/
theorem verify_accepted {credential : Credential E} {claim : Equality.Claim E} {e z : Nat}
    {issuer : IssuerPublicKey E} (hholds : claim.Holds G e z)
    (hvalid : credential.ValidFor G issuer) (generate : Draw (Except Error SessionKey)) :
    (asked credential claim e).verify G generate z issuer
      = generate >>= fun key => pure (key.map some, ⟨.done, none⟩) := by
  have haccept : (asked credential claim e).accept G z issuer = (.ok true, ⟨.done, none⟩) := by
    show (Except.ok (decide (claim.Holds G e z) && decide (credential.ValidFor G issuer)), _) = _
    rw [decide_eq_true hholds, decide_eq_true hvalid]
    rfl
  unfold verify
  rw [haccept]

/-- The session key has the length that is asked for. -/
theorem verify_answers {credential : Credential E} {claim : Equality.Claim E} {e z : Nat}
    {issuer : IssuerPublicKey E} (hholds : claim.Holds G e z)
    (hvalid : credential.ValidFor G issuer) (R : SessionKey.Random) :
    Answers ((asked credential claim e).verify G R.generate z issuer) source fun out _ _ =>
      ∃ key, out = some key ∧ key.bytes.length = R.length := by
  rw [verify_accepted hholds hvalid]
  refine Answers.bind ?_
  intro answer middle hgenerate
  obtain ⟨key, rfl, hlength⟩ := SessionKey.Random.generate_eq_some hgenerate
  exact Answers.pure ⟨key, rfl, hlength⟩

/-- A session key is asked for exactly when the answer and the credential are accepted. -/
theorem verify_eq_some {generate : Draw (Except Error SessionKey)} {V V' : CredentialVerifier E}
    {z : Nat} {issuer : IssuerPublicKey E} {answer : Except Error (Option SessionKey)}
    (h : V.verify G generate z issuer source = some ((answer, V'), next)) :
    V' = (V.accept G z issuer).2 ∧
      match (V.accept G z issuer).1 with
      | .error error => answer = .error error
      | .ok false => answer = .ok none
      | .ok true => ∃ made, generate source = some (made, next) ∧ answer = made.map some := by
  unfold verify at h
  rcases haccept : V.accept G z issuer with ⟨error | accepted, after⟩
  · rw [haccept] at h
    obtain ⟨hanswer, rfl⟩ := Prod.mk.inj (Draw.pure_eq_some.mp h).1
    exact ⟨rfl, hanswer.symm⟩
  rw [haccept] at h
  rcases accepted with _ | _
  · obtain ⟨hanswer, rfl⟩ := Prod.mk.inj (Draw.pure_eq_some.mp h).1
    exact ⟨rfl, hanswer.symm⟩
  · obtain ⟨made, middle, hgenerate, hrest⟩ := Draw.bind_eq_some.mp h
    obtain ⟨hpair, rfl⟩ := Draw.pure_eq_some.mp hrest
    obtain ⟨hanswer, rfl⟩ := Prod.mk.inj hpair
    exact ⟨rfl, made, hgenerate, hanswer.symm⟩

/-- A session key that is handed out was made for it. -/
theorem verify_eq_key {generate : Draw (Except Error SessionKey)} {V V' : CredentialVerifier E}
    {z : Nat} {issuer : IssuerPublicKey E} {key : SessionKey}
    (h : V.verify G generate z issuer source = some ((.ok (some key), V'), next)) :
    generate source = some (.ok key, next) := by
  unfold verify at h
  rcases haccept : V.accept G z issuer with ⟨error | accepted, after⟩
  · rw [haccept] at h
    cases (Draw.pure_eq_some.mp h).1
  rw [haccept] at h
  rcases accepted with _ | _
  · cases (Draw.pure_eq_some.mp h).1
  · obtain ⟨answer, middle, hgenerate, hrest⟩ := Draw.bind_eq_some.mp h
    obtain ⟨hanswer, rfl⟩ := Draw.pure_eq_some.mp hrest
    rcases answer with error | made
    · cases hanswer
    · cases hanswer
      exact hgenerate

/-- The verifier comes to an end if the making of a key does. -/
theorem verify_isSome {generate : Draw (Except Error SessionKey)}
    (hends : ∀ source, (generate source).isSome) (V : CredentialVerifier E) (z : Nat)
    (issuer : IssuerPublicKey E) :
    (V.verify G generate z issuer source).isSome := by
  unfold verify
  rcases V.accept G z issuer with ⟨error | accepted, after⟩
  · rfl
  rcases accepted with _ | _
  · rfl
  · obtain ⟨⟨answer, next⟩, hgenerate⟩ := Option.isSome_iff_exists.mp (hends source)
    dsimp only
    rw [Draw.bind_of_eq_some hgenerate]
    rfl

end CredentialVerifier

end AnonCred

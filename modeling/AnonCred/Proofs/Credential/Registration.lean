import AnonCred.Credential.Registration
import AnonCred.Proofs.Credential.Authority

/-!
# The registration of a pseudonym, call by call

A registration key opens one session, and the session registers a pseudonym for the secret of a
certified one.

* `Registrar.start_eq_ok` — a key that is there opens a session and is spent
* `Registrar.challenge_answers`, `Registrar.verify_registering` — the calls of a session
* `Registrar.challenge_eq_error`, `Registrar.verify_eq_error` — how a session ends before that
-/

namespace AnonCred

open CyclicGroup

variable {E : Type} {G : CyclicGroup E} {source next : Source}

/-! ## Registration keys -/

theorem RegistrationStore.mem_ofList {keys : List String} {key : String} :
    key ∈ (ofList keys).keys ↔ key ∈ keys := by
  have hfold (S : RegistrationStore) :
      key ∈ (keys.foldl insert S).keys ↔ key ∈ keys ∨ key ∈ S.keys := by
    induction keys generalizing S with
    | nil => simp
    | cons first rest ih =>
      rw [List.foldl_cons, ih, mem_insert, List.mem_cons]
      tauto
  unfold ofList
  rw [hfold]
  simp [empty]

namespace RegistrationStore

variable {S : RegistrationStore} {key : String}

/-- A key that is not there is refused, and the store stays as it is. -/
theorem consume_of_not_mem (h : key ∉ S.keys) : S.consume key = (false, S) := by
  have hkeys : S.keys.filter (· ≠ key) = S.keys := by
    rw [List.filter_eq_self]
    intro other hother
    rw [decide_eq_true_iff]
    rintro rfl
    exact h hother
  unfold consume
  rw [hkeys, decide_eq_false h]

theorem consume_of_mem (h : key ∈ S.keys) : S.consume key = (true, (S.consume key).2) := by
  unfold consume
  rw [decide_eq_true h]

theorem nodup_ofList (keys : List String) : (ofList keys).keys.Nodup := by
  have hfold (S : RegistrationStore) (hS : S.keys.Nodup) : (keys.foldl insert S).keys.Nodup := by
    induction keys generalizing S with
    | nil => exact hS
    | cons first rest ih => exact ih (S.insert first) (nodup_insert hS first)
  exact hfold empty List.nodup_nil

end RegistrationStore

namespace Registrar

/-- A key opens a session if it is there, and is spent; otherwise nothing changes. -/
theorem start_eq (authorityKey : Ecdsa.PublicKey) (S : RegistrationStore) (key : String) :
    (start authorityKey S key : Except Error (Registrar E) × RegistrationStore) =
      if key ∈ S.keys then (.ok ⟨authorityKey, some .ready⟩, (S.consume key).2)
      else (.error .registrationDenied, S) := by
  unfold start
  split
  · next hconsume =>
    have hmem : key ∈ S.keys := of_decide_eq_true (congrArg Prod.fst hconsume)
    rw [if_pos hmem, hconsume]
  · next hconsume =>
    have hmem : key ∉ S.keys := of_decide_eq_false (congrArg Prod.fst hconsume)
    rw [RegistrationStore.consume_of_not_mem hmem] at hconsume
    cases hconsume
    rw [if_neg hmem]

theorem start_eq_ok {authorityKey : Ecdsa.PublicKey} {S S' : RegistrationStore} {key : String}
    {R : Registrar E} :
    start authorityKey S key = (.ok R, S') ↔
      key ∈ S.keys ∧ R = ⟨authorityKey, some .ready⟩ ∧ S' = (S.consume key).2 := by
  rw [start_eq]
  by_cases hmem : key ∈ S.keys
  · rw [if_pos hmem]
    constructor
    · rintro ⟨rfl, rfl⟩
      exact ⟨hmem, rfl, rfl⟩
    · rintro ⟨-, rfl, rfl⟩
      rfl
  · rw [if_neg hmem]
    constructor
    · rintro ⟨⟩
    · rintro ⟨h, -⟩
      exact absurd h hmem

/-! ## The session -/

/-- A session after its challenge. -/
def registering (authorityKey : Ecdsa.PublicKey) (claim : Equality.Claim E) (e : Nat) :
    Registrar E :=
  ⟨authorityKey, some (.awaitingResponse claim e)⟩

variable [DecidableEq E]

theorem checkStatement_eq_ok {R : Registrar E} {nym : Pseudonym E} {certificate : Certificate E} :
    R.checkStatement G nym certificate = .ok () ↔
      certificate.verify G R.authorityKey = .ok () ∧ nym.a ≠ G.identity ∧ nym.b ≠ G.identity ∧
        certificate.blindedA ≠ G.identity ∧ certificate.blindedB ≠ G.identity := by
  unfold checkStatement
  simp only [except_bind_eq_ok, G.checkPair_eq_ok]
  constructor
  · rintro ⟨⟨⟩, hverify, -, ⟨ha, hb⟩, hbase, hvalue⟩
    exact ⟨hverify, ha, hb, hbase, hvalue⟩
  · rintro ⟨hverify, ha, hb, hbase, hvalue⟩
    exact ⟨(), hverify, (), ⟨ha, hb⟩, hbase, hvalue⟩

theorem challenge_eq_ok {R R' : Registrar E} {nym : Pseudonym E} {certificate : Certificate E}
    {x1 x2 : E} {e : Nat} :
    R.challenge G nym certificate x1 x2 source = some ((.ok e, R'), next) ↔
      ∃ verifier verifier', R.verifier = some verifier ∧
        R.checkStatement G nym certificate = .ok () ∧
        verifier.challenge G (claim nym certificate x1 x2) source
          = some ((.ok e, verifier'), next) ∧
        R' = { R with verifier := some verifier' } := by
  unfold challenge openVerifier
  rw [settleDrawn_eq_ok]
  simp only [Drawn.bind_eq_ok, Drawn.except_eq_ok, Drawn.callDrawn_eq_ok, Drawn.pure_eq_ok,
    Prod.exists, Prod.mk.injEq]
  rcases R.verifier with _ | verifier
  · constructor
    · rintro ⟨_, _, ⟨h, -⟩, -⟩
      cases h
    · rintro ⟨_, _, h, -⟩
      cases h
  · constructor
    · rintro ⟨_, _, ⟨⟨⟩, rfl⟩, ⟨⟩, _, ⟨hcheck, rfl⟩, e, verifier', _, hchallenge, ⟨rfl, rfl⟩, rfl⟩
      exact ⟨verifier, verifier', rfl, hcheck, hchallenge, rfl⟩
    · rintro ⟨_, verifier', ⟨⟩, hcheck, hchallenge, rfl⟩
      exact ⟨verifier, source, ⟨rfl, rfl⟩, (), source, ⟨hcheck, rfl⟩, e, verifier', next,
        hchallenge, ⟨rfl, rfl⟩, rfl⟩

theorem checkStatement_eq_error {R : Registrar E} {nym : Pseudonym E} {certificate : Certificate E}
    {error : Error} (h : R.checkStatement G nym certificate = .error error) :
    error = .signature .invalid ∨ ∃ what, error = .element (.isIdentity what) := by
  unfold checkStatement Certificate.verify at h
  simp only [except_bind_eq_error, G.checkPair_eq_error] at h
  rcases h with hsignature | ⟨-, -, (⟨-, rfl⟩ | ⟨-, -, rfl⟩) | ⟨-, -, ⟨-, rfl⟩ | ⟨-, -, rfl⟩⟩⟩
  · split at hsignature
    · cases hsignature
    · cases hsignature
      exact .inl rfl
  all_goals exact .inr ⟨_, rfl⟩

theorem challenge_eq_error {R R' : Registrar E} {nym : Pseudonym E} {certificate : Certificate E}
    {x1 x2 : E} {error : Error}
    (h : R.challenge G nym certificate x1 x2 source = some ((.error error, R'), next)) :
    R' = R.ended ∧ (R.verifier = none ∧ error.IsOutOfOrder ∨
      ∃ verifier, R.verifier = some verifier ∧
        (R.checkStatement G nym certificate = .error error ∨
          ∃ verifier', verifier.challenge G (claim nym certificate x1 x2) source
            = some ((.error error, verifier'), next))) := by
  unfold challenge openVerifier at h
  obtain ⟨hrun, rfl⟩ := settleDrawn_eq_error.mp h
  refine ⟨rfl, ?_⟩
  simp only [Drawn.bind_eq_error, Drawn.except_eq_error, Drawn.except_eq_ok,
    Drawn.callDrawn_eq_error, Drawn.pure_ne_error, and_false, exists_false, or_false] at hrun
  rcases hverifier : R.verifier with _ | verifier
  · rw [hverifier] at hrun
    rcases hrun with ⟨herror, -⟩ | ⟨_, _, ⟨h, -⟩, -⟩
    · cases herror
      exact .inl ⟨rfl, Error.isOutOfOrder _ _⟩
    · cases h
  · rw [hverifier] at hrun
    rcases hrun with ⟨h, -⟩ | ⟨_, _, ⟨⟨⟩, rfl⟩, hrest⟩
    · cases h
    · refine .inr ⟨verifier, rfl, ?_⟩
      rcases hrest with ⟨hcheck, -⟩ | ⟨⟨⟩, _, ⟨-, rfl⟩, hchallenge⟩
      · exact .inl hcheck
      · exact .inr hchallenge

theorem verify_eq_ok {R R' : Registrar E} {z : Nat} {accepted : Bool} :
    R.verify G z = (.ok accepted, R') ↔
      ∃ verifier, R.verifier = some verifier ∧ (verifier.verify G z).1 = .ok accepted ∧
        R' = R.ended := by
  unfold verify openVerifier
  rw [settle_eq_ok]
  simp only [except_bind_eq_ok, except_pure_eq_ok, Prod.mk.injEq]
  rcases R.verifier with _ | verifier
  · constructor
    · rintro ⟨_, h, -⟩
      cases h
    · rintro ⟨_, h, -⟩
      cases h
  · constructor
    · rintro ⟨_, ⟨⟩, _, haccepted, rfl, rfl⟩
      exact ⟨verifier, rfl, haccepted, rfl⟩
    · rintro ⟨_, ⟨⟩, haccepted, rfl⟩
      exact ⟨verifier, rfl, accepted, haccepted, rfl, rfl⟩

theorem verify_eq_error {R R' : Registrar E} {z : Nat} {error : Error}
    (h : R.verify G z = (.error error, R')) :
    R' = R.ended ∧ (R.verifier = none ∧ error.IsOutOfOrder ∨
      ∃ verifier, R.verifier = some verifier ∧ (verifier.verify G z).1 = .error error) := by
  unfold verify openVerifier at h
  obtain ⟨hrefused, rfl⟩ := settle_eq_error.mp h
  refine ⟨rfl, ?_⟩
  simp only [except_bind_eq_error, except_pure_ne_error, and_false, exists_false,
    or_false] at hrefused
  rcases hverifier : R.verifier with _ | verifier
  · rw [hverifier] at hrefused
    rcases hrefused with herror | ⟨_, h, -⟩
    · cases herror
      exact .inl ⟨rfl, Error.isOutOfOrder _ _⟩
    · cases h
  · rw [hverifier] at hrefused
    rcases hrefused with h | ⟨_, ⟨⟩, hverify⟩
    · cases h
    · exact .inr ⟨verifier, rfl, hverify⟩

/-- A new session answers the owner of a certified secret. -/
theorem challenge_answers [Lawful G] {authorityKey : Ecdsa.PublicKey} {w : Nat}
    {certificate : Certificate E} {u : G.Element}
    (hcertificate : certificate.Certifies G authorityKey w u) (huw : u ^ w ≠ 1) {a : G.Element}
    (ha : a ≠ 1) (haw : a ^ w ≠ 1) (x1 x2 : G.Element) :
    Answers ((Registrar.mk authorityKey (some .ready)).challenge G ⟨a, G.exp a w⟩ certificate x1 x2)
      source fun e R' _ => e < G.order ∧
        R' = registering authorityKey ⟨(a : E), u, G.exp a w, G.exp u w, x1, x2⟩ e := by
  obtain ⟨hu, hblindedA, hblindedB, hverify⟩ := hcertificate
  have hcheck : (Registrar.mk authorityKey (some .ready)).checkStatement G ⟨(a : E), G.exp a w⟩
      certificate = .ok () := by
    refine checkStatement_eq_ok.mpr ⟨hverify, ?_, ?_, ?_, ?_⟩
    · exact fun h => ha (Element.coe_eq_identity.mp h)
    · exact fun h => haw (Element.coe_eq_identity.mp h)
    · rw [hblindedA]
      exact fun h => hu (Element.coe_eq_identity.mp h)
    · rw [hblindedB]
      exact fun h => huw (Element.coe_eq_identity.mp h)
  have hclaim : claim ⟨(a : E), G.exp a w⟩ certificate x1 x2
      = ⟨(a : E), u, G.exp a w, G.exp u w, x1, x2⟩ := by
    unfold claim
    rw [hblindedA, hblindedB]
    rfl
  refine Answers.settleDrawn ?_
  refine Drawn.Succeeds.bindExcept (rfl : openVerifier _ = .ok .ready) ?_
  refine Drawn.Succeeds.bindExcept hcheck ?_
  rw [hclaim]
  refine (Equality.Verifier.challenge_answers (Equality.Claim.mem_elements a u (a ^ w) (u ^ w) x1
    x2)).bindDrawn ?_
  rintro e verifier middle ⟨he, rfl⟩
  exact Drawn.Succeeds.pure ⟨he, rfl⟩

/-- An accepted answer registers the pseudonym, and ends the session. -/
theorem verify_registering {authorityKey : Ecdsa.PublicKey} {claim : Equality.Claim E} {e z : Nat}
    (hholds : claim.Holds G e z) :
    (registering authorityKey claim e).verify G z = (.ok true, ⟨authorityKey, none⟩) := by
  have haccepted : decide (claim.Holds G e z) = true := decide_eq_true hholds
  show (Except.ok (decide (claim.Holds G e z)), _) = _
  rw [haccepted]
  rfl

end Registrar

end AnonCred

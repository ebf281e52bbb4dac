import AnonCred.Credential.Ownership
import AnonCred.Proofs.Knowledge

/-!
# Asking for the owner, call by call

What the authority and an issuer have in common is proved here once, for any texts and any session
that is put together from a verifier and a pending pseudonym.

* `Ownership.challenge_eq_ok`, `Ownership.challenge_eq_error` — how a challenge ends
* `Ownership.verify_eq_ok`, `Ownership.verify_eq_error` — how an answer ends
* `Ownership.challenge_void` — a statement about an identity changes nothing
* `Ownership.challenge_answers` — what the owner of a pseudonym gets
-/

namespace AnonCred.Ownership

open CyclicGroup

variable {E σ α : Type} [DecidableEq E] {G : CyclicGroup E} {texts : Texts}
  {session : Knowledge.Verifier E → Option (Pseudonym E) → σ} {verifier : Knowledge.Verifier E}
  {pending : Option (Pseudonym E)} {nym : Pseudonym E} {x : E} {s : σ} {source next : Source}

/-! ## Challenges -/

theorem challenge_eq_ok {e : Nat} :
    challenge G texts session verifier pending nym x source = some ((.ok e, s), next) ↔
      nym.a ≠ G.identity ∧ nym.b ≠ G.identity ∧
        ∃ challenge verifier',
          verifier.challenge G nym.a nym.b x source = some ((.ok challenge, verifier'), next) ∧
          e = challenge.e ∧ s = session verifier' (some nym) := by
  rw [← and_assoc, ← G.checkPair_eq_ok]
  unfold challenge
  rcases hcheck : G.checkPair nym.a nym.b texts.base texts.value with error | u
  · constructor
    · intro h
      cases (Draw.pure_eq_some.mp h).1
    · rintro ⟨h, -⟩
      cases h
  · dsimp only
    rw [Draw.bind_eq_some]
    constructor
    · rintro ⟨⟨answer, verifier'⟩, middle, hanswer, hrest⟩
      rcases answer with error | challenge
      · cases (Draw.pure_eq_some.mp hrest).1
      · obtain ⟨hpair, rfl⟩ := Draw.pure_eq_some.mp hrest
        cases hpair
        exact ⟨rfl, challenge, verifier', hanswer, rfl, rfl⟩
    · rintro ⟨-, challenge, verifier', hanswer, rfl, rfl⟩
      exact ⟨_, next, hanswer, Draw.pure_eq_some.mpr ⟨rfl, rfl⟩⟩

/-- The statement is refused and nothing changes, or the verifier refuses. -/
theorem challenge_eq_error {error : Error}
    (h : challenge G texts session verifier pending nym x source = some ((.error error, s), next)) :
    (nym.a = G.identity ∨ nym.b = G.identity) ∧ (∃ what, error = .element (.isIdentity what)) ∧
        s = session verifier pending ∨
      nym.a ≠ G.identity ∧ nym.b ≠ G.identity ∧ ∃ verifier',
        verifier.challenge G nym.a nym.b x source = some ((.error error, verifier'), next) ∧
        s = session verifier' pending := by
  unfold challenge at h
  rcases hcheck : G.checkPair nym.a nym.b texts.base texts.value with error' | u
  · rw [hcheck] at h
    obtain ⟨hpair, -⟩ := Draw.pure_eq_some.mp h
    cases hpair
    rcases G.checkPair_eq_error.mp hcheck with ⟨ha, rfl⟩ | ⟨-, hb, rfl⟩
    · exact .inl ⟨.inl ha, ⟨_, rfl⟩, rfl⟩
    · exact .inl ⟨.inr hb, ⟨_, rfl⟩, rfl⟩
  · rw [hcheck] at h
    obtain ⟨ha, hb⟩ := G.checkPair_eq_ok.mp hcheck
    obtain ⟨⟨answer, verifier'⟩, middle, hanswer, hrest⟩ := Draw.bind_eq_some.mp h
    rcases answer with error' | challenge
    · obtain ⟨hpair, rfl⟩ := Draw.pure_eq_some.mp hrest
      cases hpair
      exact .inr ⟨ha, hb, verifier', hanswer, rfl⟩
    · cases (Draw.pure_eq_some.mp hrest).1

/-- A statement about an identity is refused as such in whatever state. -/
theorem challenge_void {answer : Except Error Nat}
    (hvoid : nym.a = G.identity ∨ nym.b = G.identity)
    (h : challenge G texts session verifier pending nym x source = some ((answer, s), next)) :
    (∃ what, answer = .error (.element (.isIdentity what))) ∧ s = session verifier pending := by
  rcases answer with error | e
  · rcases challenge_eq_error h with ⟨-, ⟨what, rfl⟩, rfl⟩ | ⟨ha, hb, -⟩
    · exact ⟨⟨what, rfl⟩, rfl⟩
    · exact absurd hvoid (not_or.mpr ⟨ha, hb⟩)
  · obtain ⟨ha, hb, -⟩ := challenge_eq_ok.mp h
    exact absurd hvoid (not_or.mpr ⟨ha, hb⟩)

/-- A new verifier answers the owner of a pseudonym without the identity. -/
theorem challenge_answers [Lawful G] {a b x : G.Element} (ha : a ≠ 1) (hb : b ≠ 1) :
    Answers (challenge G texts session (.start .sigma) pending ⟨a, b⟩ x) source fun e s next =>
      G.randomScalar source = some (e, next) ∧
        s = session ⟨.sigma, .awaitingResponse none a b x e⟩ (some ⟨a, b⟩) := by
  have hcheck : G.checkPair (a : E) b texts.base texts.value = .ok () := G.checkPair_eq_ok.mpr
    ⟨fun h => ha (Element.coe_eq_identity.mp h), fun h => hb (Element.coe_eq_identity.mp h)⟩
  unfold challenge
  rw [hcheck]
  refine (Knowledge.Verifier.challenge_answers a.member b.member x.member).bindCall ?_
  rintro challenge verifier' middle ⟨e, he, rfl, rfl⟩
  exact Answers.pure ⟨he, rfl⟩

/-! ## Answers -/

variable {z : Nat} {serve : Pseudonym E → σ → Draw (Except Error α × σ)}

theorem verify_of_accepted {verifier' : Knowledge.Verifier E}
    (h : verifier.verify G ⟨z, none⟩ = (.ok true, verifier')) :
    verify G texts session verifier (some nym) z serve = serve nym (session verifier' none) := by
  unfold verify
  rw [h]

/-- An answer that is not the owner's is refused, and so is one when nothing is pending: nothing is
drawn. -/
theorem verify_refused
    (h : ¬∃ nym, pending = some nym ∧ (verifier.verify G ⟨z, none⟩).1 = .ok true) :
    ∃ error s, verify G texts session verifier pending z serve = pure (.error error, s) := by
  unfold verify
  rcases pending with _ | nym
  · exact ⟨_, _, rfl⟩
  rcases hverify : verifier.verify G ⟨z, none⟩ with ⟨error | accepted, verifier'⟩
  · exact ⟨_, _, rfl⟩
  cases accepted with
  | false => exact ⟨_, _, rfl⟩
  | true => exact absurd ⟨nym, rfl, congrArg Prod.fst hverify⟩ h

/-- What is handed out is handed out to the owner of the pending pseudonym. -/
theorem verify_eq_ok {answer : α} :
    verify G texts session verifier pending z serve source = some ((.ok answer, s), next) ↔
      ∃ nym, pending = some nym ∧ (verifier.verify G ⟨z, none⟩).1 = .ok true ∧
        serve nym (session (verifier.verify G ⟨z, none⟩).2 none) source
          = some ((.ok answer, s), next) := by
  by_cases haccepted : ∃ nym, pending = some nym ∧ (verifier.verify G ⟨z, none⟩).1 = .ok true
  · obtain ⟨nym, rfl, hok⟩ := haccepted
    rw [verify_of_accepted (eq_of_fst_eq hok)]
    constructor
    · intro h
      exact ⟨nym, rfl, hok, h⟩
    · rintro ⟨_, ⟨⟩, -, h⟩
      exact h
  · obtain ⟨error, after, hrefused⟩ :
        ∃ error after, verify G texts session verifier pending z serve = pure (.error error, after) :=
      verify_refused haccepted
    rw [hrefused]
    constructor
    · intro h
      cases (Draw.pure_eq_some.mp h).1
    · rintro ⟨nym, hpending, hok, -⟩
      exact absurd ⟨nym, hpending, hok⟩ haccepted

/-- Nothing is pending and nothing changes; or the verifier refuses, or it has waited and something
fails after its answer. What fails for the owner leaves the session as it finds it. -/
theorem verify_eq_error {error : Error}
    (hserve : ∀ {nym s s'}, serve nym s source = some ((.error error, s'), next) → s' = s)
    (h : verify G texts session verifier pending z serve source
      = some ((.error error, s), next)) :
    pending = none ∧ error.IsOutOfOrder ∧ s = session verifier pending ∨
      ∃ nym, pending = some nym ∧ s = session (verifier.verify G ⟨z, none⟩).2 none ∧
        ((verifier.verify G ⟨z, none⟩).1 = .error error ∨
          ∃ accepted, (verifier.verify G ⟨z, none⟩).1 = .ok accepted) := by
  unfold verify at h
  rcases pending with _ | nym
  · obtain ⟨hpair, -⟩ := Draw.pure_eq_some.mp h
    cases hpair
    exact .inl ⟨rfl, Error.isOutOfOrder _ _, rfl⟩
  refine .inr ⟨nym, rfl, ?_⟩
  rcases hverify : verifier.verify G ⟨z, none⟩ with ⟨error' | accepted, verifier'⟩
  · rw [hverify] at h
    obtain ⟨hpair, -⟩ := Draw.pure_eq_some.mp h
    cases hpair
    exact ⟨rfl, .inl rfl⟩
  rw [hverify] at h
  rcases accepted with _ | _
  · obtain ⟨hpair, -⟩ := Draw.pure_eq_some.mp h
    cases hpair
    exact ⟨rfl, .inr ⟨false, rfl⟩⟩
  · exact ⟨hserve h, .inr ⟨true, rfl⟩⟩

end AnonCred.Ownership

import AnonCred.Credential.Authority
import AnonCred.Proofs.Credential.Ownership

/-!
# The authority, call by call

The authority answers the owner of a pseudonym, and signs the pseudonym raised to a random exponent.
That the signature comes about and holds is the business of the signer: it is a condition on the one
pair that is signed (`Signs`).

* `Authority.challenge_eq_ok`, `Authority.challenge_eq_error`, `Authority.verify_eq_ok`,
  `Authority.verify_eq_error` — the calls of the authority
* `Authority.challenge_answers`, `Authority.verify_answers` — what the owner of a pseudonym gets
-/

namespace AnonCred

open CyclicGroup

variable {E : Type} [DecidableEq E] {G : CyclicGroup E} {source next : Source}

/-- The signer makes a signature of the pair with the key, and the signature holds. -/
def Signs (G : CyclicGroup E) (key : Ecdsa.SecretKey) (pair : Pseudonym E) : Prop :=
  ∃ signature, Ecdsa.sign key (Certificate.digest G pair.a pair.b) = .ok signature ∧
    Ecdsa.verifies key.publicKey (Certificate.digest G pair.a pair.b) signature = true

instance (key : Ecdsa.SecretKey) (pair : Pseudonym E) : Decidable (Signs G key pair) := by
  refine decidable_of_iff ((Ecdsa.sign key (Certificate.digest G pair.a pair.b)).map
    (Ecdsa.verifies key.publicKey (Certificate.digest G pair.a pair.b)) = .ok true) ?_
  unfold Signs
  cases Ecdsa.sign key (Certificate.digest G pair.a pair.b) with
  | ok signature => simp [Except.map]
  | error error => simp [Except.map]

/-- The certificate is about a base other than the identity and its power to the secret, and it is
signed. -/
def Certificate.Certifies (G : CyclicGroup E) [Lawful G] (key : Ecdsa.PublicKey) (w : Nat)
    (u : G.Element) (c : Certificate E) : Prop :=
  u ≠ 1 ∧ c.blindedA = u ∧ c.blindedB = (u ^ w : G.Element) ∧ c.verify G key = .ok ()

namespace Authority

/-- The authority after its challenge. -/
def asked (key : Ecdsa.SecretKey) (nym : Pseudonym E) (x : E) (e : Nat) : Authority E :=
  ⟨key, ⟨.sigma, .awaitingResponse none nym.a nym.b x e⟩, some nym⟩

theorem challenge_eq_ok {A A' : Authority E} {nym : Pseudonym E} {x : E} {e : Nat} :
    A.challenge G nym x source = some ((.ok e, A'), next) ↔
      nym.a ≠ G.identity ∧ nym.b ≠ G.identity ∧
        ∃ challenge verifier,
          A.verifier.challenge G nym.a nym.b x source = some ((.ok challenge, verifier), next) ∧
          e = challenge.e ∧ A' = { A with verifier, pending := some nym } :=
  Ownership.challenge_eq_ok

/-- The statement is refused and nothing changes, or the verifier refuses. -/
theorem challenge_eq_error {A A' : Authority E} {nym : Pseudonym E} {x : E} {error : Error}
    (h : A.challenge G nym x source = some ((.error error, A'), next)) :
    (nym.a = G.identity ∨ nym.b = G.identity) ∧ (∃ what, error = .element (.isIdentity what)) ∧
        A' = A ∨
      nym.a ≠ G.identity ∧ nym.b ≠ G.identity ∧ ∃ verifier,
        A.verifier.challenge G nym.a nym.b x source = some ((.error error, verifier), next) ∧
        A' = { A with verifier } :=
  Ownership.challenge_eq_error h

omit [DecidableEq E] in
theorem certify_eq_ok {key : Ecdsa.SecretKey} {nym : Pseudonym E} {k : Nat}
    {certificate : Certificate E} :
    certify G key nym k = .ok certificate ↔
      certificate.blindedA = G.exp nym.a k ∧ certificate.blindedB = G.exp nym.b k ∧
        Ecdsa.sign key (Certificate.digest G (G.exp nym.a k) (G.exp nym.b k))
          = .ok certificate.signature := by
  unfold certify
  simp only [except_bind_eq_ok, except_pure_eq_ok]
  constructor
  · rintro ⟨signature, hsign, rfl⟩
    exact ⟨rfl, rfl, hsign⟩
  · rintro ⟨ha, hb, hsign⟩
    refine ⟨certificate.signature, hsign, ?_⟩
    rw [← ha, ← hb]

theorem verify_eq_ok {A A' : Authority E} {z : Nat} {certificate : Certificate E} :
    A.verify G z source = some ((.ok certificate, A'), next) ↔
      ∃ nym k, A.pending = some nym ∧ (A.verifier.verify G ⟨z, none⟩).1 = .ok true ∧
        G.randomUnit source = some (k, next) ∧ certify G A.key nym k = .ok certificate ∧
        A' = ⟨A.key, (A.verifier.verify G ⟨z, none⟩).2, none⟩ := by
  unfold verify
  rw [Ownership.verify_eq_ok]
  constructor
  · rintro ⟨nym, hpending, hok, hserve⟩
    obtain ⟨k, middle, hk, hrest⟩ := Draw.bind_eq_some.mp hserve
    obtain ⟨hpair, rfl⟩ := Draw.pure_eq_some.mp hrest
    obtain ⟨hcertify, rfl⟩ := Prod.mk.inj hpair
    exact ⟨nym, k, hpending, hok, hk, hcertify, rfl⟩
  · rintro ⟨nym, k, hpending, hok, hk, hcertify, rfl⟩
    refine ⟨nym, hpending, hok, Draw.bind_eq_some.mpr ⟨k, next, hk, ?_⟩⟩
    exact Draw.pure_eq_some.mpr ⟨Prod.ext hcertify rfl, rfl⟩

/-- Nothing is pending and nothing changes; or the verifier refuses, or it has waited and something
fails after its answer. -/
theorem verify_eq_error {A A' : Authority E} {z : Nat} {error : Error}
    (h : A.verify G z source = some ((.error error, A'), next)) :
    A.pending = none ∧ error.IsOutOfOrder ∧ A' = A ∨
      ∃ nym, A.pending = some nym ∧ A' = ⟨A.key, (A.verifier.verify G ⟨z, none⟩).2, none⟩ ∧
        ((A.verifier.verify G ⟨z, none⟩).1 = .error error ∨
          ∃ accepted, (A.verifier.verify G ⟨z, none⟩).1 = .ok accepted) := by
  refine Ownership.verify_eq_error ?_ h
  intro nym session after hserve
  obtain ⟨k, middle, -, hrest⟩ := Draw.bind_eq_some.mp hserve
  exact (Prod.mk.inj (Draw.pure_eq_some.mp hrest).1).2.symm

variable [Lawful G]

/-- A new session answers the owner of a pseudonym without the identity. -/
theorem challenge_answers (key : Ecdsa.SecretKey) {a b x : G.Element} (ha : a ≠ 1) (hb : b ≠ 1) :
    Answers ((start key : Authority E).challenge G ⟨a, b⟩ x) source fun e A' next =>
      G.randomScalar source = some (e, next) ∧ A' = asked key ⟨(a : E), b⟩ (x : E) e :=
  Ownership.challenge_answers ha hb

/-- The authority accepts the owner, and certifies the pseudonym if the signer does its part. -/
theorem verify_answers (hq : G.order.Prime) {key : Ecdsa.SecretKey} {a : G.Element} (ha : a ≠ 1)
    (w r e : Nat)
    (hsigns : ∀ k next, G.randomUnit source = some (k, next) →
      Signs G key ⟨G.exp a k, G.exp (G.exp a w) k⟩) :
    Answers ((asked key ⟨(a : E), G.exp a w⟩ (G.exp a r) e).verify G
      (Arith.response r e w G.order)) source
      fun certificate _ next => ∃ k u, G.randomUnit source = some (k, next) ∧
        certificate.Certifies G key.publicKey w u := by
  have haccepted := Knowledge.Verifier.verify_response a w r e none
  unfold verify asked
  rw [Ownership.verify_of_accepted haccepted]
  refine Answers.bind ?_
  intro k middle hk
  obtain ⟨signature, hsign, hverifies⟩ := hsigns k middle hk
  obtain ⟨hpos, hlt⟩ := randomUnit_range hk
  have hcertify : certify G key ⟨(a : E), G.exp a w⟩ k
      = .ok ⟨G.exp a k, G.exp (G.exp a w) k, signature⟩ := certify_eq_ok.mpr ⟨rfl, rfl, hsign⟩
  rw [hcertify]
  refine Answers.pure ⟨k, a ^ k, hk, Element.pow_ne_one hq ha hpos hlt, rfl, ?_, ?_⟩
  · exact congrArg Subtype.val (pow_right_comm a w k)
  · unfold Certificate.verify
    exact if_pos hverifies

end Authority

end AnonCred

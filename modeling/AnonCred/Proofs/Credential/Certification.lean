import AnonCred.Proofs.Deployment
import AnonCred.Proofs.Party.Roles

/-!
# What a certificate is given for

The authority keeps the pseudonym that it certifies in another place than the statement that its
verifier checks. In every run the two are the same (`Authority.Recorded`), whatever calls were
refused in between, so the pair that is certified is the pair that was proven.

* `Authority.Recorded.step` — no call takes the pseudonym and the statement apart
* `Authority.certificate_accounted` — one challenge and one certificate at most, and the certificate is
  about the pseudonym of that challenge
-/

namespace AnonCred.Authority

open CyclicGroup

variable {E : Type} {G : CyclicGroup E} {key : Ecdsa.SecretKey} {history : List (Event E)}
  {A A' : Authority E} {z : Nat}

/-! ## The pseudonym and the statement -/

/-- The statement that the verifier waits for is about the pending pseudonym, and the challenge for
it was answered before. -/
structure Recorded (G : CyclicGroup E) (key : Ecdsa.SecretKey) (history : List (Event E))
    (A : Authority E) : Prop where
  key : A.key = key
  guards : A.verifier.Guards A.pending
  statement : ∀ {nym}, A.pending = some nym → nym.a ≠ G.identity ∧ nym.b ≠ G.identity ∧
    G.Member nym.a ∧ G.Member nym.b
  asked : ∀ {nym h base value x e}, A.pending = some nym →
    A.verifier.state = .awaitingResponse h base value x e →
    base = nym.a ∧ value = nym.b ∧ G.Member x ∧ .challenge nym x (.ok e) ∈ history

namespace Recorded

theorem new (key : Ecdsa.SecretKey) : Recorded G key [] (start key : Authority E) where
  key := rfl
  guards := valid_start key
  statement := nofun
  asked := nofun

/-- A session that has forgotten its pseudonym has nothing to account for. -/
theorem forget (h : Recorded G key history A) (history' : List (Event E)) :
    Recorded G key history' ⟨A.key, A.verifier.ended, none⟩ where
  key := h.key
  guards := h.guards.ended none
  statement := nofun
  asked := nofun

theorem mono (h : Recorded G key history A) (event : Event E) :
    Recorded G key (history ++ [event]) A where
  key := h.key
  guards := h.guards
  statement := h.statement
  asked hpending hstate := by
    obtain ⟨hbase, hvalue, hx, hmem⟩ := h.asked hpending hstate
    exact ⟨hbase, hvalue, hx, List.mem_append_left _ hmem⟩

variable [DecidableEq E]

theorem challenge (h : Recorded G key history A) {nym : Pseudonym E} {x : E} {answer : Except Error Nat}
    (hstep : (A.challenge G nym x).Possible (answer, A')) :
    Recorded G key (history ++ [.challenge nym x answer]) A' := by
  obtain ⟨source, next, hstep⟩ := hstep
  rcases answer with error | e
  · rcases challenge_eq_error hstep with ⟨-, -, rfl⟩ | ⟨-, -, verifier, hrefused, rfl⟩
    · exact h.mono _
    · -- the pseudonym stays, but nothing is waited for
      obtain ⟨rfl, -⟩ := h.guards.challenge_refused hrefused
      exact ⟨h.key, h.guards.ended _, h.statement, nofun⟩
  · obtain ⟨ha, hb, challenge, verifier, hchallenge, rfl, rfl⟩ := challenge_eq_ok.mp hstep
    obtain ⟨-, -, hguards⟩ := h.guards.challenged nym hchallenge
    obtain ⟨hma, hmb, hmx, commitment, -, rfl⟩ :=
      Knowledge.Verifier.challenge_eq_ok.mp hchallenge
    refine ⟨h.key, hguards, ?_, ?_⟩
    · rintro _ ⟨⟩
      exact ⟨ha, hb, hma, hmb⟩
    · rintro _ _ _ _ _ _ ⟨⟩ ⟨⟩
      exact ⟨rfl, rfl, hmx, by simp⟩

theorem verify (h : Recorded G key history A) {answer : Except Error (Certificate E)}
    (hstep : (A.verify G z).Possible (answer, A')) :
    Recorded G key (history ++ [.verify z answer]) A' := by
  obtain ⟨source, next, hstep⟩ := hstep
  rcases answer with error | certificate
  · rcases verify_eq_error hstep with ⟨-, -, rfl⟩ | ⟨nym, hsome, rfl, hrefused | ⟨accepted, hok⟩⟩
    · exact h.mono _
    · rw [(h.guards.verify_refused (hsome ▸ Option.some_ne_none nym) hrefused).1]
      exact h.forget _
    · rw [(Knowledge.Verifier.waiting_of_verify hok).2]
      exact h.forget _
  · obtain ⟨nym, k, -, hok, -, -, rfl⟩ := verify_eq_ok.mp hstep
    rw [(Knowledge.Verifier.waiting_of_verify hok).2]
    exact h.forget _

theorem step {event : Event E} (h : Recorded G key history A)
    (hstep : (party G).Step A event A') : Recorded G key (history ++ [event]) A' := by
  cases event with
  | challenge nym x answer => exact h.challenge hstep
  | verify z answer => exact h.verify hstep

theorem run (hrun : (party G).Run (start key) history A) : Recorded G key history A :=
  hrun.invariant (new key) fun h hstep => h.step hstep

end Recorded

/-! ## Certificates -/

/-- The signature that is made of the digest with the key, if any, holds under its public key. -/
def SignerHolds (key : Ecdsa.SecretKey) (digest : Bytes) : Prop :=
  ∀ signature, Ecdsa.sign key digest = .ok signature →
    Ecdsa.verifies key.publicKey digest signature = true

/-- The certificate is about a pseudonym that a challenge was answered for, and whose owner has
answered the challenge. -/
structure Accounts (G : CyclicGroup E) (key : Ecdsa.SecretKey) (nym : Pseudonym E) (x : E)
    (e z : Nat) (certificate : Certificate E) : Prop where
  notIdentity : nym.a ≠ G.identity ∧ nym.b ≠ G.identity
  members : G.Member nym.a ∧ G.Member nym.b ∧ G.Member x
  reduced : z < G.order
  responds : G.Responds nym.a nym.b x e z
  blinded : ∃ r, 0 < r ∧ r < G.order ∧ certificate.blindedA = G.exp nym.a r ∧
    certificate.blindedB = G.exp nym.b r
  signed : Ecdsa.sign key (Certificate.digest G certificate.blindedA certificate.blindedB)
    = .ok certificate.signature

/-- A certificate that is handed out is accounted for by a challenge in the history. -/
theorem Recorded.accounts [DecidableEq E] (h : Recorded G key history A)
    {certificate : Certificate E} (hstep : (A.verify G z).Possible (.ok certificate, A')) :
    ∃ nym x e, .challenge nym x (.ok e) ∈ history ∧ Accounts G key nym x e z certificate := by
  obtain ⟨source, next, hstep⟩ := hstep
  obtain ⟨nym, k, hpending, hok, hk, hcertify, -⟩ := verify_eq_ok.mp hstep
  obtain ⟨commitment, _, _, x, e, hwaiting, haccepted, -⟩ :=
    Knowledge.Verifier.verify_eq_ok.mp (eq_of_fst_eq hok)
  obtain ⟨rfl, rfl, hx, hmem⟩ := h.asked hpending hwaiting
  obtain ⟨ha, hb, hma, hmb⟩ := h.statement hpending
  obtain ⟨-, haccepted⟩ := (Bool.and_eq_true_iff ..).mp haccepted.symm
  obtain ⟨hz, hresponds⟩ := of_decide_eq_true haccepted
  obtain ⟨hblindedA, hblindedB, hsign⟩ := certify_eq_ok.mp hcertify
  obtain ⟨hpos, hlt⟩ := randomUnit_range hk
  refine ⟨nym, x, e, hmem, ⟨ha, hb⟩, ⟨hma, hmb, hx⟩, hz, hresponds,
    ⟨k, hpos, hlt, hblindedA, hblindedB⟩, ?_⟩
  rw [hblindedA, hblindedB, ← h.key]
  exact hsign

namespace Accounts

variable {nym : Pseudonym E} {x : E} {e : Nat} {certificate : Certificate E}

/-- Where the order is prime, blinding does not lead to the identity. -/
theorem blinded_ne_identity [Lawful G] (hq : G.order.Prime)
    (h : Accounts G key nym x e z certificate) :
    certificate.blindedA ≠ G.identity ∧ certificate.blindedB ≠ G.identity := by
  obtain ⟨r, hpos, hlt, hblindedA, hblindedB⟩ := h.blinded
  rw [hblindedA, hblindedB]
  exact ⟨Element.exp_ne_identity hq h.members.1 h.notIdentity.1 hpos hlt,
    Element.exp_ne_identity hq h.members.2.1 h.notIdentity.2 hpos hlt⟩

/-- The certificate holds if the signature on its pair does. -/
theorem verify_certificate (h : Accounts G key nym x e z certificate)
    (hsigner : SignerHolds key (Certificate.digest G certificate.blindedA certificate.blindedB)) :
    certificate.verify G key.publicKey = .ok () := by
  unfold Certificate.verify
  exact if_pos (hsigner _ h.signed)

end Accounts

/-! ## Whole runs -/

/-- In every run one challenge is answered and one certificate is handed out at most. The certificate
is given for the pseudonym of that challenge, which was answered before, and to its owner; its pair is
the pseudonym under one exponent. Where the order is prime neither part is the identity, and where the
signer accepts its signature of the pair the certificate holds. -/
theorem certificate_accounted {p q g : Nat} {S : SchnorrGroup}
    (hS : SchnorrGroup.ofParams p q g = .ok S) {key : Ecdsa.SecretKey}
    {history : List (Event Nat)} {A : Authority Nat}
    (hrun : (party S.group).Run (start key) history A) :
    ((party S.group).answered history).count .challenge ≤ 1 ∧
    ((party S.group).answered history).count .verification ≤ 1 ∧
    ∀ before z certificate after, history = before ++ .verify z (.ok certificate) :: after →
      ∃ nym x e, .challenge nym x (.ok e) ∈ before ∧
        (∀ nym' x' e', .challenge nym' x' (.ok e') ∈ history → nym' = nym ∧ x' = x ∧ e' = e) ∧
        Accounts S.group key nym x e z certificate ∧
        (q.Prime → certificate.blindedA ≠ S.group.identity ∧
          certificate.blindedB ≠ S.group.identity) ∧
        (SignerHolds key
            (Certificate.digest S.group certificate.blindedA certificate.blindedB) →
          certificate.verify S.group key.publicKey = .ok ()) := by
  have := SchnorrGroup.lawful_of_ofParams hS
  have hcount := (tolerant S.group).count_le ⟨key, rfl⟩ hrun
  refine ⟨hcount .challenge, hcount .verification, ?_⟩
  rintro before z certificate after rfl
  obtain ⟨middle, next, hbefore, hverify, -⟩ := hrun.split
  obtain ⟨nym, x, e, hmem, haccounts⟩ := (Recorded.run hbefore).accounts hverify
  refine ⟨nym, x, e, hmem, ?_, haccounts, ?_, haccounts.verify_certificate⟩
  · intro nym' x' e' hmem'
    have hsame := Party.eq_of_count_le_one (hcount .challenge) hmem'
      (List.mem_append_left _ hmem) ⟨rfl, rfl⟩ ⟨rfl, rfl⟩
    cases hsame
    exact ⟨rfl, rfl, rfl⟩
  · intro hq
    rw [← SchnorrGroup.order_of_ofParams hS] at hq
    exact haccounts.blinded_ne_identity hq

/-- The owner of the pseudonym `(18, 3)` over the squares modulo 23, whose secret is 5, gets its
certificate after a statement that was refused. -/
theorem certificate_accounted_squares23 : ∃ certificate : Certificate Nat, ∃ A,
    (party SchnorrGroup.squares23.group).Run (start Deployment.steadyKey)
      [.challenge ⟨1, 3⟩ 13 (.error (.element (.isIdentity "master pseudonym base"))),
        .challenge ⟨18, 3⟩ 13 (.ok 3), .verify 7 (.ok certificate)] A ∧
    (∃ r, 0 < r ∧ r < 11 ∧ certificate.blindedA = SchnorrGroup.squares23.group.exp 18 r ∧
      certificate.blindedB = SchnorrGroup.squares23.group.exp 3 r) ∧
    certificate.blindedA ≠ 1 ∧ certificate.blindedB ≠ 1 ∧
    certificate.verify SchnorrGroup.squares23.group Deployment.steadyKey.publicKey = .ok () := by
  obtain ⟨signature, hsign, hverifies⟩ := Deployment.signs_steady
  have hvoid : ((start Deployment.steadyKey).challenge SchnorrGroup.squares23.group
      ⟨1, 3⟩ 13).Possible (.error (.element (.isIdentity "master pseudonym base")),
        start Deployment.steadyKey) :=
    Draw.possible_of_map Deployment.steady (by decide +kernel)
  have hchallenge : ((start Deployment.steadyKey).challenge SchnorrGroup.squares23.group
      ⟨18, 3⟩ 13).Possible (.ok 3, asked Deployment.steadyKey ⟨18, 3⟩ 13 3) :=
    Draw.possible_of_map Deployment.steady (by decide +kernel)
  have hscalar : SchnorrGroup.squares23.group.randomUnit.Possible 3 :=
    Draw.possible_of_map Deployment.steady (by decide +kernel)
  have hverify : ((asked Deployment.steadyKey ⟨18, 3⟩ 13 3).verify SchnorrGroup.squares23.group
      7).Possible (.ok ⟨13, 4, signature⟩, ⟨Deployment.steadyKey, ⟨.sigma, .done⟩, none⟩) := by
    obtain ⟨source, next, hscalar⟩ := hscalar
    have hpair : SchnorrGroup.squares23.group.exp 18 3 = 13 ∧
        SchnorrGroup.squares23.group.exp 3 3 = 4 := by decide +kernel
    have hcertify : certify SchnorrGroup.squares23.group Deployment.steadyKey ⟨18, 3⟩ 3
        = .ok ⟨13, 4, signature⟩ := by
      refine certify_eq_ok.mpr ⟨hpair.1.symm, hpair.2.symm, ?_⟩
      dsimp only
      rw [hpair.1, hpair.2]
      exact hsign
    exact ⟨source, next, verify_eq_ok.mpr ⟨⟨18, 3⟩, 3, rfl, by decide +kernel, hscalar, hcertify,
      by decide +kernel⟩⟩
  have hrun : (party SchnorrGroup.squares23.group).Run (start Deployment.steadyKey)
      [.challenge ⟨1, 3⟩ 13 (.error (.element (.isIdentity "master pseudonym base"))),
        .challenge ⟨18, 3⟩ 13 (.ok 3), .verify 7 (.ok ⟨13, 4, signature⟩)]
      ⟨Deployment.steadyKey, ⟨.sigma, .done⟩, none⟩ :=
    .cons hvoid (.cons hchallenge (.cons hverify (.nil _)))
  obtain ⟨-, -, hall⟩ := certificate_accounted SchnorrGroup.ofParams_squares23 hrun
  obtain ⟨nym, x, e, -, honly, haccounts, hprime, hholds⟩ := hall
    [.challenge ⟨1, 3⟩ 13 (.error (.element (.isIdentity "master pseudonym base"))),
      .challenge ⟨18, 3⟩ 13 (.ok 3)] 7 _ [] rfl
  obtain ⟨rfl, -, -⟩ := honly ⟨18, 3⟩ 13 3 (by simp)
  obtain ⟨ha, hb⟩ := hprime (by decide)
  refine ⟨_, _, hrun, haccounts.blinded, ha, hb, hholds ?_⟩
  intro signature' hsign'
  cases hsign.symm.trans hsign'
  exact hverifies

end AnonCred.Authority

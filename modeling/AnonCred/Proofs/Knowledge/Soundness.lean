import AnonCred.Proofs.Knowledge.Commitment
import AnonCred.Proofs.Group.Extraction
import AnonCred.Proofs.Group.Numeric

/-!
# Two accepted answers give away the exponent

Two sessions that recorded the same statement and the same commitment, and accepted answers to
different challenges, give away an exponent of the value: the quotient of the differences. The
sessions may be of different modes, because the acceptance of each comes down to one equation
between members.

* `Verifier.Accepted` — a session that accepted
* `accepted_extracted` — what two of them give away
-/

namespace AnonCred.Knowledge

open CyclicGroup

variable {E : Type} {G : CyclicGroup E} {mode mode' : ChallengeMode} {e e' z z' : Nat}

namespace Verifier

/-- Who waits for an answer has sent the challenge for the statement that it holds, which is about
members. -/
theorem Trail.asked {history : List (Event E)} {V : Verifier E} {h : Option E} {base value x : E}
    (htrail : Trail G mode history V) (hstate : V.state = .awaitingResponse h base value x e) :
    (∀ y ∈ [base, value, x], G.Member y) ∧
      ∃ d, Event.challenge base value x (.ok ⟨e, d⟩) ∈ history := by
  cases htrail with
  | plain hmembers =>
    cases hstate
    exact ⟨hmembers, _, List.mem_singleton_self _⟩
  | opened _ hmembers =>
    cases hstate
    exact ⟨hmembers, _, List.mem_cons_of_mem _ (List.mem_singleton_self _)⟩
  | _ => cases hstate

variable [DecidableEq E]

/-- A session recorded a statement with a commitment `x`, sent the challenge `e` and accepted the
answer `z`. -/
def Accepted (G : CyclicGroup E) (mode : ChallengeMode) (base value x : E) (e z : Nat) : Prop :=
  ∃ history V d trapdoor, (party G).Run (start mode) history V ∧
    Event.challenge base value x (.ok ⟨e, d⟩) ∈ history ∧
    Event.verify ⟨z, trapdoor⟩ (.ok true) ∈ history

/-- One challenge at most is sent in a session. -/
theorem challenge_unique {history : List (Event E)} {V : Verifier E}
    (hrun : (party G).Run (start mode) history V) {base value x base' value' x' : E}
    {challenge challenge' : Challenge}
    (h : Event.challenge base value x (.ok challenge) ∈ history)
    (h' : Event.challenge base' value' x' (.ok challenge') ∈ history) :
    base = base' ∧ value = value' ∧ x = x' ∧ challenge = challenge' := by
  have hcount := (singleUse G mode).count_le rfl hrun .challenge
  have horder : (order mode).count .challenge = 1 := by
    cases mode <;> rfl
  rw [horder] at hcount
  cases Party.eq_of_count_le_one hcount h h' ⟨rfl, rfl⟩ ⟨rfl, rfl⟩
  exact ⟨rfl, rfl, rfl, rfl⟩

/-- What an accepting session comes down to, in whatever mode. -/
theorem Accepted.responds {base value x : E} (h : Accepted G mode base value x e z) :
    (∀ y ∈ [base, value, x], G.Member y) ∧ z < G.order ∧ G.Responds base value x e z := by
  obtain ⟨history, V, d, trapdoor, hrun, hchallenge, hverify⟩ := h
  obtain ⟨before, after, rfl⟩ := List.append_of_mem hverify
  obtain ⟨middle, next, hbefore, hstep, -⟩ := hrun.split
  obtain ⟨h', base', value', x', e', hstate, haccepted, -⟩ := verify_eq_ok.mp hstep
  obtain ⟨hmembers, d', hsent⟩ := (trail_of_run hbefore).asked hstate
  obtain ⟨rfl, rfl, rfl, hsame⟩ :=
    challenge_unique hrun hchallenge (List.mem_append_left _ hsent)
  cases hsame
  simp only [Bool.true_eq, Bool.and_eq_true, decide_eq_true_eq] at haccepted
  exact ⟨hmembers, haccepted.2⟩

/-- In the plain mode the equation is all that it takes. -/
theorem accepted_sigma {base value x : E} (hmembers : ∀ y ∈ [base, value, x], G.Member y)
    (he : e < G.order) (hz : z < G.order) (hresponds : G.Responds base value x e z) :
    Accepted G .sigma base value x e z := by
  simp only [List.forall_mem_cons] at hmembers
  obtain ⟨hbase, hvalue, hx, -⟩ := hmembers
  obtain ⟨source, next, hsource⟩ := (steerable_scalar he).possible
  have hsent : ((start .sigma).challenge G base value x).Possible
      (.ok ⟨e, none⟩, ⟨.sigma, .awaitingResponse none base value x e⟩) :=
    ⟨source, next, challenge_eq_ok.mpr ⟨hbase, hvalue, hx, none,
      nextChallenge_sigma.mpr ⟨e, hsource, rfl, rfl⟩, rfl⟩⟩
  have hverify : (Verifier.mk .sigma (.awaitingResponse none base value x e)).verify G ⟨z, none⟩ =
      (.ok true, ⟨.sigma, .done⟩) := by
    rw [verify_awaiting, decide_eq_true ⟨hz, hresponds⟩]
  exact ⟨[.challenge base value x (.ok ⟨e, none⟩), .verify ⟨z, none⟩ (.ok true)], _, none, none,
    .cons hsent (Party.run_singleton.mpr hverify), by simp, by simp⟩

end Verifier

/-- Two sessions that accepted answers to the same commitment give away the exponent that takes the
base to the value, where the difference of their challenges has an inverse. Any member may be the
base, and the group may be one of any parameters. -/
theorem accepted_extracted {G : CyclicGroup Nat} (hG : G.Numeric) {base value x : Nat}
    (h : Verifier.Accepted G mode base value x e z)
    (h' : Verifier.Accepted G mode' base value x e' z')
    (hcoprime : ((e : ℤ) - e').natAbs.Coprime G.order) :
    G.exp base (extracted G.order e e' z z') = value := by
  obtain ⟨hmembers, hz, hresponds⟩ := h.responds
  obtain ⟨-, -, hresponds'⟩ := h'.responds
  simp only [List.forall_mem_cons] at hmembers
  obtain ⟨hbase, hvalue, hx, -⟩ := hmembers
  -- the base takes the place of the generator, which the sessions are not about
  have := hG.lawful_rebase (Nat.zero_lt_of_lt hz) hbase
  exact exp_extracted (G := G.rebase base) hbase hvalue hx hresponds hresponds' hcoprime

/-- A plain session and one with a committed challenge, about the powers 5 and 3 of 4 modulo 23; and
two plain ones in a group of composite order, about the identity. -/
theorem accepted_extracted_small :
    (Verifier.Accepted SchnorrGroup.squares23.group .sigma 4 12 18 3 7 ∧
      Verifier.Accepted SchnorrGroup.squares23.group .zkpok 4 12 18 8 10 ∧
      SchnorrGroup.squares23.group.exp 4 (extracted 11 3 8 7 10) = 12) ∧
    (Verifier.Accepted ResidueGroup.residues77.group .sigma 1 1 1 3 7 ∧
      Verifier.Accepted ResidueGroup.residues77.group .sigma 1 1 1 1 2 ∧
      ResidueGroup.residues77.group.exp 1 (extracted 15 3 1 7 2) = 1) := by
  have hplain : Verifier.Accepted SchnorrGroup.squares23.group .sigma 4 12 18 3 7 :=
    Verifier.accepted_sigma (by decide +kernel) (by decide) (by decide) (by decide +kernel)
  have hcommitted : Verifier.Accepted SchnorrGroup.squares23.group .zkpok 4 12 18 8 10 := by
    refine ⟨[.commitChallenge 18 (.ok 6), .challenge 4 12 18 (.ok ⟨8, some 8⟩),
      .verify ⟨10, some 3⟩ (.ok true)], ⟨.zkpok, .done⟩, some 8, some 3, ?_, by simp, by simp⟩
    refine .cons (show Draw.Possible _ (_, ⟨.zkpok, .awaitingRandomData 18 ⟨8, 8⟩⟩) from
      Draw.possible_of_map ⟨fun _ => 0x85, 0, 1⟩ (by decide +kernel)) ?_
    refine .cons (show Draw.Possible _ (_, ⟨.zkpok, .awaitingResponse (some 18) 4 12 18 8⟩) from
      Draw.possible_of_map ⟨fun _ => 0x35, 0, 1⟩ (by decide +kernel)) ?_
    exact Party.run_singleton.mpr (show _ = (_, _) from by decide +kernel)
  have hthree : Verifier.Accepted ResidueGroup.residues77.group .sigma 1 1 1 3 7 :=
    Verifier.accepted_sigma (by decide +kernel) (by decide) (by decide) (by decide +kernel)
  have hone : Verifier.Accepted ResidueGroup.residues77.group .sigma 1 1 1 1 2 :=
    Verifier.accepted_sigma (by decide +kernel) (by decide) (by decide) (by decide +kernel)
  refine ⟨⟨hplain, hcommitted, ?_⟩, hthree, hone, ?_⟩
  · exact accepted_extracted (.schnorr _) hplain hcommitted (by decide +kernel)
  · exact accepted_extracted (.residues _) hthree hone (by decide +kernel)

end AnonCred.Knowledge

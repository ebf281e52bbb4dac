import AnonCred.Knowledge.Round
import AnonCred.Proofs.Group.Residues
import AnonCred.Proofs.Knowledge
import AnonCred.Proofs.Pedersen

/-!
# An honest exchange has one answer

Whatever the mode, prover and verifier refuse nothing that the other one says: an exchange is its
draws and what is said for them. The verifier it leaves accepts the prover's response, and no other
response with the same trapdoor, where the base has the order of the group.

* `exchange_eq_honest` — the exchange as a computation that is never refused
* `verify_said` — the verdict on any response, with the trapdoor of the exchange
* `eq_response_of_responds` — the equation has one reduced solution
* `response_convinces_alone` — the main statement, for the groups of numbers
-/

namespace AnonCred.Knowledge

open CyclicGroup

variable {E : Type} {G : CyclicGroup E} {mode : ChallengeMode} {w : Nat} {base : E}

/-! ## What is said -/

/-- What a challenge commitment is made of beside the challenge: the trapdoor of the prover, and the
number that the verifier hides the challenge with. -/
structure Mask where
  trapdoor : Nat
  r : Nat

/-- What is said for a nonce, a challenge and the mask of its commitment, if it is committed to. -/
def said (G : CyclicGroup E) (mode : ChallengeMode) (w : Nat) (base : E) (r e : Nat)
    (mask : Option Mask) : Exchange E where
  base := base
  value := G.exp base w
  x := G.exp base r
  challenge := ⟨e, mask.map (·.r)⟩
  response := ⟨Arith.response r e w G.order,
    Prover.disclosed mode (mask.map fun mask => .ofTrapdoor G mask.trapdoor)⟩
  verifier := ⟨mode, .awaitingResponse (mask.map fun mask => G.power mask.trapdoor) base
    (G.exp base w) (G.exp base r) e⟩

/-- The draws of an exchange in their order, and what is said for them. -/
def honest (G : CyclicGroup E) (mode : ChallengeMode) (w : Nat) (base : E) : Draw (Exchange E) :=
  if mode.usesCommitment then do
    let trapdoor ← G.randomScalar
    let e ← G.randomScalar
    let hidden ← G.randomScalar
    let r ← G.randomScalar
    pure (said G mode w base r e (some ⟨trapdoor, hidden⟩))
  else do
    let r ← G.randomScalar
    let e ← G.randomScalar
    pure (said G mode w base r e none)

/-- An exchange ends where its draws do. -/
theorem honest_isSome {source : Source} :
    (honest G mode w base source).isSome
      = (G.randomScalars (if mode.usesCommitment then 4 else 2) source).isSome := by
  rw [Bool.eq_iff_iff]
  unfold honest
  cases mode.usesCommitment with
  | false =>
    simp only [Bool.false_eq_true, if_false, randomScalars, bind_assoc, pure_bind,
      Draw.isSome_bind_iff]
    rfl
  | true =>
    simp only [if_true, randomScalars, bind_assoc, pure_bind, Draw.isSome_bind_iff]
    rfl

theorem honest_eq_some {source next : Source} {out : Exchange E}
    (h : honest G mode w base source = some (out, next)) :
    ∃ r e mask, mask.isSome = mode.usesCommitment ∧ out = said G mode w base r e mask := by
  unfold honest at h
  cases hmode : mode.usesCommitment with
  | false =>
    simp only [hmode, Bool.false_eq_true, if_false, Draw.bind_eq_some, Draw.pure_eq_some] at h
    obtain ⟨r, _, -, e, _, -, rfl, -⟩ := h
    exact ⟨r, e, none, rfl, rfl⟩
  | true =>
    simp only [hmode, if_true, Draw.bind_eq_some, Draw.pure_eq_some] at h
    obtain ⟨trapdoor, _, -, e, _, -, hidden, _, -, r, _, -, rfl, -⟩ := h
    exact ⟨r, e, some ⟨trapdoor, hidden⟩, rfl, rfl⟩

/-! ## Each call as a step -/

namespace Prover

theorem start_committing (hmode : mode.usesCommitment = true) (hw : w < G.order)
    (hbase : G.Member base) :
    start G mode w base = (do
      let trapdoor ← G.randomScalar
      pure ⟨mode, w, base, G.exp base w, .ready (.ofTrapdoor G trapdoor)⟩) := by
  unfold start Pedersen.Receiver.random
  rw [Drawn.bind_except (G.checkScalar_eq_ok.mpr hw), Drawn.bind_except hbase, if_pos hmode]
  simp only [liftM_bind, liftM_pure, bind_assoc, pure_bind]

theorem start_plain (hmode : mode.usesCommitment = false) (hw : w < G.order)
    (hbase : G.Member base) :
    start G mode w base
      = pure ⟨mode, w, base, G.exp base w, .awaitingRandomData none⟩ := by
  unfold start
  rw [Drawn.bind_except (G.checkScalar_eq_ok.mpr hw), Drawn.bind_except hbase,
    if_neg (by rw [hmode]; exact Bool.false_ne_true)]

theorem call_randomData {P : Prover E} {receiver : Option (Pedersen.Receiver E)}
    (hstate : P.state = .awaitingRandomData receiver) :
    callDrawn (P.randomData G) = (do
      let r ← G.randomScalar
      pure (G.exp P.base r, { P with state := .awaitingChallenge receiver r })) := by
  unfold randomData
  rw [callDrawn_settleDrawn, hstate]

theorem call_respond [DecidableEq E] {P : Prover E} {receiver : Option (Pedersen.Receiver E)}
    {r : Nat} {challenge : Challenge} (hstate : P.state = .awaitingChallenge receiver r)
    (he : challenge.e < G.order) (hopens : checkOpening G challenge receiver = .ok ()) :
    call (P.respond G challenge) = (pure
      (⟨Arith.response r challenge.e P.secret G.order, disclosed P.mode receiver⟩, P.ended)) := by
  rw [respond_eq_ok.mpr ⟨receiver, r, hstate, he, hopens, rfl, rfl⟩]
  rfl

/-- The opening that belongs to the commitment taken opens it. -/
theorem checkOpening_taken [DecidableEq E] {R : Pedersen.Receiver E} {e r : Nat}
    (he : e < G.order) (hr : r < G.order) :
    checkOpening G ⟨e, some r⟩
      (some { R with commitment := some (Pedersen.commitment G R.h e r) }) = .ok () := by
  simp only [checkOpening, Pedersen.Receiver.check_own he hr]
  rfl

end Prover

namespace Verifier

theorem call_challenge {V : Verifier E} {base value x : E} (hbase : G.Member base)
    (hvalue : G.Member value) (hx : G.Member x) :
    callDrawn (V.challenge G base value x) = (do
      let (challenge, h) ← V.nextChallenge G
      pure (challenge, { V with state := .awaitingResponse h base value x challenge.e })) := by
  unfold challenge
  rw [callDrawn_settleDrawn]
  simp only [Drawn.bind_except (validateAll_statement hbase hvalue hx)]

theorem call_commitChallenge {V : Verifier E} {h : E} (hstate : V.state = .ready)
    (hmode : V.mode.usesCommitment = true) (hh : G.Member h) :
    callDrawn (V.commitChallenge G h) = (do
      let e ← G.randomScalar
      let r ← G.randomScalar
      pure (Pedersen.commitment G h e r, { V with state := .awaitingRandomData h ⟨e, r⟩ })) := by
  unfold commitChallenge
  rw [callDrawn_settleDrawn, hstate, if_pos hmode, Drawn.bind_except hh]

theorem nextChallenge_plain (hmode : mode.usesCommitment = false) :
    (Verifier.start mode : Verifier E).nextChallenge G = (do
      let e ← G.randomScalar
      pure (⟨e, none⟩, none)) := by
  unfold nextChallenge Verifier.start
  rw [hmode]

theorem nextChallenge_committed (hmode : mode.usesCommitment = true) (h : E)
    (opening : Pedersen.Opening) :
    (Verifier.mk mode (.awaitingRandomData h opening)).nextChallenge G
      = pure (⟨opening.value, some opening.r⟩, some h) := by
  unfold nextChallenge
  rw [hmode]

end Verifier

/-! ## The exchange -/

section Exchange

variable [G.Lawful]

/-- The prover takes the commitment of the verifier, which is made under the base it sent. -/
theorem exchangeCommitment_ready {P : Prover E} {receiver : Pedersen.Receiver E}
    (hstate : P.state = .ready receiver) (hmode : P.mode.usesCommitment = true)
    (hh : G.Member receiver.h) :
    exchangeCommitment G P (Verifier.start P.mode) = (do
      let e ← G.randomScalar
      let r ← G.randomScalar
      pure ({ P with
          state := .awaitingRandomData (some
            { receiver with commitment := some (Pedersen.commitment G receiver.h e r) }) },
        ⟨P.mode, .awaitingRandomData receiver.h ⟨e, r⟩⟩)) := by
  have hopening : P.openingMessage
      = (.ok receiver.h, { P with state := .awaitingCommitment receiver }) :=
    Prover.openingMessage_eq_ok.mpr ⟨receiver, hstate, rfl, rfl⟩
  unfold exchangeCommitment
  rw [if_pos hmode, hopening]
  simp only [call, pure_bind]
  rw [Verifier.call_commitChallenge rfl hmode hh]
  simp only [bind_assoc, pure_bind]
  refine bind_congr fun e => bind_congr fun r => ?_
  have hset := (Prover.setCommitment_eq_ok (G := G)
    (P := { P with state := .awaitingCommitment receiver })).mpr
      ⟨receiver, rfl, Pedersen.member_commitment hh e r, rfl⟩
  rw [hset]
  rfl

variable [DecidableEq E]

/-- An honest exchange is its draws: neither party refuses what the other one says. -/
theorem exchange_eq_honest (mode : ChallengeMode) (hw : w < G.order) (hbase : G.Member base) :
    exchange G mode w base = liftM (honest G mode w base) := by
  have hvalue := G.member_exp hbase w
  unfold exchange honest
  cases hmode : mode.usesCommitment with
  | false =>
    rw [Prover.start_plain hmode hw hbase]
    simp only [pure_bind, exchangeCommitment, hmode, Bool.false_eq_true, if_false, liftM_bind,
      liftM_pure]
    rw [Prover.call_randomData rfl]
    simp only [bind_assoc, pure_bind]
    refine bind_congr fun r => ?_
    rw [Verifier.call_challenge hbase hvalue (G.member_exp hbase r),
      Verifier.nextChallenge_plain hmode]
    simp only [bind_assoc, pure_bind]
    refine Drawn.bind_congr_possible fun e ⟨_, _, he⟩ => ?_
    rw [Prover.call_respond rfl (randomScalar_lt he) rfl]
    rfl
  | true =>
    rw [Prover.start_committing hmode hw hbase]
    simp only [bind_assoc, pure_bind, if_true, liftM_bind, liftM_pure]
    refine bind_congr fun trapdoor => ?_
    rw [exchangeCommitment_ready rfl hmode (G.member_power trapdoor)]
    simp only [bind_assoc, pure_bind]
    refine Drawn.bind_congr_possible fun e ⟨_, _, he⟩ => ?_
    refine Drawn.bind_congr_possible fun hidden ⟨_, _, hhidden⟩ => ?_
    rw [Prover.call_randomData rfl]
    simp only [bind_assoc, pure_bind]
    refine bind_congr fun r => ?_
    rw [Verifier.call_challenge hbase hvalue (G.member_exp hbase r),
      Verifier.nextChallenge_committed hmode]
    simp only [pure_bind]
    rw [Prover.call_respond rfl (randomScalar_lt he)
      (Prover.checkOpening_taken (randomScalar_lt he) (randomScalar_lt hhidden))]
    rfl

/-! ## The verdict -/

omit [G.Lawful] in
/-- The verdict on any response with the trapdoor of the exchange: the trapdoor is right. -/
theorem verify_said {r e : Nat} {mask : Option Mask} (hmask : mask.isSome = mode.usesCommitment)
    (z : Nat) :
    ((said G mode w base r e mask).verifier.verify G
        ⟨z, (said G mode w base r e mask).response.trapdoor⟩).1
      = .ok (decide (z < G.order ∧ G.Responds base (G.exp base w) (G.exp base r) e z)) := by
  have hshown : Verifier.trapdoorShown G mode (mask.map fun mask => G.power mask.trapdoor)
      (said G mode w base r e mask).response.trapdoor = true := by
    cases mode with
    | sigma => rfl
    | zkp => rfl
    | zkpok =>
      obtain ⟨mask, rfl⟩ := Option.isSome_iff_exists.mp hmask
      exact decide_eq_true rfl
  calc ((said G mode w base r e mask).verifier.verify G
        ⟨z, (said G mode w base r e mask).response.trapdoor⟩).1
      = .ok (Verifier.trapdoorShown G mode (mask.map fun mask => G.power mask.trapdoor)
          (said G mode w base r e mask).response.trapdoor &&
        decide (z < G.order ∧ G.Responds base (G.exp base w) (G.exp base r) e z)) := rfl
    _ = .ok (decide (z < G.order ∧ G.Responds base (G.exp base w) (G.exp base r) e z)) := by
      rw [hshown, Bool.true_and]

end Exchange

/-! ## One answer -/

section Unique

variable [G.Lawful]

/-- Where the base has the order of the group, the equation holds for one reduced number only. -/
theorem eq_response_of_responds (hbase : G.Member base) (horder : G.HasOrder base G.order)
    {r e z : Nat} (hz : z < G.order)
    (h : G.Responds base (G.exp base w) (G.exp base r) e z) : z = Arith.response r e w G.order := by
  obtain ⟨u, rfl⟩ : ∃ u : G.Element, (u : E) = base := ⟨⟨base, hbase⟩, rfl⟩
  have hpow : u ^ z = u ^ Arith.response r e w G.order := by
    rw [Equality.Claim.pow_response]
    exact (Element.responds_iff u (u ^ w) (u ^ r) e z).mp h
  rw [pow_eq_pow_iff_modEq, Element.orderOf_of_hasOrder horder] at hpow
  exact hpow.eq_of_lt_of_lt hz (Nat.mod_lt _ order_pos)

end Unique

/-- What an exchange comes to: the verifier waits for the answer about the right value and accepts
the response, and where the base has the order of the group it accepts no other number in its
place, reduced or not. -/
structure Convincing (G : CyclicGroup E) [DecidableEq E] (mode : ChallengeMode) (secret : Nat)
    (base : E) (out : Exchange E) : Prop where
  value_eq : out.value = G.exp base secret
  awaiting : ∃ h, out.verifier = ⟨mode, .awaitingResponse h base out.value out.x out.challenge.e⟩
  accepted : (out.verifier.verify G out.response).1 = .ok true
  alone : G.HasOrder base G.order → ∀ z, z ≠ out.response.z →
    (out.verifier.verify G ⟨z, out.response.trapdoor⟩).1 = .ok false

/-- In every mode an honest exchange on any base of the group is never refused, ends where its draws
do, and convinces the verifier. -/
theorem response_convinces_alone {G : CyclicGroup Nat} (hG : G.Modular) (mode : ChallengeMode)
    {secret base : Nat} (hsecret : secret < G.order) (hbase : G.Member base) (source : Source) :
    ((exchange G mode secret base).run source).isSome
        = (G.randomScalars (if mode.usesCommitment then 4 else 2) source).isSome ∧
      Drawn.Succeeds (exchange G mode secret base) source fun out _ =>
        Convincing G mode secret base out := by
  have := hG.lawful
  rw [exchange_eq_honest mode hsecret hbase]
  refine ⟨Drawn.draw_isSome.trans honest_isSome, (Drawn.Succeeds.draw _).mono ?_⟩
  intro out next hout
  obtain ⟨r, e, mask, hmask, rfl⟩ := honest_eq_some hout
  refine ⟨rfl, ⟨_, rfl⟩, ?_, fun horder z hz => ?_⟩
  · refine (verify_said hmask _).trans (congrArg _ (decide_eq_true ?_))
    exact ⟨Nat.mod_lt _ order_pos, Equality.Claim.responds_response ⟨base, hbase⟩ secret r e⟩
  · refine (verify_said hmask z).trans (congrArg _ (decide_eq_false ?_))
    rintro ⟨hlt, hresponds⟩
    exact hz (eq_response_of_responds hbase horder hlt hresponds)

/-- In a small group of each family, on a base that has the order of the group. -/
theorem response_convinces_alone_small :
    (∃ out next, (exchange SchnorrGroup.squares23.group .zkpok 5 4).run ⟨fun _ => 0x35, 0, 1⟩
        = some (.ok out, next) ∧ SchnorrGroup.squares23.group.HasOrder 4 11 ∧
      Convincing SchnorrGroup.squares23.group .zkpok 5 4 out) ∧
    (∃ out next, (exchange ResidueGroup.residues77.group .zkp 7 9).run ⟨fun _ => 0x35, 0, 1⟩
        = some (.ok out, next) ∧ ResidueGroup.residues77.group.HasOrder 9 15 ∧
      Convincing ResidueGroup.residues77.group .zkp 7 9 out) := by
  have hschnorr := response_convinces_alone (.schnorr SchnorrGroup.ofParams_squares23) .zkpok
    (show 5 < 11 by decide) (show SchnorrGroup.squares23.group.Member 4 by decide +kernel)
    ⟨fun _ => 0x35, 0, 1⟩
  have hresidues := response_convinces_alone (.residues ResidueGroup.sound_seven
      ResidueGroup.sound_eleven (by decide) ResidueGroup.possible_residues77) .zkp
    (show 7 < 15 by decide) (show ResidueGroup.residues77.group.Member 9 by decide +kernel)
    ⟨fun _ => 0x35, 0, 1⟩
  constructor
  · obtain ⟨outcome, hrun⟩ := Option.isSome_iff_exists.mp (hschnorr.1.trans (by decide +kernel))
    obtain ⟨out, hout, hconvincing⟩ := hschnorr.2 outcome.1 outcome.2 hrun
    exact ⟨out, outcome.2, hout ▸ hrun, by decide +kernel, hconvincing⟩
  · obtain ⟨outcome, hrun⟩ := Option.isSome_iff_exists.mp (hresidues.1.trans (by decide +kernel))
    obtain ⟨out, hout, hconvincing⟩ := hresidues.2 outcome.1 outcome.2 hrun
    exact ⟨out, outcome.2, hout ▸ hrun, by decide +kernel, hconvincing⟩

end AnonCred.Knowledge

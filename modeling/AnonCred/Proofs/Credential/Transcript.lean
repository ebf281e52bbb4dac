import AnonCred.Proofs.Credential.Binding
import AnonCred.Proofs.Group.Numeric

/-!
# What a transcript tells third parties

An answer that the blinding verifier accepts leaves a transcript that anybody can check, in every
group of numbers: the claim consists of members then, and nothing else is needed of the group.
Whoever checks a transcript compares powers. So nothing in it can be changed, but for its answer,
which counts modulo the order and is not asked to be reduced.

* `Blinding.Verifier.verify_publishes` — an accepted answer leaves a valid transcript
* `Blinding.Transcript.valid_answer_iff` — the answers that fit the rest of a transcript
* `SchnorrGroup.mutation_valid_iff` — the transcripts that differ from a valid one in one part
* `shifted_answer_valid` — one of them that is valid
-/

namespace AnonCred

open CyclicGroup

/-! ## Accepted answers -/

namespace Blinding

variable {E : Type} {G : CyclicGroup E}

/-- Anybody can check the transcript, for the first base and value of the claim and for the powers
of the second ones. -/
structure Blinded.Published (G : CyclicGroup E) (claim : Equality.Claim E) (gamma : Nat)
    (blinded : Blinded E) : Prop where
  base : blinded.g2 = G.exp claim.g2 gamma
  value : blinded.t2 = G.exp claim.t2 gamma
  reduced : blinded.transcript.zAlpha < G.order
  valid : blinded.transcript.Valid G claim.g1 claim.t1 blinded.g2 blinded.t2

theorem Pending.unblind_published {G : CyclicGroup Nat} (hG : G.Numeric) (hpos : 0 < G.order)
    {gamma alpha beta z : Nat} {claim : Equality.Claim Nat}
    (hmembers : ∀ x ∈ claim.elements, G.Member x)
    (hholds : claim.Holds G (blind G gamma claim alpha beta).e z) :
    ((blind G gamma claim alpha beta).unblind G gamma z).Published G claim gamma := by
  -- the claim is about members, so its first base can stand in for the generator
  have := hG.lawful_rebase hpos (hmembers claim.g1 (by simp [Equality.Claim.elements]))
  exact ⟨rfl, rfl, Nat.mod_lt _ hpos, unblind_valid (G := G.rebase claim.g1) hmembers hholds⟩

/-- Whoever the prover is and whatever it claims: an answer to a blinded challenge leaves a
transcript exactly if it is reduced and fits both equations, and anybody can check that transcript.
The modulus, the order and the generator of the group may be any. -/
theorem Verifier.verify_publishes {G : CyclicGroup Nat} (hG : G.Numeric) {gamma e : Nat}
    {V V' : Verifier Nat} {claim : Equality.Claim Nat} {source next : Source}
    (hstart : start G gamma = .ok V)
    (hchallenge : V.challenge G claim source = some ((.ok e, V'), next)) (z : Nat) :
    ∃ answer, (V'.verify G z).1 = .ok answer ∧ (answer.isSome ↔ claim.Holds G e z) ∧
      ∀ blinded ∈ answer, blinded.Published G claim gamma := by
  obtain ⟨-, hlt, rfl⟩ := start_eq_ok.mp hstart
  obtain ⟨-, hmembers, alpha, beta, middle, -, -, rfl, rfl⟩ := challenge_eq_ok.mp hchallenge
  refine ⟨_, congrArg Prod.fst (verify_awaiting ..), ?_⟩
  split
  · next hholds =>
    refine ⟨iff_of_true rfl hholds, ?_⟩
    rintro blinded ⟨⟩
    exact Pending.unblind_published hG (Nat.zero_lt_of_lt hlt) hmembers hholds
  · next hrefused =>
    refine ⟨iff_of_false Bool.false_ne_true hrefused, ?_⟩
    rintro blinded ⟨⟩

/-- A session with a prover of the exponent 3 over the squares modulo 23, blinded by 3. -/
theorem Verifier.verify_publishes_squares23 :
    ∃ V V' source next blinded, start SchnorrGroup.squares23.group 3 = .ok V ∧
      V.challenge SchnorrGroup.squares23.group ⟨4, 12, 18, 3, 18, 3⟩ source =
        some ((.ok 8, V'), next) ∧
      (V'.verify SchnorrGroup.squares23.group 5).1 = .ok (some blinded) ∧
      blinded.Published SchnorrGroup.squares23.group ⟨4, 12, 18, 3, 18, 3⟩ 3 := by
  have hmembers : ∀ x ∈ [4, 12, 18, 3, 18, 3], SchnorrGroup.squares23.group.Member x := by
    decide +kernel
  have he : 8 = (Pending.blind SchnorrGroup.squares23.group 3 ⟨4, 12, 18, 3, 18, 3⟩ 3 3).e := by
    decide +kernel
  have hholds : (Equality.Claim.mk 4 12 18 3 18 3).Holds SchnorrGroup.squares23.group 8 5 := by
    decide +kernel
  have hstart : start SchnorrGroup.squares23.group 3 = .ok (Verifier.mk (E := Nat) 3 .ready) := rfl
  obtain ⟨V', source, next, hchallenge⟩ : ∃ V' source next,
      (Verifier.mk 3 .ready).challenge SchnorrGroup.squares23.group ⟨4, 12, 18, 3, 18, 3⟩ source =
        some ((.ok 8, V'), next) :=
    ⟨_, ⟨fun _ => 0x35, 0, 1⟩, _,
      challenge_eq_ok.mpr ⟨rfl, hmembers, 3, 3, _, rfl, rfl, he, rfl⟩⟩
  obtain ⟨answer, hanswer, hsome, hpublished⟩ :=
    verify_publishes (.schnorr SchnorrGroup.squares23) hstart hchallenge 5
  obtain ⟨blinded, rfl⟩ := Option.isSome_iff_exists.mp (hsome.mpr hholds)
  exact ⟨_, V', source, next, blinded, hstart, hchallenge, hanswer, hpublished blinded rfl⟩

/-! ## One part changed -/

namespace Transcript

/-- A transcript with another value in one place. -/
inductive Mutation (t : Transcript E) : Transcript E → Prop
  | a {x : E} (h : x ≠ t.a) : Mutation t { t with a := x }
  | b {x : E} (h : x ≠ t.b) : Mutation t { t with b := x }
  | hash {k : Nat} (h : k ≠ t.hash) : Mutation t { t with hash := k }
  | zAlpha {z : Nat} (h : z ≠ t.zAlpha) : Mutation t { t with zAlpha := z }

/-- The answers that fit the commitments and the hash of a valid transcript are those that agree
with its own modulo the order. -/
theorem valid_answer_iff [G.Lawful] (hq : G.order.Prime) {t : Transcript E} {g1 t1 g2 t2 : E}
    (h1 : G.Member g1) (hne : g1 ≠ G.identity) (h2 : G.Member g2)
    (hvalid : t.Valid G g1 t1 g2 t2) (z : Nat) :
    { t with zAlpha := z }.Valid G g1 t1 g2 t2 ↔ z ≡ t.zAlpha [MOD G.order] := by
  obtain ⟨hhash, hfirst, hsecond⟩ := hvalid
  have hone : Element.ofMember h1 ≠ 1 := fun h => hne (Element.coe_eq_identity.mpr h)
  constructor
  · rintro ⟨-, hfirst', -⟩
    have hpow : G.exp g1 z = G.exp g1 t.zAlpha := hfirst'.trans hfirst.symm
    exact (Element.pow_eq_pow_iff hq hone).mp (Element.ext hpow)
  · intro hz
    have hpow {g : E} (hg : G.Member g) : G.exp g z = G.exp g t.zAlpha :=
      congrArg Subtype.val ((Element.ofMember hg).pow_congr hz)
    exact ⟨hhash, (hpow h1).trans hfirst, (hpow h2).trans hsecond⟩

end Transcript

end Blinding

/-- A transcript that differs from a valid one in one part is valid exactly if that part is the
answer and agrees with the other answer modulo the order. Other commitments have another hash unless
they are a collision. -/
theorem SchnorrGroup.mutation_valid_iff {S : SchnorrGroup} (hq : S.q.Prime)
    {t t' : Blinding.Transcript Nat} {g1 t1 g2 t2 : Nat} (h1 : S.group.Member g1)
    (hne : g1 ≠ S.group.identity) (h2 : S.group.Member g2) (hvalid : t.Valid S.group g1 t1 g2 t2)
    (hmutation : t.Mutation t')
    (hcollision : t'.a ≠ t.a ∨ t'.b ≠ t.b →
      S.group.hashNat [t'.a, t'.b] ≠ S.group.hashNat [t.a, t.b]) :
    t'.Valid S.group g1 t1 g2 t2 ↔ t'.zAlpha ≠ t.zAlpha ∧ t'.zAlpha ≡ t.zAlpha [MOD S.q] := by
  have hother (hhash : S.group.hashNat [t'.a, t'.b] ≠ t'.hash) (hz : t'.zAlpha = t.zAlpha) :
      t'.Valid S.group g1 t1 g2 t2 ↔ t'.zAlpha ≠ t.zAlpha ∧ t'.zAlpha ≡ t.zAlpha [MOD S.q] :=
    iff_of_false (fun h => hhash h.1) fun h => h.1 hz
  cases hmutation with
  | a h => exact hother (hvalid.1 ▸ hcollision (.inl h)) rfl
  | b h => exact hother (hvalid.1 ▸ hcollision (.inr h)) rfl
  | hash h => exact hother (fun heq => h (heq.symm.trans hvalid.1)) rfl
  | zAlpha h =>
    have := (Numeric.schnorr S).lawful_rebase hq.pos h1
    have hanswer := Blinding.Transcript.valid_answer_iff (G := S.group.rebase g1) hq h1 hne h2
      hvalid
    exact (hanswer _).trans (iff_and_self.mpr fun _ => h)

/-- The first transcript of the honest credential, with 11 added to the answer, with 1 added to it,
and with another first commitment. -/
theorem SchnorrGroup.mutation_valid_iff_honest :
    { honestCredential.t1 with zAlpha := 15 }.Valid squares23.group 4 3 12 13 ∧
      ¬{ honestCredential.t1 with zAlpha := 5 }.Valid squares23.group 4 3 12 13 ∧
      ¬{ honestCredential.t1 with a := 13 }.Valid squares23.group 4 3 12 13 := by
  have hmembers : ∀ x ∈ [4, 12], squares23.group.Member x := by
    decide +kernel
  have hvalid : honestCredential.t1.Valid squares23.group 4 3 12 13 := honest_valid.1
  have hhash : squares23.group.hashNat [13, 18] ≠ squares23.group.hashNat [12, 18] := by
    decide +kernel
  have hiff {t' : Blinding.Transcript Nat} (hmutation : honestCredential.t1.Mutation t') :=
    mutation_valid_iff (by decide) (hmembers 4 (by simp)) (by decide) (hmembers 12 (by simp)) hvalid
      hmutation
  have hanswer (z : Nat) (hz : z ≠ 4) := hiff (.zAlpha hz) (by simp)
  have hcommitment := hiff (.a (by decide : 13 ≠ 12)) fun _ => hhash
  refine ⟨(hanswer 15 (by decide)).mpr (by decide), ?_, ?_⟩
  · exact fun h => absurd ((hanswer 5 (by decide)).mp h) (by decide)
  · exact fun h => absurd (hcommitment.mp h) (by decide)

/-- Another answer in a valid transcript, which then is still valid. -/
theorem shifted_answer_valid :
    SchnorrGroup.ofParams 23 11 4 = .ok SchnorrGroup.squares23 ∧ Nat.Prime 23 ∧ Nat.Prime 11 ∧
      (∀ x ∈ [4, 3, 12, 13], SchnorrGroup.squares23.group.Member x) ∧
      4 ≠ SchnorrGroup.squares23.group.identity ∧
      honestCredential.t1.Valid SchnorrGroup.squares23.group 4 3 12 13 ∧
      honestCredential.t1.Mutation { honestCredential.t1 with zAlpha := 15 } ∧
      { honestCredential.t1 with zAlpha := 15 }.Valid SchnorrGroup.squares23.group 4 3 12 13 := by
  have := SchnorrGroup.lawful_of_ofParams SchnorrGroup.ofParams_squares23
  have hmembers : ∀ x ∈ [4, 3, 12, 13], SchnorrGroup.squares23.group.Member x := by
    decide +kernel
  refine ⟨SchnorrGroup.ofParams_squares23, by decide, by decide, hmembers, by decide,
    honest_valid.1, .zAlpha (by decide), ?_⟩
  exact (Blinding.Transcript.valid_answer_iff (by decide) (hmembers 4 (by simp)) (by decide)
    (hmembers 12 (by simp)) honest_valid.1 15).mpr (by decide)

end AnonCred

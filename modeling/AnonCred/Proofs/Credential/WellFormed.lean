import Mathlib.FieldTheory.Finite.Basic
import AnonCred.Proofs.Credential.SessionKeys

/-!
# What a session key is given for

The organization that accepts a credential validates its base and its value. The tags and the
transcripts it never validates: they only have to satisfy the equations under the issuer's key,
which is a key of members. Over a Schnorr group an equation takes the commitment of a proof into the
subgroup, as a residue, as soon as the base and the value of the proof belong to it. What is left is
whether the tags belong to it and whether the commitments are reduced (`Credential.Tidy`).

* `SchnorrGroup.member_commitment`, `SchnorrGroup.member_value_iff` — what an equation settles
* `CredentialVerifier.members_of_key` — a credential that a session key is given for
* `CredentialVerifier.stray_accepted` — one whose tags are outside the subgroup
-/

namespace AnonCred

open CyclicGroup

/-! ## What an equation settles -/

namespace SchnorrGroup

variable {S : SchnorrGroup} {base value x y e z : Nat}

theorem member_iff_mod : S.group.Member x ↔ x < S.p ∧ S.group.Member (x % S.p) := by
  constructor
  · intro hx
    have hlt := (member_iff.mp hx).2.1
    exact ⟨hlt, (Nat.mod_eq_of_lt hlt).symm ▸ hx⟩
  · rintro ⟨hlt, hx⟩
    rwa [Nat.mod_eq_of_lt hlt] at hx

/-- The equation of a proof, also about numbers that are not reduced. -/
theorem responds_iff_residues :
    S.group.Responds base value x e z ↔
      (base : ZMod S.p) ^ z = (x : ZMod S.p) * (value : ZMod S.p) ^ e := by
  unfold Responds
  rw [exp_eq, exp_eq, compose_eq, Nat.mul_mod_mod, ← ZMod.natCast_eq_natCast_iff']
  push_cast
  rfl

/-- A challenge counts modulo any period of the value, which may be outside the subgroup. -/
theorem responds_of_period {m k : Nat} (hm : (value : ZMod S.p) ^ m = 1) (he : e % m = k)
    (h : S.group.Responds base value x k z) : S.group.Responds base value x e z := by
  rw [responds_iff_residues, ← he] at h
  rw [responds_iff_residues, h, pow_eq_pow_mod e hm]

variable [S.group.Lawful]

/-- Up to its reduction a number is a member if its `q`-th power is one among the residues. -/
theorem member_mod_iff : S.group.Member (x % S.p) ↔ (x : ZMod S.p) ^ S.q = 1 := by
  have hp : 1 < S.p := (member_iff.mp (member_identity (G := S.group))).2.1
  have hcast : (x : ZMod S.p) ^ S.q = 1 ↔ x ^ S.q % S.p = 1 := by
    rw [← Nat.cast_pow, ← Nat.cast_one, ZMod.natCast_eq_natCast_iff', Nat.mod_eq_of_lt hp]
  rw [hcast]
  constructor
  · intro hx
    rw [Nat.pow_mod]
    exact (member_iff.mp hx).2.2
  · exact (ofResidues hp (order_pos (G := S.group)) member_generator).member_mod

theorem member_compose_mod (hx : S.group.Member x) (hy : S.group.Member (y % S.p)) :
    S.group.Member (S.group.compose x y) := by
  have h := member_compose hx hy
  rwa [compose_eq, Nat.mul_mod_mod, ← compose_eq] at h

/-- Raised to the order, the equation is about the commitment and the value alone. -/
theorem pow_order_of_responds (hbase : S.group.Member (base % S.p))
    (h : S.group.Responds base value x e z) :
    (x : ZMod S.p) ^ S.q * ((value : ZMod S.p) ^ S.q) ^ e = 1 := by
  calc (x : ZMod S.p) ^ S.q * ((value : ZMod S.p) ^ S.q) ^ e
      = ((x : ZMod S.p) * (value : ZMod S.p) ^ e) ^ S.q := by
        rw [mul_pow, ← pow_mul, ← pow_mul, mul_comm e]
    _ = ((base : ZMod S.p) ^ S.q) ^ z := by
        rw [← responds_iff_residues.mp h, ← pow_mul, ← pow_mul, mul_comm]
    _ = 1 := by rw [member_mod_iff.mp hbase, one_pow]

/-- A commitment that fits members is a member, up to its reduction. -/
theorem member_commitment (hbase : S.group.Member (base % S.p))
    (hvalue : S.group.Member (value % S.p)) (h : S.group.Responds base value x e z) :
    S.group.Member (x % S.p) := by
  have hpow := pow_order_of_responds hbase h
  rw [member_mod_iff.mp hvalue, one_pow, mul_one] at hpow
  exact member_mod_iff.mpr hpow

/-- Where the challenge is prime to the cofactor, the value belongs to the subgroup if the
commitment does. -/
theorem member_value_iff (hp : S.p.Prime) (hdvd : S.q ∣ S.p - 1)
    (hbase : S.group.Member (base % S.p)) (h : S.group.Responds base value x e z) (hpos : 0 < e)
    (he : e.Coprime ((S.p - 1) / S.q)) :
    S.group.Member (value % S.p) ↔ S.group.Member (x % S.p) := by
  refine ⟨fun hvalue => member_commitment hbase hvalue h, fun hx => ?_⟩
  have := Fact.mk hp
  have hq : 0 < S.q := order_pos (G := S.group)
  have hpow := pow_order_of_responds hbase h
  rw [member_mod_iff.mp hx, one_mul, ← pow_mul] at hpow
  have hne : (value : ZMod S.p) ≠ 0 := by
    intro hzero
    rw [hzero, zero_pow (Nat.mul_pos hq hpos).ne'] at hpow
    exact zero_ne_one hpow
  have hgcd : Nat.gcd (S.q * e) (S.p - 1) = S.q := by
    obtain ⟨cofactor, hcofactor⟩ := hdvd
    rw [hcofactor, Nat.mul_div_cancel_left _ hq] at he
    rw [hcofactor, Nat.gcd_mul_left, he.gcd_eq_one, mul_one]
  -- the order of the value divides `q * e`, and `p - 1` by Fermat
  have horder : orderOf (value : ZMod S.p) ∣ S.q := by
    rw [← hgcd]
    exact Nat.dvd_gcd (orderOf_dvd_of_pow_eq_one hpow)
      (orderOf_dvd_of_pow_eq_one (ZMod.pow_card_sub_one_eq_one hne))
  exact member_mod_iff.mpr (orderOf_dvd_iff_pow_eq_one.mp horder)

end SchnorrGroup

/-! ## What a valid credential is sure of -/

namespace Credential

/-- The tags belong to the group, and the commitments of the transcripts are reduced. -/
structure Tidy (S : SchnorrGroup) (c : Credential Nat) : Prop where
  tagA : S.group.Member c.tagA
  tagB : S.group.Member c.tagB
  reduced : ∀ x ∈ [c.t1.a, c.t1.b, c.t2.a, c.t2.b], x < S.p

/-- The parts of a credential that belong to the group, or do so with the rest of it. -/
structure Settled (S : SchnorrGroup) (c : Credential Nat) : Prop where
  base : S.group.Member c.base
  value : S.group.Member c.value
  /-- The commitments under the issuer's key, up to their reduction. -/
  first : S.group.Member (c.t1.a % S.p)
  second : S.group.Member (c.t2.a % S.p)
  members_iff : c.Members S.group ↔ c.Tidy S
  /-- The first tag belongs to the group with the commitment that is about it, unless the cofactor
  hides it. -/
  tagA_iff : S.p.Prime → 0 < c.t1.hash → c.t1.hash.Coprime ((S.p - 1) / S.q) →
    (S.group.Member (c.tagA % S.p) ↔ S.group.Member (c.t1.b % S.p))
  tagB_iff : S.group.Member (c.tagA % S.p) → S.p.Prime → 0 < c.t2.hash →
    c.t2.hash.Coprime ((S.p - 1) / S.q) →
    (S.group.Member (c.tagB % S.p) ↔ S.group.Member (c.t2.b % S.p))

variable {S : SchnorrGroup} {c : Credential Nat} {issuer : IssuerPublicKey Nat}

theorem Members.tidy (h : c.Members S.group) : c.Tidy S := by
  simp only [Members, List.forall_mem_cons] at h
  obtain ⟨-, -, hA, hB, h1a, h1b, h2a, h2b, -⟩ := h
  refine ⟨hA, hB, ?_⟩
  simp only [List.forall_mem_cons]
  exact ⟨(SchnorrGroup.member_iff_mod.mp h1a).1, (SchnorrGroup.member_iff_mod.mp h1b).1,
    (SchnorrGroup.member_iff_mod.mp h2a).1, (SchnorrGroup.member_iff_mod.mp h2b).1, by simp⟩

theorem ValidFor.settled [S.group.Lawful] (hvalid : c.ValidFor S.group issuer) (hdvd : S.q ∣ S.p - 1)
    (h1 : S.group.Member issuer.h1) (h2 : S.group.Member issuer.h2) (hbase : S.group.Member c.base)
    (hvalue : S.group.Member c.value) : c.Settled S := by
  obtain ⟨⟨-, hgen1, hfirst⟩, -, hgen2, hsecond⟩ := hvalid
  have hmod {x : Nat} (hx : S.group.Member x) : S.group.Member (x % S.p) :=
    (SchnorrGroup.member_iff_mod.mp hx).2
  have hcommit1 := SchnorrGroup.member_commitment (hmod member_generator) (hmod h2) hgen1
  have hcommit2 := SchnorrGroup.member_commitment (hmod member_generator) (hmod h1) hgen2
  have hbase2 (hA : S.group.Member (c.tagA % S.p)) :
      S.group.Member (S.group.compose c.base c.tagA % S.p) :=
    hmod (SchnorrGroup.member_compose_mod hbase hA)
  refine ⟨hbase, hvalue, hcommit1, hcommit2, ⟨Members.tidy, ?_⟩, ?_, ?_⟩
  · -- with the first tag the base of the second equation is a member, too
    rintro ⟨hA, hB, hreduced⟩
    simp only [List.forall_mem_cons] at hreduced
    obtain ⟨h1a, h1b, h2a, h2b, -⟩ := hreduced
    have hvalue1 := SchnorrGroup.member_commitment (hmod hvalue) (hmod hA) hfirst
    have hvalue2 := SchnorrGroup.member_commitment (hbase2 (hmod hA)) (hmod hB) hsecond
    simp only [Members, List.forall_mem_cons]
    exact ⟨hbase, hvalue, hA, hB, SchnorrGroup.member_iff_mod.mpr ⟨h1a, hcommit1⟩,
      SchnorrGroup.member_iff_mod.mpr ⟨h1b, hvalue1⟩,
      SchnorrGroup.member_iff_mod.mpr ⟨h2a, hcommit2⟩,
      SchnorrGroup.member_iff_mod.mpr ⟨h2b, hvalue2⟩, by simp⟩
  · intro hp hpos hcoprime
    exact SchnorrGroup.member_value_iff hp hdvd (hmod hvalue) hfirst hpos hcoprime
  · intro hA hp hpos hcoprime
    exact SchnorrGroup.member_value_iff hp hdvd (hbase2 hA) hsecond hpos hcoprime

end Credential

namespace CredentialVerifier

/-! ## Whole runs -/

/-- In every run a session key is given for the credential of the one challenge that was answered.
That credential is valid and its base and value are members; the commitments under the issuer's key
are members up to their reduction. All of it belongs to the group exactly if it is tidy: the tags
and the reduction of the commitments nobody looks at. -/
theorem members_of_key {p q g : Nat} {S : SchnorrGroup} (hS : SchnorrGroup.ofParams p q g = .ok S)
    {history : List (Event Nat)} {V : CredentialVerifier Nat}
    (hrun : (party S.group).Run start history V) :
    ∀ before z issuer key after, history = before ++ .verify z issuer (.ok (some key)) :: after →
      S.group.Member issuer.h1 → S.group.Member issuer.h2 →
      ∃ nym c x1 x2 e, .challenge nym c x1 x2 (.ok e) ∈ before ∧
        (∀ nym' c' x1' x2' e', .challenge nym' c' x1' x2' (.ok e') ∈ history →
          nym' = nym ∧ c' = c ∧ x1' = x1 ∧ x2' = x2 ∧ e' = e) ∧
        (claim nym c x1 x2).Holds S.group e z ∧ c.ValidFor S.group issuer ∧ c.Settled S := by
  have := SchnorrGroup.lawful_of_ofParams hS
  obtain ⟨hwell, hgroup⟩ := SchnorrGroup.ofParams_eq_ok.mp hS
  have hdvd : S.q ∣ S.p - 1 := by
    rw [hgroup]
    exact hwell.order_dvd
  rintro before z issuer key after rfl h1 h2
  obtain ⟨middle, next, hbefore, hverify, -⟩ := hrun.split
  obtain ⟨nym, c, x1, x2, e, hmem, hholds, hvalid, hbase, hvalue⟩ :=
    (Recorded.run hbefore).accepted hverify
  refine ⟨nym, c, x1, x2, e, hmem, ?_, hholds, hvalid, hvalid.settled hdvd h1 h2 hbase hvalue⟩
  intro nym' c' x1' x2' e' hmem'
  exact challenge_unique hrun hmem' (List.mem_append_left _ hmem)

/-- A session with the owner of the pseudonym `(4, 12)` over the squares modulo 23, whose secret is
5, about a credential of the same base and value. -/
theorem run_of_validFor {credential : Credential Nat} (hbase : credential.base = 4)
    (hvalue : credential.value = 12)
    (hvalid : credential.ValidFor SchnorrGroup.squares23.group ⟨16, 3⟩) (key : SessionKey) :
    (party SchnorrGroup.squares23.group).Run start
      [.challenge ⟨4, 12⟩ credential 18 18 (.ok 3), .verify 7 ⟨16, 3⟩ (.ok (some key))]
      ⟨.done, none⟩ := by
  have hclaim : claim ⟨4, 12⟩ credential 18 18 = ⟨4, 4, 12, 12, 18, 18⟩ := by
    unfold claim
    rw [hbase, hvalue]
  have hchallenge : (start.challenge SchnorrGroup.squares23.group ⟨4, 12⟩ credential 18
      18).Possible (.ok 3, asked credential ⟨4, 4, 12, 12, 18, 18⟩ 3) := by
    obtain ⟨source, next, hverifier⟩ : (Equality.Verifier.ready.challenge
        SchnorrGroup.squares23.group ⟨4, 4, 12, 12, 18, 18⟩).Possible
          (.ok 3, .awaitingResponse ⟨4, 4, 12, 12, 18, 18⟩ 3) :=
      Draw.possible_of_map ⟨fun _ => 0x35, 0, 1⟩ (by decide +kernel)
    refine ⟨source, next, challenge_eq_ok.mpr ⟨checkStatement_eq_ok.mpr ?_, _, ?_, rfl⟩⟩
    · rw [hbase, hvalue]
      decide
    · rw [hclaim]
      exact hverifier
  have hholds : (⟨4, 4, 12, 12, 18, 18⟩ : Equality.Claim Nat).Holds SchnorrGroup.squares23.group
      3 7 := by
    decide +kernel
  let generate : Draw (Except Error SessionKey) := pure (.ok key)
  have hverify : ((asked credential ⟨4, 4, 12, 12, 18, 18⟩ 3).verify SchnorrGroup.squares23.group
      generate 7 ⟨16, 3⟩).Possible (.ok (some key), ⟨.done, none⟩) := by
    rw [verify_accepted hholds hvalid]
    exact ⟨⟨fun _ => 0, 0, 0⟩, _, rfl⟩
  exact .cons hchallenge (.cons ⟨generate, hverify⟩ (.nil _))

/-- The honest credential of secret 5 is tidy, and a session key is given for it. -/
theorem members_of_key_honest : ∃ key V,
    (party SchnorrGroup.squares23.group).Run start
      [.challenge ⟨4, 12⟩ honestCredential 18 18 (.ok 3), .verify 7 ⟨16, 3⟩ (.ok (some key))] V ∧
    honestCredential.Members SchnorrGroup.squares23.group := by
  have hrun := run_of_validFor rfl rfl honest_valid ⟨[0xde, 0xad, 0xbe, 0xef]⟩
  obtain ⟨nym, c, x1, x2, e, -, honly, -, -, hsettled⟩ :=
    members_of_key SchnorrGroup.ofParams_squares23 hrun
      [.challenge ⟨4, 12⟩ honestCredential 18 18 (.ok 3)] 7 ⟨16, 3⟩ _ [] rfl (by decide +kernel)
      (by decide +kernel)
  obtain ⟨-, rfl, -⟩ := honly ⟨4, 12⟩ honestCredential 18 18 3 (by simp)
  -- the credential of the challenge is the honest one, so only its own parts are left to check
  refine ⟨_, _, hrun, hsettled.members_iff.mpr ⟨by decide +kernel, by decide +kernel, ?_⟩⟩
  decide +kernel

/-! ## A credential with parts outside the subgroup -/

/-- A credential of secret 5 under the key `(16, 3)` whose tags are `-1` modulo 23: its transcripts are
solved for the commitments under these tags. -/
def strayCredential : Credential Nat where
  base := 4
  value := 12
  tagA := 22
  tagB := 22
  t1 := ⟨12, 17, SchnorrGroup.squares23.group.hashNat [12, 17], 2⟩
  t2 := ⟨1, 5, SchnorrGroup.squares23.group.hashNat [1, 5], 3⟩

theorem stray_hash : strayCredential.t1.hash % 22 = 13 ∧ strayCredential.t2.hash % 22 = 18 := by
  decide +kernel

theorem stray_valid : strayCredential.ValidFor SchnorrGroup.squares23.group ⟨16, 3⟩ := by
  refine ⟨⟨?_, ?_, ?_⟩, ?_, ?_, ?_⟩
  · simp only [strayCredential]
  · exact SchnorrGroup.responds_of_period (by decide) stray_hash.1 (by decide +kernel)
  · exact SchnorrGroup.responds_of_period (by decide) stray_hash.1 (by decide +kernel)
  · simp only [strayCredential]
  · exact SchnorrGroup.responds_of_period (by decide) stray_hash.2 (by decide +kernel)
  · exact SchnorrGroup.responds_of_period (by decide) stray_hash.2 (by decide +kernel)

/-- A session key is given for a credential that has both tags and two commitments outside the
subgroup. -/
theorem stray_accepted :
    SchnorrGroup.ofParams 23 11 4 = .ok SchnorrGroup.squares23 ∧
      SchnorrGroup.squares23.group.Member 16 ∧ SchnorrGroup.squares23.group.Member 3 ∧
      (∃ key V, (party SchnorrGroup.squares23.group).Run start
        [.challenge ⟨4, 12⟩ strayCredential 18 18 (.ok 3), .verify 7 ⟨16, 3⟩ (.ok (some key))] V) ∧
      ¬SchnorrGroup.squares23.group.Member strayCredential.tagA ∧
      ¬SchnorrGroup.squares23.group.Member strayCredential.tagB ∧
      ¬SchnorrGroup.squares23.group.Member strayCredential.t1.b ∧
      ¬SchnorrGroup.squares23.group.Member strayCredential.t2.b := by
  refine ⟨SchnorrGroup.ofParams_squares23, by decide +kernel, by decide +kernel,
    ⟨⟨[0xde, 0xad, 0xbe, 0xef]⟩, _, run_of_validFor rfl rfl stray_valid _⟩, ?_⟩
  decide +kernel

end CredentialVerifier

end AnonCred

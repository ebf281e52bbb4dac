import AnonCred.Proofs.Credential.WellFormed
import AnonCred.Proofs.Group.Extraction

/-!
# The one key that a credential is good for

Each half of an issuer's key is the value of one transcript of a credential, to the power of the
hash. The commitment of that transcript is nothing that anybody validates, but the equation takes it
into the subgroup. So two keys of members that fit the same credential have the same powers, and
they are the same where the hash is prime to the order.

* `SchnorrGroup.value_unique` — the value that an answer is right for
* `Credential.issuer_unique` — the key that a credential is valid for
* `CredentialVerifier.issuer_of_key` — and the key that a session key is given for
-/

namespace AnonCred

open CyclicGroup

/-! ## Values -/

/-- An answer is right for one value among the members, whether or not the commitment is one. -/
theorem SchnorrGroup.value_unique {S : SchnorrGroup} [S.group.Lawful] {base v v' x e z : Nat}
    (hcoprime : e.Coprime S.group.order) (hbase : S.group.Member base) (hv : S.group.Member v)
    (hv' : S.group.Member v') (h : S.group.Responds base v x e z)
    (h' : S.group.Responds base v' x e z) : v' = v := by
  have hx := member_commitment (member_iff_mod.mp hbase).2 (member_iff_mod.mp hv).2 h
  have hproducts : S.group.compose (x % S.p) (S.group.exp v' e) =
      S.group.compose (x % S.p) (S.group.exp v e) := by
    simp only [compose_eq, Nat.mod_mul_mod]
    exact h'.symm.trans h
  have hpowers : Element.ofMember hv' ^ (e : ℤ) = Element.ofMember hv ^ (e : ℤ) := by
    rw [zpow_natCast, zpow_natCast]
    exact mul_left_cancel (a := Element.ofMember hx) (Element.ext hproducts)
  exact congrArg Subtype.val (Element.eq_of_zpow_eq (k := e) hcoprime hpowers)

/-! ## Keys -/

namespace Credential

variable {S : SchnorrGroup} {c : Credential Nat} {issuer issuer' : IssuerPublicKey Nat}

/-- Two keys of members that a credential is valid for are one key, if both hashes are prime to the
order. -/
theorem issuer_unique [S.group.Lawful] (hfirst : c.t1.hash.Coprime S.group.order)
    (hsecond : c.t2.hash.Coprime S.group.order)
    (hissuer : S.group.Member issuer.h1 ∧ S.group.Member issuer.h2)
    (hissuer' : S.group.Member issuer'.h1 ∧ S.group.Member issuer'.h2)
    (hvalid : c.ValidFor S.group issuer) (hvalid' : c.ValidFor S.group issuer') :
    issuer' = issuer := by
  obtain ⟨⟨-, h2, -⟩, -, h1, -⟩ := hvalid
  obtain ⟨⟨-, h2', -⟩, -, h1', -⟩ := hvalid'
  obtain ⟨h, k⟩ := issuer
  obtain ⟨h', k'⟩ := issuer'
  congr
  · exact SchnorrGroup.value_unique hsecond member_generator hissuer.1 hissuer'.1 h1 h1'
  · exact SchnorrGroup.value_unique hfirst member_generator hissuer.2 hissuer'.2 h2 h2'

end Credential

/-! ## Whole runs -/

namespace CredentialVerifier

/-- A credential that is valid for one key of members is valid for no other, and in no session a
session key is given for it under another one. Only the degenerate hashes are left out. -/
theorem issuer_of_key {S : SchnorrGroup} (hwell : SchnorrGroup.WellFormed S.p S.q S.g)
    (hq : S.q.Prime) {c : Credential Nat} (hfirst : ¬S.q ∣ c.t1.hash) (hsecond : ¬S.q ∣ c.t2.hash)
    {issuer issuer' : IssuerPublicKey Nat}
    (hissuer : S.group.Member issuer.h1 ∧ S.group.Member issuer.h2)
    (hissuer' : S.group.Member issuer'.h1 ∧ S.group.Member issuer'.h2)
    (hvalid : c.ValidFor S.group issuer) :
    (c.ValidFor S.group issuer' → issuer' = issuer) ∧
      ∀ history V, (party S.group).Run start history V → ∀ nym x1 x2 e z key,
        .challenge nym c x1 x2 (.ok e) ∈ history → .verify z issuer' (.ok (some key)) ∈ history →
          issuer' = issuer := by
  have := (SchnorrGroup.ofResidues_of_wellFormed hwell).lawful
  have hunique (hvalid' : c.ValidFor S.group issuer') : issuer' = issuer :=
    Credential.issuer_unique ((hq.coprime_iff_not_dvd).mpr hfirst).symm
      ((hq.coprime_iff_not_dvd).mpr hsecond).symm hissuer hissuer' hvalid hvalid'
  refine ⟨hunique, ?_⟩
  intro history V hrun nym x1 x2 e z key hchallenge hkey
  exact hunique (validFor_of_key hrun hchallenge hkey)

/-- A session key is given for the honest credential under its key `(16, 3)`, and none under
`(4, 3)`. -/
theorem issuer_of_key_honest :
    (∃ key V, (party SchnorrGroup.squares23.group).Run start
      [.challenge ⟨4, 12⟩ honestCredential 18 18 (.ok 3), .verify 7 ⟨16, 3⟩ (.ok (some key))] V) ∧
    ¬honestCredential.ValidFor SchnorrGroup.squares23.group ⟨4, 3⟩ ∧
    ∀ z key V, ¬(party SchnorrGroup.squares23.group).Run start
      [.challenge ⟨4, 12⟩ honestCredential 18 18 (.ok 3), .verify z ⟨4, 3⟩ (.ok (some key))] V := by
  have hother : SchnorrGroup.squares23.group.Member (IssuerPublicKey.mk 4 3).h1 ∧
      SchnorrGroup.squares23.group.Member (IssuerPublicKey.mk 4 3).h2 := by
    decide +kernel
  obtain ⟨hvalid, hsession⟩ := issuer_of_key
    (SchnorrGroup.wellFormed_of_ofParams SchnorrGroup.ofParams_squares23) (by decide)
    honest_not_dvd.1 honest_not_dvd.2 (by decide +kernel) hother honest_valid
  refine ⟨⟨_, _, run_of_validFor rfl rfl honest_valid ⟨[0xde, 0xad, 0xbe, 0xef]⟩⟩, ?_, ?_⟩
  · intro hvalid'
    cases hvalid hvalid'
  · intro z key V hrun
    cases hsession _ V hrun ⟨4, 12⟩ 18 18 3 z key (by simp) (by simp)

end CredentialVerifier

end AnonCred

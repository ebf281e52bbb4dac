import AnonCred.Blinding
import AnonCred.Signature.Ecdsa

/-!
# Pseudonyms, certificates and credentials

A user has one secret `w`, and a pseudonym is a pair `(a, a ^ w)` on a base of its own. A
certificate is a signed pair of this form. A credential is a pair of this form with the two tags of
an issuer, all raised to the same exponent, and the transcripts that prove the tags right.
-/

namespace AnonCred

/-- A base and its power to the user's secret. -/
structure Pseudonym (E : Type) where
  a : E
  b : E
deriving DecidableEq, Repr

/-! ## Certificates -/

/-- A pseudonym of the user blinded by the authority, and the authority's signature on it. -/
structure Certificate (E : Type) where
  blindedA : E
  blindedB : E
  signature : Ecdsa.Signature
deriving DecidableEq, Repr

namespace Certificate

variable {E : Type}

/-- The certificate with the signature of two scalars. -/
def ofScalars (blindedA blindedB : E) (r s : Nat) : Except Error (Certificate E) := do
  let signature ← Ecdsa.Signature.ofScalars r s
  pure ⟨blindedA, blindedB, signature⟩

/-- The first scalar of the signature, as its bytes have it. -/
def r (c : Certificate E) : Nat := c.signature.toBytes.1.toNat

/-- The second scalar of the signature, as its bytes have it. -/
def s (c : Certificate E) : Nat := c.signature.toBytes.2.toNat

/-- What the authority signs for a pair. -/
def digest (G : CyclicGroup E) (blindedA blindedB : E) : Bytes := G.digest [blindedA, blindedB]

/-- Refuses a certificate that the authority with this key did not sign. -/
def verify (G : CyclicGroup E) (key : Ecdsa.PublicKey) (c : Certificate E) : Except Error Unit :=
  if Ecdsa.verifies key (digest G c.blindedA c.blindedB) c.signature then .ok ()
  else .error (.signature .invalid)

end Certificate

/-! ## Keys of organizations -/

/-- The secret key of an issuer: the exponents of its two tags. -/
structure IssuerKey where
  s1 : Nat
  s2 : Nat
deriving DecidableEq

/-- The public key of an issuer. -/
structure IssuerPublicKey (E : Type) where
  h1 : E
  h2 : E
deriving DecidableEq, Repr

namespace IssuerKey

variable {E : Type} (G : CyclicGroup E)

def ofScalars (s1 s2 : Nat) : Except Error IssuerKey := do
  G.checkScalar s1 "s1"
  G.checkScalar s2 "s2"
  pure ⟨s1, s2⟩

def random : Draw IssuerKey := do
  let s1 ← G.randomScalar
  let s2 ← G.randomScalar
  pure ⟨s1, s2⟩

def publicKey (key : IssuerKey) : IssuerPublicKey E := ⟨G.power key.s1, G.power key.s2⟩

/-- The description, which says nothing of the exponents. -/
def describe (_key : IssuerKey) : String := "SecKey(..)"

/-- The key after it is wiped. -/
def wipe (_key : IssuerKey) : IssuerKey := ⟨0, 0⟩

end IssuerKey

/-! ## Credentials -/

/-- A blinded pseudonym, the two tags under the same blinding, and their transcripts. -/
structure Credential (E : Type) where
  base : E
  value : E
  tagA : E
  tagB : E
  t1 : Blinding.Transcript E
  t2 : Blinding.Transcript E
deriving DecidableEq, Repr

namespace Credential

variable {E : Type} (G : CyclicGroup E)

/-- The first transcript ties the first tag to the pseudonym's value by the second key, and the
second one ties the second tag to the base with the first tag by the first key. -/
def ValidFor (c : Credential E) (key : IssuerPublicKey E) : Prop :=
  c.t1.Valid G G.generator key.h2 c.value c.tagA ∧
    c.t2.Valid G G.generator key.h1 (G.compose c.base c.tagA) c.tagB

instance [DecidableEq E] (c : Credential E) (key : IssuerPublicKey E) :
    Decidable (c.ValidFor G key) := by
  unfold ValidFor; infer_instance

end Credential

end AnonCred

import Mathlib.Data.Set.Function
import AnonCred.Credential.Pseudonym
import AnonCred.Proofs.Group.Coordinates
import AnonCred.Proofs.Group.Numeric

/-!
# Different lists are hashed from different bytes

Elements have encodings of different lengths, and the bytes of two neighbours put together can be
those of one other element. The length in front of each encoding keeps them apart: it says where
the record ends, so the first record of a list can be told from the bytes, and then the next one.

* `append_inj_of_frame` — a record ends where its length says
* `hashInput_injOn` — where the encodings tell the elements apart, the hashed bytes tell the lists
* `hashes_apart` — in every group, lists that share a digest are a collision of the hash
-/

namespace AnonCred

/-- Two messages with one hash. -/
def Sha2.Collision (m n : Bytes) : Prop :=
  m ≠ n ∧ Sha2.sha512.hash m = Sha2.sha512.hash n

namespace CyclicGroup

variable {E : Type} {G : CyclicGroup E}

/-! ## Records -/

/-- Of two byte strings that are the same and begin with a record, the records are the same, and so
are the rests. -/
theorem append_inj_of_frame {x y : E} {restX restY : Bytes}
    (hx : (G.encode x).length < Bytes.capacity 8) (hy : (G.encode y).length < Bytes.capacity 8)
    (h : G.frame x ++ restX = G.frame y ++ restY) : G.encode x = G.encode y ∧ restX = restY := by
  simp only [frame, List.append_assoc] at h
  obtain ⟨hfront, hbody⟩ :=
    List.append_inj h (by rw [Bytes.length_ofNatWidth, Bytes.length_ofNatWidth])
  have hlength : (G.encode x).length = (G.encode y).length := by
    rw [← Bytes.toNat_ofNatWidth_of_lt hx, hfront, Bytes.toNat_ofNatWidth_of_lt hy]
  exact List.append_inj hbody hlength

theorem frame_ne_nil (x : E) : G.frame x ≠ [] := by
  intro h
  have hlength := congrArg List.length h
  rw [frame, List.length_append, Bytes.length_ofNatWidth] at hlength
  simp at hlength

/-! ## Lists -/

/-- The lists of values of a set. -/
def listsOf (values : Set E) : Set (List E) := {xs | ∀ x ∈ xs, x ∈ values}

/-- Where encodings tell values apart and are not too long to be counted, the hashed bytes tell
apart the lists of such values. -/
theorem hashInput_injOn {values : Set E} (hinj : Set.InjOn G.encode values)
    (hshort : ∀ x ∈ values, (G.encode x).length < Bytes.capacity 8) :
    Set.InjOn G.hashInput (listsOf values) := by
  intro xs hxs ys hys h
  induction xs generalizing ys with
  | nil =>
    cases ys with
    | nil => rfl
    | cons y ys => exact absurd (List.append_eq_nil_iff.mp h.symm).1 (frame_ne_nil y)
  | cons x xs ih =>
    cases ys with
    | nil => exact absurd (List.append_eq_nil_iff.mp h).1 (frame_ne_nil x)
    | cons y ys =>
      obtain ⟨hx, hxs⟩ := List.forall_mem_cons.mp hxs
      obtain ⟨hy, hys⟩ := List.forall_mem_cons.mp hys
      obtain ⟨hencode, hrest⟩ := append_inj_of_frame (hshort x hx) (hshort y hy) h
      rw [hinj hx hy hencode, ih hxs hys hrest]

/-- Digests have one length, so they are the same as soon as their numbers are. -/
theorem hashNat_inj {xs ys : List E} : G.hashNat xs = G.hashNat ys ↔ G.digest xs = G.digest ys := by
  refine ⟨fun h => Bytes.toNat_inj ?_ h, fun h => congrArg Bytes.toNat h⟩
  rw [digest, digest, Sha2.length_hash, Sha2.length_hash]

/-! ## The groups -/

/-- The values that a group has digests of: numbers of any size whose bytes can be counted, and the
points of a curve. -/
inductive Digests : {E : Type} → CyclicGroup E → Set E → Prop
  | numeric {G : CyclicGroup Nat} (hG : G.Numeric) : Digests G {x | (G.encode x).length < 2 ^ 64}
  | curve {C : Curve} (hC : C ∈ Curve.standard) : Digests C.group {P | C.HasPoint P}

theorem Numeric.encode_injective {G : CyclicGroup Nat} (hG : G.Numeric) :
    Function.Injective G.encode := by
  cases hG <;> exact Bytes.ofNat_injective

theorem length_encode_point (C : Curve) (P : Point) : (C.encode P).length ≤ 2 * C.width + 1 := by
  cases P with
  | infinity => exact Nat.le_add_left 1 _
  | affine x y =>
    rw [Curve.encode, List.length_cons, List.length_append, Bytes.length_ofNatWidth,
      Bytes.length_ofNatWidth]
    omega

theorem Digests.hashInput_injOn {values : Set E} (h : Digests G values) :
    Set.InjOn G.hashInput (listsOf values) := by
  cases h with
  | numeric hG => exact CyclicGroup.hashInput_injOn hG.encode_injective.injOn fun x hx => hx
  | @curve C hC =>
    refine CyclicGroup.hashInput_injOn (Curve.encode_injOn (Curve.wellFormed_standard hC)) ?_
    intro P _
    have hwidth : ∀ D ∈ Curve.standard, 2 * D.width + 1 < Bytes.capacity 8 := by decide
    exact Nat.lt_of_le_of_lt (length_encode_point C P) (hwidth C hC)

theorem pair_mem_listsOf {values : Set E} {a b : E} (ha : a ∈ values) (hb : b ∈ values) :
    [a, b] ∈ listsOf values := by
  intro x hx
  rcases List.mem_pair.mp hx with rfl | rfl
  · exact ha
  · exact hb

theorem Digests.collision {values : Set E} (h : Digests G values) {xs ys : List E}
    (hxs : xs ∈ listsOf values) (hys : ys ∈ listsOf values) (hne : xs ≠ ys)
    (hdigest : G.digest xs = G.digest ys) :
    Sha2.Collision (G.hashInput xs) (G.hashInput ys) :=
  ⟨fun hinput => hne (h.hashInput_injOn hxs hys hinput), hdigest⟩

/-- The bytes that are hashed for a list of values determine the list. So different lists with one
digest are a collision of the hash; in particular different pairs whose digests are one number are,
and so are certificates that are signed for different pairs but with one digest. -/
theorem hashes_apart {values : Set E} (h : Digests G values) :
    Set.InjOn G.hashInput (listsOf values) ∧
    (∀ xs ∈ listsOf values, ∀ ys ∈ listsOf values, xs ≠ ys →
      (G.digest xs = G.digest ys ↔ Sha2.Collision (G.hashInput xs) (G.hashInput ys))) ∧
    (∀ a ∈ values, ∀ b ∈ values, ∀ a' ∈ values, ∀ b' ∈ values, (a, b) ≠ (a', b') →
      G.hashNat [a, b] = G.hashNat [a', b'] →
        Sha2.Collision (G.hashInput [a, b]) (G.hashInput [a', b'])) ∧
    (∀ c c' : Certificate E, c.blindedA ∈ values → c.blindedB ∈ values → c'.blindedA ∈ values →
      c'.blindedB ∈ values → (c.blindedA, c.blindedB) ≠ (c'.blindedA, c'.blindedB) →
      Certificate.digest G c.blindedA c.blindedB = Certificate.digest G c'.blindedA c'.blindedB →
        Sha2.Collision (G.hashInput [c.blindedA, c.blindedB])
          (G.hashInput [c'.blindedA, c'.blindedB])) := by
  have hpairs {a b a' b' : E} (ha : a ∈ values) (hb : b ∈ values) (ha' : a' ∈ values)
      (hb' : b' ∈ values) (hne : (a, b) ≠ (a', b'))
      (hdigest : G.digest [a, b] = G.digest [a', b']) :
      Sha2.Collision (G.hashInput [a, b]) (G.hashInput [a', b']) := by
    refine h.collision (pair_mem_listsOf ha hb) (pair_mem_listsOf ha' hb') (fun hlist => hne ?_)
      hdigest
    simpa using hlist
  refine ⟨h.hashInput_injOn, fun xs hxs ys hys hne => ?_, ?_, ?_⟩
  · exact ⟨h.collision hxs hys hne, fun hcollision => hcollision.2⟩
  · intro a ha b hb a' ha' b' hb' hne hnumber
    exact hpairs ha hb ha' hb' hne (hashNat_inj.mp hnumber)
  · intro c c' ha hb ha' hb' hne hdigest
    exact hpairs ha hb ha' hb' hne hdigest

/-- The bytes of 256 are those of one and zero, but what is hashed for them is not the same; nor is
it for a point and infinity in either order. -/
theorem hashes_apart_neighbours :
    Digests SchnorrGroup.squares23.group
      {x | (SchnorrGroup.squares23.group.encode x).length < 2 ^ 64} ∧
    SchnorrGroup.squares23.group.encode 256 =
      SchnorrGroup.squares23.group.encode 1 ++ SchnorrGroup.squares23.group.encode 0 ∧
    SchnorrGroup.squares23.group.hashInput [256] ≠ SchnorrGroup.squares23.group.hashInput [1, 0] ∧
    Digests Curve.p256.group {P | Curve.p256.HasPoint P} ∧
    Curve.p256.group.hashInput [Curve.p256.group.generator, .infinity] ≠
      Curve.p256.group.hashInput [.infinity, Curve.p256.group.generator] := by
  have hshort : ∀ x ∈ [0, 1, 256], (SchnorrGroup.squares23.group.encode x).length < 2 ^ 64 := by
    decide +kernel
  have hbase : Curve.p256.HasPoint Curve.p256.group.generator := by decide +kernel
  have hinfinity : Curve.p256.HasPoint .infinity := trivial
  have hnumbers : Digests SchnorrGroup.squares23.group _ := .numeric (.schnorr _)
  have hpoints : Digests Curve.p256.group _ := .curve (by decide)
  refine ⟨hnumbers, by decide +kernel, fun h => ?_, hpoints, fun h => ?_⟩
  · have hlist := (hashes_apart hnumbers).1 (List.forall_mem_singleton.mpr (hshort 256 (by decide)))
      (pair_mem_listsOf (hshort 1 (by decide)) (hshort 0 (by decide))) h
    cases hlist
  · have hlist := (hashes_apart hpoints).1 (pair_mem_listsOf hbase hinfinity)
      (pair_mem_listsOf hinfinity hbase) h
    cases hlist

end CyclicGroup

end AnonCred

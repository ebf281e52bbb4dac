import Mathlib.Data.FinEnum
import Mathlib.Data.Set.Card
import Mathlib.SetTheory.Cardinal.Finite
import AnonCred.Proofs.Random

/-!
# Numbers below a bound are drawn with equal frequency

An attempt to draw a number reads a block of bytes. One for one, a block is the number that it shows
and the bits that are cut away, so two numbers can be swapped by a permutation of the blocks. Done
to every block of a tape, that permutes the tapes, keeps which attempts are rejected, and swaps the
answers of a draw. So every number below the bound is the answer on equally many tapes.

* `Draw.Block.shown_swap` — the permutation of the blocks
* `Draw.ncard_answer` — equally many tapes for every number
* `Draw.ncard_answer_mem` — and for sets of as many numbers
-/

namespace AnonCred

namespace Bytes

theorem toNatLittle_lt (l : Bytes) : l.toNatLittle < 256 ^ l.length := by
  induction l with
  | nil => exact Nat.one_pos
  | cons b rest ih =>
    rw [toNatLittle, List.length_cons, pow_succ]
    have hb := b.toNat_lt
    omega

theorem toNatLittle_inj {l l' : Bytes} (hlength : l.length = l'.length)
    (h : l.toNatLittle = l'.toNatLittle) : l = l' := by
  induction l generalizing l' with
  | nil => exact (List.eq_nil_of_length_eq_zero hlength.symm).symm
  | cons b rest ih =>
    cases l' with
    | nil => cases hlength
    | cons b' rest' =>
      simp only [toNatLittle] at h
      have hb := b.toNat_lt
      have hb' := b'.toNat_lt
      have hhead : b.toNat = b'.toNat := by omega
      have htail : toNatLittle rest = toNatLittle rest' := by omega
      rw [ih (Nat.succ.inj hlength) htail, UInt8.toNat_inj.mp hhead]

end Bytes

namespace Draw

variable {k : Nat}

/-! ## Blocks -/

/-- How many whole words a draw of so many bits reads before the last one. -/
def fullWords (k : Nat) : Nat := (k - 1) / 32

/-- How many bits of the last word are cut away. -/
def cutBits (k : Nat) : Nat := 32 * (fullWords k + 1) - k

/-- How many bytes a draw of so many bits reads. -/
def blockWidth (k : Nat) : Nat := 4 * fullWords k + 4

/-- The whole words at the start of a stream of bytes. -/
def lowWords (k : Nat) (byte : Nat → UInt8) : Bytes := (List.range (4 * fullWords k)).map byte

/-- The word after them. -/
def lastWord (k : Nat) (byte : Nat → UInt8) : Bytes :=
  (List.range 4).map fun i => byte (4 * fullWords k + i)

/-- The number that a stream of bytes shows to a draw of so many bits. -/
def shown (k : Nat) (byte : Nat → UInt8) : Nat :=
  (lowWords k byte).toNatLittle
    + 2 ^ (32 * fullWords k) * ((lastWord k byte).toNatLittle / 2 ^ cutBits k)

theorem bits_eq (hk : k ≠ 0) (source : Source) :
    bits k source =
      some (shown k fun i => source.byte (source.drawn + i), source.skip (blockWidth k)) := by
  unfold bits
  rw [if_neg hk]
  show some (_, _) = some (_, _)
  simp only [shown, lowWords, lastWord, blockWidth, cutBits, fullWords, Source.skip, Nat.add_assoc]
  rfl

/-- What one attempt reads. -/
abbrev Block (k : Nat) : Type := Fin (blockWidth k) → UInt8

/-- A block as the start of a stream. -/
def Block.byte (block : Block k) (i : Nat) : UInt8 :=
  if h : i < blockWidth k then block ⟨i, h⟩ else 0

theorem shown_congr {byte byte' : Nat → UInt8} (h : ∀ i < blockWidth k, byte i = byte' i) :
    shown k byte = shown k byte' := by
  have hlow : lowWords k byte = lowWords k byte' := by
    refine List.map_congr_left fun i hi => h i ?_
    have := List.mem_range.mp hi
    unfold blockWidth
    omega
  have hlast : lastWord k byte = lastWord k byte' := by
    refine List.map_congr_left fun i hi => h _ ?_
    have := List.mem_range.mp hi
    unfold blockWidth
    omega
  unfold shown
  rw [hlow, hlast]

/-! ## A block as a number and the bits cut away -/

theorem words_bits (k : Nat) : k - 32 * fullWords k + cutBits k = 32 ∧
    32 * fullWords k + (k - 32 * fullWords k) = k := by
  unfold cutBits fullWords
  omega

theorem lowWords_lt (byte : Nat → UInt8) :
    (lowWords k byte).toNatLittle < 2 ^ (32 * fullWords k) := by
  have hlt := Bytes.toNatLittle_lt (lowWords k byte)
  rw [lowWords, List.length_map, List.length_range, show (256 : Nat) = 2 ^ 8 from rfl, ← pow_mul,
    show 8 * (4 * fullWords k) = 32 * fullWords k by omega] at hlt
  exact hlt

theorem lastWord_div_lt (k : Nat) (byte : Nat → UInt8) :
    (lastWord k byte).toNatLittle / 2 ^ cutBits k < 2 ^ (k - 32 * fullWords k) := by
  have hlt := Bytes.toNatLittle_lt (lastWord k byte)
  rw [lastWord, List.length_map, List.length_range] at hlt
  rw [Nat.div_lt_iff_lt_mul (Nat.two_pow_pos _), ← pow_add, (words_bits k).1]
  exact hlt

theorem shown_mod (byte : Nat → UInt8) :
    shown k byte % 2 ^ (32 * fullWords k) = (lowWords k byte).toNatLittle := by
  unfold shown
  rw [Nat.add_mul_mod_self_left, Nat.mod_eq_of_lt (lowWords_lt byte)]

theorem shown_div (byte : Nat → UInt8) :
    shown k byte / 2 ^ (32 * fullWords k) = (lastWord k byte).toNatLittle / 2 ^ cutBits k := by
  unfold shown
  rw [Nat.add_mul_div_left _ _ (Nat.two_pow_pos _), Nat.div_eq_of_lt (lowWords_lt byte),
    Nat.zero_add]

theorem shown_lt (byte : Nat → UInt8) : shown k byte < 2 ^ k := by
  have hdiv := lastWord_div_lt k byte
  rw [← shown_div, Nat.div_lt_iff_lt_mul (Nat.two_pow_pos _), ← pow_add, add_comm,
    (words_bits k).2] at hdiv
  exact hdiv

/-- The number that a block shows, and what is cut away. -/
def Block.split (block : Block k) : Fin (2 ^ k) × Fin (2 ^ cutBits k) :=
  (⟨shown k block.byte, shown_lt block.byte⟩,
    ⟨(lastWord k block.byte).toNatLittle % 2 ^ cutBits k, Nat.mod_lt _ (Nat.two_pow_pos _)⟩)

theorem Block.split_injective (k : Nat) : Function.Injective (Block.split (k := k)) := by
  intro block block' h
  simp only [Block.split, Prod.mk.injEq, Fin.mk.injEq] at h
  obtain ⟨hshown, hcut⟩ := h
  have hlow : lowWords k block.byte = lowWords k block'.byte := by
    refine Bytes.toNatLittle_inj (by simp [lowWords]) ?_
    rw [← shown_mod, ← shown_mod, hshown]
  have hlast : lastWord k block.byte = lastWord k block'.byte := by
    refine Bytes.toNatLittle_inj (by simp [lastWord]) ?_
    rw [← Nat.div_add_mod (lastWord k block.byte).toNatLittle (2 ^ cutBits k), ← shown_div, hshown,
      hcut, shown_div, Nat.div_add_mod]
  rw [lowWords, lowWords, List.map_inj_left] at hlow
  rw [lastWord, lastWord, List.map_inj_left] at hlast
  funext ⟨i, hi⟩
  have hbyte : block.byte i = block'.byte i := by
    by_cases hwhole : i < 4 * fullWords k
    · exact hlow i (List.mem_range.mpr hwhole)
    · have hword : i - 4 * fullWords k < 4 := by
        unfold blockWidth at hi
        omega
      have hrest := hlast _ (List.mem_range.mpr hword)
      rwa [Nat.add_sub_cancel' (Nat.le_of_not_lt hwhole)] at hrest
  unfold Block.byte at hbyte
  rwa [dif_pos hi, dif_pos hi] at hbyte

theorem card_block (k : Nat) :
    Nat.card (Block k) = Nat.card (Fin (2 ^ k) × Fin (2 ^ cutBits k)) := by
  have hbytes : Nat.card UInt8 = 2 ^ 8 := by
    rw [Nat.card_eq_fintype_card, ← FinEnum.card_eq_fintypeCard, FinEnum.card_UInt8]
  rw [Nat.card_fun, hbytes, Nat.card_prod, Nat.card_fin, Nat.card_fin, Nat.card_fin, ← pow_mul,
    ← pow_add]
  congr 1
  unfold cutBits blockWidth fullWords
  omega

/-- A block is the number that it shows and the bits that are cut away. -/
noncomputable def Block.splitEquiv (k : Nat) : Block k ≃ Fin (2 ^ k) × Fin (2 ^ cutBits k) :=
  Equiv.ofBijective _ ((Block.split_injective k).bijective_of_nat_card_le (card_block k).ge)

/-- The permutation of the blocks that swaps two numbers. -/
noncomputable def Block.swap {l m : Nat} (hl : l < 2 ^ k) (hm : m < 2 ^ k) :
    Equiv.Perm (Block k) :=
  ((splitEquiv k).trans ((Equiv.swap ⟨l, hl⟩ ⟨m, hm⟩).prodCongr (Equiv.refl _))).trans
    (splitEquiv k).symm

theorem Block.shown_swap {l m : Nat} (hl : l < 2 ^ k) (hm : m < 2 ^ k) (block : Block k) :
    shown k (swap hl hm block).byte = Equiv.swap l m (shown k block.byte) := by
  show ((splitEquiv k ((splitEquiv k).symm _)).1 : Nat) = Equiv.swap l m (splitEquiv k block).1
  rw [Equiv.apply_symm_apply]
  exact Fin.val_injective.map_swap _ _ _

end Draw

/-! ## Tapes -/

/-- The source that shows the blocks one after another and tries as often as there are blocks. -/
def Source.ofBlocks {k n : Nat} (tape : Fin n → Draw.Block k) : Source where
  byte i := if h : i / Draw.blockWidth k < n then
    (tape ⟨i / Draw.blockWidth k, h⟩).byte (i % Draw.blockWidth k) else 0
  drawn := 0
  patience := n

namespace Draw

variable {k n : Nat} {tape tape' : Fin n → Block k}

/-- The source at the start of a block. -/
def atBlock (tape : Fin n → Block k) (j : Nat) : Source :=
  (Source.ofBlocks tape).skip (blockWidth k * j)

theorem shown_atBlock {j : Nat} (hj : j < n) :
    (shown k fun i => (atBlock tape j).byte ((atBlock tape j).drawn + i))
      = shown k (tape ⟨j, hj⟩).byte := by
  refine shown_congr fun i hi => ?_
  have hpos : 0 < blockWidth k := Nat.zero_lt_of_lt hi
  have hdiv : (blockWidth k * j + i) / blockWidth k = j := by
    rw [Nat.mul_add_div hpos, Nat.div_eq_of_lt hi, Nat.add_zero]
  have hmod : (blockWidth k * j + i) % blockWidth k = i := by
    rw [Nat.mul_add_mod, Nat.mod_eq_of_lt hi]
  show (Source.ofBlocks tape).byte (0 + blockWidth k * j + i) = _
  rw [Nat.zero_add]
  simp only [Source.ofBlocks, hdiv, hmod]
  rw [dif_pos hj]

/-- One attempt to draw a number below a bound. -/
def attempt (k bound : Nat) : Draw (Option Nat) := do
  let a ← bits k
  pure (if a < bound then some a else none)

/-- The attempts from one block on: that block, and the others where it is rejected. -/
theorem attempts_atBlock (hk : k ≠ 0) {bound tries j : Nat} (hj : j < n) :
    attempts (attempt k bound) (tries + 1) (atBlock tape j) =
      if shown k (tape ⟨j, hj⟩).byte < bound
      then some (shown k (tape ⟨j, hj⟩).byte, atBlock tape (j + 1))
      else attempts (attempt k bound) tries (atBlock tape (j + 1)) := by
  have hskip : (atBlock tape j).skip (blockWidth k) = atBlock tape (j + 1) := by
    simp only [atBlock, Source.skip, Nat.mul_succ, Nat.add_assoc]
  have hattempt : attempt k bound (atBlock tape j) =
      some (if shown k (tape ⟨j, hj⟩).byte < bound then some (shown k (tape ⟨j, hj⟩).byte)
        else none, atBlock tape (j + 1)) := by
    unfold attempt
    rw [bind_of_eq_some (bits_eq hk _), shown_atBlock hj, hskip]
    rfl
  rw [attempts, bind_of_eq_some hattempt]
  split <;> rfl

/-- What the attempts from one block on answer. -/
def answerFrom (bound : Nat) (tape : Fin n → Block k) (tries j : Nat) : Option Nat :=
  (attempts (attempt k bound) tries (atBlock tape j)).map Prod.fst

theorem swap_lt_iff {bound l m : Nat} (hl : l < bound) (hm : m < bound) (a : Nat) :
    Equiv.swap l m a < bound ↔ a < bound := by
  rw [Equiv.swap_apply_def]
  split
  · next h => exact iff_of_true hm (h ▸ hl)
  · split
    · next h => exact iff_of_true hl (h ▸ hm)
    · rfl

/-- Two numbers below the bound are swapped in the answer where they are in the blocks: the same
attempts are rejected. -/
theorem answerFrom_swap (hk : k ≠ 0) {bound l m : Nat} (hl : l < bound) (hm : m < bound)
    (htape : ∀ j, shown k (tape' j).byte = Equiv.swap l m (shown k (tape j).byte)) {tries j : Nat}
    (hj : j + tries ≤ n) :
    answerFrom bound tape' tries j = (answerFrom bound tape tries j).map (Equiv.swap l m) := by
  induction tries generalizing j with
  | zero => rfl
  | succ tries ih =>
    have hlt : j < n := by omega
    unfold answerFrom at ih ⊢
    rw [attempts_atBlock hk hlt, attempts_atBlock hk hlt, htape]
    simp only [swap_lt_iff hl hm]
    split
    · rfl
    · exact ih (by omega)

/-! ## Counting -/

/-- What so many attempts to draw a number below the bound read. -/
abbrev Tape (bound n : Nat) : Type := Fin n → Block (bitLength bound)

/-- The answer of a draw below a bound on a tape. -/
def answer (bound : Nat) (tape : Tape bound n) : Option Nat :=
  (below bound (Source.ofBlocks tape)).map Prod.fst

theorem answer_eq_answerFrom {bound : Nat} (hbound : bound ≠ 0) (tape : Tape bound n) :
    answer bound tape = answerFrom bound tape n 0 := by
  unfold answer below
  rw [if_neg hbound]
  simp only [accepted, decide_eq_true_eq]
  rfl

theorem answer_lt {bound m : Nat} {tape : Tape bound n} (h : answer bound tape = some m) :
    m < bound := by
  obtain ⟨⟨m, next⟩, hdraw, rfl⟩ := Option.map_eq_some_iff.mp h
  exact below_lt hdraw

/-- The permutation of the tapes that swaps two numbers in every block. -/
noncomputable def swapTape (n : Nat) {l m : Nat} (hl : l < 2 ^ k) (hm : m < 2 ^ k) :
    Equiv.Perm (Fin n → Block k) :=
  Equiv.piCongrRight fun _ => Block.swap hl hm

theorem answer_swapTape {bound l m : Nat} (hl : l < bound) (hm : m < bound)
    (hl' : l < 2 ^ bitLength bound) (hm' : m < 2 ^ bitLength bound) (tape : Tape bound n) :
    answer bound (swapTape n hl' hm' tape) = (answer bound tape).map (Equiv.swap l m) := by
  have hzero : bound ≠ 0 := by omega
  have hbits : bitLength bound ≠ 0 := by
    unfold bitLength
    rw [if_neg hzero]
    exact Nat.succ_ne_zero _
  rw [answer_eq_answerFrom hzero, answer_eq_answerFrom hzero]
  exact answerFrom_swap hbits hl hm (fun j => Block.shown_swap _ _ _) (Nat.zero_add n).le

/-- Two numbers below the bound are the answer on equally many tapes. -/
theorem ncard_answer_eq (n : Nat) {bound l m : Nat} (hl : l < bound) (hm : m < bound) :
    {tape : Tape bound n | answer bound tape = some l}.ncard =
      {tape : Tape bound n | answer bound tape = some m}.ncard := by
  have hl' := Nat.lt_trans hl (lt_two_pow_bitLength bound)
  have hm' := Nat.lt_trans hm (lt_two_pow_bitLength bound)
  refine Set.ncard_congr (fun tape _ => swapTape n hl' hm' tape) ?_ ?_ ?_
  · intro tape htape
    rw [Set.mem_ofPred_eq] at htape ⊢
    rw [answer_swapTape hl hm, htape, Option.map_some, Equiv.swap_apply_left]
  · exact fun _ _ _ _ h => (swapTape n hl' hm').injective h
  · intro tape htape
    obtain ⟨before, rfl⟩ := (swapTape n hl' hm').surjective tape
    rw [Set.mem_ofPred_eq, answer_swapTape hl hm, Option.map_eq_some_iff] at htape
    obtain ⟨a, ha, hswap⟩ := htape
    rw [(Equiv.swap l m).injective (hswap.trans (Equiv.swap_apply_left l m).symm)] at ha
    exact ⟨before, ha, rfl⟩

/-- Each number below the bound is the answer on its share of the tapes on which there is one. -/
theorem ncard_answer (n : Nat) {bound m : Nat} (hm : m < bound) :
    bound * {tape : Tape bound n | answer bound tape = some m}.ncard =
      {tape : Tape bound n | (answer bound tape).isSome}.ncard := by
  have hfinset (p : Tape bound n → Prop) [DecidablePred p] :
      {tape | p tape}.ncard = (Finset.univ.filter p).card := by
    rw [← Set.ncard_coe_finset, Finset.coe_filter_univ]
  have hrange : ∀ tape ∈ Finset.univ.filter fun tape : Tape bound n =>
      (answer bound tape).isSome, (answer bound tape).getD 0 ∈ Finset.range bound := by
    intro tape htape
    obtain ⟨a, ha⟩ := Option.isSome_iff_exists.mp (Finset.mem_filter.mp htape).2
    rw [ha, Option.getD_some, Finset.mem_range]
    exact answer_lt ha
  have hshare : ∀ a ∈ Finset.range bound,
      ((Finset.univ.filter fun tape : Tape bound n =>
        (answer bound tape).isSome).filter fun tape => (answer bound tape).getD 0 = a).card =
          {tape : Tape bound n | answer bound tape = some m}.ncard := by
    intro a ha
    rw [← ncard_answer_eq n (Finset.mem_range.mp ha) hm, hfinset, Finset.filter_filter]
    congr 1
    ext tape
    rw [Finset.mem_filter, Finset.mem_filter]
    rcases answer bound tape with _ | b <;> simp
  rw [hfinset fun tape => (answer bound tape).isSome, Finset.card_eq_sum_card_fiberwise hrange,
    Finset.sum_const_nat hshare, Finset.card_range]

/-- A set of numbers below the bound is met by the answer on as many shares of the tapes as it has
members. -/
theorem ncard_answer_mem (n : Nat) {bound : Nat} (A : Finset (Fin bound)) :
    bound * {tape : Tape bound n | ∃ a ∈ A, answer bound tape = some a.val}.ncard =
      A.card * {tape : Tape bound n | (answer bound tape).isSome}.ncard := by
  induction A using Finset.induction_on with
  | empty => simp
  | insert a A hnew ih =>
    have hsplit :
        {tape : Tape bound n | ∃ b ∈ insert a A, answer bound tape = some b.val} =
          {tape | answer bound tape = some a.val} ∪
            {tape | ∃ b ∈ A, answer bound tape = some b.val} := by
      ext tape
      simp only [Finset.exists_mem_insert, Set.mem_union, Set.mem_ofPred_eq]
    have hdisjoint : Disjoint {tape : Tape bound n | answer bound tape = some a.val}
        {tape | ∃ b ∈ A, answer bound tape = some b.val} := by
      rw [Set.disjoint_left]
      rintro tape ha ⟨b, hb, hanswer⟩
      rw [Set.mem_ofPred_eq] at ha
      rw [ha, Option.some.injEq, Fin.val_inj] at hanswer
      exact hnew (hanswer ▸ hb)
    rw [hsplit, Set.ncard_union_eq hdisjoint, mul_add, ncard_answer n a.isLt, ih,
      Finset.card_insert_of_notMem hnew, add_mul, one_mul, add_comm]

end Draw

end AnonCred

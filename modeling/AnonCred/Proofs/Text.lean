import Mathlib.Data.List.DropRight
import Mathlib.Data.Nat.Digits.Defs
import AnonCred.Text.Blank
import AnonCred.Text.Decimal

/-!
# Blanks, letters and digits

What the leniency of a reader comes to: which texts it takes for the same.

* `Text.trimChars_eq_iff` — the blanks at both ends are taken off, all of them and nothing else
* `Text.isBlank_lowerChar` — the case of letters has no say in that
* `Text.trimmed_lower_iff` — both at once, for a class of words
* `Decimal.word64?_eq_some` — a number of 64 bits is one or more digits, behind a plus sign or none
-/

namespace AnonCred

/-! ## Blanks -/

namespace Text

/-- Blanks only. -/
def Blanks (cs : List Char) : Prop := ∀ c ∈ cs, isBlank c = true

/-- A blank neither in front nor behind. -/
def Trimmed (cs : List Char) : Prop :=
  (∀ c ∈ cs.head?, isBlank c = false) ∧ ∀ c ∈ cs.getLast?, isBlank c = false

instance (cs : List Char) : Decidable (Trimmed cs) :=
  decidable_of_iff (cs.head?.all (!isBlank ·) ∧ cs.getLast?.all (!isBlank ·)) <| by
    simp only [Trimmed, Option.all_eq_true, Bool.not_eq_true', Option.mem_def]

theorem trimChars_eq (cs : List Char) :
    trimChars cs = (cs.dropWhile isBlank).rdropWhile isBlank := rfl

theorem dropWhile_isBlank {before cs : List Char} (hbefore : Blanks before)
    (hhead : ∀ c ∈ cs.head?, isBlank c = false) : (before ++ cs).dropWhile isBlank = cs := by
  induction before with
  | nil =>
    cases cs with
    | nil => rfl
    | cons c rest => exact List.dropWhile_cons_of_neg (by simp [hhead c rfl])
  | cons c before ih =>
    obtain ⟨hc, hrest⟩ := List.forall_mem_cons.mp hbefore
    rw [List.cons_append, List.dropWhile_cons_of_pos hc, ih hrest]

theorem trimChars_append {before core behind : List Char} (hbefore : Blanks before)
    (hbehind : Blanks behind) (hcore : Trimmed core) :
    trimChars (before ++ core ++ behind) = core := by
  unfold trimChars
  cases core with
  | nil =>
    have hall : Blanks (before ++ [] ++ behind) := by
      intro c hc
      rw [List.append_nil] at hc
      exact (List.mem_append.mp hc).elim (hbefore c) (hbehind c)
    rw [List.dropWhile_eq_nil_iff.mpr hall]
    rfl
  | cons c rest =>
    have hback : Blanks behind.reverse := fun c hc => hbehind c (List.mem_reverse.mp hc)
    have hlast : ∀ d ∈ (c :: rest).reverse.head?, isBlank d = false := by
      rw [List.head?_reverse]
      exact hcore.2
    have hfirst : ∀ d ∈ (c :: (rest ++ behind)).head?, isBlank d = false := hcore.1
    rw [List.append_assoc, List.cons_append, dropWhile_isBlank hbefore hfirst, ← List.cons_append,
      List.reverse_append, dropWhile_isBlank hback hlast, List.reverse_reverse]

/-- What is trimmed off a text at its two ends. -/
theorem exists_trimChars (cs : List Char) :
    ∃ before behind, Blanks before ∧ Blanks behind ∧ cs = before ++ trimChars cs ++ behind := by
  refine ⟨cs.takeWhile isBlank, (cs.dropWhile isBlank).rtakeWhile isBlank, fun c hc => ?_,
    fun c hc => ?_, ?_⟩
  · exact List.mem_takeWhile_imp hc
  · exact List.mem_rtakeWhile_imp hc
  · rw [trimChars_eq, List.append_assoc, List.rdropWhile_append_rtakeWhile,
      List.takeWhile_append_dropWhile]

theorem trimmed_trimChars (cs : List Char) : Trimmed (trimChars cs) := by
  have hhead (ds : List Char) : ∀ c ∈ (ds.dropWhile isBlank).head?, isBlank c = false := by
    intro c hc
    have hnot := List.head?_dropWhile_not isBlank ds
    rwa [Option.mem_def.mp hc] at hnot
  constructor
  · intro c hc
    obtain ⟨behind, hbehind⟩ := List.rdropWhile_prefix isBlank (cs.dropWhile isBlank)
    refine hhead cs c ?_
    rw [← hbehind, List.head?_append, ← trimChars_eq, Option.mem_def.mp hc]
    rfl
  · intro c hc
    rw [trimChars, List.getLast?_reverse] at hc
    exact hhead _ c hc

/-- The blanks at both ends are taken off, all of them and nothing else. -/
theorem trimChars_eq_iff {cs core : List Char} :
    trimChars cs = core ↔
      Trimmed core ∧ ∃ before behind, Blanks before ∧ Blanks behind ∧
        cs = before ++ core ++ behind := by
  constructor
  · rintro rfl
    exact ⟨trimmed_trimChars cs, exists_trimChars cs⟩
  · rintro ⟨hcore, before, behind, hbefore, hbehind, rfl⟩
    exact trimChars_append hbefore hbehind hcore

theorem toList_lower_trim (text : String) :
    (lower (trim text)).toList = (trimChars text.toList).map lowerChar := by
  rw [lower, trim, String.toList_ofList, String.toList_ofList]

/-! ## Letters -/

/-- The letters of ASCII are two ranges. -/
theorem isAlpha_iff {c : Char} : c.isAlpha = true ↔
    0x41 ≤ c.toNat ∧ c.toNat ≤ 0x5A ∨ 0x61 ≤ c.toNat ∧ c.toNat ≤ 0x7A := by
  have hupper : c.isUpper = true ↔ 0x41 ≤ c.toNat ∧ c.toNat ≤ 0x5A := decide_eq_true_iff
  have hlower : c.isLower = true ↔ 0x61 ≤ c.toNat ∧ c.toNat ≤ 0x7A :=
    Iff.trans Bool.and_eq_true_iff (Iff.and decide_eq_true_iff decide_eq_true_iff)
  rw [← hupper, ← hlower, ← Bool.or_eq_true]
  rfl

theorem isBlank_of_isAlpha {c : Char} (h : c.isAlpha = true) : isBlank c = false := by
  have hrange := isAlpha_iff.mp h
  simp only [isBlank, Bool.or_eq_false_iff, Bool.and_eq_false_iff, beq_eq_false_iff_ne,
    decide_eq_false_iff_not]
  omega

/-- A letter in lower case was a letter before. -/
theorem isAlpha_of_lowerChar {c : Char} (h : (lowerChar c).isAlpha = true) : c.isAlpha = true := by
  unfold lowerChar at h
  split at h
  · next hrange => exact isAlpha_iff.mpr (.inl hrange)
  · exact h

/-- The case of a letter does not matter to what a blank is. -/
theorem isBlank_lowerChar (c : Char) : isBlank (lowerChar c) = isBlank c := by
  unfold lowerChar
  split
  · next h =>
    have hletters : ∀ n ∈ List.range' 0x41 26,
        isBlank (Char.ofNat (n + 0x20)) = isBlank (Char.ofNat n) := by decide
    have hletter := hletters c.toNat (List.mem_range'_1.mpr (by omega))
    rwa [Char.ofNat_toNat] at hletter
  · rfl

/-- A text is trimmed when it is in lower case. -/
theorem trimmed_map_lowerChar {cs : List Char} : Trimmed (cs.map lowerChar) ↔ Trimmed cs := by
  simp only [Trimmed, List.head?_map, List.getLast?_map, Option.mem_map, forall_exists_index,
    and_imp, forall_apply_eq_imp_iff₂, isBlank_lowerChar]

/-- What becomes of a class of words when blanks around them and capitals do not count. No word of
the class may have blanks around it itself. -/
theorem trimmed_lower_iff (accepts : List Char → Prop) (h : ∀ word, accepts word → Trimmed word)
    (cs : List Char) :
    accepts ((trimChars cs).map lowerChar) ↔ ∃ before core behind, Blanks before ∧
      Blanks behind ∧ cs = before ++ core ++ behind ∧ accepts (core.map lowerChar) := by
  constructor
  · intro hcore
    obtain ⟨-, before, behind, hbefore, hbehind, heq⟩ :=
      trimChars_eq_iff.mp (rfl : trimChars cs = _)
    exact ⟨before, _, behind, hbefore, hbehind, heq, hcore⟩
  · rintro ⟨before, core, behind, hbefore, hbehind, heq, hcore⟩
    have htrimmed := trimmed_map_lowerChar.mp (h _ hcore)
    rwa [trimChars_eq_iff.mpr ⟨htrimmed, before, behind, hbefore, hbehind, heq⟩]

end Text

/-! ## Digits -/

namespace Decimal

/-- The characters of digits. -/
def digitChars (ds : List (Fin 10)) : List Char := ds.map (digitChar ·.val)

/-- The number that digits stand for, the first of them counting most. -/
def value (ds : List (Fin 10)) : Nat := Nat.ofDigits 10 (ds.reverse.map Fin.val)

theorem value_concat (ds : List (Fin 10)) (d : Fin 10) : value (ds ++ [d]) = value ds * 10 + d := by
  rw [value, List.reverse_append, List.reverse_singleton, List.singleton_append, List.map_cons,
    Nat.ofDigits_cons, ← value]
  omega

theorem digitValue?_eq_some {c : Char} {n : Nat} :
    digitValue? c = some n ↔ ∃ d : Fin 10, c = digitChar d ∧ n = d := by
  constructor
  · intro h
    unfold digitValue? at h
    split at h
    · next hrange =>
      rw [Option.some.injEq] at h
      have hdigit : c = digitChar n := by
        rw [digitChar, ← h, show 0x30 + (c.toNat - 0x30) = c.toNat by omega, Char.ofNat_toNat]
      exact ⟨⟨n, by omega⟩, hdigit, rfl⟩
    · cases h
  · rintro ⟨d, rfl, rfl⟩
    exact digitValue?_digitChar d.isLt

theorem continue?_digitChars (ds : List (Fin 10)) :
    continue? 0 (digitChars ds) = some (value ds) := by
  induction ds using List.reverseRecOn with
  | nil => rfl
  | append_singleton ds d ih =>
    rw [digitChars, List.map_append, continue?_append, ← digitChars, ih, value_concat]
    simp only [List.map_cons, List.map_nil, Option.bind_some, continue?,
      digitValue?_digitChar d.isLt]

theorem exists_digits {m n : Nat} {cs : List Char} (h : continue? m cs = some n) :
    ∃ ds, cs = digitChars ds := by
  induction cs generalizing m with
  | nil => exact ⟨[], rfl⟩
  | cons c rest ih =>
    rw [continue?] at h
    split at h
    · next e he =>
      obtain ⟨d, rfl, rfl⟩ := digitValue?_eq_some.mp he
      obtain ⟨ds, rfl⟩ := ih h
      exact ⟨d :: ds, rfl⟩
    · cases h

/-- A number is read from one or more digits, and from nothing else. -/
theorem ofDigits?_eq_some {cs : List Char} {n : Nat} :
    ofDigits? cs = some n ↔ ∃ ds, ds ≠ [] ∧ cs = digitChars ds ∧ value ds = n := by
  constructor
  · intro h
    cases cs with
    | nil => cases h
    | cons c rest =>
      obtain ⟨ds, hds⟩ := exists_digits h
      refine ⟨ds, ?_, hds, ?_⟩
      · rintro rfl
        cases hds
      · rw [ofDigits?, hds, continue?_digitChars, Option.some.injEq] at h
        exact h
  · rintro ⟨ds, hne, rfl, rfl⟩
    cases ds with
    | nil => exact absurd rfl hne
    | cons d ds => exact continue?_digitChars (d :: ds)

/-- One or more digits of a value, behind one plus sign or none. -/
def Numeral (n : Nat) (cs : List Char) : Prop :=
  ∃ ds, ds ≠ [] ∧ value ds = n ∧ (cs = digitChars ds ∨ cs = '+' :: digitChars ds)

theorem digitChar_ne_plus : ∀ d : Fin 10, digitChar d ≠ '+' := by decide

theorem isBlank_digitChar : ∀ d : Fin 10, Text.isBlank (digitChar d) = false := by decide

theorem lowerChar_digitChar : ∀ d : Fin 10, Text.lowerChar (digitChar d) = digitChar d := by decide

theorem Numeral.ne_nil {n : Nat} {cs : List Char} (h : Numeral n cs) : cs ≠ [] := by
  obtain ⟨ds, hne, -, rfl | rfl⟩ := h
  · exact fun hnil => hne (List.map_eq_nil_iff.mp hnil)
  · exact List.cons_ne_nil _ _

/-- A numeral ends with a digit. -/
theorem Numeral.isBlank_getLast? {n : Nat} {cs : List Char} (h : Numeral n cs) :
    ∀ c ∈ cs.getLast?, Text.isBlank c = false := by
  obtain ⟨ds, hne, -, hcs⟩ := h
  obtain ⟨front, d, rfl⟩ := List.eq_nil_or_concat ds |>.resolve_left hne
  have hlast : cs.getLast? = some (digitChar d) := by
    rcases hcs with rfl | rfl
    · simp [digitChars]
    · simp [digitChars, List.getLast?_cons]
  intro c hc
  rw [hlast, Option.mem_some] at hc
  rw [← hc]
  exact isBlank_digitChar d

theorem toList_text (n : Nat) : (text n).toList = digits n := String.toList_ofList

/-- What is written for a number is a numeral of it, in the case that it has. -/
theorem numeral_digits (n : Nat) :
    Numeral n (digits n) ∧ (digits n).map Text.lowerChar = digits n := by
  obtain ⟨ds, hne, hdigits, hvalue⟩ := ofDigits?_eq_some.mp (ofDigits?_digits n)
  refine ⟨⟨ds, hne, hvalue, .inl hdigits⟩, ?_⟩
  rw [hdigits, digitChars, List.map_map]
  exact List.map_congr_left fun d _ => lowerChar_digitChar d

theorem dropPlus_eq_digitChars {cs : List Char} {ds : List (Fin 10)} :
    dropPlus cs = digitChars ds ↔ cs = digitChars ds ∨ cs = '+' :: digitChars ds := by
  unfold dropPlus
  split
  · next rest =>
    have hne : '+' :: rest ≠ digitChars ds := by
      intro h
      cases ds with
      | nil => cases h
      | cons d ds => exact digitChar_ne_plus d (List.cons.inj h).1.symm
    rw [or_iff_right hne, List.cons.injEq, and_iff_right rfl]
  · next hplus =>
    rw [or_iff_left]
    rintro rfl
    exact hplus _ rfl

/-- A number of 64 bits is read from its numerals. -/
theorem word64?_eq_some {cs : List Char} {bits : UInt64} :
    word64? cs = some bits ↔ Numeral bits.toNat cs := by
  have hdigits (n : Nat) : ofDigits? (dropPlus cs) = some n ↔ Numeral n cs := by
    rw [ofDigits?_eq_some]
    simp only [dropPlus_eq_digitChars, Numeral]
    constructor
    · rintro ⟨ds, hne, hcs, hvalue⟩
      exact ⟨ds, hne, hvalue, hcs⟩
    · rintro ⟨ds, hne, hvalue, hcs⟩
      exact ⟨ds, hne, hcs, hvalue⟩
  rw [← hdigits, word64?]
  constructor
  · intro h
    split at h
    · next n hn =>
      split at h
      · next hlt =>
        rw [Option.some.injEq] at h
        rw [hn, ← h, UInt64.toNat_ofNat_of_lt' hlt]
      · cases h
    · cases h
  · intro h
    have hlt : bits.toNat < wordEnd := bits.toNat_lt
    rw [h]
    dsimp only
    rw [if_pos hlt, UInt64.ofNat_toNat]

end Decimal

end AnonCred

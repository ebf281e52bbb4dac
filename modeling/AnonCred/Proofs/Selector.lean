import AnonCred.Config.Decode
import AnonCred.Proofs.Text
import Mathlib.Data.List.TakeDrop

/-!
# The texts that name a group

A choice is spelt by a word, or by the word of a family and a numeral behind a colon. What is read
are exactly these spellings, with blanks around them and letters of either case; each spells one
choice, and the name that is written for a choice is one of its spellings.

* `Spells` — the grammar, without blanks and capitals
* `parse_eq_ok` — what is read
* `parse_exact` — what is read, what is written, and what a setting says, put together
-/

namespace AnonCred.GroupSelector

open Text

/-! ## Spellings -/

/-- The two words for a curve with the given number. -/
def curveWords (number : String) : List (List Char) :=
  [('p' :: number.toList), ('p' :: '-' :: number.toList)]

/-- How a choice is spelt in small letters. -/
def Spells (cs : List Char) : GroupSelector → Prop
  | .rfc5114 => cs = "rfc5114".toList
  | .p224 => cs ∈ curveWords "224"
  | .p256 => cs ∈ curveWords "256"
  | .p384 => cs ∈ curveWords "384"
  | .p521 => cs ∈ curveWords "521"
  | .schnorr bits => ∃ size, Decimal.Numeral bits.toNat size ∧ cs = "schnorr".toList ++ ':' :: size
  | .residues bits => ∃ size, Decimal.Numeral bits.toNat size ∧ cs = "qr".toList ++ ':' :: size

variable {s : GroupSelector} {cs before behind : List Char}

/-! ## The first colon -/

/-- A text without a colon is cut off in front of the first one. -/
theorem span_colon (h : ':' ∉ before) (rest : List Char) (hrest : ∀ c ∈ rest.head?, c = ':') :
    (before ++ rest).span (· ≠ ':') = (before, rest) := by
  have hall : ∀ c ∈ before, decide (c ≠ ':') = true := by
    intro c hc
    refine decide_eq_true ?_
    rintro rfl
    exact h hc
  rw [List.span_eq_takeWhile_dropWhile, List.takeWhile_append_of_pos hall,
    List.dropWhile_append_of_pos hall]
  cases rest with
  | nil => rw [List.takeWhile_nil, List.dropWhile_nil, List.append_nil]
  | cons c rest =>
    obtain rfl := hrest c rfl
    rw [List.takeWhile_cons_of_neg (by decide), List.dropWhile_cons_of_neg (by decide),
      List.append_nil]

theorem splitColon_of_not_mem (h : ':' ∉ cs) : splitColon cs = (cs, none) := by
  have hspan := span_colon h [] fun c hc => by cases hc
  rw [List.append_nil] at hspan
  rw [splitColon, hspan]

theorem splitColon_append (h : ':' ∉ before) :
    splitColon (before ++ ':' :: behind) = (before, some behind) := by
  rw [splitColon, span_colon h _ fun c hc => (Option.mem_some.mp hc).symm]

/-! ## Words -/

theorem ofList_eq_iff {word : String} : String.ofList cs = word ↔ cs = word.toList := by
  rw [← String.toList_inj, String.toList_ofList]

theorem ofWord?_eq_some (h : ':' ∉ cs) : ofWord? (String.ofList cs) = some s ↔ Spells cs s := by
  simp only [ofWord?, ofList_eq_iff]
  constructor
  · intro hword
    split_ifs at hword with h1 h2 h3 h4 h5
    · cases hword
      exact h1
    · cases hword
      simpa [Spells, curveWords] using h2
    · cases hword
      simpa [Spells, curveWords] using h3
    · cases hword
      simpa [Spells, curveWords] using h4
    · cases hword
      simpa [Spells, curveWords] using h5
  · intro hspells
    cases s with
    | schnorr bits =>
      obtain ⟨size, -, rfl⟩ := hspells
      exact absurd (List.mem_append_right _ List.mem_cons_self) h
    | residues bits =>
      obtain ⟨size, -, rfl⟩ := hspells
      exact absurd (List.mem_append_right _ List.mem_cons_self) h
    | rfc5114 =>
      obtain rfl := hspells
      rfl
    | p224 | p256 | p384 | p521 =>
      rcases List.mem_pair.mp hspells with rfl | rfl <;> rfl

/-! ## Families -/

theorem family?_eq_some {family : UInt64 → GroupSelector} :
    family? (String.ofList cs) = some family ↔
      cs = "schnorr".toList ∧ family = .schnorr ∨ cs = "qr".toList ∧ family = .residues := by
  simp only [family?, ofList_eq_iff]
  constructor
  · intro hword
    split_ifs at hword with h1 h2
    · exact .inl ⟨h1, (Option.some.inj hword).symm⟩
    · exact .inr ⟨h2, (Option.some.inj hword).symm⟩
  · rintro (⟨rfl, rfl⟩ | ⟨rfl, rfl⟩) <;> rfl

/-- A text with a colon is cut in one way. -/
theorem append_colon_inj {word size : List Char} (h : ':' ∉ before) (hword : ':' ∉ word) :
    before ++ ':' :: behind = word ++ ':' :: size ↔ before = word ∧ behind = size := by
  constructor
  · intro heq
    have hcut : splitColon (before ++ ':' :: behind) = _ := splitColon_append h
    rw [heq, splitColon_append hword] at hcut
    exact ⟨(Prod.mk.inj hcut).1.symm, (Option.some.inj (Prod.mk.inj hcut).2).symm⟩
  · rintro ⟨rfl, rfl⟩
    rfl

/-- A text with a colon spells a choice as a family with its size, or not at all. -/
theorem spells_append (h : ':' ∉ before) :
    Spells (before ++ ':' :: behind) s ↔
      ∃ family bits, family? (String.ofList before) = some family ∧
        Decimal.word64? behind = some bits ∧ family bits = s := by
  have hcolon : ':' ∈ before ++ ':' :: behind := List.mem_append_right _ List.mem_cons_self
  constructor
  · intro hspells
    cases s with
    | schnorr bits =>
      obtain ⟨size, hsize, heq⟩ := hspells
      obtain ⟨rfl, rfl⟩ := (append_colon_inj h (by decide)).mp heq
      exact ⟨_, bits, family?_eq_some.mpr (.inl ⟨rfl, rfl⟩), Decimal.word64?_eq_some.mpr hsize, rfl⟩
    | residues bits =>
      obtain ⟨size, hsize, heq⟩ := hspells
      obtain ⟨rfl, rfl⟩ := (append_colon_inj h (by decide)).mp heq
      exact ⟨_, bits, family?_eq_some.mpr (.inr ⟨rfl, rfl⟩), Decimal.word64?_eq_some.mpr hsize, rfl⟩
    | rfc5114 =>
      rw [show before ++ ':' :: behind = _ from hspells] at hcolon
      exact absurd hcolon (by decide)
    | p224 | p256 | p384 | p521 =>
      rcases List.mem_pair.mp hspells with hword | hword
      · rw [hword] at hcolon
        exact absurd hcolon (by decide)
      · rw [hword] at hcolon
        exact absurd hcolon (by decide)
  · rintro ⟨family, bits, hfamily, hbits, rfl⟩
    have hsize := Decimal.word64?_eq_some.mp hbits
    rcases family?_eq_some.mp hfamily with ⟨rfl, rfl⟩ | ⟨rfl, rfl⟩
    · exact ⟨behind, hsize, rfl⟩
    · exact ⟨behind, hsize, rfl⟩

/-! ## Reading -/

theorem parse_eq_ok {text : String} :
    parse text = .ok s ↔ Spells ((trimChars text.toList).map lowerChar) s := by
  unfold parse
  rw [toList_lower_trim]
  generalize (trimChars text.toList).map lowerChar = word
  dsimp only
  by_cases hcolon : ':' ∈ word
  · obtain ⟨before, behind, rfl, hbefore⟩ := List.eq_append_cons_of_mem hcolon
    rw [splitColon_append hbefore, spells_append hbefore]
    dsimp only
    cases family? (String.ofList before) with
    | none => simp
    | some family =>
      cases Decimal.word64? behind with
      | none => simp
      | some bits => simp
  · rw [splitColon_of_not_mem hcolon, ← ofWord?_eq_some hcolon]
    dsimp only
    cases ofWord? (String.ofList word) with
    | none => simp
    | some selector => simp

/-- A spelling has no blanks around it. -/
theorem Spells.trimmed (h : Spells cs s) : Trimmed cs := by
  have hfamily {c : Char} {front : List Char} {bits : UInt64} (hc : isBlank c = false)
      (hsize : ∃ size, Decimal.Numeral bits.toNat size ∧ cs = c :: front ++ ':' :: size) :
      Trimmed cs := by
    obtain ⟨size, hnumeral, rfl⟩ := hsize
    constructor
    · intro d hd
      cases hd
      exact hc
    · have hsplit : c :: front ++ ':' :: size = (c :: front ++ [':']) ++ size := by simp
      rw [hsplit, List.getLast?_append_of_ne_nil _ hnumeral.ne_nil]
      exact hnumeral.isBlank_getLast?
  cases s with
  | schnorr bits => exact hfamily (by decide) h
  | residues bits => exact hfamily (by decide) h
  | rfc5114 =>
    obtain rfl := h
    decide
  | p224 | p256 | p384 | p521 =>
    rcases List.mem_pair.mp h with rfl | rfl
    · decide
    · decide

theorem map_lowerChar_append_text {front : String} (n : Nat)
    (hfront : front.toList.map lowerChar = front.toList) :
    (front ++ Decimal.text n).toList.map lowerChar = front.toList ++ Decimal.digits n := by
  rw [String.toList_append, List.map_append, hfront, Decimal.toList_text,
    (Decimal.numeral_digits n).2]

/-- The name of a choice is one of its spellings. -/
theorem spells_name (s : GroupSelector) : Spells (s.name.toList.map lowerChar) s := by
  cases s with
  | schnorr bits =>
    refine ⟨_, (Decimal.numeral_digits bits.toNat).1, ?_⟩
    rw [name, map_lowerChar_append_text _ (by decide)]
    rfl
  | residues bits =>
    refine ⟨_, (Decimal.numeral_digits bits.toNat).1, ?_⟩
    rw [name, map_lowerChar_append_text _ (by decide)]
    rfl
  | rfc5114 => rfl
  | p224 | p256 | p384 | p521 => exact List.mem_cons_self

/-! ## Names -/

/-- A text is read as a choice exactly when it is a spelling of it, with letters of either case and
with blanks around it. The name of a choice reads back as that choice; and a setting is read as any
other text, and refused with the same error. -/
theorem parse_exact (text : String) (s : GroupSelector) :
    (parse text = .ok s ↔ ∃ before core behind, Blanks before ∧ Blanks behind ∧
      text.toList = before ++ core ++ behind ∧ Spells (core.map lowerChar) s) ∧
    parse s.name = .ok s ∧
    Decode.group (.string text) = (parse text).mapError fun error => .here (.selector error) := by
  have hread (written : String) : parse written = .ok s ↔ ∃ before core behind, Blanks before ∧
      Blanks behind ∧ written.toList = before ++ core ++ behind ∧ Spells (core.map lowerChar) s :=
    parse_eq_ok.trans
      (trimmed_lower_iff (Spells · s) (fun _ hspells => hspells.trimmed) written.toList)
  refine ⟨hread text, (hread s.name).mpr ⟨[], s.name.toList, [], ?_, ?_, ?_, spells_name s⟩, ?_⟩
  · simp [Blanks]
  · simp [Blanks]
  · simp
  · simp only [Decode.group, Decode.text, bind, Except.bind]
    cases parse text with
    | ok selector => rfl
    | error error => rfl

end AnonCred.GroupSelector

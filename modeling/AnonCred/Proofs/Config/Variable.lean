import AnonCred.Config.Variable
import AnonCred.Proofs.Text

/-!
# Plain texts in the environment

A variable that holds a word of letters is read as that word: nothing in it asks for brackets,
quotation marks or a number, and the blanks around it are taken off.

* `Plain` — letters that do not begin like a truth value
* `value_eq_string` — what is read from them
-/

namespace AnonCred

/-! ## Scanners that fail -/

namespace Scan

variable {α β : Type} {scan : Scan α} {cs rest : List Char}

theorem bind_eq_none (h : scan cs = none) (next : α → Scan β) : (scan >>= next) cs = none := by
  change (scan cs).bind _ = none
  rw [h, Option.bind_none]

theorem bind_eq_of_some {a : α} (h : scan cs = some (a, rest)) (next : α → Scan β) :
    (scan >>= next) cs = next a rest := by
  change (scan cs).bind _ = _
  rw [h, Option.bind_some]

theorem map_eq_none (h : scan cs = none) (f : α → β) : (f <$> scan) cs = none :=
  bind_eq_none h (pure ∘ f)

theorem orElse_eq_of_none (h : scan cs = none) (other : Scan α) :
    (scan <|> other) cs = other cs := by
  change (scan cs <|> other cs) = other cs
  rw [h]
  rfl

theorem exactly_eq_none {c : Char} (h : cs.head? ≠ some c) : exactly c cs = none := by
  refine bind_eq_none ?_ _
  cases cs with
  | nil => rfl
  | cons d rest =>
    have hne : d ≠ c := fun heq => h (congrArg some heq)
    rw [one, if_neg (by simpa using hne)]

theorem word_eq_none {c : Char} (h : cs.head? ≠ some c) (more : List Char) :
    word (c :: more) cs = none :=
  bind_eq_none (exactly_eq_none h) _

/-- A character that may be missing leaves the text, or the text behind its first character. -/
theorem optionally_one (p : Char → Bool) (cs : List Char) :
    ∃ found rest, optionally (one p) cs = some (found, rest) ∧ rest <:+ cs := by
  cases hone : one p cs with
  | none =>
    refine ⟨none, cs, ?_, List.suffix_rfl⟩
    rw [optionally, orElse_eq_of_none (map_eq_none hone some)]
    rfl
  | some taken =>
    obtain ⟨c, rest⟩ := taken
    refine ⟨some c, rest, ?_, ?_⟩
    · change ((one p cs).bind _ <|> _) = _
      rw [hone]
      rfl
    · cases cs with
      | nil => cases hone
      | cons d more =>
        rw [one] at hone
        split at hone
        · cases hone
          exact List.suffix_cons _ _
        · cases hone

end Scan

namespace Variable

open Scan Text

variable {cs before core behind : List Char}

/-! ## Texts without quotation marks -/

theorem bare_eq (cs : List Char) :
    bare cs = some (bareValue (trimChars (cs.takeWhile isBare)), cs.dropWhile isBare) := rfl

theorem word_eq_bare (ht : cs.head? ≠ some 't') (hf : cs.head? ≠ some 'f') : word cs = bare cs := by
  rw [word, orElse_eq_of_none (map_eq_none (word_eq_none ht _) _),
    orElse_eq_of_none (map_eq_none (word_eq_none hf _) _)]

/-- A number that is no integer has a point. -/
theorem real_eq_none (h : '.' ∉ cs) : real cs = none := by
  unfold real
  obtain ⟨sign, rest, hsign, hsuffix⟩ := optionally_one (fun c => c == '+' || c == '-') cs
  have hrun : run (fun c => (Decimal.digitValue? c).isSome) rest = some (_, _) := rfl
  rw [bind_eq_of_some hsign, bind_eq_of_some hrun]
  refine bind_eq_none (exactly_eq_none fun hhead => ?_) _
  have hmem := List.mem_of_mem_head? (Option.mem_def.mpr hhead)
  exact h (hsuffix.subset ((List.dropWhile_sublist _).subset hmem))

/-! ## Values -/

/-- Space on either side is taken off a value. -/
theorem valueUpTo_run (depth : Nat) (cs : List Char) :
    (valueUpTo (depth + 1)).run cs =
      ((unspaced (valueUpTo depth)).run (cs.dropWhile isSpace)).map fun
        | (.ok value, rest) => (.ok value, rest.dropWhile isSpace)
        | (.error interruption, rest) => (.error interruption, rest) := by
  rw [valueUpTo]
  change ((unspaced (valueUpTo depth)).run (cs.dropWhile isSpace)).bind _ = _
  rcases (unspaced (valueUpTo depth)).run (cs.dropWhile isSpace) with - | ⟨error | value, rest⟩
  · rfl
  · rfl
  · rfl

theorem lift_run {α : Type} (scan : Scan α) (cs : List Char) :
    (liftM scan : Reading α).run cs = (scan cs).map fun (a, rest) => (.ok a, rest) := by
  change (scan cs).bind _ = _
  rcases scan cs with - | ⟨a, rest⟩
  · rfl
  · rfl

theorem get_run {α : Type} (next : List Char → Reading α) (cs : List Char) :
    ((get : Reading (List Char)) >>= next).run cs = (next cs).run cs := rfl

/-- What does not begin with a bracket, a brace or a quotation mark is a word. -/
theorem unspaced_eq_word {item : Reading Value}
    (h : ∀ c ∈ cs.head?, isBare c = true ∧ c ≠ '"' ∧ c ≠ '\'') :
    (unspaced item).run cs = (word cs).map fun (value, rest) => (.ok value, rest) := by
  rw [← lift_run, unspaced, get_run]
  split
  · next heq => exact absurd (h _ heq).1 (by decide)
  · next heq => exact absurd (h _ heq).1 (by decide)
  · next heq => exact absurd rfl (h _ heq).2.1
  · next heq => exact absurd rfl (h _ heq).2.2
  · rfl

/-! ## Words of letters -/

/-- Letters that do not begin like a truth value. -/
structure Plain (cs : List Char) : Prop where
  ne_nil : cs ≠ []
  isAlpha : ∀ c ∈ cs, c.isAlpha = true
  not_true : cs.head? ≠ some 't'
  not_false : cs.head? ≠ some 'f'

theorem isBlank_of_isSpace {c : Char} (h : isSpace c = true) : isBlank c = true := by
  simp only [isSpace, Bool.or_eq_true, beq_iff_eq] at h
  rcases h with (((rfl | rfl) | rfl) | rfl) | rfl <;> decide

namespace Plain

theorem isAlpha_head (h : Plain cs) : ∀ c ∈ cs.head?, c.isAlpha = true :=
  fun c hc => h.isAlpha c (List.mem_of_mem_head? hc)

theorem trimmed (h : Plain cs) : Trimmed cs :=
  ⟨fun _ hc => isBlank_of_isAlpha (h.isAlpha_head _ hc),
    fun _ hc => isBlank_of_isAlpha (h.isAlpha _ (List.mem_of_mem_getLast? hc))⟩

theorem ofDigits?_dropPlus (h : Plain cs) : Decimal.ofDigits? (Decimal.dropPlus cs) = none := by
  by_contra hsome
  obtain ⟨n, hn⟩ := Option.ne_none_iff_exists'.mp hsome
  obtain ⟨ds, hne, hcs, -⟩ := Decimal.ofDigits?_eq_some.mp hn
  obtain ⟨d, ds, rfl⟩ := List.exists_cons_of_ne_nil hne
  rcases Decimal.dropPlus_eq_digitChars.mp hcs with rfl | rfl
  · have hdigit : ∀ d : Fin 10, (Decimal.digitChar d).isAlpha = false := by decide
    have halpha := h.isAlpha_head _ rfl
    rw [hdigit d] at halpha
    cases halpha
  · exact absurd (h.isAlpha_head _ rfl) (by decide)

/-- A word of letters is no number of any kind. -/
theorem bareValue_eq (h : Plain cs) : bareValue cs = .string (String.ofList cs) := by
  have hreal : real.whole cs = none := by
    have hpoint : '.' ∉ cs := fun hmem => absurd (h.isAlpha _ hmem) (by decide)
    rw [whole, real_eq_none hpoint]
  have hword : Decimal.word64? cs = none := by rw [Decimal.word64?, h.ofDigits?_dropPlus]
  have hsigned : Decimal.signed64? cs = none := by
    unfold Decimal.signed64?
    split
    · exact absurd (h.isAlpha_head '-' rfl) (by decide)
    · rw [h.ofDigits?_dropPlus]
  rw [bareValue, hreal, hword, hsigned]
  rfl

/-- Space is taken off in front of a word only. -/
theorem dropWhile_isSpace (h : Plain core) (before behind : List Char) :
    (before ++ core ++ behind).dropWhile isSpace =
      before.dropWhile isSpace ++ core ++ behind := by
  obtain ⟨c, rest, rfl⟩ := List.exists_cons_of_ne_nil h.ne_nil
  have hc : ¬isSpace c = true := by
    intro hspace
    have hblank := isBlank_of_isSpace hspace
    rw [isBlank_of_isAlpha (h.isAlpha_head c rfl)] at hblank
    cases hblank
  rw [List.append_assoc, List.dropWhile_append, List.append_assoc]
  split
  · next hempty =>
    rw [List.isEmpty_iff.mp hempty, List.nil_append, List.cons_append]
    exact List.dropWhile_cons_of_neg hc
  · rfl

/-- The first character is the one of the word, or stands in front of it. -/
theorem mem_head? (h : Plain core) {c : Char} (hc : c ∈ (before ++ core ++ behind).head?) :
    c ∈ before ∨ c ∈ core.head? := by
  cases before with
  | nil =>
    obtain ⟨d, rest, rfl⟩ := List.exists_cons_of_ne_nil h.ne_nil
    exact .inr hc
  | cons d before =>
    cases hc
    exact .inl List.mem_cons_self

end Plain

/-- Blanks and letters are allowed without quotation marks. -/
theorem isBare_of_isBlank_or_isAlpha {c : Char} (h : (isBlank c || c.isAlpha) = true) :
    isBare c = true := by
  have hne (d : Char) (hd : (isBlank d || d.isAlpha) = false) : (c == d) = false := by
    refine beq_false_of_ne ?_
    rintro rfl
    rw [hd] at h
    cases h
  rw [isBare, hne ',' (by decide), hne '\x7b' (by decide), hne '\x7d' (by decide),
    hne '[' (by decide), hne ']' (by decide)]
  rfl

/-- A word of letters is read as itself, without the blanks around it. -/
theorem value_eq_string {text : String} (hbefore : Blanks before) (hbehind : Blanks behind)
    (hcore : Plain core) (htext : text.toList = before ++ core ++ behind) :
    value text = .ok (.string (String.ofList core)) := by
  -- space is taken off first, which may leave other blanks in front
  have hspace := hcore.dropWhile_isSpace before behind
  generalize hfront : before.dropWhile isSpace = front at hspace
  have hblank : Blanks front := by
    intro c hc
    rw [← hfront] at hc
    exact hbefore c ((List.dropWhile_sublist _).subset hc)
  have hclass : ∀ c ∈ front ++ core ++ behind, (isBlank c || c.isAlpha) = true := by
    simp only [List.mem_append, Bool.or_eq_true]
    rintro c ((hc | hc) | hc)
    · exact .inl (hblank c hc)
    · exact .inr (hcore.isAlpha c hc)
    · exact .inl (hbehind c hc)
  have hbare : ∀ c ∈ front ++ core ++ behind, isBare c = true :=
    fun c hc => isBare_of_isBlank_or_isAlpha (hclass c hc)
  have hhead (d : Char) (hd : isBlank d = false) (hne : core.head? ≠ some d) :
      (front ++ core ++ behind).head? ≠ some d := by
    intro heq
    rcases hcore.mem_head? heq with hmem | hmem
    · rw [hblank d hmem] at hd
      cases hd
    · exact hne hmem
  have hword : word (front ++ core ++ behind) = some (.string (String.ofList core), []) := by
    rw [word_eq_bare (hhead _ (by decide) hcore.not_true) (hhead _ (by decide) hcore.not_false),
      bare_eq, List.takeWhile_eq_self_iff.mpr hbare, List.dropWhile_eq_nil_iff.mpr hbare,
      trimChars_append hblank hbehind hcore.trimmed, hcore.bareValue_eq]
  rw [value, valueUpTo_run, htext, hspace, unspaced_eq_word, hword]
  · rfl
  · intro c hc
    have hmem := List.mem_of_mem_head? hc
    refine ⟨hbare c hmem, ?_, ?_⟩
    · rintro rfl
      exact absurd (hclass _ hmem) (by decide)
    · rintro rfl
      exact absurd (hclass _ hmem) (by decide)

end Variable

end AnonCred

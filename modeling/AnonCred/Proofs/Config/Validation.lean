import Mathlib.Data.List.Nodup
import Mathlib.Order.Bounds.Basic
import AnonCred.Config
import AnonCred.Proofs.Text

/-!
# What makes settings valid

The check goes over the names in order and remembers the ones it has passed. What it remembers at a
place are the names in front of that place. So as long as nothing is wrong in front of it, it stops
where something is wrong, and it gets to the end of the list if nothing is.

* `isBlankName_iff` — a name is blank when all of it is white space
* `checkNames_reverse` — what is found from a place on, if nothing is wrong in front of it
* `validate_exact` — which settings are valid, and which flaw the others are refused for
-/

namespace AnonCred.Config

variable {config : Config} {names passed rest : List String} {name : String} {flaw : Flaw}
  {i : Nat}

/-! ## Names -/

/-- Only white space is trimmed away whole. -/
theorem isBlankName_iff : IsBlankName name ↔ Text.Blanks name.toList := by
  have hempty : IsBlankName name ↔ Text.trimChars name.toList = [] := by
    unfold IsBlankName Text.trim
    rw [← String.toList_inj, String.toList_ofList, String.toList_empty]
  rw [hempty, Text.trimChars_eq_iff]
  constructor
  · rintro ⟨-, before, behind, hbefore, hbehind, hname⟩ c hc
    rw [hname, List.append_nil] at hc
    exact (List.mem_append.mp hc).elim (hbefore c) (hbehind c)
  · intro hblanks
    exact ⟨by simp [Text.Trimmed], name.toList, [], hblanks, by simp [Text.Blanks], by simp⟩

/-- The name at a place is blank, or stands at an earlier place as well. -/
def FaultyAt (names : List String) (i : Nat) : Prop :=
  ∃ name, names[i]? = some name ∧ (IsBlankName name ∨ ∃ j < i, names[j]? = some name)

/-- What a name that is at fault is refused for. -/
def Flaw.ofName (name : String) : Flaw :=
  if IsBlankName name then .blankName else .repeatedName name

theorem eq_ofName_iff (h : FaultyAt names i) (hname : names[i]? = some name) :
    flaw = .ofName name ↔
      IsBlankName name ∧ flaw = .blankName ∨
        ¬IsBlankName name ∧ (∃ j < i, names[j]? = some name) ∧ flaw = .repeatedName name := by
  obtain ⟨name', hname', hfault⟩ := h
  cases hname.symm.trans hname'
  unfold Flaw.ofName
  by_cases hblank : IsBlankName name
  · simp [hblank]
  · simp [hblank, hfault.resolve_left hblank]

theorem not_faultyAt_of_le (h : names.length ≤ i) : ¬FaultyAt names i := by
  rintro ⟨name, hname, -⟩
  rw [List.getElem?_eq_none h] at hname
  cases hname

/-- Behind the names that are passed. -/
theorem faultyAt_length_iff :
    FaultyAt (passed ++ name :: rest) passed.length ↔ IsBlankName name ∨ name ∈ passed := by
  have hearlier : (∃ j < passed.length, (passed ++ name :: rest)[j]? = some name) ↔
      name ∈ passed := by
    rw [List.mem_iff_getElem?]
    constructor
    · rintro ⟨j, hj, hname⟩
      exact ⟨j, by rwa [List.getElem?_append_left hj] at hname⟩
    · rintro ⟨j, hname⟩
      have hj := (List.getElem?_eq_some_iff.mp hname).1
      exact ⟨j, hj, by rwa [List.getElem?_append_left hj]⟩
  unfold FaultyAt
  rw [List.getElem?_append_right (Nat.le_refl _), Nat.sub_self, List.getElem?_cons_zero]
  simp only [Option.some.injEq, exists_eq_left', hearlier]

/-- Nothing is wrong with names when none of them is blank and no two are the same. -/
theorem forall_not_faultyAt_iff :
    (∀ i, ¬FaultyAt names i) ↔ (∀ name ∈ names, ¬IsBlankName name) ∧ names.Nodup := by
  rw [List.nodup_iff_getElem?_ne_getElem?]
  constructor
  · intro h
    refine ⟨fun name hname hblank => ?_, fun j i hj hi hsame => ?_⟩
    · obtain ⟨i, hi⟩ := List.mem_iff_getElem?.mp hname
      exact h i ⟨name, hi, .inl hblank⟩
    · exact h i ⟨names[i], List.getElem?_eq_getElem hi, .inr ⟨j, hj, by
        rw [hsame, List.getElem?_eq_getElem hi]⟩⟩
  · rintro ⟨hblank, hdistinct⟩ i ⟨name, hname, hfault | ⟨j, hj, hsame⟩⟩
    · exact hblank name (List.mem_of_getElem? hname) hfault
    · exact hdistinct j i hj (List.getElem?_eq_some_iff.mp hname).1 (hsame.trans hname.symm)

/-! ## The check -/

/-- The check remembers what it has passed, the last name first. If nothing is wrong with that, it
finds the first fault of the whole list, or that there is none. -/
theorem checkNames_reverse (passed rest : List String)
    (h : ∀ i < passed.length, ¬FaultyAt (passed ++ rest) i) :
    (checkNames passed.reverse rest = .ok () ∧ ∀ i, ¬FaultyAt (passed ++ rest) i) ∨
    ∃ i name, IsLeast {i | FaultyAt (passed ++ rest) i} i ∧ (passed ++ rest)[i]? = some name ∧
      checkNames passed.reverse rest = .error (.ofName name) := by
  induction rest generalizing passed with
  | nil =>
    refine .inl ⟨rfl, fun i => ?_⟩
    rcases Nat.lt_or_ge i passed.length with hlt | hge
    · exact h i hlt
    · exact not_faultyAt_of_le (by simpa using hge)
  | cons name rest ih =>
    by_cases hfault : FaultyAt (passed ++ name :: rest) passed.length
    · refine .inr ⟨passed.length, name, ⟨hfault, fun i hi => ?_⟩, by simp, ?_⟩
      · exact Nat.le_of_not_lt fun hlt => h i hlt hi
      · rw [checkNames, Flaw.ofName]
        by_cases hblank : IsBlankName name
        · rw [if_pos hblank, if_pos hblank]
        · have hmem := (faultyAt_length_iff.mp hfault).resolve_left hblank
          rw [if_neg hblank, if_neg hblank, if_pos (List.mem_reverse.mpr hmem)]
    · have hpassed := not_or.mp (mt faultyAt_length_iff.mpr hfault)
      have hnext : ∀ i < (passed ++ [name]).length, ¬FaultyAt (passed ++ [name] ++ rest) i := by
        intro i hi
        rw [List.length_append, List.length_singleton] at hi
        rw [List.append_assoc, List.singleton_append]
        rcases Nat.lt_succ_iff_lt_or_eq.mp hi with hlt | rfl
        · exact h i hlt
        · exact hfault
      have hstep : checkNames passed.reverse (name :: rest) =
          checkNames (passed ++ [name]).reverse rest := by
        rw [checkNames, if_neg hpassed.1, if_neg (mt List.mem_reverse.mp hpassed.2),
          List.reverse_append, List.reverse_singleton, List.singleton_append]
      have hrest := ih (passed ++ [name]) hnext
      rwa [← hstep, List.append_assoc, List.singleton_append] at hrest

theorem checkNames_eq_ok :
    checkNames [] names = .ok () ↔ (∀ name ∈ names, ¬IsBlankName name) ∧ names.Nodup := by
  rw [← forall_not_faultyAt_iff]
  rcases checkNames_reverse [] names (by simp) with
    ⟨hok, hnone⟩ | ⟨i, name, hleast, -, herror⟩
  · exact iff_of_true hok hnone
  · refine iff_of_false (fun hok => ?_) fun hnone => hnone i hleast.1
    cases hok.symm.trans herror

theorem checkNames_eq_error :
    checkNames [] names = .error flaw ↔
      ∃ i name, IsLeast {i | FaultyAt names i} i ∧ names[i]? = some name ∧
        flaw = .ofName name := by
  rcases checkNames_reverse [] names (by simp) with
    ⟨hok, hnone⟩ | ⟨i, name, hleast, hname, herror⟩
  · refine iff_of_false (fun herror => ?_) ?_
    · cases hok.symm.trans herror
    · rintro ⟨i, name, hleast, -⟩
      exact hnone i hleast.1
  · constructor
    · intro hflaw
      cases herror.symm.trans hflaw
      exact ⟨i, name, hleast, hname, rfl⟩
    · rintro ⟨i', name', hleast', hname', rfl⟩
      obtain rfl := hleast.unique hleast'
      cases hname.symm.trans hname'
      exact herror

/-! ## Settings -/

theorem validate_eq (config : Config) :
    config.validate =
      if config.organizations = [] then .error .noOrganization
      else if config.sessionKeyBytes.toNat = 0 then .error .emptySessionKeys
      else checkNames [] config.organizations := by
  have hkeys : config.sessionKeyBytes = 0 ↔ config.sessionKeyBytes.toNat = 0 :=
    UInt64.toNat_inj.symm
  unfold validate
  simp only [List.isEmpty_iff, hkeys]

theorem validate_eq_ok : config.validate = .ok () ↔
    config.organizations ≠ [] ∧ 0 < config.sessionKeyBytes.toNat ∧
      (∀ name ∈ config.organizations, ¬IsBlankName name) ∧ config.organizations.Nodup := by
  rw [validate_eq, ← checkNames_eq_ok, Nat.pos_iff_ne_zero]
  by_cases horganizations : config.organizations = []
  · rw [if_pos horganizations]
    exact iff_of_false nofun fun h => h.1 horganizations
  rw [if_neg horganizations]
  by_cases hkeys : config.sessionKeyBytes.toNat = 0
  · rw [if_pos hkeys]
    exact iff_of_false nofun fun h => h.2.1 hkeys
  · rw [if_neg hkeys]
    exact ⟨fun h => ⟨horganizations, hkeys, h⟩, fun h => h.2.2⟩

theorem validate_eq_error : config.validate = .error flaw ↔
    config.organizations = [] ∧ flaw = .noOrganization ∨
    config.organizations ≠ [] ∧ config.sessionKeyBytes.toNat = 0 ∧ flaw = .emptySessionKeys ∨
    config.organizations ≠ [] ∧ 0 < config.sessionKeyBytes.toNat ∧
      checkNames [] config.organizations = .error flaw := by
  rw [validate_eq, Nat.pos_iff_ne_zero]
  by_cases horganizations : config.organizations = []
  · simp only [horganizations, if_true, Except.error.injEq, eq_comm, ne_eq, not_true_eq_false,
      true_and, false_and, or_false]
  · by_cases hkeys : config.sessionKeyBytes.toNat = 0
    · simp only [horganizations, hkeys, if_false, if_true, Except.error.injEq, eq_comm, ne_eq,
        not_true_eq_false, not_false_eq_true, true_and, false_and, false_or, or_false]
    · simp only [horganizations, hkeys, if_false, ne_eq, not_false_eq_true, true_and, false_and,
        false_or]

/-- Settings are valid when they have organizations, session keys that are not empty, no blank name
and no name twice, names being told apart by every character. Of the others the flaw is that there
is no organization, or else that the session keys are empty, or else what is wrong at the first
place where something is: a blank name, or one that stands further in front as well. A name is blank
when all of it is white space. -/
theorem validate_exact (config : Config) :
    (config.validate = .ok () ↔
      config.organizations ≠ [] ∧ 0 < config.sessionKeyBytes.toNat ∧
        (∀ name ∈ config.organizations, ¬IsBlankName name) ∧ config.organizations.Nodup) ∧
    (∀ flaw, config.validate = .error flaw ↔
      config.organizations = [] ∧ flaw = .noOrganization ∨
      config.organizations ≠ [] ∧ config.sessionKeyBytes.toNat = 0 ∧ flaw = .emptySessionKeys ∨
      config.organizations ≠ [] ∧ 0 < config.sessionKeyBytes.toNat ∧
        ∃ i name, IsLeast {i | FaultyAt config.organizations i} i ∧
          config.organizations[i]? = some name ∧
          (IsBlankName name ∧ flaw = .blankName ∨
            ¬IsBlankName name ∧ (∃ j < i, config.organizations[j]? = some name) ∧
              flaw = .repeatedName name)) ∧
    ∀ name, IsBlankName name ↔ ∀ c ∈ name.toList, Text.isBlank c = true := by
  refine ⟨validate_eq_ok, fun flaw => ?_, fun name => isBlankName_iff⟩
  rw [validate_eq_error, checkNames_eq_error]
  refine or_congr_right (or_congr_right (and_congr_right' (and_congr_right' ?_)))
  refine exists_congr fun i => exists_congr fun name => ?_
  refine and_congr_right fun hleast => and_congr_right fun hname => ?_
  exact eq_ofName_iff hleast.1 hname

/-- White space makes a different name, and what is wrong later does not count. -/
example : validate { standard with organizations := ["bank", " bank", "bank", " "] } =
    .error (.repeatedName "bank") := by rfl

end AnonCred.Config

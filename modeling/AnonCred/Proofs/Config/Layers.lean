import AnonCred.Config.Layers

/-!
# An entry that the environment sets

Whatever the file of settings says, and whatever other variables there are: an entry that one
variable sets as a whole has that variable's value in the settings, unless something else is wrong
first.

* `Environment.Sets` — one variable sets an entry, and no other has to do with it
* `Config.load_cases` — what is read as settings then
-/

namespace AnonCred

/-! ## Tables on top of tables -/

namespace Value

/-- Nothing under a key but one value. -/
def Only (key : String) (value : Value) (entries : Entries) : Prop :=
  ∀ other, (key, other) ∈ entries → other = value

variable {key : String} {value : Value} {lower upper entries : Entries}

namespace Entries

theorem mem_insert {entry : String × Value} (h : entry ∈ entries.insert key value) :
    entry = (key, value) ∨ entry ∈ entries := by
  induction entries with
  | nil => exact .inl (List.mem_singleton.mp h)
  | cons first rest ih =>
    obtain ⟨other, old⟩ := first
    rw [insert] at h
    split at h
    · exact (List.mem_cons.mp h).imp_right (List.mem_cons_of_mem _)
    · split at h
      · exact List.mem_cons.mp h
      · rcases List.mem_cons.mp h with rfl | h
        · exact .inr List.mem_cons_self
        · exact (ih h).imp_right (List.mem_cons_of_mem _)

theorem mem_of_find? (h : find? key entries = some value) : (key, value) ∈ entries := by
  induction entries with
  | nil => cases h
  | cons first rest ih =>
    obtain ⟨other, old⟩ := first
    rw [find?, List.lookup_cons] at h
    split at h
    · next heq =>
      cases h
      rw [beq_iff_eq.mp heq]
      exact List.mem_cons_self
    · exact List.mem_cons_of_mem _ (ih h)

end Entries

theorem overlay_string (old : Value) (s : String) : overlay old (.string s) = .string s := by
  cases old <;> rfl

section

variable (hleaf : ∀ old, overlay old value = value)

include hleaf

theorem merged_eq (lower : Entries) :
    (match lower.find? key with
      | some old => overlay old value
      | none => value) = value := by
  split
  · exact hleaf _
  · rfl

theorem only_overlayEntries (hlower : Only key value lower) (hupper : Only key value upper) :
    Only key value (overlayEntries lower upper) := by
  induction upper generalizing lower with
  | nil =>
    rw [overlayEntries]
    exact hlower
  | cons entry rest ih =>
    obtain ⟨other, given⟩ := entry
    rw [overlayEntries]
    refine ih (fun found hfound => ?_) fun found hfound =>
      hupper found (List.mem_cons_of_mem _ hfound)
    rcases Entries.mem_insert hfound with heq | hmem
    · obtain ⟨rfl, rfl⟩ := Prod.mk.inj heq
      obtain rfl := hupper given List.mem_cons_self
      exact merged_eq hleaf lower
    · exact hlower found hmem

/-- A value that is no table comes out of the layers as it went in. -/
theorem find?_overlayEntries (hupper : Only key value upper)
    (h : (key, value) ∈ upper ∨ lower.find? key = some value) :
    (overlayEntries lower upper).find? key = some value := by
  induction upper generalizing lower with
  | nil =>
    rw [overlayEntries]
    exact h.resolve_left List.not_mem_nil
  | cons entry rest ih =>
    obtain ⟨other, given⟩ := entry
    rw [overlayEntries]
    refine ih (fun found hfound => hupper found (List.mem_cons_of_mem _ hfound)) ?_
    by_cases hkey : other = key
    · subst hkey
      obtain rfl := hupper given List.mem_cons_self
      rw [Entries.find?_insert_same, Option.some.injEq]
      exact .inr (merged_eq hleaf lower)
    · rw [Entries.find?_insert_other (Ne.symm hkey)]
      refine h.imp_left fun hmem => ?_
      exact (List.mem_cons.mp hmem).resolve_left fun heq => hkey (Prod.mk.inj heq).1.symm

end

end Value

/-! ## Variables -/

namespace Environment

open Value

/-- A variable sets an entry as a whole, and no other variable has to do with that entry. -/
structure Sets (environment : List (String × String)) (name key text : String) : Prop where
  isSetting : isSetting name = true
  keys : keys name = [key]
  mem : (name, text) ∈ environment
  only : ∀ other ∈ environment,
    (Environment.keys other.1).head? = some key → other = (name, text)

variable {environment : List (String × String)} {name key text : String} {value : Value}

theorem keys_ne_nil (name : String) : keys name ≠ [] := by
  rw [keys, ne_eq, List.map_eq_nil_iff]
  exact List.splitOn_ne_nil _ _

/-- A variable is about the entry that the first of its keys names, or about nothing. -/
theorem setting_eq_ok (h : setting name text = .ok value) :
    ∃ entries, value = .table entries ∧ ∀ entry ∈ entries, (keys name).head? = some entry.1 := by
  unfold setting at h
  split at h
  · obtain ⟨key, path, hkeys⟩ := List.exists_cons_of_ne_nil (keys_ne_nil name)
    rw [hkeys] at h ⊢
    rcases hread : Variable.value text with interruption | read
    · rw [hread] at h
      cases h
    · rw [hread] at h
      cases h
      refine ⟨_, rfl, fun entry hentry => ?_⟩
      rw [List.mem_singleton.mp hentry]
      rfl
  · cases h
    exact ⟨[], rfl, fun _ hentry => absurd hentry List.not_mem_nil⟩

theorem setting_eq (hsetting : isSetting name = true) (hkeys : keys name = [key])
    (hvalue : Variable.value text = .ok value) :
    setting name text = .ok (.table [(key, value)]) := by
  rw [setting, if_pos hsetting, hkeys, hvalue]
  rfl

/-- A layer with one more variable on top. -/
def put (lower : Value) (pair : String × String) : Except Interruption Value :=
  lower.overlay <$> setting pair.1 pair.2

theorem layer_eq (environment : List (String × String)) :
    layer environment = environment.foldlM put (.table []) := rfl

section

variable (hleaf : ∀ old, overlay old value = value) (hvalue : Variable.value text = .ok value)
  (hsetting : isSetting name = true) (hkeys : keys name = [key])

include hleaf hvalue hsetting hkeys

/-- One variable: the entry has its value behind the variable that sets it, and keeps it. -/
theorem put_eq_ok {other : String × String}
    (hother : (keys other.1).head? = some key → other = (name, text)) {lower : Entries}
    (hlower : Only key value lower) {upper : Value} (h : put (.table lower) other = .ok upper) :
    ∃ entries, upper = .table entries ∧ Only key value entries ∧
      (other = (name, text) ∨ Entries.find? key lower = some value →
        Entries.find? key entries = some value) := by
  rcases hread : setting other.1 other.2 with interruption | read
  · rw [put, hread] at h
    cases h
  · rw [put, hread] at h
    obtain ⟨entries, rfl, hentries⟩ := setting_eq_ok hread
    have hset (heq : other = (name, text)) : entries = [(key, value)] := by
      rw [heq, setting_eq hsetting hkeys hvalue] at hread
      cases hread
      rfl
    have honly : Only key value entries := by
      intro found hfound
      rw [hset (hother (hentries _ hfound))] at hfound
      exact (Prod.mk.inj (List.mem_singleton.mp hfound)).2
    cases h
    rw [overlay]
    refine ⟨_, rfl, only_overlayEntries hleaf hlower honly, fun hmem => ?_⟩
    refine find?_overlayEntries hleaf honly (hmem.imp_left fun heq => ?_)
    rw [hset heq]
    exact List.mem_singleton_self _

/-- All variables: the entry has its value in the end. -/
theorem foldlM_put_eq_ok
    (honly : ∀ other ∈ environment, (keys other.1).head? = some key → other = (name, text))
    {lower : Entries} (hlower : Only key value lower) {upper : Value}
    (h : environment.foldlM put (.table lower) = .ok upper) :
    ∃ entries, upper = .table entries ∧ Only key value entries ∧
      ((name, text) ∈ environment ∨ Entries.find? key lower = some value →
        Entries.find? key entries = some value) := by
  induction environment generalizing lower with
  | nil =>
    cases h
    exact ⟨lower, rfl, hlower, fun hmem => hmem.resolve_left List.not_mem_nil⟩
  | cons first rest ih =>
    obtain ⟨hfirst, hrest⟩ := List.forall_mem_cons.mp honly
    rw [List.foldlM_cons] at h
    rcases hput : put (.table lower) first with interruption | between
    · rw [hput] at h
      cases h
    · rw [hput] at h
      obtain ⟨entries, rfl, hentries, hfound⟩ :=
        put_eq_ok hleaf hvalue hsetting hkeys hfirst hlower hput
      obtain ⟨above, rfl, habove, hkept⟩ := ih hrest hentries h
      refine ⟨above, rfl, habove, fun hmem => hkept ?_⟩
      rw [List.mem_cons, or_assoc, or_left_comm] at hmem
      exact hmem.imp_right fun hmem => hfound (hmem.imp_left Eq.symm)

end

namespace Sets

/-- The variable is the one that is found under its name. -/
theorem lookup_eq (h : Sets environment name key text) : environment.lookup name = some text := by
  have hkeys : (Environment.keys name).head? = some key := by rw [h.keys, List.head?_cons]
  obtain ⟨-, -, hmem, honly⟩ := h
  induction environment with
  | nil => cases hmem
  | cons first rest ih =>
    obtain ⟨other, written⟩ := first
    obtain ⟨hfirst, hrest⟩ := List.forall_mem_cons.mp honly
    rw [List.lookup_cons]
    split
    · next heq =>
      obtain rfl := beq_iff_eq.mp heq
      rw [(Prod.mk.inj (hfirst hkeys)).2]
    · next hne =>
      refine ih ((List.mem_cons.mp hmem).resolve_left fun heq => ?_) hrest
      obtain ⟨rfl, -⟩ := Prod.mk.inj heq
      simp at hne

theorem layer_eq_ok (h : Sets environment name key text)
    (hleaf : ∀ old, overlay old value = value) (hvalue : Variable.value text = .ok value)
    {upper : Value} (hlayer : layer environment = .ok upper) :
    ∃ entries, upper = .table entries ∧ Only key value entries ∧ (key, value) ∈ entries := by
  rw [layer_eq] at hlayer
  obtain ⟨entries, rfl, honly, hfound⟩ := foldlM_put_eq_ok hleaf hvalue h.isSetting h.keys h.only
    (fun _ hmem => absurd hmem List.not_mem_nil) hlayer
  exact ⟨entries, rfl, honly, Entries.mem_of_find? (hfound (.inl h.mem))⟩

end Sets

end Environment

/-! ## Settings -/

namespace Config

open Value

variable {environment : List (String × String)} {name key text : String} {value : Value}

theorem fileLayer_cases (file : Option String) :
    fileLayer file = .error .malformed ∨ ∃ entries, fileLayer file = .ok (.table entries) := by
  unfold fileLayer
  split
  · exact .inr ⟨_, rfl⟩
  · split
    · exact .inr ⟨_, rfl⟩
    · exact .inl rfl

/-- A variable or the file cannot be read, or settings are read from a table with the entry that the
environment sets. -/
theorem load_cases (h : Environment.Sets environment name key text)
    (hleaf : ∀ old, overlay old value = value) (hvalue : Variable.value text = .ok value)
    (file : Option String) :
    (∃ interruption, load file environment = .error (.interrupted interruption)) ∨
    load file environment = .error .malformed ∨
    ∃ entries, Entries.find? key entries = some value ∧
      load file environment =
        (Decode.ofTable Decode.layeredMode entries).mapError .undecodable := by
  unfold load
  rcases hlayer : Environment.layer environment with interruption | upper
  · exact .inl ⟨interruption, rfl⟩
  · rcases fileLayer_cases file with hfile | ⟨below, hfile⟩
    · rw [hfile]
      exact .inr (.inl rfl)
    · obtain ⟨above, rfl, honly, hmem⟩ := h.layer_eq_ok hleaf hvalue hlayer
      obtain ⟨base, hbase⟩ : ∃ base, overlay standard.toValue (.table below) = .table base :=
        ⟨_, by rw [toValue, overlay]⟩
      rw [hfile]
      refine .inr (.inr ⟨overlayEntries base above,
        find?_overlayEntries hleaf honly (.inl hmem), ?_⟩)
      change (Decode.layered (overlay (overlay standard.toValue (.table below))
        (.table above))).mapError _ = _
      rw [hbase, overlay]
      rfl

end Config

end AnonCred

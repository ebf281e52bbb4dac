/-!
# Values of settings

What a file of settings, an environment variable or a document can hold. A table keeps its entries
in the order of their keys.
-/

namespace AnonCred

/-- A value before anybody knows what it is meant for. Numbers that are no integers are never
wanted, so their value is not kept. -/
inductive Value
  | null
  | bool (b : Bool)
  | int (n : Int)
  | real
  | char (c : Char)
  | string (s : String)
  | list (items : List Value)
  | table (entries : List (String × Value))
deriving Inhabited

namespace Value

/-- The entries of a table, ordered by key. -/
abbrev Entries := List (String × Value)

namespace Entries

/-- Puts a value under a key, in place of an older one. -/
def insert (key : String) (value : Value) : Entries → Entries
  | [] => [(key, value)]
  | (other, old) :: rest =>
    if key = other then (key, value) :: rest
    else if key < other then (key, value) :: (other, old) :: rest
    else (other, old) :: insert key value rest

/-- The entries of a list; of two with one key the later one counts. -/
def ofList (pairs : List (String × Value)) : Entries :=
  pairs.foldl (fun entries (key, value) => insert key value entries) []

/-- The value under a key. -/
def find? (key : String) (entries : Entries) : Option Value := entries.lookup key

theorem find?_insert_same (key : String) (value : Value) (entries : Entries) :
    find? key (insert key value entries) = some value := by
  induction entries with
  | nil => simp [find?, insert]
  | cons entry rest ih =>
    obtain ⟨other, old⟩ := entry
    unfold insert
    by_cases heq : key = other
    · simp [find?, heq]
    · rw [if_neg heq]
      split
      · simp [find?]
      · rw [find?, List.lookup_cons, beq_false_of_ne heq]
        exact ih

/-- The other keys keep their values. -/
theorem find?_insert_other {key other : String} (h : other ≠ key) (value : Value)
    (entries : Entries) : find? other (insert key value entries) = find? other entries := by
  have hother := beq_false_of_ne h
  induction entries with
  | nil => rw [insert, find?, List.lookup_cons, hother]; rfl
  | cons entry rest ih =>
    obtain ⟨first, old⟩ := entry
    unfold insert
    by_cases heq : key = first
    · subst heq
      simp only [if_pos, find?, List.lookup_cons, hother]
    · rw [if_neg heq]
      split
      · simp only [find?, List.lookup_cons, hother]
      · simp only [find?, List.lookup_cons] at ih ⊢
        rw [ih]

end Entries

mutual

/-- One layer on top of another: tables are merged key by key, anything else is replaced. -/
def overlay : Value → Value → Value
  | .table lower, .table upper => .table (overlayEntries lower upper)
  | _, upper => upper

/-- The entries of a table on top of those of another. -/
def overlayEntries (lower : Entries) : Entries → Entries
  | [] => lower
  | (key, value) :: rest =>
    let merged :=
      match lower.find? key with
      | some old => overlay old value
      | none => value
    overlayEntries (lower.insert key merged) rest

end

end Value

end AnonCred

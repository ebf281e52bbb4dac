import AnonCred.Config.Value

/-!
# Tables that stand for a value

A file of settings can give a value in the long form: a table with the value under a key of its own,
where a mark may go with it. Such a table is the value, whatever else it holds. No file can hold a
mark, so one that tries is no file of settings.

The file itself is a table in any case.
-/

namespace AnonCred.Value

/-- The key of the value that a table stands for. -/
def valueKey : String := "___figment_value_value"

/-- The key of the mark that goes with such a value. -/
def markKey : String := "___figment_value_id"

mutual

/-- A value in which each table that stands for a value is that value. -/
def resolve : Value → Option Value
  | .table entries => do
    let entries ← resolveEntries entries
    match entries.find? markKey with
    | some _ => none
    | none => pure ((entries.find? valueKey).getD (.table entries))
  | .list items => .list <$> resolveItems items
  | value => some value

def resolveEntries : List (String × Value) → Option Entries
  | [] => some []
  | (key, value) :: rest => do
    let value ← resolve value
    let rest ← resolveEntries rest
    pure ((key, value) :: rest)

def resolveItems : List Value → Option (List Value)
  | [] => some []
  | value :: rest => do
    let value ← resolve value
    let rest ← resolveItems rest
    pure (value :: rest)

end

end AnonCred.Value

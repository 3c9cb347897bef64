/-!
# Tables

Finite maps as lists of entries in key order. Keeping the order makes two tables with the same entries the
same list, whatever the order in which the entries came in.
-/

namespace GraphQuery

/-- A strict order in which keys are kept. -/
class KeyOrder (κ : Type) where
  /-- Whether the first key stands before the second. -/
  before : κ → κ → Bool

namespace Text

/-- The order of texts by their code points. -/
def before : List Char → List Char → Bool
  | _, [] => false
  | [], _ :: _ => true
  | a :: as, b :: bs => if a = b then before as bs else Nat.blt a.toNat b.toNat

end Text

instance : KeyOrder String := ⟨fun a b => Text.before a.toList b.toList⟩

/-- A finite map from `κ` to `α`. -/
abbrev Table (κ α : Type) := List (κ × α)

namespace Table

variable {κ α : Type}

/-- The value at a key. -/
def find? [DecidableEq κ] (key : κ) : Table κ α → Option α
  | [] => none
  | (k, v) :: rest => if key = k then some v else find? key rest

/-- Sets the value at a key, in place of the one that was there. -/
def insert [DecidableEq κ] [KeyOrder κ] (key : κ) (value : α) : Table κ α → Table κ α
  | [] => [(key, value)]
  | (k, v) :: rest =>
    if key = k then (key, value) :: rest
    else if KeyOrder.before key k then (key, value) :: (k, v) :: rest
    else (k, v) :: insert key value rest

/-- A table with the given entries; of two with one key the later counts. -/
def ofList [DecidableEq κ] [KeyOrder κ] (entries : List (κ × α)) : Table κ α :=
  entries.foldl (fun table (k, v) => insert k v table) []

@[simp] theorem find?_nil [DecidableEq κ] (key : κ) : find? key ([] : Table κ α) = none := rfl

/-- After `insert` the key has the new value. -/
@[simp] theorem find?_insert_self [DecidableEq κ] [KeyOrder κ] (key : κ) (value : α)
    (t : Table κ α) : find? key (insert key value t) = some value := by
  induction t with
  | nil => simp [insert, find?]
  | cons entry rest ih =>
    by_cases h : key = entry.1
    · simp [insert, find?, h]
    · by_cases hb : KeyOrder.before key entry.1 <;> simp [insert, find?, h, hb, ih]

/-- `insert` keeps the value at every other key. -/
theorem find?_insert_of_ne [DecidableEq κ] [KeyOrder κ] {key other : κ} (value : α)
    (t : Table κ α) (h : other ≠ key) : find? other (insert key value t) = find? other t := by
  induction t with
  | nil => simp [insert, find?, h]
  | cons entry rest ih =>
    by_cases hk : key = entry.1
    · subst hk; simp [insert, find?, h]
    · by_cases hb : KeyOrder.before key entry.1 <;> simp [insert, find?, hk, hb, h, ih]

end Table

end GraphQuery

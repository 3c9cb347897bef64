import GraphQuery.Proofs.OutputNames
import Mathlib.Logic.Relation

/-!
# The search for an output name

An output name is looked for turn by turn. A taken name gives way to the base name with the next number behind it, and
the first name that is not taken is chosen. Nothing gets smaller from turn to turn, and taken names may look like the
base name with a number themselves. The search ends all the same: its names are different, so each taken name ends at
most one turn (`NameSearch.ends_freshName`).
-/

namespace GraphQuery

/-- Where a search stands: the name that it looks at, and the number that it tries next. -/
structure NameSearch where
  name : String
  next : Nat

namespace NameSearch

variable {taken : List String} {base : String}

def start (base : String) : NameSearch :=
  ⟨base, 0⟩

/-- One turn of the search, which ends at a name that is not taken. -/
def step? (taken : List String) (base : String) (s : NameSearch) : Option NameSearch :=
  if s.name ∈ taken then some ⟨base ++ toString s.next, s.next + 1⟩ else none

def Turn (taken : List String) (base : String) (s t : NameSearch) : Prop :=
  step? taken base s = some t

/-- The search goes from its start to a state, and ends there. -/
structure Ends (taken : List String) (base : String) (s : NameSearch) : Prop where
  run : Relation.ReflTransGen (Turn taken base) (start base) s
  stops : step? taken base s = none

theorem turn_of_taken {s : NameSearch} (h : s.name ∈ taken) :
    Turn taken base s ⟨base ++ toString s.next, s.next + 1⟩ :=
  if_pos h

theorem stops_of_free {s : NameSearch} (h : s.name ∉ taken) : step? taken base s = none :=
  if_neg h

/-- The search goes on to a number if the base name and all smaller numbers give taken names. -/
theorem run_to_number (hbase : base ∈ taken) :
    ∀ n : Nat, (∀ m < n, base ++ toString m ∈ taken) →
      Relation.ReflTransGen (Turn taken base) (start base) ⟨base ++ toString n, n + 1⟩ := by
  intro n
  induction n with
  | zero =>
    intro _
    exact .single (turn_of_taken (s := start base) hbase)
  | succ n ih =>
    intro hsmaller
    have hrun := ih fun m hm => hsmaller m (by omega)
    have hlast : base ++ toString n ∈ taken := hsmaller n (by omega)
    exact hrun.tail (turn_of_taken (s := ⟨base ++ toString n, n + 1⟩) hlast)

/-- The search ends at the fresh name, after at most one turn for each taken name. -/
theorem ends_freshName (taken : List String) (base : String) :
    ∃ turns ≤ taken.length, Ends taken base ⟨freshName taken base, turns⟩ := by
  rcases freshName_spec taken base with ⟨hfree, hname⟩ | ⟨hbase, n, hn, hname, hfree, hsmaller⟩
  · rw [hname]
    exact ⟨0, Nat.zero_le _, .refl, stops_of_free hfree⟩
  · rw [hname]
    exact ⟨n + 1, hn, run_to_number hbase n hsmaller, stops_of_free hfree⟩

end NameSearch

namespace Read

theorem length_takenNames_le (r : Read) (e : Expr) : (r.takenNames e).length ≤ (r.otherItems e).length :=
  List.length_filterMap_le _ _

/-- The search for the name of an expression ends. It chooses the base name if no other item has it, and otherwise the
base name with the least number behind it that no other item has; that number is smaller than the number of other
items. The expression is put under exactly this name, unless its own differs from it in the case of letters only. -/
theorem nameUniquely_chooses (r : Read) (e : Expr) (hint : Option String) :
    let base := (hint.or e.outputName).getD r.aliasPrefix
    let taken := r.takenNames e
    ∃ name turns, NameSearch.Ends taken base ⟨name, turns⟩ ∧ turns ≤ (r.otherItems e).length ∧
      ((base ∉ taken ∧ name = base) ∨
        (base ∈ taken ∧ ∃ n < (r.otherItems e).length, name = base ++ toString n ∧ base ++ toString n ∉ taken ∧
          ∀ m < n, base ++ toString m ∈ taken)) ∧
      (((r.nameUniquely e hint).1 = .aliased (some name) e.unaliased ∧
          ∀ own, e.outputName = some own → Text.sameLetters own name = false) ∨
        ((r.nameUniquely e hint).1 = e ∧ ∃ own, e.outputName = some own ∧ Text.sameLetters own name = true)) := by
  intro base taken
  have hlength : taken.length ≤ (r.otherItems e).length := r.length_takenNames_le e
  have hnamed : (r.nameUniquely e hint).1 = e.withName (freshName taken base) := r.nameUniquely_named e hint
  obtain ⟨turns, hturns, hends⟩ := NameSearch.ends_freshName taken base
  refine ⟨freshName taken base, turns, hends, by omega, ?_, ?_⟩
  · rcases freshName_spec taken base with hfree | ⟨hbase, n, hn, hname, hfree, hsmaller⟩
    · exact .inl hfree
    · exact .inr ⟨hbase, n, by omega, hname, hfree, hsmaller⟩
  · rw [hnamed]
    exact e.withName_eq (freshName taken base)

/-- Taken names that look like the base name with a number are passed over one by one, in whatever order they stand. -/
example : freshName ["Name1", "Name", "Name3", "Name0", "Name00"] "Name" = "Name2" := by
  decide +kernel

end Read

end GraphQuery

import GraphQuery.Proofs.OutputNames
import GraphQuery.Proofs.StructuralEquality
import Mathlib.Data.List.Infix

/-!
# Return items under changes

A read is told one change after another what to return. No two of its items are ever equal, since an item is only added
when nothing equals it, and is only renamed to itself or to a name that no other item has. Without their names the
items only grow at the end: naming replaces an item by an expression that equals it up to the name. So an expression
keeps its place, and to add it again changes nothing.
-/

namespace GraphQuery

/-- A change of what a read returns. -/
inductive ItemChange where
  | add (e : Expr) (resetStar : Bool)
  | name (e : Expr) (hint : Option String)
  | nameMember (key : MemberName) (e : Expr)
  | truncate (count : Nat)

namespace Expr

variable {a b : Expr}

theorem unaliased_beq (h : (a == b) = true) : (a.unaliased == b.unaliased) = true := by
  cases a with
  | aliased n e =>
    cases b with
    | aliased n' e' =>
      have hparts : (n == n' && e.beq e') = true := h
      exact (Bool.and_eq_true_iff.1 hparts).2
    | _ => cases h
  | _ =>
    cases b with
    | aliased _ _ => cases h
    | _ => exact h

/-- An expression without a name is found under any name. -/
theorem returns_eq (item : Expr) (h : b.kind ≠ .aliased) : item.returns b = (item.unaliased == b) := by
  cases item with
  | aliased n e =>
    have hkind : (Expr.aliased n e == b) = false := by
      cases b with
      | aliased _ _ => exact absurd rfl h
      | _ => rfl
    rw [returns, hkind]
    rfl
  | _ => exact Bool.or_false _

theorem withoutWidening_nanFree (h : NaNFree a.nodes) : NaNFree a.withoutWidening.nodes := by
  unfold withoutWidening
  split
  · split
    · rw [nodes, nanFree_cons] at h
      exact h.2
    · exact h
  · exact h

end Expr

namespace Read

def change (r : Read) : ItemChange → Read
  | .add e resetStar => (r.addItem e resetStar).2
  | .name e hint => (r.nameUniquely e hint).2
  | .nameMember key e => (r.nameMember key e).2
  | .truncate count => r.truncateItems count

def changes (r : Read) (cs : List ItemChange) : Read :=
  cs.foldl change r

/-- An expression that is returned already is found in its place. Any other is appended. -/
theorem addItem_cases (r : Read) (e : Expr) (resetStar : Bool) :
    (∃ i, r.items.findIdx? (·.returns e.withoutWidening) = some i ∧ r.addItem e resetStar = (i, r)) ∨
      (r.items.findIdx? (·.returns e.withoutWidening) = none ∧ r.addItem e resetStar = (r.items.length,
        { r with items := r.items ++ [e.withoutWidening], star := r.star && !resetStar })) := by
  cases hfind : r.items.findIdx? (·.returns e.withoutWidening) with
  | some i => exact Or.inl ⟨i, rfl, by simp only [addItem, hfind]⟩
  | none => exact Or.inr ⟨rfl, by simp only [addItem, hfind]⟩

/-! ## Distinct items -/

variable {r : Read}

/-- No two items are equal. -/
def Distinct (r : Read) : Prop :=
  r.items.Pairwise fun a b => (a == b) = false

theorem addItem_distinct (h : r.Distinct) (e : Expr) (resetStar : Bool) : (r.addItem e resetStar).2.Distinct := by
  rcases r.addItem_cases e resetStar with ⟨i, -, heq⟩ | ⟨hnone, heq⟩
  · rwa [heq]
  · rw [heq]
    refine List.pairwise_append.2 ⟨h, List.pairwise_singleton _ _, ?_⟩
    intro item hitem new hnew
    cases List.mem_singleton.1 hnew
    have hreturns := List.findIdx?_eq_none_iff.1 hnone item hitem
    exact (Bool.or_eq_false_iff.1 hreturns).1

theorem nameUniquely_distinct (h : r.Distinct) (e : Expr) (hint : Option String) :
    (r.nameUniquely e hint).2.Distinct := by
  have hsymm {a b : Expr} (hab : (a == b) = false) : (b == a) = false := by
    rwa [Expr.beq_comm]
  rcases r.nameUniquely_cases e hint with hsame | ⟨before, item, after, named, hitems, hbeq, hread, hnamed⟩
  · rwa [hsame]
  · rw [Distinct, hitems, List.pairwise_middle hsymm, List.pairwise_cons] at h
    rw [hread, Distinct, List.pairwise_middle hsymm, List.pairwise_cons]
    refine ⟨fun other hother => ?_, h.2⟩
    rcases hnamed with rfl | ⟨name, hfresh, rfl⟩
    · rw [← Expr.beq_congr_left hbeq]
      exact h.1 other hother
    · -- An equal item would have the new name as its own.
      by_contra hequal
      have hname := Expr.explicitName_eq_of_beq (Bool.not_eq_false _ ▸ hequal)
      exact hfresh (List.mem_filterMap.2 ⟨other, hother, Expr.outputName_of_explicitName hname.symm⟩)

theorem change_distinct (h : r.Distinct) (c : ItemChange) : (r.change c).Distinct := by
  cases c with
  | add e resetStar => exact addItem_distinct h e resetStar
  | name e hint => exact nameUniquely_distinct h e hint
  | nameMember key e => exact nameUniquely_distinct h e (some key.name)
  | truncate count => exact h.sublist (List.take_sublist _ _)

theorem changes_distinct (h : r.Distinct) (cs : List ItemChange) : (r.changes cs).Distinct := by
  induction cs generalizing r with
  | nil => exact h
  | cons c cs ih => exact ih (change_distinct h c)

/-- Whatever is added, named and cut off, in any order: no two of the items that are then returned are equal, in either
direction. -/
theorem changed_items_differ (aliasPrefix : String) (cs : List ItemChange) :
    ((Read.empty aliasPrefix).changes cs).items.Pairwise fun a b => (a == b) = false ∧ (b == a) = false := by
  have hempty : (Read.empty aliasPrefix).Distinct := List.Pairwise.nil
  refine (changes_distinct hempty cs).imp fun h => ⟨h, ?_⟩
  rwa [Expr.beq_comm]

/-! ## Places of items -/

theorem addItem_found {e : Expr} (h : NaNFree e.nodes) (resetStar : Bool) :
    (r.addItem e resetStar).2.items.findIdx? (·.returns e.withoutWidening) = some (r.addItem e resetStar).1 := by
  rcases r.addItem_cases e resetStar with ⟨i, hfind, heq⟩ | ⟨hnone, heq⟩
  · rw [heq]
    exact hfind
  · have hself : e.withoutWidening.returns e.withoutWidening = true := by
      rw [Expr.returns, (Expr.beq_self_iff _).2 (Expr.withoutWidening_nanFree h), Bool.true_or]
    rw [heq, List.findIdx?_append, hnone]
    simp [hself]

theorem addItem_of_found {e : Expr} {i : Nat} (h : r.items.findIdx? (·.returns e.withoutWidening) = some i)
    (resetStar : Bool) : r.addItem e resetStar = (i, r) := by
  simp only [addItem, h]

section

variable {e : Expr} (he : e.kind ≠ .aliased)

include he

theorem nameUniquely_returns (named : Expr) (hint : Option String) :
    (r.nameUniquely named hint).2.items.map (·.returns e) = r.items.map (·.returns e) := by
  rcases r.nameUniquely_cases named hint with hsame | ⟨before, item, after, new, hitems, hbeq, hread, hnew⟩
  · rw [hsame]
  · have hbare : new.unaliased = named.unaliased := by
      rcases hnew with rfl | ⟨name, -, rfl⟩
      · rfl
      · rfl
    have hreturns : new.returns e = item.returns e := by
      rw [Expr.returns_eq new he, Expr.returns_eq item he, hbare, Expr.beq_congr_left (Expr.unaliased_beq hbeq)]
    rw [hread, hitems]
    simp only [List.map_append, List.map_cons, hreturns]

/-- Only cutting items off takes an expression from its place. -/
theorem change_returns {c : ItemChange} (hc : ∀ count, c ≠ .truncate count) :
    r.items.map (·.returns e) <+: (r.change c).items.map (·.returns e) := by
  cases c with
  | add new resetStar =>
    change _ <+: (r.addItem new resetStar).2.items.map (·.returns e)
    rcases r.addItem_cases new resetStar with ⟨i, -, heq⟩ | ⟨-, heq⟩
    · rw [heq]
    · rw [heq]
      exact (List.prefix_append _ _).map _
  | name new hint => exact (nameUniquely_returns he new hint).symm ▸ List.prefix_rfl
  | nameMember key new => exact (nameUniquely_returns he new (some key.name)).symm ▸ List.prefix_rfl
  | truncate count => exact absurd rfl (hc count)

theorem changes_returns {cs : List ItemChange} (hcs : ∀ count, .truncate count ∉ cs) :
    r.items.map (·.returns e) <+: (r.changes cs).items.map (·.returns e) := by
  induction cs generalizing r with
  | nil => exact List.prefix_rfl
  | cons c cs ih =>
    have hc : ∀ count, c ≠ .truncate count := fun count heq => hcs count (heq ▸ List.mem_cons_self)
    exact (change_returns he hc).trans (ih fun count hmem => hcs count (List.mem_cons_of_mem _ hmem))

end

/-- An expression without a NaN that has no name keeps its place, whatever is added and named behind it: to add it again
gives the place it had and changes nothing. -/
theorem addItem_again (r : Read) {e : Expr} (hnan : NaNFree e.nodes) (hkind : e.withoutWidening.kind ≠ .aliased)
    (resetStar resetStar' : Bool) {cs : List ItemChange} (hcs : ∀ count, .truncate count ∉ cs) :
    ((r.addItem e resetStar).2.changes cs).addItem e resetStar' =
      ((r.addItem e resetStar).1, (r.addItem e resetStar).2.changes cs) := by
  apply addItem_of_found
  have hfound := addItem_found (r := r) hnan resetStar
  have hplaces := changes_returns (r := (r.addItem e resetStar).2) hkind hcs
  have hstays := hplaces.findIdx?_eq_some (p := id) (i := (r.addItem e resetStar).1)
  simp only [List.findIdx?_map, Function.id_comp] at hstays
  exact hstays hfound

def rowNumber : Expr := .parameter "row" .int32

def shelfSize : Expr := .parameter "size" .int32

/-- Names both items, adds one of them under another name, and names it once more by a name that is taken. -/
def renamings : List ItemChange :=
  [.name rowNumber none, .nameMember ⟨"Shelf", "Size"⟩ shelfSize, .add (.aliased (some "Other") shelfSize) true,
    .name (.aliased (some "Size") shelfSize) (some "s")]

theorem addItem_again_of_renamed :
    let r := ((Read.empty "s").addItem rowNumber true).2
    let e := Expr.convert shelfSize (.nullable .int32)
    let renamed := (r.addItem e true).2.changes renamings
    renamed.items.map Expr.outputName = [some "s", some "s0", some "Other"] ∧
      renamed.addItem e true = (1, renamed) := by
  refine ⟨by decide +kernel, ?_⟩
  refine addItem_again _ (e := .convert shelfSize (.nullable .int32)) ?_ ?_ true true ?_
  · simp [shelfSize, Expr.nodes, Expr.isNaN]
  · rintro ⟨⟩
  · simp [renamings]

end Read

end GraphQuery

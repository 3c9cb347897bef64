import GraphQuery.Proofs.ReturnItems
import GraphQuery.Proofs.Tables

/-!
# Returned values under changes

To name an item takes it out of the list and puts it back under another name, perhaps in place of the name it had. What
it returns stays the same, and so does its place. A read that only gains and names items therefore never loses a
value: every item keeps its place and its expression up to the name (`Read.KeepsItems`), and what is remembered for a
member is always returned by some item (`Read.Settled`).

Both rest on structural equality being reflexive where no NaN occurs, and transitive.
-/

namespace GraphQuery

instance (es : List Expr) : Decidable (NaNFree es) :=
  inferInstanceAs (Decidable (∀ e ∈ es, e.isNaN = false))

namespace Expr

variable {e : Expr}

/-- A name changes nothing about what is returned. -/
theorem unaliased_withName (e : Expr) (name : String) : (e.withName name).unaliased = e.unaliased := by
  rcases e.withName_cases name with h | h
  · rw [h]
  · rw [h]
    rfl

theorem unaliased_nanFree (h : NaNFree e.nodes) : NaNFree e.unaliased.nodes := by
  cases e with
  | aliased n e =>
    rw [nodes, nanFree_cons] at h
    exact h.2
  | _ => exact h

theorem withName_nanFree (h : NaNFree e.nodes) (name : String) : NaNFree (e.withName name).nodes := by
  rcases e.withName_cases name with hname | hname
  · rwa [hname]
  · rw [hname, nodes, nanFree_cons]
    exact ⟨rfl, unaliased_nanFree h⟩

end Expr

namespace Read

variable {r r' r'' : Read}

/-! ## Changes that keep values -/

/-- Whether a read takes a change: what is added or named holds no NaN, only a return item is named after a member, and
nothing is cut off. -/
def Accepts (r : Read) : ItemChange → Prop
  | .add e _ => NaNFree e.nodes
  | .name e _ => NaNFree e.nodes
  | .nameMember _ e => NaNFree e.nodes ∧ ∃ item ∈ r.items, (item == e) = true
  | .truncate _ => False

instance (r : Read) : DecidablePred r.Accepts
  | .add e _ => inferInstanceAs (Decidable (NaNFree e.nodes))
  | .name e _ => inferInstanceAs (Decidable (NaNFree e.nodes))
  | .nameMember _ e => inferInstanceAs (Decidable (NaNFree e.nodes ∧ ∃ item ∈ r.items, (item == e) = true))
  | .truncate _ => inferInstanceAs (Decidable False)

/-- Whether each change is taken by the read to which the changes in front of it lead. -/
def AcceptsAll (r : Read) : List ItemChange → Prop
  | [] => True
  | c :: cs => r.Accepts c ∧ (r.change c).AcceptsAll cs

instance AcceptsAll.decidable : ∀ (r : Read) (cs : List ItemChange), Decidable (r.AcceptsAll cs)
  | _, [] => inferInstanceAs (Decidable True)
  | r, c :: cs =>
    have := AcceptsAll.decidable (r.change c) cs
    inferInstanceAs (Decidable (r.Accepts c ∧ (r.change c).AcceptsAll cs))

theorem acceptsAll_append {cs cs' : List ItemChange} :
    r.AcceptsAll (cs ++ cs') ↔ r.AcceptsAll cs ∧ (r.changes cs).AcceptsAll cs' := by
  induction cs generalizing r with
  | nil => exact (and_iff_right trivial).symm
  | cons c cs ih => exact (and_congr_right fun _ => ih).trans and_assoc.symm

/-! ## Kept items -/

/-- Every item of the first read is returned by the second one in the same place, up to its name. -/
def KeepsItems (r r' : Read) : Prop :=
  ∀ (i : Nat) (item : Expr), r.items[i]? = some item →
    ∃ item', r'.items[i]? = some item' ∧ (item.unaliased == item'.unaliased) = true

theorem KeepsItems.trans (h : r.KeepsItems r') (h' : r'.KeepsItems r'') : r.KeepsItems r'' := by
  intro i item hitem
  obtain ⟨item', hitem', hequal⟩ := h i item hitem
  obtain ⟨item'', hitem'', hequal'⟩ := h' i item' hitem'
  exact ⟨item'', hitem'', Expr.beq_trans hequal hequal'⟩

/-- What a read keeps of its items, and of what it remembers for members. -/
structure Settled (r : Read) : Prop where
  nanFree : ∀ item ∈ r.items, NaNFree item.nodes
  members : ∀ entry ∈ r.projections, ∃ item ∈ r.items, (entry.2 == item.unaliased) = true

theorem unaliased_beq_self (h : ∀ item ∈ r.items, NaNFree item.nodes) {i : Nat} {item : Expr}
    (hitem : r.items[i]? = some item) : (item.unaliased == item.unaliased) = true := by
  apply (Expr.beq_self_iff _).2
  apply Expr.unaliased_nanFree
  exact h item (List.mem_of_getElem? hitem)

theorem Settled.keepsItems_self (h : r.Settled) : r.KeepsItems r :=
  fun _ item hitem => ⟨item, hitem, unaliased_beq_self h.nanFree hitem⟩

/-- What is remembered for members is still returned when the items are kept. -/
theorem Settled.members_of_keepsItems (h : r.Settled) (hkeeps : r.KeepsItems r') :
    ∀ entry ∈ r.projections, ∃ item ∈ r'.items, (entry.2 == item.unaliased) = true := by
  intro entry hentry
  obtain ⟨item, hitem, hequal⟩ := h.members entry hentry
  obtain ⟨i, hi⟩ := List.getElem?_of_mem hitem
  obtain ⟨item', hitem', hequal'⟩ := hkeeps i item hi
  exact ⟨item', List.mem_of_getElem? hitem', Expr.beq_trans hequal hequal'⟩

/-! ## One change -/

theorem addItem_keeps (h : r.Settled) {e : Expr} (he : NaNFree e.nodes) (resetStar : Bool) :
    (r.addItem e resetStar).2.Settled ∧ r.KeepsItems (r.addItem e resetStar).2 := by
  rcases r.addItem_cases e resetStar with ⟨i, -, heq⟩ | ⟨-, heq⟩
  · rw [heq]
    exact ⟨h, h.keepsItems_self⟩
  · rw [heq]
    have hkeeps : r.KeepsItems { r with items := r.items ++ [e.withoutWidening], star := r.star && !resetStar } := by
      intro i item hitem
      refine ⟨item, ?_, unaliased_beq_self h.nanFree hitem⟩
      exact List.getElem?_append_left (List.getElem?_eq_some_iff.1 hitem).1 ▸ hitem
    refine ⟨⟨?_, h.members_of_keepsItems hkeeps⟩, hkeeps⟩
    intro item hitem
    rcases List.mem_append.1 hitem with hold | hnew
    · exact h.nanFree item hold
    · cases List.mem_singleton.1 hnew
      exact Expr.withoutWidening_nanFree he

/-- Naming changes nothing if no item equals the expression. Otherwise the named expression is set in the place of one
that does. -/
theorem nameUniquely_places (r : Read) (e : Expr) (hint : Option String) :
    ((∀ item ∈ r.items, (item == e) = false) ∧ (r.nameUniquely e hint).2 = r) ∨
      ∃ i item, r.items[i]? = some item ∧ (item == e) = true ∧
        (r.nameUniquely e hint).2 = { r with items := r.items.set i (r.nameUniquely e hint).1 } := by
  unfold nameUniquely
  cases hidx : r.items.findIdx? fun item => item == e with
  | none => exact .inl ⟨List.findIdx?_eq_none_iff.1 hidx, rfl⟩
  | some i =>
    obtain ⟨hlt, hbeq, -⟩ := List.findIdx?_eq_some_iff_getElem.1 hidx
    exact .inr ⟨i, r.items[i], List.getElem?_eq_getElem hlt, hbeq, rfl⟩

theorem nameUniquely_keeps (h : r.Settled) {e : Expr} (he : NaNFree e.nodes) (hint : Option String) :
    (r.nameUniquely e hint).2.Settled ∧ r.KeepsItems (r.nameUniquely e hint).2 := by
  rcases r.nameUniquely_places e hint with ⟨-, heq⟩ | ⟨i, item, hitem, hbeq, heq⟩
  · rw [heq]
    exact ⟨h, h.keepsItems_self⟩
  · rw [heq, nameUniquely_named]
    generalize freshName (r.takenNames e) (r.baseName e hint) = name
    have hlt : i < r.items.length := (List.getElem?_eq_some_iff.1 hitem).1
    have hkeeps : r.KeepsItems { r with items := r.items.set i (e.withName name) } := by
      intro j other hother
      by_cases hij : i = j
      · subst hij
        cases hitem.symm.trans hother
        refine ⟨e.withName name, List.getElem?_set_self hlt, ?_⟩
        rw [Expr.unaliased_withName]
        exact Expr.unaliased_beq hbeq
      · exact ⟨other, (List.getElem?_set_ne hij).trans hother, unaliased_beq_self h.nanFree hother⟩
    refine ⟨⟨?_, h.members_of_keepsItems hkeeps⟩, hkeeps⟩
    intro other hother
    rcases List.mem_or_eq_of_mem_set hother with hold | rfl
    · exact h.nanFree other hold
    · exact Expr.withName_nanFree he name

/-- An item that is named is returned under its new name. -/
theorem nameUniquely_mem {e : Expr} (h : ∃ item ∈ r.items, (item == e) = true) (hint : Option String) :
    (r.nameUniquely e hint).1 ∈ (r.nameUniquely e hint).2.items := by
  rcases r.nameUniquely_places e hint with ⟨hnone, -⟩ | ⟨i, item, hitem, -, heq⟩
  · obtain ⟨item, hitem, hbeq⟩ := h
    rw [hnone item hitem] at hbeq
    cases hbeq
  · rw [heq]
    exact List.mem_set (List.getElem?_eq_some_iff.1 hitem).1 _

theorem nameMember_keeps (h : r.Settled) {e : Expr} (he : NaNFree e.nodes)
    (hitem : ∃ item ∈ r.items, (item == e) = true) (key : MemberName) :
    (r.nameMember key e).2.Settled ∧ r.KeepsItems (r.nameMember key e).2 := by
  obtain ⟨hsettled, hkeeps⟩ := nameUniquely_keeps h he (some key.name)
  have hmem := nameUniquely_mem hitem (some key.name)
  refine ⟨⟨hsettled.nanFree, ?_⟩, hkeeps⟩
  intro entry hentry
  rcases Table.mem_insert hentry with rfl | hold
  · refine ⟨_, hmem, ?_⟩
    exact (Expr.beq_self_iff _).2 (Expr.unaliased_nanFree (hsettled.nanFree _ hmem))
  · exact hsettled.members entry hold

theorem change_keeps (h : r.Settled) {c : ItemChange} (hc : r.Accepts c) :
    (r.change c).Settled ∧ r.KeepsItems (r.change c) := by
  cases c with
  | add e resetStar => exact addItem_keeps h hc resetStar
  | name e hint => exact nameUniquely_keeps h hc hint
  | nameMember key e => exact nameMember_keeps h hc.1 hc.2 key
  | truncate count => exact hc.elim

/-! ## Any number of changes -/

theorem changes_keep {cs : List ItemChange} (h : r.Settled) (hcs : r.AcceptsAll cs) :
    (r.changes cs).Settled ∧ r.KeepsItems (r.changes cs) := by
  induction cs generalizing r with
  | nil => exact ⟨h, h.keepsItems_self⟩
  | cons c cs ih =>
    obtain ⟨hc, hcs⟩ := hcs
    obtain ⟨hsettled, hkeeps⟩ := change_keeps h hc
    obtain ⟨hend, hrest⟩ := ih hsettled hcs
    exact ⟨hend, hkeeps.trans hrest⟩

theorem empty_settled (aliasPrefix : String) : (Read.empty aliasPrefix).Settled :=
  ⟨List.forall_mem_nil _, List.forall_mem_nil _⟩

/-- A read that starts empty keeps the values that it returns. At any time each item stands where it stood at any time
before, up to its name, and what is remembered for a member is what some item returns. -/
theorem changes_keep_values (aliasPrefix : String) {cs later : List ItemChange}
    (h : (Read.empty aliasPrefix).AcceptsAll (cs ++ later)) :
    ((Read.empty aliasPrefix).changes cs).KeepsItems ((Read.empty aliasPrefix).changes (cs ++ later)) ∧
      ∀ entry ∈ ((Read.empty aliasPrefix).changes (cs ++ later)).projections,
        ∃ item ∈ ((Read.empty aliasPrefix).changes (cs ++ later)).items, (entry.2 == item.unaliased) = true := by
  obtain ⟨hcs, hlater⟩ := acceptsAll_append.1 h
  have hsettled := (changes_keep (empty_settled aliasPrefix) hcs).1
  obtain ⟨hend, hkeeps⟩ := changes_keep hsettled hlater
  have happend : (Read.empty aliasPrefix).changes (cs ++ later) = ((Read.empty aliasPrefix).changes cs).changes later :=
    List.foldl_append
  rw [happend]
  exact ⟨hkeeps, hend.members⟩

def shelfAdditions : List ItemChange :=
  [.add rowNumber true, .add (.convert shelfSize (.nullable .int32)) true]

/-- Names one item after two members in turn, and then one that is a conversion of the item under its second name. -/
def shelfNamings : List ItemChange :=
  let extent := Expr.convert (.aliased (some "Extent") shelfSize) .int64
  [.name rowNumber none, .nameMember ⟨"Shelf", "Size"⟩ shelfSize,
    .nameMember ⟨"Shelf", "Extent"⟩ (.aliased (some "Size") shelfSize), .add extent true, .name extent (some "Extent")]

theorem changes_keep_values_of_shelves :
    let r := (Read.empty "s").changes shelfAdditions
    let r' := (Read.empty "s").changes (shelfAdditions ++ shelfNamings)
    (Read.empty "s").AcceptsAll (shelfAdditions ++ shelfNamings) ∧ r'.projections.length = 2 ∧
      r.items.map Expr.outputName = [none, none] ∧
      r'.items.map Expr.outputName = [some "s", some "Extent", some "Extent0"] ∧
      r.KeepsItems r' ∧ ∀ entry ∈ r'.projections, ∃ item ∈ r'.items, (entry.2 == item.unaliased) = true := by
  have haccepts : (Read.empty "s").AcceptsAll (shelfAdditions ++ shelfNamings) := by decide +kernel
  exact ⟨haccepts, by decide +kernel, by decide +kernel, by decide +kernel, changes_keep_values "s" haccepts⟩

end Read

end GraphQuery

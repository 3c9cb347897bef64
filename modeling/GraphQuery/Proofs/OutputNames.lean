import GraphQuery.Read.WellFormed
import GraphQuery.Read.Items
import Mathlib.Data.List.InsertIdx
import Mathlib.Data.List.Nodup

/-!
# Output names

The search for an output name ends at a name that is not taken (`freshName_spec`): the base name is taken itself, so
the numbered names cannot all be. Naming return items keeps the explicit names of a read apart, since an item either
keeps its name or takes a fresh one.

An expression keeps its name when that differs from the fresh one in the case of letters only. So it may end with a name
that another item has: its own from before (`Read.nameUniquely_shares_iff`).
-/

namespace GraphQuery

/-! ## Fresh names -/

theorem numbered_injective {base : String} {m n : Nat} (h : base ++ toString m = base ++ toString n) : m = n := by
  have hrepr : m.repr = n.repr := (String.append_right_inj base).1 h
  have hdigits : Nat.toDigits 10 m = Nat.toDigits 10 n := by rw [← Nat.toList_repr, hrepr, Nat.toList_repr]
  rw [← Nat.ofDigitChars_ten_toDigits (n := m), hdigits, Nat.ofDigitChars_ten_toDigits]

theorem numbered_ne_base (base : String) (n : Nat) : base ++ toString n ≠ base := by
  intro h
  have hlen : (base ++ toString n).length = base.length := congrArg String.length h
  have hpos : 0 < (toString n).length := Nat.length_repr_pos
  rw [String.length_append] at hlen
  omega

/-- One of the first `taken.length` numbers behind the base name makes a name not taken, if the base name itself is
taken. -/
theorem exists_free_number {taken : List String} {base : String} (hbase : base ∈ taken) :
    ∃ n < taken.length, base ++ toString n ∉ taken := by
  by_contra hall
  push Not at hall
  let names := base :: (List.range taken.length).map fun n => base ++ toString n
  have hnodup : names.Nodup := by
    refine List.nodup_cons.2 ⟨?_, List.nodup_range.map fun m n h => numbered_injective h⟩
    intro hmem
    obtain ⟨n, _, hn⟩ := List.mem_map.1 hmem
    exact numbered_ne_base base n hn
  have hsub : names ⊆ taken := by
    intro x hx
    rcases List.mem_cons.1 hx with rfl | hx
    · exact hbase
    · obtain ⟨n, hn, rfl⟩ := List.mem_map.1 hx
      exact hall n (List.mem_range.1 hn)
  have hlen : names.length ≤ taken.length := hnodup.length_le_of_subset hsub
  have hmore : names.length = taken.length + 1 := by simp [names]
  omega

/-- The fresh name is the base name when that is free, and otherwise the base name with the least number behind it
that makes a free name. That number is smaller than the number of taken names. -/
theorem freshName_spec (taken : List String) (base : String) :
    (base ∉ taken ∧ freshName taken base = base) ∨
      (base ∈ taken ∧ ∃ n < taken.length, freshName taken base = base ++ toString n ∧
        base ++ toString n ∉ taken ∧ ∀ m < n, base ++ toString m ∈ taken) := by
  unfold freshName
  by_cases hbase : base ∈ taken
  · right
    refine ⟨hbase, ?_⟩
    rw [if_pos hbase]
    cases hfind : (List.range taken.length).find? fun n => decide (base ++ toString n ∉ taken) with
    | none =>
      obtain ⟨n, hn, hfree⟩ := exists_free_number hbase
      have := List.find?_eq_none.1 hfind n (List.mem_range.2 hn)
      exact absurd hfree (by simpa using this)
    | some n =>
      obtain ⟨hfree, hmin⟩ := List.find?_range_eq_some.1 hfind
      refine ⟨n, List.mem_range.1 hmin.1, rfl, by simpa using hfree, fun m hm => ?_⟩
      simpa using hmin.2 m hm
  · exact Or.inl ⟨hbase, if_neg hbase⟩

theorem freshName_not_mem (taken : List String) (base : String) : freshName taken base ∉ taken := by
  rcases freshName_spec taken base with ⟨h, heq⟩ | ⟨-, n, -, heq, h, -⟩
  · rwa [heq]
  · rwa [heq]

/-! ## Explicit names -/

namespace Expr

/-- Equal expressions have the same explicit name. -/
theorem explicitName_eq_of_beq {a b : Expr} (h : (a == b) = true) : a.explicitName? = b.explicitName? := by
  cases a with
  | aliased n e =>
    cases b with
    | aliased n' e' =>
      have hparts : (n == n' && e.beq e') = true := h
      rw [Bool.and_eq_true, beq_iff_eq] at hparts
      exact hparts.1
    | _ => cases h
  | _ =>
    cases b with
    | aliased _ _ => cases h
    | _ => rfl

theorem outputName_of_explicitName {e : Expr} {name : String} (h : e.explicitName? = some name) :
    e.outputName = some name := by
  cases e with
  | aliased n e => simpa [explicitName?, outputName, bare] using h
  | _ => simp [explicitName?] at h

/-- An expression is put under a name, without an alias of its own. Only one that has this name already, up to the case
of letters, is kept as it is. -/
theorem withName_eq (e : Expr) (name : String) :
    (e.withName name = .aliased (some name) e.unaliased ∧
      ∀ own, e.outputName = some own → Text.sameLetters own name = false) ∨
    (e.withName name = e ∧ ∃ own, e.outputName = some own ∧ Text.sameLetters own name = true) := by
  unfold withName
  cases hown : e.outputName with
  | none => exact Or.inl ⟨rfl, by rintro own ⟨⟩⟩
  | some own =>
    by_cases hsame : Text.sameLetters own name = true
    · exact Or.inr ⟨if_pos hsame, own, rfl, hsame⟩
    · refine Or.inl ⟨if_neg hsame, ?_⟩
      rintro _ ⟨⟩
      exact Bool.not_eq_true _ ▸ hsame

theorem withName_cases (e : Expr) (name : String) :
    e.withName name = e ∨ e.withName name = .aliased (some name) e.unaliased :=
  (e.withName_eq name).symm.imp And.left And.left

end Expr

namespace Read

/-- The explicit names of the return items, in order. -/
def explicitNames (r : Read) : List String :=
  r.items.filterMap Expr.explicitName?

/-- Naming changes nothing unless an item equals the expression. Otherwise the expression takes the place of the first
such item, either as it is or under a name that no other item has. -/
theorem nameUniquely_cases (r : Read) (e : Expr) (hint : Option String) :
    (r.nameUniquely e hint).2 = r ∨ ∃ before item after named,
      r.items = before ++ item :: after ∧ (item == e) = true ∧
      (r.nameUniquely e hint).2 = { r with items := before ++ named :: after } ∧
      (named = e ∨ ∃ name, name ∉ (before ++ after).filterMap Expr.outputName ∧
        named = .aliased (some name) e.unaliased) := by
  unfold nameUniquely
  cases hidx : r.items.findIdx? fun item => item == e with
  | none => exact Or.inl rfl
  | some index =>
    obtain ⟨hlt, hbeq, -⟩ := List.findIdx?_eq_some_iff_getElem.1 hidx
    have hfresh := freshName_not_mem ((r.items.eraseIdx index).filterMap Expr.outputName) (r.baseName e hint)
    simp only [List.set_eq_take_append_cons_drop, hlt, ↓reduceIte]
    generalize freshName ((r.items.eraseIdx index).filterMap Expr.outputName) (r.baseName e hint) = name at hfresh ⊢
    rw [List.eraseIdx_eq_take_drop_succ] at hfresh
    right
    refine ⟨r.items.take index, r.items[index], r.items.drop (index + 1), e.withName name, ?_, hbeq, rfl, ?_⟩
    · rw [List.getElem_cons_drop, List.take_append_drop]
    · exact (e.withName_cases name).imp_right fun hnamed => ⟨name, hfresh, hnamed⟩

/-- A named item keeps the explicit names of a read apart. -/
theorem nameUniquely_nodup {r : Read} (e : Expr) (hint : Option String) (h : r.explicitNames.Nodup) :
    (r.nameUniquely e hint).2.explicitNames.Nodup := by
  rcases r.nameUniquely_cases e hint with hsame | ⟨before, item, after, named, hitems, hbeq, hread, hnamed⟩
  · rwa [hsame]
  · rw [explicitNames, hitems] at h
    rw [hread]
    simp only [explicitNames]
    rcases hnamed with rfl | ⟨name, hfresh, rfl⟩
    · simpa [List.filterMap_append, List.filterMap_cons, Expr.explicitName_eq_of_beq hbeq] using h
    · have hrest : ((before ++ after).filterMap Expr.explicitName?).Nodup := by
        refine h.sublist ?_
        exact List.Sublist.filterMap _ (List.Sublist.append_left (List.sublist_cons_self _ _) _)
      have hnew : name ∉ (before ++ after).filterMap Expr.explicitName? := by
        intro hmem
        obtain ⟨x, hx, hxname⟩ := List.mem_filterMap.1 hmem
        exact hfresh (List.mem_filterMap.2 ⟨x, hx, Expr.outputName_of_explicitName hxname⟩)
      simp only [List.filterMap_append, List.filterMap_cons, Expr.explicitName?] at hrest hnew ⊢
      exact List.nodup_middle.2 (List.nodup_cons.2 ⟨hnew, hrest⟩)

end Read

/-! ## Shared names -/

theorem Text.length_of_sameLetters {a b : String} (h : sameLetters a b = true) : a.length = b.length := by
  have hlower : a.toList.map Char.toLower = b.toList.map Char.toLower := beq_iff_eq.1 h
  have hlen := congrArg List.length hlower
  rwa [List.length_map, List.length_map, String.length_toList, String.length_toList] at hlen

/-- A number behind a name is more than a change of case. -/
theorem Text.not_sameLetters_numbered (base : String) (n : Nat) : sameLetters base (base ++ toString n) = false := by
  by_contra hsame
  have hlen := length_of_sameLetters (Bool.not_eq_false _ ▸ hsame)
  have hpos : 0 < (toString n).length := Nat.length_repr_pos
  rw [String.length_append] at hlen
  omega

/-- An expression that takes a name has that name, or keeps its own if it differs in the case of letters only. -/
theorem Expr.outputName_withName (e : Expr) (name : String) :
    (∃ own, e.outputName = some own ∧ Text.sameLetters own name = true ∧ (e.withName name).outputName = some own) ∨
      ((∀ own, e.outputName = some own → Text.sameLetters own name = false) ∧
        (e.withName name).outputName = some name) := by
  rcases e.withName_eq name with ⟨heq, hother⟩ | ⟨heq, own, hown, hsame⟩
  · exact Or.inr ⟨hother, by rw [heq]; rfl⟩
  · exact Or.inl ⟨own, hown, hsame, by rw [heq, hown]⟩

namespace Read

/-- The items that stay as they are when an expression is named: all but the first that equals it. -/
def otherItems (r : Read) (e : Expr) : List Expr :=
  r.items.eraseP fun item => item == e

/-- The names that an expression must not take. -/
def takenNames (r : Read) (e : Expr) : List String :=
  (r.otherItems e).filterMap Expr.outputName

theorem nameUniquely_named (r : Read) (e : Expr) (hint : Option String) :
    (r.nameUniquely e hint).1 = e.withName (freshName (r.takenNames e) (r.baseName e hint)) := by
  rw [takenNames, otherItems, List.eraseP_eq_eraseIdx, nameUniquely]
  cases r.items.findIdx? fun item => item == e <;> rfl

/-- The named expression takes the place of the first item that equals it. -/
theorem nameUniquely_items (r : Read) (e : Expr) (hint : Option String) :
    (r.nameUniquely e hint).2.items =
      match r.items.findIdx? fun item => item == e with
      | some i => (r.otherItems e).insertIdx i (r.nameUniquely e hint).1
      | none => r.otherItems e := by
  rw [otherItems, List.eraseP_eq_eraseIdx, nameUniquely]
  cases hidx : r.items.findIdx? fun item => item == e with
  | none => rfl
  | some i =>
    obtain ⟨hlt, -, -⟩ := List.findIdx?_eq_some_iff_getElem.1 hidx
    exact (List.insertIdx_eraseIdx_self (Nat.ne_of_lt hlt) _).symm

/-- Naming gives an expression an output name and puts it in the place of the item that equals it, if there is one. The
name is that of another item exactly when the expression had this name before, and the name that is fresh for the hint
differs from it in the case of letters only. In all other cases no other item has the name. -/
theorem nameUniquely_shares_iff (r : Read) (e : Expr) (hint : Option String) :
    let named := (r.nameUniquely e hint).1
    named.outputName.isSome = true ∧
    ((r.nameUniquely e hint).2.items =
      match r.items.findIdx? fun item => item == e with
      | some i => (r.otherItems e).insertIdx i named
      | none => r.otherItems e) ∧
    ((∃ item ∈ r.otherItems e, item.outputName = named.outputName) ↔
      ∃ own wanted, e.outputName = some own ∧ hint = some wanted ∧ own ∈ r.takenNames e ∧
        Text.sameLetters own (freshName (r.takenNames e) wanted) = true) := by
  intro named
  have hnamed : named = e.withName (freshName (r.takenNames e) (r.baseName e hint)) := r.nameUniquely_named e hint
  have htaken : ∀ name, (∃ item ∈ r.otherItems e, item.outputName = some name) ↔ name ∈ r.takenNames e := by
    intro name
    rw [takenNames, List.mem_filterMap]
  have hfresh := freshName_not_mem (r.takenNames e) (r.baseName e hint)
  rcases e.outputName_withName (freshName (r.takenNames e) (r.baseName e hint)) with
    ⟨own, hown, hsame, hkept⟩ | ⟨hother, htakes⟩
  · rw [← hnamed] at hkept
    refine ⟨by rw [hkept]; rfl, r.nameUniquely_items e hint, ?_⟩
    rw [hkept, htaken]
    constructor
    · intro hmem
      cases hint with
      | some wanted => exact ⟨own, wanted, hown, rfl, hmem, hsame⟩
      | none =>
        -- Without a hint the search starts at the name itself, which is taken.
        have hbase : r.baseName e none = own := by rw [baseName, hown]; rfl
        rw [hbase] at hsame
        rcases freshName_spec (r.takenNames e) own with ⟨hfree, -⟩ | ⟨-, n, -, hnumber, -⟩
        · exact absurd hmem hfree
        · rw [hnumber, Text.not_sameLetters_numbered] at hsame
          cases hsame
    · rintro ⟨own', _, hown', -, hmem, -⟩
      cases hown.symm.trans hown'
      exact hmem
  · rw [← hnamed] at htakes
    refine ⟨by rw [htakes]; rfl, r.nameUniquely_items e hint, ?_⟩
    rw [htakes, htaken]
    constructor
    · exact fun hmem => absurd hmem hfresh
    · rintro ⟨own, wanted, hown, rfl, -, hsame⟩
      have hdiffers := hother own hown
      rw [show r.baseName e (some wanted) = wanted from rfl, hsame] at hdiffers
      cases hdiffers

/-- The name of the items of a node. -/
def nameAt (node : String) : Expr :=
  .storage ⟨"Name", ⟨"Thing", { name := "Name", type := .string }⟩, ⟨some node, ["Thing"]⟩⟩

/-- A second item of the same name that is to be called by it in lower case keeps it, so both items have one name. -/
theorem name_shared_in_lower_case :
    let r : Read := { Read.empty defaultAliasPrefix with items := [nameAt "o", nameAt "i"] }
    r.takenNames (nameAt "i") = ["Name"] ∧ (r.nameUniquely (nameAt "i") (some "name")).1.outputName = some "Name" ∧
      (r.nameUniquely (nameAt "i") (some "name")).2.items.map Expr.outputName = [some "Name", some "Name"] := by
  decide +kernel

end Read

end GraphQuery

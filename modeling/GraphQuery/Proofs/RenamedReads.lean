import GraphQuery.Proofs.Renaming
import GraphQuery.Proofs.Rewritten
import GraphQuery.Read.WellFormed
import Mathlib.Data.List.InsertIdx

/-!
# Renamed reads

All that is done to a read commutes with renaming sources: taking conditions, items and output names, and looking up
nodes and returned members. Its check, its columns and its text do not depend on the ids at all.
-/

namespace GraphQuery

variable {f : SourceId → SourceId}

theorem Table.find?_map {κ α β : Type} [DecidableEq κ] (g : α → β) (key : κ) (t : Table κ α) :
    Table.find? key (t.map (Prod.map id g)) = (Table.find? key t).map g := by
  induction t with
  | nil => rfl
  | cons entry rest ih =>
    obtain ⟨k, v⟩ := entry
    by_cases hk : key = k
    · simp [Table.find?, hk]
    · simpa [Table.find?, hk] using ih

theorem Expr.renameOption (e : Option Expr) : Expr.rewriteOption (.ofIds f) e = e.map (Expr.rename f) := by
  cases e <;> rfl

theorem Read.renameProjections : ∀ ps : List (MemberName × Expr),
    Read.rewriteProjections (.ofIds f) ps = ps.map (Prod.map id (Expr.rename f))
  | [] => rfl
  | _ :: ps => congrArg (List.cons _) (Read.renameProjections ps)

/-! ## Clauses -/

namespace ReadingClause

theorem source_rename : ∀ c : ReadingClause, (c.rewrite (.ofIds f)).source? = c.source?.map f
  | .pattern ⟨_, _, _, _⟩ => rfl
  | .nested _ _ => rfl

theorem restrictLast_rename (condition : Expr) (cs : List ReadingClause) :
    restrictLast? (condition.rename f) (cs.map (ReadingClause.rewrite (.ofIds f))) =
      (restrictLast? condition cs).map (List.map (ReadingClause.rewrite (.ofIds f))) := by
  have hmatch : ∀ m : PatternMatch,
      (m.rewrite (.ofIds f)).restrict (condition.rename f) = (m.restrict condition).rewrite (.ofIds f) := by
    intro m
    obtain ⟨pattern, predicate, optional, source⟩ := m
    cases predicate <;> rfl
  induction cs with
  | nil => rfl
  | cons c cs ih =>
    simp only [List.map_cons, restrictLast?, ih]
    cases restrictLast? condition cs with
    | some changed => rfl
    | none =>
      cases c with
      | pattern m => exact congrArg (fun c => some (ReadingClause.pattern c :: _)) (hmatch m)
      | nested _ _ => rfl

end ReadingClause

namespace Read

variable (r : Read)

@[simp] theorem rename_items : (r.rewrite (.ofIds f)).items = r.items.map (Expr.rename f) :=
  r.rewrite_items _

@[simp] theorem rename_projections :
    (r.rewrite (.ofIds f)).projections = r.projections.map (Prod.map id (Expr.rename f)) := by
  cases r
  exact renameProjections _

@[simp] theorem rename_aliasPrefix : (r.rewrite (.ofIds f)).aliasPrefix = r.aliasPrefix := by
  cases r
  rfl

/-- A renamed read, field by field. -/
theorem rename_eq : r.rewrite (.ofIds f) =
    { clauses := r.clauses.map (ReadingClause.rewrite (.ofIds f)), items := r.items.map (Expr.rename f)
      orderings := r.orderings.map (SortTerm.rewrite (.ofIds f)), limit := r.limit.map (Expr.rename f)
      skip := r.skip.map (Expr.rename f), star := r.star, starNode := r.starNode
      projections := r.projections.map (Prod.map id (Expr.rename f)), aliasPrefix := r.aliasPrefix } := by
  obtain ⟨clauses, items, orderings, limit, skip, star, starNode, projections, aliasPrefix⟩ := r
  rw [Read.rewrite, ReadingClause.rewriteList_eq_map, Expr.rewriteList_eq_map, SortTerm.rewriteList_eq_map,
    Expr.renameOption, Expr.renameOption, renameProjections]
  rfl

theorem restrict_rename (condition : Expr) :
    (r.rewrite (.ofIds f)).restrict? (condition.rename f) = (r.restrict? condition).map (Read.rewrite (.ofIds f)) := by
  rw [restrict?, restrict?, rewrite_clauses, ReadingClause.restrictLast_rename]
  cases ReadingClause.restrictLast? condition r.clauses with
  | none => rfl
  | some changed =>
    simp only [Option.map_some, rename_eq]

theorem addSortTerm_rename (term : SortTerm) :
    (r.rewrite (.ofIds f)).addSortTerm (term.rewrite (.ofIds f)) = (r.addSortTerm term).rewrite (.ofIds f) := by
  simp only [addSortTerm, rename_eq, List.map_append, List.map_singleton]

theorem addClause_rename (c : ReadingClause) :
    (r.rewrite (.ofIds f)).addClause (c.rewrite (.ofIds f)) = (r.addClause c).rewrite (.ofIds f) := by
  simp only [addClause, rename_eq, List.map_append, List.map_singleton]

theorem nodeOf_rename (hf : f.Injective) (source : SourceId) :
    (r.rewrite (.ofIds f)).nodeOf? (f source) = r.nodeOf? source := by
  have hsource : ((fun c : ReadingClause => c.source? == some (f source)) ∘ ReadingClause.rewrite (.ofIds f)) =
      fun c => c.source? == some source := by
    funext c
    rw [Function.comp_apply, c.source_rename]
    exact beq_sourceOption hf c.source? (some source)
  rw [nodeOf?, nodeOf?, rewrite_clauses, List.find?_map, hsource, returnedNode_rewrite]
  cases r.clauses.find? fun c => c.source? == some source with
  | none => rfl
  | some c => exact c.node_rewrite _

theorem storedProperty_rename (hf : f.Injective) (declared : DeclaredProperty) (source : SourceId) :
    (r.rewrite (.ofIds f)).storedProperty? declared (f source) =
      (r.storedProperty? declared source).map (Expr.rename f) := by
  rw [storedProperty?, storedProperty?, r.nodeOf_rename hf]
  cases r.nodeOf? source <;> rfl

/-! ## Items -/

variable (e : Expr)

theorem addItem_rename (hf : f.Injective) (resetStar : Bool) :
    (r.rewrite (.ofIds f)).addItem (e.rename f) resetStar =
      ((r.addItem e resetStar).1, (r.addItem e resetStar).2.rewrite (.ofIds f)) := by
  have hreturns : ((fun item : Expr => item.returns (e.withoutWidening.rename f)) ∘ Expr.rename f) =
      fun item => item.returns e.withoutWidening := by
    funext item
    exact Expr.returns_rename _ hf item
  simp only [addItem, Expr.withoutWidening_rename, rename_items, List.findIdx?_map, hreturns]
  cases r.items.findIdx? fun item => item.returns e.withoutWidening with
  | some index => rfl
  | none => simp only [List.length_map, rename_eq, List.map_append, List.map_singleton]

theorem outputNames_rename (items : List Expr) :
    (items.map (Expr.rename f)).filterMap Expr.outputName = items.filterMap Expr.outputName := by
  have hnames : Expr.outputName ∘ Expr.rename f = Expr.outputName := funext fun item => item.outputName_rename
  rw [List.filterMap_map, hnames]

theorem baseName_rename (hint : Option String) :
    (r.rewrite (.ofIds f)).baseName (e.rename f) hint = r.baseName e hint := by
  rw [baseName, baseName, Expr.outputName_rename, rename_aliasPrefix]

theorem nameUniquely_rename (hf : f.Injective) (hint : Option String) :
    (r.rewrite (.ofIds f)).nameUniquely (e.rename f) hint =
      ((r.nameUniquely e hint).1.rename f, (r.nameUniquely e hint).2.rewrite (.ofIds f)) := by
  have hequal : ((fun item : Expr => item == e.rename f) ∘ Expr.rename f) = fun item => item == e := by
    funext item
    exact item.beq_rename e hf
  simp only [nameUniquely, rename_items, List.findIdx?_map, hequal, baseName_rename, Expr.withName_rename]
  cases r.items.findIdx? fun item => item == e with
  | none => simp only [outputNames_rename]
  | some index => simp only [List.eraseIdx_map, outputNames_rename, rename_eq, List.map_set]

theorem memberItem_rename (key : MemberName) :
    (r.rewrite (.ofIds f)).memberItem? key = (r.memberItem? key).map (Expr.rename f) := by
  rw [memberItem?, memberItem?, rename_projections, Table.find?_map]

theorem nameMember_rename (hf : f.Injective) (key : MemberName) :
    ((r.rewrite (.ofIds f)).nameMember key (e.rename f)).2 = (r.nameMember key e).2.rewrite (.ofIds f) := by
  simp only [nameMember, nameUniquely_rename r e hf]
  simp only [rename_eq, Table.map_insert, Expr.unaliased_rename]

/-! ## Columns -/

end Read

mutual

theorem Read.columnTypes_rename : ∀ r : Read, (r.rewrite (.ofIds f)).columnTypes = r.columnTypes
  | ⟨clauses, items, _, _, _, star, _, _, _⟩ => by
    have hclauses := ReadingClause.columnTypes_rename clauses
    have hitems : (Expr.rewriteList (.ofIds f) items).map Expr.columnType = items.map Expr.columnType := by
      rw [Expr.rewriteList_eq_map, List.map_map]
      exact List.map_congr_left fun item _ => item.columnType_rename
    have hempty : (Expr.rewriteList (.ofIds f) items).isEmpty = items.isEmpty := by cases items <;> rfl
    simp only [Read.rewrite, Read.columnTypes, hclauses, hitems, hempty]

theorem ReadingClause.columnTypes_rename : ∀ cs : List ReadingClause,
    ReadingClause.columnTypes (ReadingClause.rewriteList (.ofIds f) cs) = ReadingClause.columnTypes cs
  | [] => rfl
  | .pattern _ :: rest => ReadingClause.columnTypes_rename rest
  | .nested _ read :: rest => by
    change (read.rewrite (.ofIds f)).columnTypes ++ ReadingClause.columnTypes (ReadingClause.rewriteList _ rest) = _
    rw [Read.columnTypes_rename read, ReadingClause.columnTypes_rename rest]
    rfl

end

/-! ## The check -/

mutual

theorem Expr.checkStored_rewrite : ∀ (e : Expr) (b : Bool), (e.rewrite (.ofIds f) b).checkStored = e.checkStored
  | .binary _ l r _, _ => by
    simp only [Expr.rewrite, Rewriting.ofIds_node, Expr.checkStored]
    rw [Expr.checkStored_rewrite l, Expr.checkStored_rewrite r]
  | .conditional c x y _, _ => by
    simp only [Expr.rewrite, Rewriting.ofIds_node, Expr.checkStored]
    rw [Expr.checkStored_rewrite c, Expr.checkStored_rewrite x, Expr.checkStored_rewrite y]
  | .convert e _, _ => Expr.checkStored_rewrite e _
  | .not e, _ => Expr.checkStored_rewrite e _
  | .negate e, _ => Expr.checkStored_rewrite e _
  | .isNull e, _ => Expr.checkStored_rewrite e _
  | .aliased _ e, _ => Expr.checkStored_rewrite e _
  | .sequence es, _ => Expr.checkStoredAll_rewrite es
  | .constant .., _ | .parameter .., _ | .source .., _ | .member .., _ | .call .., _ | .construct .., _ | .subquery _, _
  | .extension .., _ | .storage _, _ | .read _, _ => rfl
termination_by structural x => x

theorem Expr.checkStoredAll_rewrite : ∀ es : List Expr,
    Expr.checkStoredAll (Expr.rewriteList (.ofIds f) es) = Expr.checkStoredAll es
  | [] => rfl
  | e :: es => by
    simp only [Expr.rewriteList, Expr.checkStoredAll]
    rw [Expr.checkStored_rewrite e, Expr.checkStoredAll_rewrite es]
termination_by structural x => x

end

namespace Read

theorem checkClauses_rename (cs : List ReadingClause) (index : Nat) :
    checkClauses index (cs.map (ReadingClause.rewrite (.ofIds f))) = checkClauses index cs := by
  induction cs generalizing index with
  | nil => rfl
  | cons c cs ih =>
    cases c with
    | nested source read => exact ih (index + 1)
    | pattern m =>
      have hpredicate : Expr.checkStoredAll (Expr.rewriteOption (.ofIds f) m.predicate).toList =
          Expr.checkStoredAll m.predicate.toList := by
        cases m.predicate with
        | none => rfl
        | some e => exact Expr.checkStoredAll_rewrite [e]
      simp only [List.map_cons, ReadingClause.rewrite, checkClauses, PatternMatch.rewrite_pattern,
        PatternMatch.rewrite_predicate, hpredicate, ih]

theorem checkItems_rename (items : List Expr) (taken : List String) :
    checkItems taken (items.map (Expr.rename f)) = checkItems taken items := by
  induction items generalizing taken with
  | nil => rfl
  | cons item items ih =>
    have hname : (item.rename f).explicitName? = item.explicitName? := by cases item <;> rfl
    have hstored : (item.rename f).checkStored = item.checkStored := item.checkStored_rewrite false
    simp only [List.map_cons, checkItems, hname, hstored, ih]

/-- A renamed read passes the check if the read does, and else fails for the same cause. -/
theorem check_rename (r : Read) : (r.rewrite (.ofIds f)).check = r.check := by
  have horderings : (r.orderings.map (SortTerm.rewrite (.ofIds f))).map SortTerm.expr =
      Expr.rewriteList (.ofIds f) (r.orderings.map SortTerm.expr) := by
    rw [Expr.rewriteList_eq_map, List.map_map, List.map_map]
    exact List.map_congr_left fun ⟨_, _⟩ _ => rfl
  rw [check, check, rewrite_clauses, checkClauses_rename, rename_items, checkItems_rename, rewrite_orderings,
    horderings, Expr.checkStoredAll_rewrite]

end Read

/-! ## The text -/

theorem Rewriting.ofIds_eq_ofValues : Rewriting.ofIds f = .ofValues (fun _ v => v) f := by
  have hnode : (fun (_ : Bool) (e : Expr) => e) = (Rewriting.ofValues (fun _ v => v) f).node := by
    funext branch e
    cases e <;> rfl
  exact congrArg (Rewriting.mk · f) hnode

/-- The text of a read and its parameters do not depend on the ids of sources. -/
theorem Generator.render_rename (g : Generator) (r : Read) : g.render (r.rewrite (.ofIds f)) = g.render r := by
  have hunseen : Unseen g id fun _ v => v := ⟨fun _ _ _ _ => .refl _, fun _ _ => Iff.rfl⟩
  rw [Rewriting.ofIds_eq_ofValues]
  exact render_rewrite fun e _ => (expr_rewrite f hunseen none false e).eq_of_id

end GraphQuery

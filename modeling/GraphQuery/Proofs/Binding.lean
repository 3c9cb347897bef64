import GraphQuery.Compile.Plan
import GraphQuery.Proofs.Layout

/-!
# Binding by translation

What an expression is lowered to depends on which nodes the sources have and on the members that a read returns.
Binding clauses changes neither: it adds conditions, orderings, a skip and a limit. So every expression of a query has
one translation, whatever clauses came before it, and a plan depends on its expressions only through their translations
(`Compiler.plan_bound`).
-/

namespace GraphQuery

/-! ## Lowering depends on the scope through its leaves -/

namespace Scope

variable {s s' : Scope}

mutual

theorem lower_congr (hm : s.lowerMember = s'.lowerMember) (hs : s.lowerSource = s'.lowerSource)
    (hc : s.lowerConstant = s'.lowerConstant) (mode : Mode) : ∀ e, s.lower mode e = s'.lower mode e
  | .binary op left right detail => by
    simp only [lower, lower_congr hm hs hc mode left, lower_congr hm hs hc mode right]
  | .conditional test ifTrue ifFalse type => by
    simp only [lower, lower_congr hm hs hc mode test, lower_congr hm hs hc mode ifTrue,
      lower_congr hm hs hc mode ifFalse]
  | .member target m => by simp only [lower, hm]
  | .source id type => by simp only [lower, hs]
  | .constant value type => by simp only [lower, hc]
  | .convert operand type => by simp only [lower, lower_congr hm hs hc mode operand]
  | .not operand => by simp only [lower, lower_congr hm hs hc mode operand]
  | .isNull operand => by simp only [lower, lower_congr hm hs hc mode operand]
  | .sequence items => by simp only [lower, lowerAll_congr hm hs hc mode items]
  | .storage _ | .aliased _ _ | .negate _ | .call .. | .parameter .. | .construct .. | .subquery _ | .extension ..
  | .read _ => by simp only [lower]

theorem lowerAll_congr (hm : s.lowerMember = s'.lowerMember) (hs : s.lowerSource = s'.lowerSource)
    (hc : s.lowerConstant = s'.lowerConstant) (mode : Mode) : ∀ es, s.lowerAll mode es = s'.lowerAll mode es
  | [] => by simp only [lowerAll]
  | e :: es => by simp only [lowerAll, lower_congr hm hs hc mode e, lowerAll_congr hm hs hc mode es]

end

end Scope

/-! ## Reads that resolve sources alike -/

/-- What a clause says about sources: which one it produces, by which node. -/
def ReadingClause.outline (c : ReadingClause) : Option SourceId × Option Node :=
  (c.source?, c.node?)

namespace Read

variable {r r' : Read}

/-- Two reads have the same nodes for all sources and the same returned members. -/
structure Resolves (r r' : Read) : Prop where
  outlines : r'.clauses.map ReadingClause.outline = r.clauses.map ReadingClause.outline
  starNode : r'.starNode = r.starNode
  projections : r'.projections = r.projections

theorem Resolves.refl (r : Read) : r.Resolves r :=
  ⟨rfl, rfl, rfl⟩

theorem Resolves.trans {r'' : Read} (h : r.Resolves r') (h' : r'.Resolves r'') : r.Resolves r'' :=
  ⟨h'.outlines.trans h.outlines, h'.starNode.trans h.starNode, h'.projections.trans h.projections⟩

/-- The node of a source, by the outlines of the clauses. -/
theorem nodeOf_eq_outline (r : Read) (source : SourceId) :
    r.nodeOf? source =
      match (r.clauses.map ReadingClause.outline).find? fun o => o.1 == some source with
      | some o => o.2
      | none => r.starNode.or
          (match r.clauses.map ReadingClause.outline with
          | [o] => o.2
          | _ => none) := by
  unfold nodeOf?
  rw [List.find?_map]
  change _ = match (r.clauses.find? fun c => c.source? == some source).map ReadingClause.outline with
    | some o => o.2
    | none => _
  cases r.clauses.find? fun c => c.source? == some source with
  | some c => rfl
  | none =>
    simp only [Option.map_none, returnedNode?]
    cases r.starNode with
    | some node => rfl
    | none =>
      cases r.clauses with
      | nil => rfl
      | cons c rest =>
        cases rest with
        | nil => rfl
        | cons c' rest => rfl

theorem Resolves.nodeOf (h : r.Resolves r') (source : SourceId) : r'.nodeOf? source = r.nodeOf? source := by
  rw [nodeOf_eq_outline, nodeOf_eq_outline, h.outlines, h.starNode]

/-- A condition goes to one of the patterns, and all other clauses stay. -/
theorem restrictLast_cases {condition : Expr} :
    ∀ {clauses changed : List ReadingClause}, ReadingClause.restrictLast? condition clauses = some changed →
      ∃ before m after, clauses = before ++ .pattern m :: after ∧
        changed = before ++ .pattern (m.restrict condition) :: after := by
  intro clauses
  induction clauses with
  | nil => intro changed h; cases h
  | cons c clauses ih =>
    intro changed h
    simp only [ReadingClause.restrictLast?] at h
    split at h
    · rename_i changed' hchanged
      cases h
      obtain ⟨before, m, after, rfl, rfl⟩ := ih hchanged
      exact ⟨c :: before, m, after, rfl, rfl⟩
    · split at h
      · rename_i m
        cases h
        exact ⟨[], m, clauses, rfl, rfl⟩
      · cases h

/-- A condition on the last pattern changes no outline. -/
theorem restrictLast_outline {condition : Expr} {clauses changed : List ReadingClause}
    (h : ReadingClause.restrictLast? condition clauses = some changed) :
    changed.map ReadingClause.outline = clauses.map ReadingClause.outline := by
  obtain ⟨before, m, after, rfl, rfl⟩ := restrictLast_cases h
  simp only [List.map_append, List.map_cons]
  rfl

theorem Resolves.restrict {condition : Expr} (h : r.restrict? condition = some r') : r.Resolves r' := by
  obtain ⟨changed, hchanged, rfl⟩ := Option.map_eq_some_iff.1 h
  exact ⟨restrictLast_outline hchanged, rfl, rfl⟩

end Read

namespace Compiler

variable {c : Compiler} {sources : SourceTable} {r r' : Read}

theorem lowerMember_resolves (h : r.Resolves r') :
    (c.scope sources r').lowerMember = (c.scope sources r).lowerMember := by
  have hstored : ∀ declared id, r'.storedProperty? declared id = r.storedProperty? declared id := by
    intro declared id
    rw [Read.storedProperty?, Read.storedProperty?, h.nodeOf id]
  have hmember : ∀ key, r'.memberItem? key = r.memberItem? key := by
    intro key
    rw [Read.memberItem?, Read.memberItem?, h.projections]
  -- Position 0 holds the read itself, and no other position holds one.
  have hread : ∀ {α : Type} (id : ReadId) (f : Read → Option α), f r' = f r →
      ((c.scope sources r').workspace.read? id).bind f = ((c.scope sources r).workspace.read? id).bind f := by
    intro α id f hf
    cases id with
    | zero => exact hf
    | succ n => rfl
  funext target m
  have hs : (c.scope sources r').storedMember? target m = (c.scope sources r).storedMember? target m := by
    unfold Scope.storedMember?
    split
    · rename_i id type _
      refine congrArg (Option.bind _) (funext fun entity => congrArg (Option.bind _) (funext fun declared =>
        congrArg (Option.bind _) (funext fun read => ?_)))
      exact hread read _ (by rw [hstored])
    · rfl
  have hp : (c.scope sources r').projectedMember? target m = (c.scope sources r).projectedMember? target m := by
    unfold Scope.projectedMember?
    split
    · rename_i id type _
      refine congrArg (Option.bind _) (funext fun read => ?_)
      exact hread read _ (by rw [hmember])
    · rfl
  unfold Scope.lowerMember
  rw [hs, hp]
  rfl

/-- Reads that resolve sources alike lower every expression alike. -/
theorem lower_resolves {p p' : Progress} (h : p.read.Resolves p'.read) (mode : Mode) (e : Expr) :
    c.lower? sources p' mode e = c.lower? sources p mode e := by
  have hmember : (c.scope sources p'.read).lowerMember = (c.scope sources p.read).lowerMember :=
    lowerMember_resolves h
  have hsource : (c.scope sources p'.read).lowerSource = (c.scope sources p.read).lowerSource := by
    funext mode id type
    unfold Scope.lowerSource
    rw [hmember]
    rfl
  unfold lower?
  rw [Scope.lower_congr hmember hsource rfl]

end Compiler

/-! ## Binding with given translations -/

namespace Progress

variable {p p' : Progress} {kind : PartKind} {e : Expr} {lowered : Option Expr}

/-- Binds a clause when the translations of its expressions are known. -/
def bindBy (translation : Expr → Option Expr) (p : Progress) : QueryClause → Except CompileError Progress
  | .filter e => p.filter .predicate e (translation e)
  | .additional _ => .ok p
  | .join join =>
    match join.relationship, join.outerKey, join.innerKey with
    | some _, _, _ => .ok p
    | none, some outer, some inner =>
      let condition := Expr.plain .equal outer inner
      p.filter .joinCondition condition (translation condition)
    | none, _, _ => .error (.unsupported (.keylessJoin join.source.itemName))
  | .orderBy terms => .ok (terms.foldl (fun p term => p.order term (translation term.expr)) p)
  | .take count => .ok (p.take count (translation count))
  | .skip count => .ok (p.skip count (translation count))

/-- A condition is left to the client, or it is added to the read. -/
theorem filter_cases (h : p.filter kind e lowered = .ok p') :
    ((p.limited = true ∨ lowered = none) ∧ p' = p.leaveRows kind e) ∨
      ∃ condition read, p.limited = false ∧ lowered = some condition ∧ p.read.restrict? condition = some read ∧
        p' = { p with read } := by
  unfold filter at h
  split at h
  · rename_i hlimited
    cases h
    exact Or.inl ⟨Or.inl hlimited, rfl⟩
  · rename_i hlimited
    split at h
    · rename_i condition
      split at h
      · rename_i read hread
        cases h
        exact Or.inr ⟨condition, read, by simpa using hlimited, rfl, hread, rfl⟩
      · cases h
    · cases h
      exact Or.inl ⟨Or.inr rfl, rfl⟩

/-- A step that leaves a part to the client, which decides about rows from then on. -/
structure Leaves (part : ClientPart) (p p' : Progress) : Prop where
  read : p'.read = p.read
  parts : p'.clientParts = p.clientParts ++ [part]
  clientRows : p'.clientRows = true
  limited : p'.limited = p.limited

/-- A skip is left to the client, or the read takes it in place of its own. -/
theorem skip_cases (count : Expr) (lowered : Option Expr) (p : Progress) :
    ((p.clientRows = true ∨ p.limited = true ∨ lowered = none) ∧ p.Leaves ⟨.skip, count⟩ (p.skip count lowered)) ∨
      (p.clientRows = false ∧ p.limited = false ∧
        ∃ e, lowered = some e ∧ p.skip count lowered = { p with read := { p.read with skip := some e } }) := by
  unfold skip
  split
  · rename_i h
    refine Or.inl ⟨?_, rfl, rfl, rfl, rfl⟩
    rw [Bool.or_eq_true] at h
    exact h.imp_right Or.inl
  · rename_i h
    rw [Bool.or_eq_true, not_or, Bool.not_eq_true, Bool.not_eq_true] at h
    split
    · rename_i e
      exact Or.inr ⟨h.1, h.2, e, rfl, rfl⟩
    · exact Or.inl ⟨Or.inr (Or.inr rfl), rfl, rfl, rfl, rfl⟩

/-- A limit is left to the client, or the read takes it in place of its own. -/
theorem take_cases (count : Expr) (lowered : Option Expr) (p : Progress) :
    ((p.clientRows = true ∨ lowered = none) ∧ p.Leaves ⟨.limit, count⟩ (p.take count lowered)) ∨
      (p.clientRows = false ∧ ∃ e, lowered = some e ∧
        p.take count lowered = { p with read := { p.read with limit := some e }, limited := true }) := by
  unfold take
  split
  · rename_i h
    exact Or.inl ⟨Or.inl h, rfl, rfl, h, rfl⟩
  · rename_i h
    split
    · rename_i e
      exact Or.inr ⟨by simpa using h, e, rfl, rfl⟩
    · exact Or.inl ⟨Or.inr rfl, rfl, rfl, rfl, rfl⟩

/-- A term of an ordering is left to the client, which decides about rows if it did not before and the server sets no
limit, or it is added to the read. -/
theorem order_cases (term : SortTerm) (lowered : Option Expr) (p : Progress) :
    ((p.clientRows = true ∨ p.limited = true) ∧ p.order term lowered = p.leave .ordering term.expr) ∨
      ((p.clientRows = false ∧ p.limited = false ∧ lowered = none) ∧
        p.order term lowered = p.leaveRows .ordering term.expr) ∨
      ∃ e, (p.clientRows = false ∧ p.limited = false ∧ lowered = some e) ∧
        p.order term lowered = { p with read := p.read.addSortTerm ⟨e, term.descending⟩ } := by
  unfold order
  split
  · rename_i h
    exact Or.inl ⟨by simpa using h, rfl⟩
  · rename_i h
    rw [Bool.or_eq_true, not_or, Bool.not_eq_true, Bool.not_eq_true] at h
    split
    · rename_i e
      exact Or.inr (Or.inr ⟨e, ⟨h.1, h.2, rfl⟩, rfl⟩)
    · exact Or.inr (Or.inl ⟨⟨h.1, h.2, rfl⟩, rfl⟩)

theorem filter_resolves (h : p.filter kind e lowered = .ok p') : p.read.Resolves p'.read := by
  obtain ⟨-, rfl⟩ | ⟨condition, read, -, -, hread, rfl⟩ := filter_cases h
  · exact .refl p.read
  · exact .restrict hread

theorem order_resolves (p : Progress) (term : SortTerm) (lowered : Option Expr) :
    p.read.Resolves (p.order term lowered).read := by
  obtain ⟨-, h⟩ | ⟨-, h⟩ | ⟨e, -, h⟩ := p.order_cases term lowered
  · rw [h]; exact .refl p.read
  · rw [h]; exact .refl p.read
  · rw [h]; exact ⟨rfl, rfl, rfl⟩

theorem take_resolves (p : Progress) (count : Expr) (lowered : Option Expr) :
    p.read.Resolves (p.take count lowered).read := by
  obtain ⟨-, h⟩ | ⟨-, e, -, h⟩ := p.take_cases count lowered
  · rw [h.read]; exact .refl p.read
  · rw [h]; exact ⟨rfl, rfl, rfl⟩

theorem skip_resolves (p : Progress) (count : Expr) (lowered : Option Expr) :
    p.read.Resolves (p.skip count lowered).read := by
  obtain ⟨-, h⟩ | ⟨-, -, e, -, h⟩ := p.skip_cases count lowered
  · rw [h.read]; exact .refl p.read
  · rw [h]; exact ⟨rfl, rfl, rfl⟩

end Progress

namespace Compiler

variable {c : Compiler} {sources : SourceTable} {start : Read} {p p' : Progress}

/-- The translations of expressions for the server, by the read with which binding starts. -/
def translationFrom? (c : Compiler) (sources : SourceTable) (start : Read) (e : Expr) : Option Expr :=
  c.lower? sources { read := start } .condition e

/-- Wherever binding has got to, it lowers an expression to its translation. -/
theorem lower_eq_translation (h : start.Resolves p.read) (e : Expr) :
    c.lower? sources p .condition e = c.translationFrom? sources start e :=
  lower_resolves (p := { read := start }) h .condition e

theorem bindTerms_eq (terms : List SortTerm) (h : start.Resolves p.read) :
    terms.foldl (c.bindTerm sources) p =
        terms.foldl (fun p term => p.order term (c.translationFrom? sources start term.expr)) p ∧
      start.Resolves (terms.foldl (c.bindTerm sources) p).read := by
  induction terms generalizing p with
  | nil => exact ⟨rfl, h⟩
  | cons term terms ih =>
    have hterm : c.bindTerm sources p term = p.order term (c.translationFrom? sources start term.expr) := by
      rw [bindTerm, lower_eq_translation h]
    simp only [List.foldl_cons, hterm]
    exact ih (h.trans (p.order_resolves term _))

theorem bindClause_eq (h : start.Resolves p.read) (clause : QueryClause) :
    c.bindClause sources p clause = p.bindBy (c.translationFrom? sources start) clause := by
  have hlower : ∀ e, c.lower? sources p .condition e = c.translationFrom? sources start e := lower_eq_translation h
  cases clause with
  | orderBy terms => exact congrArg Except.ok (bindTerms_eq terms h).1
  | join join =>
    simp only [bindClause, hlower]
    rfl
  | _ => simp only [bindClause, Progress.bindBy, hlower]

theorem bindClause_resolves (h : start.Resolves p.read) {clause : QueryClause}
    (hbind : c.bindClause sources p clause = .ok p') : start.Resolves p'.read := by
  cases clause with
  | filter e => exact h.trans (Progress.filter_resolves hbind)
  | additional _ => cases hbind; exact h
  | join join =>
    simp only [bindClause] at hbind
    split at hbind
    · cases hbind; exact h
    · exact h.trans (Progress.filter_resolves hbind)
    · cases hbind
  | orderBy terms => cases hbind; exact (bindTerms_eq terms h).2
  | take count => cases hbind; exact h.trans (p.take_resolves count _)
  | skip count => cases hbind; exact h.trans (p.skip_resolves count _)

theorem bindClauses_resolves {clauses : List QueryClause}
    (h : clauses.foldlM (c.bindClause sources) { read := start } = .ok p) : start.Resolves p.read :=
  Run.foldlM_keeps (fun p : Progress => start.Resolves p.read) (fun _ _ _ _ hp hbind => bindClause_resolves hp hbind)
    (.refl start) h

/-- Binding the clauses of a query depends on their expressions through their translations alone. -/
theorem bindClauses_eq (clauses : List QueryClause) (start : Read) :
    clauses.foldlM (c.bindClause sources) { read := start } =
      clauses.foldlM (Progress.bindBy (c.translationFrom? sources start)) { read := start } :=
  Run.foldlM_congr (fun p : Progress => start.Resolves p.read) (fun clause _ _ h => bindClause_eq h clause)
    (fun _ _ _ _ h hbind => bindClause_resolves h hbind) (.refl start)

end Compiler

/-! ## What the selector leaves alone -/

/-- Two reads that differ at most in what they return. -/
structure Read.SameRows (r r' : Read) : Prop where
  clauses : r'.clauses = r.clauses
  orderings : r'.orderings = r.orderings
  skip : r'.skip = r.skip
  limit : r'.limit = r.limit

namespace Read.SameRows

variable {r r' r'' : Read}

theorem refl (r : Read) : r.SameRows r :=
  ⟨rfl, rfl, rfl, rfl⟩

theorem trans (h : r.SameRows r') (h' : r'.SameRows r'') : r.SameRows r'' :=
  ⟨h'.clauses.trans h.clauses, h'.orderings.trans h.orderings, h'.skip.trans h.skip, h'.limit.trans h.limit⟩

theorem addItem (r : Read) (e : Expr) (resetStar : Bool) : r.SameRows (r.addItem e resetStar).2 := by
  unfold Read.addItem
  simp only
  split
  · exact refl r
  · exact ⟨rfl, rfl, rfl, rfl⟩

theorem nameMember (r : Read) (key : MemberName) (e : Expr) : r.SameRows (r.nameMember key e).2 := by
  simp only [Read.nameMember, Read.nameUniquely]
  split <;> exact ⟨rfl, rfl, rfl, rfl⟩

end Read.SameRows

/-- Whether a client part makes what is returned. -/
def PartKind.isProjection : PartKind → Bool
  | .projection | .projectionMember _ => true
  | _ => false

/-- What a selector may do to a plan in progress. -/
structure Progress.Selected (p p' : Progress) : Prop where
  read : p.read.SameRows p'.read
  parts : ∃ parts, p'.clientParts = p.clientParts ++ parts ∧ ∀ part ∈ parts, part.kind.isProjection = true

namespace Progress.Selected

variable {p p' p'' : Progress} {kind : PartKind}

theorem ofRead (h : p.read.SameRows p'.read) (hparts : p'.clientParts = p.clientParts) : p.Selected p' :=
  ⟨h, [], by rw [hparts, List.append_nil], fun _ hpart => nomatch hpart⟩

theorem leave (p : Progress) (e : Expr) (hkind : kind.isProjection = true) : p.Selected (p.leave kind e) :=
  ⟨.refl p.read, [⟨kind, e⟩], rfl, fun part hpart => by rw [List.mem_singleton.1 hpart]; exact hkind⟩

theorem leaveEntity (p : Progress) (e : Expr) (hkind : kind.isProjection = true) : p.Selected (p.leaveEntity kind e) :=
  ⟨.refl p.read, (leave p e hkind).parts⟩

theorem trans (h : p.Selected p') (h' : p'.Selected p'') : p.Selected p'' := by
  obtain ⟨parts, hparts, hkinds⟩ := h.parts
  obtain ⟨parts', hparts', hkinds'⟩ := h'.parts
  refine ⟨h.read.trans h'.read, parts ++ parts', ?_, ?_⟩
  · rw [hparts', hparts, List.append_assoc]
  · intro part hpart
    exact (List.mem_append.1 hpart).elim (hkinds part) (hkinds' part)

end Progress.Selected

namespace Compiler

variable {c : Compiler} {sources : SourceTable} {p p' : Progress}

theorem selectMember_selected (typeName : String) (p : Progress) (m : String × Expr) :
    p.Selected (c.selectMember sources typeName p m) := by
  unfold selectMember
  split
  · exact .leave p m.2 rfl
  · split
    · exact .ofRead ((Read.SameRows.addItem _ _ _).trans (.nameMember _ _ _)) rfl
    · exact .leaveEntity p m.2 rfl

theorem returnProperty_sameRows (entity : Entity) (source : SourceId) (read : Read) (property : Property) :
    read.SameRows (returnProperty entity source read property) := by
  unfold returnProperty
  split
  · exact .addItem _ _ _
  · exact .refl read

theorem select_selected {selector : Expr} (h : c.select sources p selector = .ok p') : p.Selected p' := by
  unfold select at h
  split at h
  · split at h
    · cases h
    · split at h
      · cases h
        exact .leaveEntity p _ rfl
      · rename_i entity _
        cases h
        refine .ofRead ?_ rfl
        exact List.foldlRecOn (motive := p.read.SameRows) _ _ (.refl p.read) fun read hread property _ =>
          hread.trans (returnProperty_sameRows _ _ read property)
  · rename_i typeName members
    cases h
    refine List.foldlRecOn (motive := p.Selected) members _ (.ofRead (.refl p.read) rfl) fun p' hp' m _ => ?_
    exact hp'.trans (selectMember_selected typeName p' m)
  · split at h
    · cases h
      exact .ofRead (.addItem _ _ _) rfl
    · cases h
      exact .leaveEntity p _ rfl

theorem returnEntity_sameRows {main : SourceId} {read : Read} (h : returnEntity main p = .ok read) :
    p.read.SameRows read := by
  unfold returnEntity at h
  split at h
  · split at h
    · cases h; exact ⟨rfl, rfl, rfl, rfl⟩
    · cases h
  · cases h; exact .refl p.read

/-- The form in which an expression of a query runs on the server, wherever in the query it stands. -/
def translation? (c : Compiler) (q : Query) (e : Expr) : Option Expr :=
  match Layout.ofQuery c.schema c.settings.binding.defaultAliasPrefix q with
  | .ok l => c.translationFrom? l.sources l.read e
  | .error _ => none

theorem translation_layout {q : Query} {l : Layout}
    (hl : Layout.ofQuery c.schema c.settings.binding.defaultAliasPrefix q = .ok l) :
    c.translation? q = c.translationFrom? l.sources l.read := by
  funext e
  rw [translation?, hl]

/-- The stages of a plan: the layout, the bound clauses, the selector and the entity for the client. -/
theorem plan_stages {q : Query} {plan : Plan} (h : c.plan q = .ok plan) :
    ∃ l p selected, Layout.ofQuery c.schema c.settings.binding.defaultAliasPrefix q = .ok l ∧
      q.clauses.foldlM (c.bindClause l.sources) { read := l.read } = .ok p ∧
      c.select l.sources p q.selector = .ok selected ∧ returnEntity q.main.id selected = .ok plan.read ∧
      plan.clientParts = selected.clientParts := by
  obtain ⟨l, hl, h⟩ := Run.bind_eq_ok.1 h
  obtain ⟨p, hp, h⟩ := Run.bind_eq_ok.1 h
  obtain ⟨selected, hselected, h⟩ := Run.bind_eq_ok.1 h
  obtain ⟨read, hread, h⟩ := Run.bind_eq_ok.1 h
  cases h
  exact ⟨l, p, selected, hl, hp, hselected, hread, rfl⟩

/-- A plan comes from binding the clauses of the query by the translations of their expressions. The selector changes
nothing about the rows. -/
theorem plan_bound {q : Query} {plan : Plan} (h : c.plan q = .ok plan) :
    ∃ l p, Layout.ofQuery c.schema c.settings.binding.defaultAliasPrefix q = .ok l ∧
      q.clauses.foldlM (Progress.bindBy (c.translation? q)) { read := l.read } = .ok p ∧ p.read.SameRows plan.read ∧
        ∃ parts, plan.clientParts = p.clientParts ++ parts ∧ ∀ part ∈ parts, part.kind.isProjection = true := by
  obtain ⟨l, p, selected, hl, hp, hselected, hread, hparts⟩ := plan_stages h
  rw [bindClauses_eq, ← translation_layout hl] at hp
  have hselect := select_selected hselected
  rw [hparts]
  exact ⟨l, p, hl, hp, hselect.read.trans (returnEntity_sameRows hread), hselect.parts⟩

end Compiler

end GraphQuery

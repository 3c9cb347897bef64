import GraphQuery.Proofs.Binding
import Mathlib.Data.List.Infix

/-!
# Conditions on rows

A filter and a join by keys state conditions on rows. A condition stays with the client when it has no translation, or
when the server already limits the rows; every other one joins the condition of the last pattern, which is the only
condition of the read (`Compiler.plan_conditions`). A skip holds no condition back, nor does a limit that the client
applies.
-/

namespace GraphQuery

/-! ## The condition of a read -/

/-- The conjunction of conditions in their order, joined from the left. -/
def Expr.conjunction? : List Expr → Option Expr
  | [] => none
  | e :: es => some (es.foldl (fun joined e => .binary .andAlso joined e {}) e)

def ReadingClause.predicate? : ReadingClause → Option Expr
  | .pattern m => m.predicate
  | .nested _ _ => none

/-- The conditions of the clauses of a read. -/
def Read.conditions (r : Read) : List Expr :=
  r.clauses.filterMap ReadingClause.predicate?

/-- The clauses of a read end with a pattern, and the conjunction of the given conditions stands there and nowhere
else. -/
def Read.RestrictedBy (es : List Expr) (r : Read) : Prop :=
  ∃ others last, r.clauses = others ++ [.pattern last] ∧ (∀ c ∈ others, c.predicate? = none) ∧
    last.predicate = Expr.conjunction? es

theorem ReadingClause.restrictLast_concat (e : Expr) (others : List ReadingClause) (last : PatternMatch) :
    restrictLast? e (others ++ [.pattern last]) = some (others ++ [.pattern (last.restrict e)]) := by
  induction others with
  | nil => rfl
  | cons c others ih => simp only [List.cons_append, restrictLast?, ih]

theorem PatternMatch.restrict_conjunction {es : List Expr} {m : PatternMatch} (h : m.predicate = Expr.conjunction? es)
    (e : Expr) : (m.restrict e).predicate = Expr.conjunction? (es ++ [e]) := by
  cases es with
  | nil =>
    have hnone : m.predicate = none := h
    simp [restrict, hnone, Expr.conjunction?]
  | cons first es =>
    have hsome : m.predicate = some _ := h
    simp [restrict, hsome, Expr.conjunction?, Expr.andAlso, Expr.plain, List.foldl_append]

namespace Read.RestrictedBy

variable {es : List Expr} {e : Expr} {r r' : Read}

theorem conditions (h : r.RestrictedBy es) : r.conditions = (Expr.conjunction? es).toList := by
  obtain ⟨others, last, hclauses, hothers, hlast⟩ := h
  have hnone : others.filterMap ReadingClause.predicate? = [] := List.filterMap_eq_nil_iff.2 hothers
  rw [Read.conditions, hclauses, List.filterMap_append, hnone, ← hlast]
  cases hp : last.predicate <;> simp [ReadingClause.predicate?, hp]

theorem congr (h : r.RestrictedBy es) (hclauses : r'.clauses = r.clauses) : r'.RestrictedBy es := by
  obtain ⟨others, last, hr, hlast⟩ := h
  exact ⟨others, last, hclauses.trans hr, hlast⟩

/-- A condition added to the last pattern joins those that are there. -/
theorem restrict (h : r.RestrictedBy es) (hrestrict : r.restrict? e = some r') : r'.RestrictedBy (es ++ [e]) := by
  obtain ⟨others, last, hclauses, hothers, hlast⟩ := h
  rw [Read.restrict?, hclauses, ReadingClause.restrictLast_concat] at hrestrict
  cases hrestrict
  exact ⟨others, last.restrict e, rfl, hothers, PatternMatch.restrict_conjunction hlast e⟩

/-- The patterns of a layout have no conditions. -/
theorem layout {aliasPrefix : String} {q : Query} {l : Layout} (h : l.WF aliasPrefix q) :
    l.read.RestrictedBy [] := by
  obtain ⟨c, rest, hmain, -⟩ := h.main
  have hne : l.read.clauses ≠ [] := by simp [hmain]
  have hlast := List.dropLast_concat_getLast hne
  obtain ⟨source, pattern, hpattern, -⟩ := h.clauses _ (List.getLast_mem hne)
  rw [hpattern] at hlast
  refine ⟨l.read.clauses.dropLast, .ofSource source pattern, hlast.symm, ?_, rfl⟩
  intro c hc
  obtain ⟨source, pattern, rfl, -⟩ := h.clauses c (List.mem_of_mem_dropLast hc)
  rfl

end Read.RestrictedBy

/-! ## Conditions that stay with the client -/

def ClientPart.isCondition (part : ClientPart) : Bool :=
  part.kind == .predicate || part.kind == .joinCondition

namespace QueryClause

variable (translation : Expr → Option Expr)

/-- The condition on rows that a clause states, as the client part that it may become. -/
def condition? : QueryClause → Option ClientPart
  | .filter e => some ⟨.predicate, e⟩
  | .join j =>
    match j.relationship, j.outerKey, j.innerKey with
    | none, some outer, some inner => some ⟨.joinCondition, .plain .equal outer inner⟩
    | _, _, _ => none
  | _ => none

/-- Whether a clause limits the rows by a count that has a translation. -/
def limits : QueryClause → Bool
  | .take count => (translation count).isSome
  | _ => false

/-- Whether everything that a clause says about rows has a translation. -/
def runs : QueryClause → Bool
  | .orderBy terms => terms.all fun term => (translation term.expr).isSome
  | .take count | .skip count => (translation count).isSome
  | clause => clause.condition?.all fun part => (translation part.expr).isSome

/-- Whether the server limits the rows by the end of some clauses: one of them does so, and all clauses before that one
run there. -/
def limitsOnServer : List QueryClause → Bool
  | [] => false
  | clause :: rest => clause.limits translation || (clause.runs translation && limitsOnServer rest)

/-- Whether a condition behind some clauses is left to the client. -/
def stays (before : List QueryClause) (e : Expr) : Bool :=
  (translation e).isNone || limitsOnServer translation before

/-- The conditions that clauses state, each with the clauses before it. -/
def conditionsBehind (clauses : List QueryClause) : List (List QueryClause × ClientPart) :=
  clauses.zipIdx.filterMap fun (clause, i) => clause.condition?.map fun part => (clauses.take i, part)

/-- The translations of the conditions that the server takes. -/
def serverConditions (clauses : List QueryClause) : List Expr :=
  (conditionsBehind clauses).filterMap fun (before, part) =>
    if stays translation before part.expr then none else translation part.expr

/-- The conditions that stay with the client. -/
def clientConditions (clauses : List QueryClause) : List ClientPart :=
  (conditionsBehind clauses).filterMap fun (before, part) =>
    if stays translation before part.expr then some part else none

theorem limitsOnServer_take {before : List QueryClause} (h : ∀ clause ∈ before, clause.runs translation = true)
    {count : Expr} (hcount : (translation count).isSome = true) :
    limitsOnServer translation (before ++ [.take count]) = true := by
  induction before with
  | nil => simp [limitsOnServer, limits, hcount]
  | cons clause before ih =>
    simp [limitsOnServer, h clause List.mem_cons_self, ih fun c hc => h c (List.mem_cons_of_mem clause hc)]

theorem condition?_isCondition {clause : QueryClause} {part : ClientPart} (h : clause.condition? = some part) :
    part.isCondition = true := by
  unfold condition? at h
  split at h
  · cases h; rfl
  · split at h <;> cases h
    rfl
  · cases h

theorem conditionsBehind_concat (clauses : List QueryClause) (clause : QueryClause) :
    conditionsBehind (clauses ++ [clause]) =
      conditionsBehind clauses ++ (clause.condition?.map fun part => (clauses, part)).toList := by
  unfold conditionsBehind
  rw [List.zipIdx_append, List.filterMap_append]
  congr 1
  · refine List.filterMap_congr fun ⟨c, i⟩ hx => ?_
    have hlt : i < clauses.length := by simpa using List.snd_lt_of_mem_zipIdx hx
    simp only [List.take_append_of_le_length hlt.le]
  · cases hcondition : clause.condition? <;> simp [hcondition]

theorem serverConditions_concat (clauses : List QueryClause) (clause : QueryClause) :
    serverConditions translation (clauses ++ [clause]) =
      serverConditions translation clauses ++ (clause.condition?.bind fun part =>
        if stays translation clauses part.expr then none else translation part.expr).toList := by
  rw [serverConditions, conditionsBehind_concat, List.filterMap_append]
  congr 1
  cases clause.condition? with
  | none => rfl
  | some part =>
    cases hstays : stays translation clauses part.expr <;> cases ht : translation part.expr <;> simp [hstays, ht]

theorem clientConditions_concat (clauses : List QueryClause) (clause : QueryClause) :
    clientConditions translation (clauses ++ [clause]) =
      clientConditions translation clauses ++
        (clause.condition?.filter fun part => stays translation clauses part.expr).toList := by
  rw [clientConditions, conditionsBehind_concat, List.filterMap_append]
  congr 1
  cases clause.condition? with
  | none => rfl
  | some part => cases hstays : stays translation clauses part.expr <;> simp [hstays, Option.filter]

end QueryClause

/-! ## Steps -/

namespace Progress

open QueryClause

variable {translation : Expr → Option Expr} {p p' : Progress} {clause : QueryClause} {part : ClientPart}

theorem bindBy_condition (h : clause.condition? = some part) :
    p.bindBy translation clause = p.filter part.kind part.expr (translation part.expr) := by
  unfold condition? at h
  split at h
  · cases h; rfl
  · rename_i join
    split at h
    · rename_i outer inner hrelationship houter hinner
      cases h
      simp only [bindBy, hrelationship, houter, hinner]
    · cases h
  · cases h

theorem limited_filter {kind : PartKind} {e : Expr} {lowered : Option Expr} (h : p.filter kind e lowered = .ok p') :
    p'.limited = p.limited ∧ (p.limited = false → p'.clientRows = (p.clientRows || lowered.isNone)) := by
  obtain ⟨hstays, rfl⟩ | ⟨condition, read, -, rfl, -, rfl⟩ := filter_cases h
  · refine ⟨rfl, fun hlimited => ?_⟩
    have hnone : lowered = none := hstays.resolve_left (by simp [hlimited])
    simp [leaveRows, hnone]
  · exact ⟨rfl, fun _ => by simp⟩

theorem limited_orders (terms : List SortTerm) (p : Progress) :
    (terms.foldl (fun p term => p.order term (translation term.expr)) p).limited = p.limited ∧
      (p.limited = false →
        (terms.foldl (fun p term => p.order term (translation term.expr)) p).clientRows =
          (p.clientRows || !terms.all fun term => (translation term.expr).isSome)) := by
  induction terms generalizing p with
  | nil => simp
  | cons term terms ih =>
    obtain ⟨hlimited, hrows⟩ := ih (p.order term (translation term.expr))
    simp only [List.foldl_cons, hlimited]
    cases hl : p.limited <;> cases hr : p.clientRows <;> cases ht : translation term.expr <;>
      simp_all [order, leave, leaveRows]

/-- What a clause without a condition leaves alone. -/
theorem bindBy_no_condition (hclause : clause.condition? = none) (h : p.bindBy translation clause = .ok p') :
    p'.read.clauses = p.read.clauses ∧
      p'.clientParts.filter ClientPart.isCondition = p.clientParts.filter ClientPart.isCondition := by
  cases clause with
  | filter e => cases hclause
  | additional _ => cases h; exact ⟨rfl, rfl⟩
  | join join =>
    simp only [bindBy] at h
    split at h
    · cases h; exact ⟨rfl, rfl⟩
    · rename_i outer inner hrelationship houter hinner
      simp only [condition?, hrelationship, houter, hinner] at hclause
      cases hclause
    · cases h
  | orderBy terms =>
    cases h
    refine List.foldlRecOn (motive := fun p' : Progress => p'.read.clauses = p.read.clauses ∧
      p'.clientParts.filter ClientPart.isCondition = p.clientParts.filter ClientPart.isCondition)
      terms _ ⟨rfl, rfl⟩ fun p' hp' term _ => ?_
    obtain ⟨-, h⟩ | ⟨-, h⟩ | ⟨e, -, h⟩ := p'.order_cases term (translation term.expr)
    · rw [h]; simpa [leave, ClientPart.isCondition] using hp'
    · rw [h]; simpa [leave, leaveRows, ClientPart.isCondition] using hp'
    · rw [h]; exact hp'
  | take count =>
    cases h
    obtain ⟨-, h⟩ | ⟨-, e, -, h⟩ := p.take_cases count (translation count)
    · simp [h.read, h.parts, ClientPart.isCondition]
    · rw [h]; exact ⟨rfl, rfl⟩
  | skip count =>
    cases h
    obtain ⟨-, h⟩ | ⟨-, -, e, -, h⟩ := p.skip_cases count (translation count)
    · simp [h.read, h.parts, ClientPart.isCondition]
    · rw [h]; exact ⟨rfl, rfl⟩

/-- Whether the server limits the rows after a clause, and whether the client decides about rows by then. -/
theorem limited_bindBy (h : p.bindBy translation clause = .ok p') :
    p'.limited = (p.limited || (!p.clientRows && clause.limits translation)) ∧
      (p.limited = false → p'.clientRows = (p.clientRows || !clause.runs translation)) := by
  cases clause with
  | filter e => simpa [limits, runs, condition?] using limited_filter h
  | additional _ => cases h; simp [limits, runs, condition?]
  | join join =>
    simp only [bindBy] at h
    split at h
    · rename_i hrelationship
      cases h
      simp [limits, runs, condition?, hrelationship]
    · rename_i hrelationship houter hinner
      simpa [limits, runs, condition?, hrelationship, houter, hinner] using limited_filter h
    · cases h
  | orderBy terms =>
    cases h
    simpa [limits, runs] using limited_orders terms p
  | take count =>
    cases h
    cases hl : p.limited <;> cases hr : p.clientRows <;> cases ht : translation count <;>
      simp [take, leave, leaveRows, limits, runs, hl, hr, ht]
  | skip count =>
    cases h
    cases hl : p.limited <;> cases hr : p.clientRows <;> cases ht : translation count <;>
      simp [skip, leave, leaveRows, limits, runs, hl, hr, ht]

/-- Once the client decides about rows, no limit is added to the read. -/
theorem limited_run {clauses : List QueryClause} (h : clauses.foldlM (bindBy translation) p = .ok p') :
    p'.limited = (p.limited || (!p.clientRows && limitsOnServer translation clauses)) := by
  induction clauses generalizing p with
  | nil =>
    cases h
    simp [limitsOnServer]
  | cons clause clauses ih =>
    obtain ⟨q, hq, h⟩ := Run.bind_eq_ok.1 ((List.foldlM_cons ..).symm.trans h)
    obtain ⟨hlimited, hrows⟩ := limited_bindBy hq
    rw [ih h, hlimited]
    -- Behind a limit nothing is to be shown; before it, whether the client decides about rows is what the clause adds.
    cases hl : p.limited with
    | true => rfl
    | false =>
      rw [hrows hl, limitsOnServer]
      cases p.clientRows <;> cases clause.limits translation <;> cases clause.runs translation <;> rfl

/-- The conditions of the read and of the client parts after some clauses. -/
theorem conditions_run {start : Read} (hstart : start.RestrictedBy []) {clauses : List QueryClause}
    (h : clauses.foldlM (bindBy translation) { read := start } = .ok p) :
    p.read.RestrictedBy (serverConditions translation clauses) ∧
      p.clientParts.filter ClientPart.isCondition = clientConditions translation clauses := by
  -- Whether a condition stays depends on the clauses before it, so the last clause is the one to take off.
  induction clauses using List.reverseRecOn generalizing p with
  | nil =>
    cases h
    exact ⟨hstart, rfl⟩
  | append_singleton clauses clause ih =>
    obtain ⟨q, hq, h⟩ := Run.foldlM_append_eq_ok.1 h
    obtain ⟨hread, hparts⟩ := ih hq
    have hlimited : q.limited = limitsOnServer translation clauses := by simpa using limited_run hq
    have hstep : q.bindBy translation clause = .ok p := by simpa using h
    rw [serverConditions_concat, clientConditions_concat]
    cases hcondition : clause.condition? with
    | none =>
      obtain ⟨hclauses, hfilter⟩ := bindBy_no_condition hcondition hstep
      simpa [hfilter, hparts] using hread.congr hclauses
    | some part =>
      have hkind : part.isCondition = true := condition?_isCondition hcondition
      rw [bindBy_condition hcondition] at hstep
      obtain ⟨hleft, rfl⟩ | ⟨condition, read, hfree, htranslation, hrestrict, rfl⟩ := filter_cases hstep
      · have hstays : stays translation clauses part.expr = true := by
          rcases hleft with hleft | hleft <;> simp [stays, ← hlimited, hleft]
        simp only [Option.bind_some, hstays, if_true, Option.toList_none, List.append_nil]
        refine ⟨hread, ?_⟩
        simp [leaveRows, leave, List.filter_append, hparts, hkind, hstays, Option.filter]
      · have hstays : stays translation clauses part.expr = false := by
          simp [stays, ← hlimited, hfree, htranslation]
        simp only [Option.bind_some, hstays, Option.filter]
        simpa [htranslation, hparts] using hread.restrict hrestrict

end Progress

/-! ## Plans -/

namespace Compiler

open QueryClause

variable {c : Compiler} {q : Query} {plan : Plan}

/-- The read of a plan has one condition, the conjunction of the conditions that do not stay with the client, in the
order of the query. The others are client parts in that order. -/
theorem plan_conditions (h : c.plan q = .ok plan) :
    plan.read.conditions = (Expr.conjunction? (serverConditions (c.translation? q) q.clauses)).toList ∧
      plan.clientParts.filter ClientPart.isCondition = clientConditions (c.translation? q) q.clauses := by
  obtain ⟨l, p, hl, hp, hread, parts, hparts, hkinds⟩ := plan_bound h
  obtain ⟨hconditions, hclient⟩ := Progress.conditions_run (.layout (Layout.ofQuery_wf hl)) hp
  refine ⟨(hconditions.congr hread.clauses).conditions, ?_⟩
  have hnone : parts.filter ClientPart.isCondition = [] := by
    refine List.filter_eq_nil_iff.2 fun part hpart hcondition => ?_
    have hkind := hkinds part hpart
    rcases part with ⟨_ | _ | _ | _ | _ | _ | _, e⟩ <;> simp_all [PartKind.isProjection, ClientPart.isCondition]
  rw [hparts, List.filter_append, hnone, List.append_nil, hclient]

/-! ## Queries for warehouses -/

def warehouseCompiler : Compiler where
  schema := ⟨[{ name := "Warehouse", properties := [⟨"Size", .int32, none, none⟩] }]⟩

def warehouses (clauses : List QueryClause) : Query :=
  let source : Source := ⟨⟨0⟩, "w", .entitySet "Warehouse"⟩
  ⟨source, clauses, source.reference⟩

def sizeIs (size : Int32) : Expr :=
  .plain .equal (Source.member ⟨⟨0⟩, "w", .entitySet "Warehouse"⟩ "Size" .int32) (.ofValue (.int32 size))

def rowCount (n : Int32) : Expr :=
  .ofValue (.int32 n)

/-- The condition that the server reads for one on the size of warehouses. -/
def storedSizeIs (size : Int32) : Expr :=
  .binary .equal (.storage ⟨"Size", ⟨"Warehouse", ⟨"Size", .int32, none, none⟩⟩, ⟨some "w", ["Warehouse"]⟩⟩)
    (.constant (.int32 size) .int32) {}

/-- A number of rows that only the client knows. -/
def pageSize : Expr :=
  .call none "PageSize" [] .int32

/-- A condition before the limit of the server and one behind it. -/
theorem plan_conditions_of_limited :
    ∃ plan, warehouseCompiler.plan
        (warehouses [.filter (sizeIs 1), .take (rowCount 3), .skip pageSize, .filter (sizeIs 2)]) = .ok plan ∧
      plan.read.conditions = [storedSizeIs 1] ∧
      plan.clientParts.filter ClientPart.isCondition = [⟨.predicate, sizeIs 2⟩] := by
  have hplan : ∃ plan, warehouseCompiler.plan
      (warehouses [.filter (sizeIs 1), .take (rowCount 3), .skip pageSize, .filter (sizeIs 2)]) = .ok plan :=
    ⟨_, rfl⟩
  obtain ⟨plan, hplan⟩ := hplan
  obtain ⟨hread, hclient⟩ := plan_conditions hplan
  exact ⟨plan, hplan, hread, hclient⟩

/-- A condition behind a limit that the client applies, and one behind a skip, are conditions of the read. -/
theorem conditions_cross_paging :
    (∃ plan, warehouseCompiler.plan (warehouses [.take pageSize, .filter (sizeIs 1)]) = .ok plan ∧
      plan.read.conditions = [storedSizeIs 1] ∧ plan.clientParts = [⟨.limit, pageSize⟩]) ∧
    (∃ plan, warehouseCompiler.plan (warehouses [.skip (rowCount 3), .filter (sizeIs 1)]) = .ok plan ∧
      plan.read.conditions = [storedSizeIs 1] ∧ plan.read.skip = some (rowCount 3) ∧ plan.clientParts = []) :=
  ⟨⟨_, rfl, rfl, rfl⟩, ⟨_, rfl, rfl, rfl, rfl⟩⟩

end Compiler

end GraphQuery

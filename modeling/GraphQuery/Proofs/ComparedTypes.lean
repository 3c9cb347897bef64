import GraphQuery.Proofs.InitialScope

/-!
# The types of compared operands

Most comparisons are widened and checked when they are lowered, so that both operands have one type. Two kinds are not:
an equality of tuples compares their members as they are, and a test that is one value is compared with `true` whatever
its type. `Scope.uncheckedPairs` collects the operands of these, and a lowered expression compares operands of different
types exactly where they do (`Scope.lower_compares_types`).
-/

namespace GraphQuery

namespace Expr

/-- Somewhere in an expression two operands are compared. -/
def Compares (x y e : Expr) : Prop :=
  ∃ op d, op.isComparison = true ∧ .binary op x y d ∈ e.nodes

variable {x y : Expr}

theorem compares_conditional {c a b : Expr} {type : ValueType} :
    Compares x y (.conditional c a b type) ↔ Compares x y c ∨ Compares x y a ∨ Compares x y b := by
  simp only [Compares, nodes, List.mem_cons, List.mem_append, reduceCtorEq, false_or]
  constructor
  · rintro ⟨op, d, hop, hc | ha | hb⟩
    · exact .inl ⟨op, d, hop, hc⟩
    · exact .inr (.inl ⟨op, d, hop, ha⟩)
    · exact .inr (.inr ⟨op, d, hop, hb⟩)
  · rintro (⟨op, d, hop, hc⟩ | ⟨op, d, hop, ha⟩ | ⟨op, d, hop, hb⟩)
    · exact ⟨op, d, hop, .inl hc⟩
    · exact ⟨op, d, hop, .inr (.inl ha)⟩
    · exact ⟨op, d, hop, .inr (.inr hb)⟩

theorem compares_sequence {items : List Expr} : Compares x y (.sequence items) ↔ ∃ e ∈ items, Compares x y e := by
  simp only [Compares, nodes, List.mem_cons, reduceCtorEq, false_or, mem_nodesOfList]
  constructor
  · rintro ⟨op, d, hop, e, he, hn⟩
    exact ⟨e, he, op, d, hop, hn⟩
  · rintro ⟨e, he, op, d, hop, hn⟩
    exact ⟨op, d, hop, e, he, hn⟩

theorem not_compares_storage (p : StoredProperty) : ¬Compares x y (.storage p) := by
  simp [Compares, nodes]

/-- A comparison of operands of different types comes from the operands of an expression, or from the expression
itself. -/
theorem compares_inherited (hxy : x.type ≠ y.type) :
    Inherited (Compares x y) fun op l r => op.isComparison = true ∧ (l, r) = (x, y) where
  constant v t := by simp [Compares, nodes]
  convert := by simp [Compares, nodes]
  not := by simp [Compares, nodes]
  isNull := by simp [Compares, nodes]
  binary := by
    intro op l r d
    simp only [Compares, nodes, List.mem_cons, List.mem_append, binary.injEq, Prod.mk.injEq]
    constructor
    · rintro ⟨op', d', hop, ⟨rfl, rfl, rfl, rfl⟩ | hl | hr⟩
      · exact .inl ⟨hop, rfl, rfl⟩
      · exact .inr (.inl ⟨op', d', hop, hl⟩)
      · exact .inr (.inr ⟨op', d', hop, hr⟩)
    · rintro (⟨hop, rfl, rfl⟩ | ⟨op', d', hop, hl⟩ | ⟨op', d', hop, hr⟩)
      · exact ⟨op, d, hop, .inl ⟨rfl, rfl, rfl, rfl⟩⟩
      · exact ⟨op', d', hop, .inr (.inl hl)⟩
      · exact ⟨op', d', hop, .inr (.inr hr)⟩
  own_comparison := by
    rintro op l r ⟨hop, heq⟩
    cases heq
    exact ⟨hop, hxy⟩

theorem ofMembers_compares (hxy : x.type ≠ y.type) {e : Expr} : e.OfMembers (Compares x y) ↔ Compares x y e := by
  unfold OfMembers
  split
  · rename_i items hitems
    rw [← (compares_inherited hxy).bare, hitems, compares_sequence]
  · rfl

end Expr

namespace Scope

/-! ## Comparisons without a check -/

/-- The pairs of members that an equality compares as they are. -/
def memberPairs (s : Scope) (mode : Mode) (left right : Expr) : List (Expr × Expr) :=
  match (s.lower mode left).result, (s.lower mode right).result with
  | some l, some r => Expr.comparedMembers l r
  | _, _ => []

/-- The comparison with `true` of a test that is one value. -/
def testPairs (s : Scope) (mode : Mode) (test : Expr) : List (Expr × Expr) :=
  match (s.lower mode test).result with
  | some t => if t.isOneValue then [(t, .truth)] else []
  | none => []

mutual

/-- The operands that lowering compares without a look at their types. -/
def uncheckedPairs (s : Scope) (mode : Mode) : Expr → List (Expr × Expr)
  | .binary op left right _ =>
    s.uncheckedPairs mode left ++ (s.uncheckedPairs mode right ++
      if op.isEquality then s.memberPairs mode left right else [])
  | .conditional test ifTrue ifFalse _ =>
    match Expr.guardedBranch? test ifTrue ifFalse with
    | some .ifTrue => s.uncheckedPairs mode ifTrue
    | some .ifFalse => s.uncheckedPairs mode ifFalse
    | none =>
      (s.uncheckedPairs mode test ++ s.testPairs mode test) ++
        (s.uncheckedPairs mode ifTrue ++ s.uncheckedPairs mode ifFalse)
  | .convert operand _ | .not operand | .isNull operand => s.uncheckedPairs mode operand
  | .sequence items => s.uncheckedPairsOfAll mode items
  | .constant .. | .member .. | .source .. | .storage _ | .aliased .. | .negate _ | .call .. | .parameter ..
  | .construct .. | .subquery _ | .extension .. | .read _ => []

def uncheckedPairsOfAll (s : Scope) (mode : Mode) : List Expr → List (Expr × Expr)
  | [] => []
  | e :: rest => s.uncheckedPairs mode e ++ s.uncheckedPairsOfAll mode rest

end

variable {s : Scope} {q : Query} {x y : Expr} {mode : Mode}

theorem conditionalTest_compares (hxy : x.type ≠ y.type) {test t : Expr} (h : (s.lower mode test).result = some t) :
    Expr.Compares x y (conditionalTest t) ↔ Expr.Compares x y t ∨ (x, y) ∈ s.testPairs mode test := by
  have hinherited := Expr.compares_inherited hxy
  have htruth : ¬Expr.Compares x y .truth := hinherited.constant _ _
  unfold conditionalTest testPairs
  rw [h]
  simp only
  split
  · rw [Expr.plain, hinherited.binary, or_iff_left htruth, or_comm]
    simp [Operator.isComparison, eq_comm]
  · simp

mutual

/-- Operands of different types are compared in a lowered expression if they are compared without a look at their
types. -/
theorem lower_compares (hs : s.IsInitial q) (hxy : x.type ≠ y.type) (mode : Mode) : ∀ (e : Expr) {t : Expr},
    e.IsFrontEnd → (s.lower mode e).result = some t → (Expr.Compares x y t ↔ (x, y) ∈ s.uncheckedPairs mode e)
  | .binary op left right detail, t, he, h => by
    obtain ⟨-, hl, hr⟩ := Expr.allNodes_binary.1 he
    simp only [lower, Outcome.result_bind, Option.bind_eq_some_iff] at h
    obtain ⟨l, hl', r, hr', h⟩ := h
    rw [(Expr.compares_inherited hxy).combine h, Expr.ofMembers_compares hxy, Expr.ofMembers_compares hxy,
      lower_compares hs hxy mode left hl hl', lower_compares hs hxy mode right hr hr', uncheckedPairs, List.mem_append,
      List.mem_append]
    -- The node itself compares different types only as an equality of tuples, at pairs of their members.
    split
    · rename_i hop
      rw [memberPairs, hl', hr']
      simp [Operator.isComparison_of_isEquality hop]
    · simp
  | .conditional test ifTrue ifFalse type, t, he, h => by
    obtain ⟨-, hc, ha, hb⟩ := Expr.allNodes_conditional.1 he
    rw [lower] at h
    rw [uncheckedPairs]
    generalize Expr.guardedBranch? test ifTrue ifFalse = branch at h ⊢
    rcases branch with _ | _ | _
    · simp only [Outcome.result_bind, Option.bind_eq_some_iff] at h
      obtain ⟨c, hc', a, ha', b, hb', h⟩ := h
      cases h
      rw [Expr.compares_conditional, conditionalTest_compares hxy hc', lower_compares hs hxy mode test hc hc',
        lower_compares hs hxy mode ifTrue ha ha', lower_compares hs hxy mode ifFalse hb hb']
      simp only [List.mem_append]
    · exact lower_compares hs hxy mode ifTrue ha h
    · exact lower_compares hs hxy mode ifFalse hb h
  | .member target m, t, _, h => by
    rw [lower] at h
    obtain ⟨p, rfl⟩ := hs.lowerMember h
    rw [uncheckedPairs]
    exact iff_of_false (Expr.not_compares_storage p) List.not_mem_nil
  | .source id type, t, _, h => by
    rw [lower] at h
    rw [uncheckedPairs]
    refine iff_of_false ?_ List.not_mem_nil
    obtain ⟨-, p, rfl⟩ | ⟨-, items, rfl, hitems⟩ := hs.lowerSource h
    · exact Expr.not_compares_storage p
    · rw [Expr.compares_sequence]
      rintro ⟨e, he, hcompares⟩
      obtain ⟨p, rfl⟩ := hitems e he
      exact Expr.not_compares_storage p hcompares
  | .constant value type, t, _, h => by
    rw [lower, lowerConstant] at h
    rw [uncheckedPairs]
    split at h
    · cases h
      exact iff_of_false ((Expr.compares_inherited hxy).constant _ _) List.not_mem_nil
    · cases h
  | .convert operand type, t, he, h => by
    simp only [lower, Outcome.result_bind, Option.bind_eq_some_iff] at h
    obtain ⟨o, ho, h⟩ := h
    cases h
    rw [(Expr.compares_inherited hxy).convert, uncheckedPairs]
    exact lower_compares hs hxy mode operand (Expr.allNodes_convert.1 he).2 ho
  | .not operand, t, he, h => by
    simp only [lower, Outcome.result_bind, Option.bind_eq_some_iff] at h
    obtain ⟨o, ho, h⟩ := h
    cases h
    rw [(Expr.compares_inherited hxy).not, uncheckedPairs]
    exact lower_compares hs hxy mode operand (Expr.allNodes_not.1 he).2 ho
  | .isNull operand, t, he, h => by
    simp only [lower, Outcome.result_bind, Option.bind_eq_some_iff] at h
    obtain ⟨o, ho, h⟩ := h
    cases h
    rw [(Expr.compares_inherited hxy).isNull, uncheckedPairs]
    exact lower_compares hs hxy mode operand (Expr.allNodes_isNull.1 he).2 ho
  | .sequence items, t, he, h => by
    simp only [lower, Outcome.result_bind, Option.bind_eq_some_iff] at h
    obtain ⟨xs, hxs, h⟩ := h
    cases h
    rw [Expr.compares_sequence, uncheckedPairs]
    exact lowerAll_compares hs hxy mode items (Expr.allNodes_sequence.1 he).2 hxs
  | .storage _, _, he, _ | .aliased .., _, he, _ => by
    cases he.self
  | .negate _, _, _, h | .call .., _, _, h | .parameter .., _, _, h | .construct .., _, _, h
  | .subquery _, _, _, h | .extension .., _, _, h | .read _, _, _, h => by
    rw [lower] at h
    cases h

theorem lowerAll_compares (hs : s.IsInitial q) (hxy : x.type ≠ y.type) (mode : Mode) :
    ∀ (es : List Expr) {ts : List Expr}, (∀ e ∈ es, e.IsFrontEnd) → (s.lowerAll mode es).result = some ts →
      ((∃ t ∈ ts, Expr.Compares x y t) ↔ (x, y) ∈ s.uncheckedPairsOfAll mode es)
  | [], ts, _, h => by
    rw [lowerAll] at h
    cases h
    rw [uncheckedPairsOfAll]
    simp
  | e :: es, ts, hes, h => by
    simp only [lowerAll, Outcome.result_bind, Option.bind_eq_some_iff] at h
    obtain ⟨t, ht, ts', hts, h⟩ := h
    cases h
    rw [uncheckedPairsOfAll, List.mem_append, ← lower_compares hs hxy mode e (hes e List.mem_cons_self) ht,
      ← lowerAll_compares hs hxy mode es (fun e he => hes e (List.mem_cons_of_mem _ he)) hts]
    simp

end

/-- In a lowered front-end expression operands of different types are compared exactly where they are compared without a
look at their types. So all comparisons are of operands of one type exactly when these are. -/
theorem lower_compares_types (hs : s.IsInitial q) {e t : Expr} (he : e.IsFrontEnd)
    (h : (s.lower mode e).result = some t) :
    (∀ l r, l.type ≠ r.type → (Expr.Compares l r t ↔ (l, r) ∈ s.uncheckedPairs mode e)) ∧
    ((∀ op l r d, op.isComparison = true → .binary op l r d ∈ t.nodes → l.type = r.type) ↔
      ∀ p ∈ s.uncheckedPairs mode e, p.1.type = p.2.type) := by
  have hcompares : ∀ l r, l.type ≠ r.type → (Expr.Compares l r t ↔ (l, r) ∈ s.uncheckedPairs mode e) :=
    fun l r hne => lower_compares hs hne mode e he h
  refine ⟨hcompares, fun hsame p hp => ?_, fun hpairs op l r d hop hn => ?_⟩
  · refine Classical.byContradiction fun hne => ?_
    obtain ⟨op, d, hop, hn⟩ := (hcompares p.1 p.2 hne).2 hp
    exact hne (hsame op p.1 p.2 d hop hn)
  · refine Classical.byContradiction fun hne => ?_
    exact hne (hpairs (l, r) ((hcompares l r hne).1 ⟨op, d, hop, hn⟩))

/-! ## Keys and sizes of warehouses -/

/-- The equality of two tuples, each of one member of a warehouse. -/
def equalMembers (left right : Expr) : Expr :=
  .plain .equal (.sequence [left]) (.sequence [right])

theorem lower_compares_types_of_sizes :
    let size := warehouses.member "Size" .int32
    ∃ t, (warehouseScope.lower .condition (equalMembers size size)).result = some t ∧
      ∀ op l r d, op.isComparison = true → .binary op l r d ∈ t.nodes → l.type = r.type := by
  intro size
  have hfrontEnd : (equalMembers size size).IsFrontEnd := by
    unfold Expr.IsFrontEnd Expr.AllNodes
    decide
  have hlower : (warehouseScope.lower .condition (equalMembers size size)).result = some _ := rfl
  refine ⟨_, hlower, (lower_compares_types warehouseScope_isInitial hfrontEnd hlower).2.2 ?_⟩
  decide

/-- A size and a key of different types are compared as members of tuples, and a size with `true` as a test. -/
theorem compares_size_with_key :
    let size := warehouses.member "Size" .int32
    let key := warehouses.member "Id" .int64
    let sizes := Expr.conditional size (.ofValue (.int32 1)) (.ofValue (.int32 2)) .int32
    ∀ e ∈ [equalMembers size key, sizes], ∃ t, (warehouseScope.lower .condition e).result = some t ∧
      ∃ op l r d, op.isComparison = true ∧ .binary op l r d ∈ t.nodes ∧ l.type ≠ r.type := by
  intro size key sizes e he
  rcases List.mem_pair.1 he with rfl | rfl
  · exact ⟨_, rfl, .equal, _, _, _, rfl, List.mem_cons_of_mem _ List.mem_cons_self, by decide⟩
  · exact ⟨_, rfl, .equal, _, _, _, rfl, List.mem_cons_of_mem _ List.mem_cons_self, by decide⟩

end Scope

end GraphQuery

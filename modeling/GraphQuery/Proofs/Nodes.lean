import GraphQuery.Expr.Shape

/-!
# The nodes of an expression

All expressions that occur in an expression, itself included, down through nested queries and nested reads. A condition
on the nodes says which expressions may occur at all, such as "no output name" or "no stored property without an alias".
-/

namespace GraphQuery

mutual

/-- The nodes of an expression, itself first. -/
def Expr.nodes : Expr → List Expr
  | .constant v t => [.constant v t]
  | .parameter n t => [.parameter n t]
  | .source id t => [.source id t]
  | .member target m => .member target m :: target.nodes
  | .binary op l r x => .binary op l r x :: (l.nodes ++ r.nodes)
  | .conditional c a b t => .conditional c a b t :: (c.nodes ++ (a.nodes ++ b.nodes))
  | .convert e t => .convert e t :: e.nodes
  | .not e => .not e :: e.nodes
  | .negate e => .negate e :: e.nodes
  | .isNull e => .isNull e :: e.nodes
  | .call e m as t => .call e m as t :: (Expr.nodesOfOption e ++ Expr.nodesOfList as)
  | .construct n ms => .construct n ms :: Expr.nodesOfMembers ms
  | .subquery q => .subquery q :: q.nodes
  | .extension n t => [.extension n t]
  | .sequence as => .sequence as :: Expr.nodesOfList as
  | .storage p => [.storage p]
  | .aliased n e => .aliased n e :: e.nodes
  | .read r => .read r :: r.nodes

def Expr.nodesOfOption : Option Expr → List Expr
  | none => []
  | some e => e.nodes

def Expr.nodesOfList : List Expr → List Expr
  | [] => []
  | e :: es => e.nodes ++ Expr.nodesOfList es

def Expr.nodesOfMembers : List (String × Expr) → List Expr
  | [] => []
  | (_, e) :: ms => e.nodes ++ Expr.nodesOfMembers ms

def Read.nodesOfProjections : List (MemberName × Expr) → List Expr
  | [] => []
  | (_, e) :: ps => e.nodes ++ Read.nodesOfProjections ps

/-- The nodes of all expressions of a read. -/
def Read.nodes : Read → List Expr
  | ⟨clauses, items, orderings, limit, skip, _, _, projections, _⟩ =>
    ReadingClause.nodesOfList clauses ++ (Expr.nodesOfList items ++ (SortTerm.nodesOfList orderings
      ++ (Expr.nodesOfOption limit ++ (Expr.nodesOfOption skip ++ Read.nodesOfProjections projections))))

def PatternMatch.nodes : PatternMatch → List Expr
  | ⟨_, predicate, _, _⟩ => Expr.nodesOfOption predicate

def ReadingClause.nodes : ReadingClause → List Expr
  | .pattern c => c.nodes
  | .nested _ r => r.nodes

def ReadingClause.nodesOfList : List ReadingClause → List Expr
  | [] => []
  | c :: cs => c.nodes ++ ReadingClause.nodesOfList cs

def SortTerm.nodes : SortTerm → List Expr
  | ⟨expr, _⟩ => expr.nodes

def SortTerm.nodesOfList : List SortTerm → List Expr
  | [] => []
  | t :: ts => t.nodes ++ SortTerm.nodesOfList ts

/-- The nodes of the query behind a source. -/
def SourceKind.nodes : SourceKind → List Expr
  | .entitySet _ => []
  | .subquery q => q.nodes

def Source.nodes : Source → List Expr
  | ⟨_, _, kind⟩ => kind.nodes

/-- The nodes of a join: those of its source and of its keys. -/
def Join.nodes : Join → List Expr
  | ⟨source, _, _, outerKey, innerKey⟩ =>
    source.nodes ++ (Expr.nodesOfOption outerKey ++ Expr.nodesOfOption innerKey)

def QueryClause.nodes : QueryClause → List Expr
  | .filter e => e.nodes
  | .additional s => s.nodes
  | .join j => j.nodes
  | .orderBy ts => SortTerm.nodesOfList ts
  | .take e => e.nodes
  | .skip e => e.nodes

def QueryClause.nodesOfList : List QueryClause → List Expr
  | [] => []
  | c :: cs => c.nodes ++ QueryClause.nodesOfList cs

/-- The nodes of all expressions of a query. -/
def Query.nodes : Query → List Expr
  | ⟨main, clauses, selector⟩ =>
    main.nodes ++ (QueryClause.nodesOfList clauses ++ selector.nodes)

end

/-! ## Nodes of lists -/

theorem Expr.mem_nodesOfList {n : Expr} {es : List Expr} :
    n ∈ Expr.nodesOfList es ↔ ∃ e ∈ es, n ∈ e.nodes := by
  induction es with
  | nil => simp [Expr.nodesOfList]
  | cons e es ih => simp [Expr.nodesOfList, ih]

theorem Expr.mem_nodesOfMembers {n : Expr} {ms : List (String × Expr)} :
    n ∈ Expr.nodesOfMembers ms ↔ ∃ m ∈ ms, n ∈ m.2.nodes := by
  induction ms with
  | nil => simp [Expr.nodesOfMembers]
  | cons m ms ih => simp [Expr.nodesOfMembers, ih]

theorem SortTerm.mem_nodesOfList {n : Expr} {ts : List SortTerm} :
    n ∈ SortTerm.nodesOfList ts ↔ ∃ t ∈ ts, n ∈ t.expr.nodes := by
  induction ts with
  | nil => simp [SortTerm.nodesOfList]
  | cons t ts ih =>
    obtain ⟨e, _⟩ := t
    simp [SortTerm.nodesOfList, SortTerm.nodes, ih]

theorem QueryClause.mem_nodesOfList {n : Expr} {cs : List QueryClause} :
    n ∈ QueryClause.nodesOfList cs ↔ ∃ c ∈ cs, n ∈ c.nodes := by
  induction cs with
  | nil => simp [QueryClause.nodesOfList]
  | cons c cs ih => simp [QueryClause.nodesOfList, ih]

theorem Query.mem_nodes_of_clause {n : Expr} {q : Query} {c : QueryClause} (hc : c ∈ q.clauses)
    (hn : n ∈ c.nodes) : n ∈ q.nodes := by
  obtain ⟨main, clauses, selector⟩ := q
  rw [Query.nodes]
  exact List.mem_append_right _ (List.mem_append_left _ (QueryClause.mem_nodesOfList.2 ⟨c, hc, hn⟩))

theorem Query.mem_nodes_of_selector {n : Expr} {q : Query} (hn : n ∈ q.selector.nodes) : n ∈ q.nodes := by
  obtain ⟨main, clauses, selector⟩ := q
  rw [Query.nodes]
  exact List.mem_append_right _ (List.mem_append_right _ hn)

/-! ## Conditions on all nodes -/

/-- Every node of an expression satisfies `v`. -/
def Expr.AllNodes (v : Expr → Prop) (e : Expr) : Prop :=
  ∀ n ∈ e.nodes, v n

namespace Expr

variable {v w : Expr → Prop}

theorem AllNodes.imp {e : Expr} (h : e.AllNodes v) (hvw : ∀ n, v n → w n) : e.AllNodes w :=
  fun n hn => hvw n (h n hn)

/-- An expression is a node of itself. -/
theorem self_mem_nodes (e : Expr) : e ∈ e.nodes := by
  cases e <;> simp [nodes]

theorem AllNodes.self {e : Expr} (h : e.AllNodes v) : v e :=
  h e e.self_mem_nodes

@[simp] theorem allNodes_constant {x : Value} {t : ValueType} :
    (constant x t).AllNodes v ↔ v (.constant x t) :=
  List.forall_mem_singleton

@[simp] theorem allNodes_storage {p : StoredProperty} : (storage p).AllNodes v ↔ v (.storage p) :=
  List.forall_mem_singleton

@[simp] theorem allNodes_binary {op : Operator} {l r : Expr} {x : OperatorDetail} :
    (binary op l r x).AllNodes v ↔ v (.binary op l r x) ∧ l.AllNodes v ∧ r.AllNodes v :=
  List.forall_mem_cons.trans (and_congr_right fun _ => List.forall_mem_append)

@[simp] theorem allNodes_conditional {c a b : Expr} {t : ValueType} :
    (conditional c a b t).AllNodes v ↔
      v (.conditional c a b t) ∧ c.AllNodes v ∧ a.AllNodes v ∧ b.AllNodes v := by
  refine List.forall_mem_cons.trans (and_congr_right fun _ => List.forall_mem_append.trans ?_)
  exact and_congr_right fun _ => List.forall_mem_append

@[simp] theorem allNodes_convert {e : Expr} {t : ValueType} :
    (convert e t).AllNodes v ↔ v (.convert e t) ∧ e.AllNodes v :=
  List.forall_mem_cons

@[simp] theorem allNodes_not {e : Expr} : (not e).AllNodes v ↔ v (.not e) ∧ e.AllNodes v :=
  List.forall_mem_cons

@[simp] theorem allNodes_isNull {e : Expr} : (isNull e).AllNodes v ↔ v (.isNull e) ∧ e.AllNodes v :=
  List.forall_mem_cons

@[simp] theorem allNodes_aliased {name : Option String} {e : Expr} :
    (aliased name e).AllNodes v ↔ v (.aliased name e) ∧ e.AllNodes v :=
  List.forall_mem_cons

@[simp] theorem allNodes_sequence {es : List Expr} :
    (sequence es).AllNodes v ↔ v (.sequence es) ∧ ∀ e ∈ es, e.AllNodes v := by
  refine List.forall_mem_cons.trans (and_congr_right fun _ => ?_)
  constructor
  · intro h e he n hn
    exact h n (mem_nodesOfList.2 ⟨e, he, hn⟩)
  · intro h n hn
    obtain ⟨e, he, hn⟩ := mem_nodesOfList.1 hn
    exact h e he n hn

/-- The nodes under conversions are nodes of the converted expression. -/
theorem AllNodes.bare {e : Expr} (h : e.AllNodes v) : e.bare.AllNodes v := by
  fun_induction Expr.bare e with
  | case1 e t ih => exact ih (allNodes_convert.1 h).2
  | case2 e => exact h

end Expr

end GraphQuery

import GraphQuery.Read.Clauses

/-!
# Rewriting

An expression is rewritten node by node from the inside, down through nested queries and nested reads, and the ids of
sources are replaced wherever they stand. A node knows whether it is a branch of a conditional, perhaps under
conversions.
-/

namespace GraphQuery

/-- What becomes of a node whose own expressions have been rewritten, and of a source id. -/
structure Rewriting where
  /-- The first argument says whether the node is a branch of a conditional. -/
  node : Bool → Expr → Expr := fun _ e => e
  source : SourceId → SourceId := fun id => id

mutual

def Expr.rewrite (w : Rewriting) (branch : Bool) : Expr → Expr
  | .constant v t => w.node branch (.constant v t)
  | .parameter n t => w.node branch (.parameter n t)
  | .source id t => w.node branch (.source (w.source id) t)
  | .member target m => w.node branch (.member (target.rewrite w false) m)
  | .binary op l r x => w.node branch (.binary op (l.rewrite w false) (r.rewrite w false) x)
  | .conditional c a b t =>
    w.node branch (.conditional (c.rewrite w false) (a.rewrite w true) (b.rewrite w true) t)
  | .convert e t => w.node branch (.convert (e.rewrite w branch) t)
  | .not e => w.node branch (.not (e.rewrite w false))
  | .negate e => w.node branch (.negate (e.rewrite w false))
  | .isNull e => w.node branch (.isNull (e.rewrite w false))
  | .call e m as t => w.node branch (.call (Expr.rewriteOption w e) m (Expr.rewriteList w as) t)
  | .construct n ms => w.node branch (.construct n (Expr.rewriteMembers w ms))
  | .subquery q => w.node branch (.subquery (q.rewrite w))
  | .extension n t => w.node branch (.extension n t)
  | .sequence as => w.node branch (.sequence (Expr.rewriteList w as))
  | .storage p => w.node branch (.storage p)
  | .aliased n e => w.node branch (.aliased n (e.rewrite w false))
  | .read r => w.node branch (.read (r.rewrite w))

def Expr.rewriteOption (w : Rewriting) : Option Expr → Option Expr
  | none => none
  | some e => some (e.rewrite w false)

def Expr.rewriteList (w : Rewriting) : List Expr → List Expr
  | [] => []
  | e :: es => e.rewrite w false :: Expr.rewriteList w es

def Expr.rewriteMembers (w : Rewriting) : List (String × Expr) → List (String × Expr)
  | [] => []
  | (name, e) :: ms => (name, e.rewrite w false) :: Expr.rewriteMembers w ms

def Read.rewriteProjections (w : Rewriting) : List (MemberName × Expr) → List (MemberName × Expr)
  | [] => []
  | (key, e) :: ps => (key, e.rewrite w false) :: Read.rewriteProjections w ps

def Read.rewrite (w : Rewriting) : Read → Read
  | ⟨clauses, items, orderings, limit, skip, star, starNode, projections, aliasPrefix⟩ =>
    ⟨ReadingClause.rewriteList w clauses, Expr.rewriteList w items, SortTerm.rewriteList w orderings,
      Expr.rewriteOption w limit, Expr.rewriteOption w skip, star, starNode, Read.rewriteProjections w projections,
      aliasPrefix⟩

def PatternMatch.rewrite (w : Rewriting) : PatternMatch → PatternMatch
  | ⟨pattern, predicate, optional, source⟩ =>
    ⟨pattern, Expr.rewriteOption w predicate, optional, source.map w.source⟩

def ReadingClause.rewrite (w : Rewriting) : ReadingClause → ReadingClause
  | .pattern c => .pattern (c.rewrite w)
  | .nested source r => .nested (source.map w.source) (r.rewrite w)

def ReadingClause.rewriteList (w : Rewriting) : List ReadingClause → List ReadingClause
  | [] => []
  | c :: cs => c.rewrite w :: ReadingClause.rewriteList w cs

def SortTerm.rewrite (w : Rewriting) : SortTerm → SortTerm
  | ⟨expr, descending⟩ => ⟨expr.rewrite w false, descending⟩

def SortTerm.rewriteList (w : Rewriting) : List SortTerm → List SortTerm
  | [] => []
  | t :: ts => t.rewrite w :: SortTerm.rewriteList w ts

def SourceKind.rewrite (w : Rewriting) : SourceKind → SourceKind
  | .entitySet entity => .entitySet entity
  | .subquery q => .subquery (q.rewrite w)

def Source.rewrite (w : Rewriting) : Source → Source
  | ⟨id, itemName, kind⟩ => ⟨w.source id, itemName, kind.rewrite w⟩

def Join.rewrite (w : Rewriting) : Join → Join
  | ⟨source, outer, relationship, outerKey, innerKey⟩ =>
    ⟨source.rewrite w, w.source outer, relationship, Expr.rewriteOption w outerKey, Expr.rewriteOption w innerKey⟩

def QueryClause.rewrite (w : Rewriting) : QueryClause → QueryClause
  | .filter e => .filter (e.rewrite w false)
  | .additional s => .additional (s.rewrite w)
  | .join j => .join (j.rewrite w)
  | .orderBy ts => .orderBy (SortTerm.rewriteList w ts)
  | .take e => .take (e.rewrite w false)
  | .skip e => .skip (e.rewrite w false)

def QueryClause.rewriteList (w : Rewriting) : List QueryClause → List QueryClause
  | [] => []
  | c :: cs => c.rewrite w :: QueryClause.rewriteList w cs

def Query.rewrite (w : Rewriting) : Query → Query
  | ⟨main, clauses, selector⟩ =>
    ⟨main.rewrite w, QueryClause.rewriteList w clauses, selector.rewrite w false⟩

end

variable (w : Rewriting)

/-! ## Lists and fields -/

theorem Expr.rewriteList_eq_map : ∀ es : List Expr, Expr.rewriteList w es = es.map (Expr.rewrite w false)
  | [] => rfl
  | _ :: es => congrArg (List.cons _) (Expr.rewriteList_eq_map es)

theorem SortTerm.rewriteList_eq_map : ∀ ts : List SortTerm, SortTerm.rewriteList w ts = ts.map (SortTerm.rewrite w)
  | [] => rfl
  | _ :: ts => congrArg (List.cons _) (SortTerm.rewriteList_eq_map ts)

theorem ReadingClause.rewriteList_eq_map :
    ∀ cs : List ReadingClause, ReadingClause.rewriteList w cs = cs.map (ReadingClause.rewrite w)
  | [] => rfl
  | _ :: cs => congrArg (List.cons _) (ReadingClause.rewriteList_eq_map cs)

theorem QueryClause.rewriteList_eq_map :
    ∀ cs : List QueryClause, QueryClause.rewriteList w cs = cs.map (QueryClause.rewrite w)
  | [] => rfl
  | _ :: cs => congrArg (List.cons _) (QueryClause.rewriteList_eq_map cs)

theorem Expr.rewriteMembers_eq_map :
    ∀ ms : List (String × Expr), Expr.rewriteMembers w ms = ms.map (Prod.map id (Expr.rewrite w false))
  | [] => rfl
  | _ :: ms => congrArg (List.cons _) (Expr.rewriteMembers_eq_map ms)

/-- Changing the values of a table commutes with setting one. -/
theorem Table.map_insert {κ α β : Type} [DecidableEq κ] [KeyOrder κ] (f : α → β) (key : κ) (value : α)
    (t : Table κ α) :
    (Table.insert key value t).map (Prod.map id f) = Table.insert key (f value) (t.map (Prod.map id f)) := by
  induction t with
  | nil => rfl
  | cons entry rest ih =>
    obtain ⟨k, v⟩ := entry
    by_cases hk : key = k
    · simp [Table.insert, hk]
    · by_cases hb : KeyOrder.before key k
      · simp [Table.insert, hk, hb]
      · simp [Table.insert, hk, hb, ih]

namespace PatternMatch

variable (c : PatternMatch)

@[simp] theorem rewrite_pattern : (c.rewrite w).pattern = c.pattern := by cases c; rfl

@[simp] theorem rewrite_predicate : (c.rewrite w).predicate = Expr.rewriteOption w c.predicate := by cases c; rfl

@[simp] theorem rewrite_optional : (c.rewrite w).optional = c.optional := by cases c; rfl

end PatternMatch

/-- Rewriting leaves the node alone that stands for the items of a clause. -/
@[simp] theorem ReadingClause.node_rewrite : ∀ c : ReadingClause, (c.rewrite w).node? = c.node?
  | .pattern ⟨_, _, _, _⟩ => rfl
  | .nested _ _ => rfl

namespace Read

variable (r : Read)

@[simp] theorem rewrite_clauses : (r.rewrite w).clauses = r.clauses.map (ReadingClause.rewrite w) := by
  cases r
  exact ReadingClause.rewriteList_eq_map w _

@[simp] theorem rewrite_items : (r.rewrite w).items = r.items.map (Expr.rewrite w false) := by
  cases r
  exact Expr.rewriteList_eq_map w _

@[simp] theorem rewrite_orderings : (r.rewrite w).orderings = r.orderings.map (SortTerm.rewrite w) := by
  cases r
  exact SortTerm.rewriteList_eq_map w _

@[simp] theorem rewrite_limit : (r.rewrite w).limit = Expr.rewriteOption w r.limit := by cases r; rfl

@[simp] theorem rewrite_skip : (r.rewrite w).skip = Expr.rewriteOption w r.skip := by cases r; rfl

@[simp] theorem rewrite_star : (r.rewrite w).star = r.star := by cases r; rfl

@[simp] theorem rewrite_starNode : (r.rewrite w).starNode = r.starNode := by cases r; rfl

@[simp] theorem returnedNode_rewrite : (r.rewrite w).returnedNode? = r.returnedNode? := by
  unfold returnedNode?
  rw [rewrite_starNode, rewrite_clauses]
  cases r.starNode with
  | some node => rfl
  | none =>
    match r.clauses with
    | [] => rfl
    | [c] => exact c.node_rewrite w
    | _ :: _ :: _ => rfl

end Read

end GraphQuery

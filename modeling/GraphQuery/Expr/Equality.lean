import GraphQuery.Expr.Basic

/-!
# Structural equality

Two expressions are equal when they are built alike from equal parts. Constants are compared as values, so an
expression that holds a NaN does not equal itself, and expressions that differ in the sign of a zero are
equal. The comparison reaches into nested reads and nested queries.

Each comparison goes by recursion on its first argument, with one function for every type and every kind of
list in the family.
-/

namespace GraphQuery

mutual

/-- Structural equality of expressions. -/
def Expr.beq : Expr → Expr → Bool
  | .constant v t, other =>
    match other with
    | .constant v' t' => v == v' && t == t'
    | _ => false
  | .parameter n t, other =>
    match other with
    | .parameter n' t' => n == n' && t == t'
    | _ => false
  | .source s t, other =>
    match other with
    | .source s' t' => s == s' && t == t'
    | _ => false
  | .member e m, other =>
    match other with
    | .member e' m' => e.beq e' && m == m'
    | _ => false
  | .binary op l r x, other =>
    match other with
    | .binary op' l' r' x' => op == op' && l.beq l' && r.beq r' && x == x'
    | _ => false
  | .conditional c a b t, other =>
    match other with
    | .conditional c' a' b' t' => c.beq c' && a.beq a' && b.beq b' && t == t'
    | _ => false
  | .convert e t, other =>
    match other with
    | .convert e' t' => e.beq e' && t == t'
    | _ => false
  | .not e, other =>
    match other with
    | .not e' => e.beq e'
    | _ => false
  | .negate e, other =>
    match other with
    | .negate e' => e.beq e'
    | _ => false
  | .isNull e, other =>
    match other with
    | .isNull e' => e.beq e'
    | _ => false
  | .call e m as t, other =>
    match other with
    | .call e' m' as' t' => Expr.beqOption e e' && m == m' && Expr.beqList as as' && t == t'
    | _ => false
  | .construct n ms, other =>
    match other with
    | .construct n' ms' => n == n' && Expr.beqMembers ms ms'
    | _ => false
  | .subquery m, other =>
    match other with
    | .subquery m' => m.beq m'
    | _ => false
  | .extension n t, other =>
    match other with
    | .extension n' t' => n == n' && t == t'
    | _ => false
  | .sequence as, other =>
    match other with
    | .sequence as' => Expr.beqList as as'
    | _ => false
  | .storage p, other =>
    match other with
    | .storage p' => p == p'
    | _ => false
  | .aliased n e, other =>
    match other with
    | .aliased n' e' => n == n' && e.beq e'
    | _ => false
  | .read r, other =>
    match other with
    | .read r' => r.beq r'
    | _ => false
termination_by structural x => x

/-- Structural equality of optional expressions. -/
def Expr.beqOption : Option Expr → Option Expr → Bool
  | none, other => other.isNone
  | some e, other =>
    match other with
    | some e' => e.beq e'
    | none => false
termination_by structural x => x

/-- Structural equality of lists of expressions. -/
def Expr.beqList : List Expr → List Expr → Bool
  | [], other => other.isEmpty
  | e :: es, other =>
    match other with
    | e' :: es' => e.beq e' && Expr.beqList es es'
    | [] => false
termination_by structural x => x

/-- Structural equality of the members of constructed objects. -/
def Expr.beqMembers : List (String × Expr) → List (String × Expr) → Bool
  | [], other => other.isEmpty
  | (n, e) :: ms, other =>
    match other with
    | (n', e') :: ms' => n == n' && e.beq e' && Expr.beqMembers ms ms'
    | [] => false
termination_by structural x => x

/-- Structural equality of member projections. -/
def Read.beqProjections : List (MemberName × Expr) → List (MemberName × Expr) → Bool
  | [], other => other.isEmpty
  | (k, e) :: ps, other =>
    match other with
    | (k', e') :: ps' => k == k' && e.beq e' && Read.beqProjections ps ps'
    | [] => false
termination_by structural x => x

/-- Structural equality of reads, in all their parts. -/
def Read.beq : Read → Read → Bool
  | ⟨clauses, items, orderings, limit, skip, star, starNode, projections, aliasPrefix⟩, other =>
    ReadingClause.beqList clauses other.clauses && Expr.beqList items other.items
      && SortTerm.beqList orderings other.orderings && Expr.beqOption limit other.limit
      && Expr.beqOption skip other.skip && star == other.star && starNode == other.starNode
      && Read.beqProjections projections other.projections && aliasPrefix == other.aliasPrefix
termination_by structural x => x

/-- Structural equality of matches of patterns. -/
def PatternMatch.beq : PatternMatch → PatternMatch → Bool
  | ⟨pattern, predicate, optional, source⟩, other =>
    pattern == other.pattern && Expr.beqOption predicate other.predicate
      && optional == other.optional && source == other.source
termination_by structural x => x

/-- Structural equality of reading clauses. -/
def ReadingClause.beq : ReadingClause → ReadingClause → Bool
  | .pattern c, other =>
    match other with
    | .pattern c' => c.beq c'
    | .nested _ _ => false
  | .nested s r, other =>
    match other with
    | .pattern _ => false
    | .nested s' r' => s == s' && r.beq r'
termination_by structural x => x

/-- Structural equality of lists of reading clauses. -/
def ReadingClause.beqList : List ReadingClause → List ReadingClause → Bool
  | [], other => other.isEmpty
  | c :: cs, other =>
    match other with
    | c' :: cs' => c.beq c' && ReadingClause.beqList cs cs'
    | [] => false
termination_by structural x => x

/-- Structural equality of ordering terms. -/
def SortTerm.beq : SortTerm → SortTerm → Bool
  | ⟨expr, descending⟩, other => expr.beq other.expr && descending == other.descending
termination_by structural x => x

/-- Structural equality of lists of ordering terms. -/
def SortTerm.beqList : List SortTerm → List SortTerm → Bool
  | [], other => other.isEmpty
  | t :: ts, other =>
    match other with
    | t' :: ts' => t.beq t' && SortTerm.beqList ts ts'
    | [] => false
termination_by structural x => x

/-- Structural equality of the origins of sources. -/
def SourceKind.beq : SourceKind → SourceKind → Bool
  | .entitySet e, other =>
    match other with
    | .entitySet e' => e == e'
    | .subquery _ => false
  | .subquery m, other =>
    match other with
    | .entitySet _ => false
    | .subquery m' => m.beq m'
termination_by structural x => x

/-- Structural equality of sources. -/
def Source.beq : Source → Source → Bool
  | ⟨id, itemName, kind⟩, other =>
    id == other.id && itemName == other.itemName && kind.beq other.kind
termination_by structural x => x

/-- Structural equality of joins. -/
def Join.beq : Join → Join → Bool
  | ⟨source, outer, relationship, outerKey, innerKey⟩, other =>
    source.beq other.source && outer == other.outer && relationship == other.relationship
      && Expr.beqOption outerKey other.outerKey && Expr.beqOption innerKey other.innerKey
termination_by structural x => x

/-- Structural equality of query clauses. -/
def QueryClause.beq : QueryClause → QueryClause → Bool
  | .filter e, other =>
    match other with
    | .filter e' => e.beq e'
    | _ => false
  | .additional s, other =>
    match other with
    | .additional s' => s.beq s'
    | _ => false
  | .join j, other =>
    match other with
    | .join j' => j.beq j'
    | _ => false
  | .orderBy ts, other =>
    match other with
    | .orderBy ts' => SortTerm.beqList ts ts'
    | _ => false
  | .take e, other =>
    match other with
    | .take e' => e.beq e'
    | _ => false
  | .skip e, other =>
    match other with
    | .skip e' => e.beq e'
    | _ => false
termination_by structural x => x

/-- Structural equality of lists of query clauses. -/
def QueryClause.beqList : List QueryClause → List QueryClause → Bool
  | [], other => other.isEmpty
  | c :: cs, other =>
    match other with
    | c' :: cs' => c.beq c' && QueryClause.beqList cs cs'
    | [] => false
termination_by structural x => x

/-- Structural equality of queries. -/
def Query.beq : Query → Query → Bool
  | ⟨main, clauses, selector⟩, other =>
    main.beq other.main && QueryClause.beqList clauses other.clauses && selector.beq other.selector
termination_by structural x => x

end

instance : BEq Expr := ⟨Expr.beq⟩

instance : BEq Read := ⟨Read.beq⟩

end GraphQuery

import GraphQuery.Expr.NullGuard
import GraphQuery.Lowering.Comparison
import GraphQuery.Proofs.Rewriting
import GraphQuery.Read.Items
import Mathlib.Logic.Basic

/-!
# Renaming sources

The ids of sources are replaced by an injective function, everywhere in an expression. What an expression is does not
depend on the ids in it, and expressions are equal after the replacement if and only if they were before
(`Expr.beq_rename`). So whatever looks at the form of expressions, or compares them, commutes with renaming.
-/

namespace GraphQuery

variable {f : SourceId → SourceId}

/-- The rewriting that replaces the ids of sources and leaves all else alone. -/
def Rewriting.ofIds (f : SourceId → SourceId) : Rewriting where
  source := f

@[simp] theorem Rewriting.ofIds_node (b : Bool) (e : Expr) : (ofIds f).node b e = e := rfl

def Expr.rename (f : SourceId → SourceId) (e : Expr) : Expr :=
  e.rewrite (.ofIds f) false

/-! ## Equality -/

theorem beq_source (hf : f.Injective) (a b : SourceId) : (f a == f b) = (a == b) := by
  rw [Bool.eq_iff_iff, beq_iff_eq, beq_iff_eq]
  exact hf.eq_iff

theorem beq_sourceOption (hf : f.Injective) (a b : Option SourceId) : (a.map f == b.map f) = (a == b) := by
  cases a with
  | none => cases b <;> rfl
  | some a =>
    cases b with
    | none => rfl
    | some b => exact beq_source hf a b

mutual

-- Expressions of different kinds are unequal before and after, so each case has one pair to compare.
theorem Expr.beq_rewrite (hf : f.Injective) : ∀ (e e' : Expr) (b b' : Bool),
    (e.rewrite (.ofIds f) b).beq (e'.rewrite (.ofIds f) b') = e.beq e'
  | .constant .., e', _, _ | .parameter .., e', _, _ | .extension .., e', _, _ | .storage _, e', _, _ => by
    cases e' <;> rfl
  | .source id t, e', _, _ => by
    cases e' with
    | source id' t' => exact congrArg₂ and (beq_source hf id id') rfl
    | _ => rfl
  | .member e m, e', _, _ => by
    cases e' with
    | member e' m' => exact congrArg₂ and (Expr.beq_rewrite hf e e' _ _) rfl
    | _ => rfl
  | .binary op l r x, e', _, _ => by
    cases e' with
    | binary op' l' r' x' =>
      have hleft := Expr.beq_rewrite hf l l' false false
      have hright := Expr.beq_rewrite hf r r' false false
      exact congrArg₂ and (congrArg₂ and (congrArg₂ and rfl hleft) hright) rfl
    | _ => rfl
  | .conditional c x y t, e', _, _ => by
    cases e' with
    | conditional c' x' y' t' =>
      have htest := Expr.beq_rewrite hf c c' false false
      have hbranches := congrArg₂ and (congrArg₂ and htest (Expr.beq_rewrite hf x x' true true))
        (Expr.beq_rewrite hf y y' true true)
      exact congrArg₂ and hbranches rfl
    | _ => rfl
  | .convert e t, e', _, _ => by
    cases e' with
    | convert e' t' => exact congrArg₂ and (Expr.beq_rewrite hf e e' _ _) rfl
    | _ => rfl
  | .not e, e', _, _ => by
    cases e' with
    | not e' => exact Expr.beq_rewrite hf e e' _ _
    | _ => rfl
  | .negate e, e', _, _ => by
    cases e' with
    | negate e' => exact Expr.beq_rewrite hf e e' _ _
    | _ => rfl
  | .isNull e, e', _, _ => by
    cases e' with
    | isNull e' => exact Expr.beq_rewrite hf e e' _ _
    | _ => rfl
  | .call e m as t, e', _, _ => by
    cases e' with
    | call e' m' as' t' =>
      have htarget := Expr.beqOption_rewrite hf e e'
      have harguments := Expr.beqList_rewrite hf as as'
      exact congrArg₂ and (congrArg₂ and (congrArg₂ and htarget rfl) harguments) rfl
    | _ => rfl
  | .construct n ms, e', _, _ => by
    cases e' with
    | construct n' ms' => exact congrArg₂ and rfl (Expr.beqMembers_rewrite hf ms ms')
    | _ => rfl
  | .subquery q, e', _, _ => by
    cases e' with
    | subquery q' => exact Query.beq_rewrite hf q q'
    | _ => rfl
  | .sequence as, e', _, _ => by
    cases e' with
    | sequence as' => exact Expr.beqList_rewrite hf as as'
    | _ => rfl
  | .aliased n e, e', _, _ => by
    cases e' with
    | aliased n' e' => exact congrArg₂ and rfl (Expr.beq_rewrite hf e e' _ _)
    | _ => rfl
  | .read r, e', _, _ => by
    cases e' with
    | read r' => exact Read.beq_rewrite hf r r'
    | _ => rfl
termination_by structural x => x

theorem Expr.beqOption_rewrite (hf : f.Injective) : ∀ e e' : Option Expr,
    Expr.beqOption (Expr.rewriteOption (.ofIds f) e) (Expr.rewriteOption (.ofIds f) e') = Expr.beqOption e e'
  | none, e' => by cases e' <;> rfl
  | some _, none => rfl
  | some e, some e' => Expr.beq_rewrite hf e e' _ _
termination_by structural x => x

theorem Expr.beqList_rewrite (hf : f.Injective) : ∀ es es' : List Expr,
    Expr.beqList (Expr.rewriteList (.ofIds f) es) (Expr.rewriteList (.ofIds f) es') = Expr.beqList es es'
  | [], es' => by cases es' <;> rfl
  | _ :: _, [] => rfl
  | e :: es, e' :: es' => congrArg₂ and (Expr.beq_rewrite hf e e' _ _) (Expr.beqList_rewrite hf es es')
termination_by structural x => x

theorem Expr.beqMembers_rewrite (hf : f.Injective) : ∀ ms ms' : List (String × Expr),
    Expr.beqMembers (Expr.rewriteMembers (.ofIds f) ms) (Expr.rewriteMembers (.ofIds f) ms') = Expr.beqMembers ms ms'
  | [], ms' => by cases ms' <;> rfl
  | _ :: _, [] => rfl
  | (_, e) :: ms, (_, e') :: ms' =>
    congrArg₂ and (congrArg₂ and rfl (Expr.beq_rewrite hf e e' _ _)) (Expr.beqMembers_rewrite hf ms ms')
termination_by structural x => x

theorem Read.beqProjections_rewrite (hf : f.Injective) : ∀ ps ps' : List (MemberName × Expr),
    Read.beqProjections (Read.rewriteProjections (.ofIds f) ps) (Read.rewriteProjections (.ofIds f) ps') =
      Read.beqProjections ps ps'
  | [], ps' => by cases ps' <;> rfl
  | _ :: _, [] => rfl
  | (_, e) :: ps, (_, e') :: ps' =>
    congrArg₂ and (congrArg₂ and rfl (Expr.beq_rewrite hf e e' _ _)) (Read.beqProjections_rewrite hf ps ps')
termination_by structural x => x

theorem Read.beq_rewrite (hf : f.Injective) : ∀ r r' : Read,
    (r.rewrite (.ofIds f)).beq (r'.rewrite (.ofIds f)) = r.beq r'
  | ⟨clauses, items, orderings, limit, skip, _, _, projections, _⟩,
    ⟨clauses', items', orderings', limit', skip', _, _, projections', _⟩ => by
    have hclauses := ReadingClause.beqList_rewrite hf clauses clauses'
    have hitems := Expr.beqList_rewrite hf items items'
    have horderings := SortTerm.beqList_rewrite hf orderings orderings'
    have hlimit := Expr.beqOption_rewrite hf limit limit'
    have hskip := Expr.beqOption_rewrite hf skip skip'
    have hprojections := Read.beqProjections_rewrite hf projections projections'
    have hrows := congrArg₂ and (congrArg₂ and (congrArg₂ and (congrArg₂ and hclauses hitems) horderings) hlimit) hskip
    exact congrArg₂ and (congrArg₂ and (congrArg₂ and (congrArg₂ and hrows rfl) rfl) hprojections) rfl
termination_by structural x => x

theorem PatternMatch.beq_rewrite (hf : f.Injective) : ∀ c c' : PatternMatch,
    (c.rewrite (.ofIds f)).beq (c'.rewrite (.ofIds f)) = c.beq c'
  | ⟨_, predicate, _, source⟩, ⟨_, predicate', _, source'⟩ =>
    congrArg₂ and (congrArg₂ and (congrArg₂ and rfl (Expr.beqOption_rewrite hf predicate predicate')) rfl)
      (beq_sourceOption hf source source')
termination_by structural x => x

theorem ReadingClause.beq_rewrite (hf : f.Injective) : ∀ c c' : ReadingClause,
    (c.rewrite (.ofIds f)).beq (c'.rewrite (.ofIds f)) = c.beq c'
  | .pattern c, .pattern c' => PatternMatch.beq_rewrite hf c c'
  | .pattern _, .nested _ _ => rfl
  | .nested _ _, .pattern _ => rfl
  | .nested s r, .nested s' r' => congrArg₂ and (beq_sourceOption hf s s') (Read.beq_rewrite hf r r')
termination_by structural x => x

theorem ReadingClause.beqList_rewrite (hf : f.Injective) : ∀ cs cs' : List ReadingClause,
    ReadingClause.beqList (ReadingClause.rewriteList (.ofIds f) cs) (ReadingClause.rewriteList (.ofIds f) cs') =
      ReadingClause.beqList cs cs'
  | [], cs' => by cases cs' <;> rfl
  | _ :: _, [] => rfl
  | c :: cs, c' :: cs' => congrArg₂ and (ReadingClause.beq_rewrite hf c c') (ReadingClause.beqList_rewrite hf cs cs')
termination_by structural x => x

theorem SortTerm.beq_rewrite (hf : f.Injective) : ∀ t t' : SortTerm,
    (t.rewrite (.ofIds f)).beq (t'.rewrite (.ofIds f)) = t.beq t'
  | ⟨e, _⟩, ⟨e', _⟩ => congrArg₂ and (Expr.beq_rewrite hf e e' _ _) rfl
termination_by structural x => x

theorem SortTerm.beqList_rewrite (hf : f.Injective) : ∀ ts ts' : List SortTerm,
    SortTerm.beqList (SortTerm.rewriteList (.ofIds f) ts) (SortTerm.rewriteList (.ofIds f) ts') =
      SortTerm.beqList ts ts'
  | [], ts' => by cases ts' <;> rfl
  | _ :: _, [] => rfl
  | t :: ts, t' :: ts' => congrArg₂ and (SortTerm.beq_rewrite hf t t') (SortTerm.beqList_rewrite hf ts ts')
termination_by structural x => x

theorem SourceKind.beq_rewrite (hf : f.Injective) : ∀ k k' : SourceKind,
    (k.rewrite (.ofIds f)).beq (k'.rewrite (.ofIds f)) = k.beq k'
  | .entitySet _, k' => by cases k' <;> rfl
  | .subquery _, .entitySet _ => rfl
  | .subquery q, .subquery q' => Query.beq_rewrite hf q q'
termination_by structural x => x

theorem Source.beq_rewrite (hf : f.Injective) : ∀ s s' : Source,
    (s.rewrite (.ofIds f)).beq (s'.rewrite (.ofIds f)) = s.beq s'
  | ⟨id, _, kind⟩, ⟨id', _, kind'⟩ =>
    congrArg₂ and (congrArg₂ and (beq_source hf id id') rfl) (SourceKind.beq_rewrite hf kind kind')
termination_by structural x => x

theorem Join.beq_rewrite (hf : f.Injective) : ∀ j j' : Join,
    (j.rewrite (.ofIds f)).beq (j'.rewrite (.ofIds f)) = j.beq j'
  | ⟨source, outer, _, outerKey, innerKey⟩, ⟨source', outer', _, outerKey', innerKey'⟩ => by
    have hsources := congrArg₂ and (Source.beq_rewrite hf source source') (beq_source hf outer outer')
    have houterKey := Expr.beqOption_rewrite hf outerKey outerKey'
    have hinnerKey := Expr.beqOption_rewrite hf innerKey innerKey'
    exact congrArg₂ and (congrArg₂ and (congrArg₂ and hsources rfl) houterKey) hinnerKey
termination_by structural x => x

theorem QueryClause.beq_rewrite (hf : f.Injective) : ∀ c c' : QueryClause,
    (c.rewrite (.ofIds f)).beq (c'.rewrite (.ofIds f)) = c.beq c'
  | .filter e, c' => by
    cases c' with
    | filter e' => exact Expr.beq_rewrite hf e e' _ _
    | _ => rfl
  | .additional s, c' => by
    cases c' with
    | additional s' => exact Source.beq_rewrite hf s s'
    | _ => rfl
  | .join j, c' => by
    cases c' with
    | join j' => exact Join.beq_rewrite hf j j'
    | _ => rfl
  | .orderBy ts, c' => by
    cases c' with
    | orderBy ts' => exact SortTerm.beqList_rewrite hf ts ts'
    | _ => rfl
  | .take e, c' => by
    cases c' with
    | take e' => exact Expr.beq_rewrite hf e e' _ _
    | _ => rfl
  | .skip e, c' => by
    cases c' with
    | skip e' => exact Expr.beq_rewrite hf e e' _ _
    | _ => rfl
termination_by structural x => x

theorem QueryClause.beqList_rewrite (hf : f.Injective) : ∀ cs cs' : List QueryClause,
    QueryClause.beqList (QueryClause.rewriteList (.ofIds f) cs) (QueryClause.rewriteList (.ofIds f) cs') =
      QueryClause.beqList cs cs'
  | [], cs' => by cases cs' <;> rfl
  | _ :: _, [] => rfl
  | c :: cs, c' :: cs' => congrArg₂ and (QueryClause.beq_rewrite hf c c') (QueryClause.beqList_rewrite hf cs cs')
termination_by structural x => x

theorem Query.beq_rewrite (hf : f.Injective) : ∀ q q' : Query,
    (q.rewrite (.ofIds f)).beq (q'.rewrite (.ofIds f)) = q.beq q'
  | ⟨main, clauses, selector⟩, ⟨main', clauses', selector'⟩ =>
    congrArg₂ and (congrArg₂ and (Source.beq_rewrite hf main main') (QueryClause.beqList_rewrite hf clauses clauses'))
      (Expr.beq_rewrite hf selector selector' _ _)
termination_by structural x => x

end

/-! ## Forms -/

theorem Expr.rewrite_branch : ∀ (e : Expr) (b b' : Bool), e.rewrite (.ofIds f) b = e.rewrite (.ofIds f) b'
  | .convert e t, b, b' => congrArg (Expr.convert · t) (Expr.rewrite_branch e b b')
  | .constant .., _, _ | .parameter .., _, _ | .source .., _, _ | .member .., _, _ | .binary .., _, _
  | .conditional .., _, _ | .not _, _, _ | .negate _, _, _ | .isNull _, _, _ | .call .., _, _ | .construct .., _, _
  | .subquery _, _, _ | .extension .., _, _ | .sequence _, _, _ | .storage _, _, _ | .aliased .., _, _
  | .read _, _, _ => rfl

mutual

theorem Expr.type_rewrite : ∀ (e : Expr) (b : Bool), (e.rewrite (.ofIds f) b).type = e.type
  | .binary op l r x, _ => by
    change op.resultType x (l.rewrite (.ofIds f) false).type (r.rewrite (.ofIds f) false).type = _
    rw [Expr.type_rewrite l, Expr.type_rewrite r]
    rfl
  | .not e, _ => Expr.type_rewrite e _
  | .negate e, _ => Expr.type_rewrite e _
  | .aliased _ e, _ => Expr.type_rewrite e _
  | .read r, _ => Read.valueType_rewrite r
  | .constant .., _ | .parameter .., _ | .source .., _ | .member .., _ | .conditional .., _ | .convert .., _
  | .isNull _, _ | .call .., _ | .construct .., _ | .subquery _, _ | .extension .., _ | .sequence _, _
  | .storage _, _ => rfl
termination_by structural x => x

theorem Read.valueType_rewrite : ∀ r : Read, (r.rewrite (.ofIds f)).valueType = r.valueType
  | ⟨_, items, _, _, _, _, _, _, _⟩ => Expr.soleType_rewrite items
termination_by structural x => x

theorem Expr.soleType_rewrite : ∀ es : List Expr, Expr.soleType (Expr.rewriteList (.ofIds f) es) = Expr.soleType es
  | [] => rfl
  | [e] => Expr.type_rewrite e _
  | _ :: _ :: _ => rfl
termination_by structural x => x

end

namespace Expr

variable (e e' : Expr)

@[simp] theorem rename_conditional (c a b : Expr) (t : ValueType) :
    (conditional c a b t).rename f = conditional (c.rename f) (a.rename f) (b.rename f) t := by
  change conditional (c.rename f) (a.rewrite (.ofIds f) true) (b.rewrite (.ofIds f) true) t = _
  rw [a.rewrite_branch true false, b.rewrite_branch true false]
  rfl

@[simp] theorem rename_binary (op : Operator) (l r : Expr) (x : OperatorDetail) :
    (binary op l r x).rename f = binary op (l.rename f) (r.rename f) x := rfl

@[simp] theorem rename_convert (t : ValueType) : (convert e t).rename f = convert (e.rename f) t := rfl

@[simp] theorem rename_not : (not e).rename f = not (e.rename f) := rfl

@[simp] theorem rename_isNull : (isNull e).rename f = isNull (e.rename f) := rfl

@[simp] theorem rename_sequence (es : List Expr) : (sequence es).rename f = sequence (es.map (rename f)) :=
  congrArg sequence (rewriteList_eq_map _ es)

@[simp] theorem rename_storage (p : StoredProperty) : (storage p).rename f = storage p := rfl

@[simp] theorem rename_source (id : SourceId) (t : ValueType) : (source id t).rename f = source (f id) t := rfl

@[simp] theorem rename_constant (v : Value) (t : ValueType) : (constant v t).rename f = constant v t := rfl

@[simp] theorem rename_aliased (name : Option String) : (aliased name e).rename f = aliased name (e.rename f) := rfl

theorem beq_rename (hf : f.Injective) : (e.rename f == e'.rename f) = (e == e') :=
  e.beq_rewrite hf e' false false

@[simp] theorem type_rename : (e.rename f).type = e.type :=
  e.type_rewrite false

@[simp] theorem kind_rename : (e.rename f).kind = e.kind := by
  cases e <;> rfl

theorem bare_rename : ∀ e : Expr, (e.rename f).bare = e.bare.rename f
  | .convert e _ => bare_rename e
  | .constant .. | .parameter .. | .source .. | .member .. | .binary .. | .conditional .. | .not _ | .negate _
  | .isNull _ | .call .. | .construct .. | .subquery _ | .extension .. | .sequence _ | .storage _ | .aliased ..
  | .read _ => rfl

@[simp] theorem isNullConstant_rename : (e.rename f).isNullConstant = e.isNullConstant := by
  rw [isNullConstant, isNullConstant, bare_rename]
  cases e.bare <;> rfl

@[simp] theorem isSequence_rename : (e.rename f).isSequence = e.isSequence := by
  rw [isSequence, isSequence, bare_rename]
  cases e.bare <;> rfl

@[simp] theorem isConstant_rename : (e.rename f).isConstant = e.isConstant := by
  rw [isConstant, isConstant, bare_rename]
  cases e.bare <;> rfl

@[simp] theorem isOneValue_rename : ∀ e : Expr, (e.rename f).isOneValue = e.isOneValue
  | .convert e _ => isOneValue_rename e
  | .aliased _ e => isOneValue_rename e
  | .constant .. | .parameter .. | .source .. | .member .. | .binary .. | .conditional .. | .not _ | .negate _
  | .isNull _ | .call .. | .construct .. | .subquery _ | .extension .. | .sequence _ | .storage _ | .read _ => rfl

@[simp] theorem outputName_rename : (e.rename f).outputName = e.outputName := by
  rw [outputName, outputName, bare_rename]
  cases e.bare <;> rfl

theorem unaliased_rename : (e.rename f).unaliased = e.unaliased.rename f := by
  cases e <;> rfl

theorem withoutWidening_rename : (e.rename f).withoutWidening = e.withoutWidening.rename f := by
  cases e with
  | convert e t =>
    cases t with
    | nullable t =>
      simp only [rename_convert, withoutWidening, type_rename]
      split <;> rfl
    | _ => rfl
  | _ => rfl

theorem returns_rename (hf : f.Injective) (item : Expr) : (item.rename f).returns (e.rename f) = item.returns e := by
  have hnamed : (item.rename f).isNamed (e.rename f) = item.isNamed e := by
    cases item with
    | aliased _ inner => exact beq_rename inner e hf
    | _ => rfl
  rw [returns, returns, beq_rename item e hf, hnamed]

theorem withName_rename (name : String) : (e.rename f).withName name = (e.withName name).rename f := by
  unfold withName
  rw [outputName_rename, unaliased_rename]
  split
  · split <;> rfl
  · rfl

@[simp] theorem columnType_rename : (e.rename f).columnType = e.columnType := by
  rw [columnType, columnType, unaliased_rename]
  cases e.unaliased with
  | convert operand t =>
    cases t with
    | object => exact type_rename operand
    | _ => rfl
  | _ => exact type_rename _

/-! ## Null guards -/

theorem reachesFrom_rename (hf : f.Injective) (root : Expr) :
    ∀ e : Expr, (e.rename f).reachesFrom (root.rename f) = e.reachesFrom root
  | .convert e _ => reachesFrom_rename hf root e
  | .member target m => by
    have hself : ((member target m).rename f == root.rename f) = (member target m == root) := beq_rename _ root hf
    have htarget := reachesFrom_rename hf root target
    change ((member target m).rename f == root.rename f || (target.rename f).reachesFrom (root.rename f)) = _
    rw [hself, htarget]
    rfl
  | .constant .. | .parameter .. | .source .. | .binary .. | .conditional .. | .not _ | .negate _ | .isNull _ | .call ..
  | .construct .. | .subquery _ | .extension .. | .sequence _ | .storage _ | .aliased .. | .read _ =>
    beq_rename _ root hf

theorem guards_rename (hf : f.Injective) (guarded result other : Expr) :
    guards (guarded.rename f) (result.rename f) (other.rename f) = guards guarded result other := by
  rw [guards, guards, isNullConstant_rename, bare_rename, beq_rename _ _ hf, reachesFrom_rename hf]

theorem testedForNull_rename (left right : Expr) :
    testedForNull? (left.rename f) (right.rename f) = (testedForNull? left right).map (rename f) := by
  rw [testedForNull?, testedForNull?, isNullConstant_rename, isNullConstant_rename, bare_rename, bare_rename]
  split
  · rfl
  · split <;> rfl

/-- Renaming changes nothing about which branch is protected from null. -/
theorem guardedBranch_rename (hf : f.Injective) (test ifTrue ifFalse : Expr) :
    guardedBranch? (test.rename f) (ifTrue.rename f) (ifFalse.rename f) = guardedBranch? test ifTrue ifFalse := by
  rw [guardedBranch?, guardedBranch?, bare_rename]
  cases test.bare with
  | binary op left right x =>
    simp only [rename_binary, testedForNull_rename]
    cases testedForNull? left right with
    | none => rfl
    | some guarded => simp only [Option.map_some, guards_rename hf]
  | _ => rfl

/-! ## Comparisons -/

theorem withoutNullableConvert_rename :
    (e.rename f).withoutNullableConvert = e.withoutNullableConvert.rename f := by
  cases e with
  | convert e t => cases t <;> rfl
  | _ => rfl

theorem nullTest_rename (op : Operator) (l r : Expr) :
    nullTest? op (l.rename f) (r.rename f) = (nullTest? op l r).map (rename f) := by
  have hnull : ∀ e : Expr, isNull (e.rename f).withoutNullableConvert = (isNull e.withoutNullableConvert).rename f := by
    intro e
    rw [withoutNullableConvert_rename, rename_isNull]
  unfold nullTest?
  simp only [isNullConstant_rename]
  cases r.isNullConstant with
  | true =>
    cases op with
    | equal => exact congrArg some (hnull l)
    | notEqual => exact congrArg (some ∘ not) (hnull l)
    | _ => rfl
  | false =>
    cases l.isNullConstant with
    | true =>
      cases op with
      | equal => exact congrArg some (hnull r)
      | notEqual => exact congrArg (some ∘ not) (hnull r)
      | _ => rfl
    | false => rfl

theorem widen_rename (l r : Expr) :
    widen (l.rename f) (r.rename f) = ((widen l r).1.rename f, (widen l r).2.rename f) := by
  unfold widen
  simp only [type_rename]
  split
  · rfl
  · split <;> rfl

theorem comparison_rename (op : Operator) (l r : Expr) (x : OperatorDetail) :
    comparison? op (l.rename f) (r.rename f) x = (comparison? op l r x).map (rename f) := by
  unfold comparison?
  rw [isSequence_rename, isSequence_rename, nullTest_rename, widen_rename]
  split
  · cases op <;> rfl
  · cases nullTest? op l r with
    | some test => rfl
    | none =>
      simp only [Option.map_none, type_rename]
      split <;> rfl

theorem pairComparison_rename (op : Operator) (l r : Expr) :
    pairComparison op (l.rename f) (r.rename f) = (pairComparison op l r).rename f := by
  rw [pairComparison, pairComparison, nullTest_rename]
  cases nullTest? op l r <;> rfl

theorem joinPairs_rename (op : Operator) (first : Expr) (rest : List Expr) :
    joinPairs op (first.rename f) (rest.map (rename f)) = (joinPairs op first rest).rename f := by
  unfold joinPairs
  induction rest generalizing first with
  | nil => rfl
  | cons pair rest ih =>
    rw [List.map_cons, List.foldl_cons, List.foldl_cons, ← ih]
    congr 1
    split <;> rfl

theorem unfoldPairs_rename (op : Operator) (ls rs : List Expr) :
    unfoldPairs? op (ls.map (rename f)) (rs.map (rename f)) = (unfoldPairs? op ls rs).map (rename f) := by
  have hpairs : List.zipWith (pairComparison op) (ls.map (rename f)) (rs.map (rename f)) =
      (List.zipWith (pairComparison op) ls rs).map (rename f) := by
    rw [List.zipWith_map, List.map_zipWith]
    simp only [pairComparison_rename]
  unfold unfoldPairs?
  rw [List.length_map, List.length_map, hpairs]
  split
  · cases List.zipWith (pairComparison op) ls rs with
    | nil => rfl
    | cons first rest =>
      simp only [List.map_cons, joinPairs_rename, List.isEmpty_map]
      split <;> rfl
  · rfl

/-- The members of a tuple. -/
def items? : Expr → Option (List Expr)
  | .sequence items => some items
  | _ => none

theorem items_rename : (e.rename f).items? = e.items?.map (List.map (rename f)) := by
  cases e with
  | sequence items => rw [rename_sequence]; rfl
  | _ => rfl

/-- Comparisons of tuples, by the tuples that the operands are under conversions. -/
theorem unfoldSequences_eq (op : Operator) (l r : Expr) (x : OperatorDetail) :
    unfoldSequences? (binary op l r x) =
      match l.bare.items?, r.bare.items? with
      | some ls, some rs => unfoldPairs? op ls rs
      | some ls, none => if r.bare.isNullConstant then unfoldPairs? op ls (List.replicate ls.length r.bare) else none
      | none, some rs => if l.bare.isNullConstant then unfoldPairs? op (List.replicate rs.length l.bare) rs else none
      | none, none => some (binary op l r x) := by
  have hitems : ∀ e : Expr, (∀ items, e = sequence items → False) → e.items? = none := by
    intro e he
    cases e with
    | sequence items => exact (he items rfl).elim
    | _ => rfl
  simp only [unfoldSequences?]
  split
  · rename_i hls hrs
    rw [hls, hrs]
    rfl
  · rename_i ls hls hno
    rw [hls, hitems r.bare fun items h => hno items h]
    rfl
  · rename_i rs hrs hno
    rw [hrs, hitems l.bare fun items h => hno items h]
    rfl
  · rename_i hleft hright _
    rw [hitems l.bare hleft, hitems r.bare hright]

theorem unfoldSequences_rename : unfoldSequences? (e.rename f) = (unfoldSequences? e).map (rename f) := by
  cases e with
  | binary op l r x =>
    have hreplicate : ∀ (n : Nat) (e : Expr), List.replicate n (e.rename f) = (List.replicate n e).map (rename f) := by
      intro n e
      rw [List.map_replicate]
    rw [rename_binary, unfoldSequences_eq, unfoldSequences_eq, bare_rename, bare_rename, items_rename, items_rename]
    cases l.bare.items? with
    | none =>
      cases r.bare.items? with
      | none => rfl
      | some rs =>
        simp only [Option.map_none, Option.map_some, isNullConstant_rename, List.length_map, hreplicate,
          unfoldPairs_rename]
        split <;> rfl
    | some ls =>
      cases r.bare.items? with
      | none =>
        simp only [Option.map_none, Option.map_some, isNullConstant_rename, List.length_map, hreplicate,
          unfoldPairs_rename]
        split <;> rfl
      | some rs => exact unfoldPairs_rename op ls rs
  | conditional c a b t => rw [rename_conditional]; exact congrArg some (rename_conditional c a b t).symm
  | _ => rfl

/-- How a binary expression is written for the server commutes with renaming. -/
theorem combine_rename (op : Operator) (l r : Expr) (x : OperatorDetail) :
    combine? op (l.rename f) (r.rename f) x = (combine? op l r x).map (rename f) := by
  have hunfolded : (comparison? op (l.rename f) (r.rename f) x).bind unfoldSequences? =
      ((comparison? op l r x).bind unfoldSequences?).map (rename f) := by
    rw [comparison_rename]
    cases comparison? op l r x with
    | none => rfl
    | some e => exact unfoldSequences_rename e
  unfold combine?
  cases op with
  | coalesce =>
    simp only [isSequence_rename]
    split <;> rfl
  | equal => exact hunfolded
  | notEqual => exact hunfolded
  | greaterThan => exact comparison_rename _ l r x
  | greaterThanOrEqual => exact comparison_rename _ l r x
  | lessThan => exact comparison_rename _ l r x
  | lessThanOrEqual => exact comparison_rename _ l r x
  | _ => rfl

end Expr

end GraphQuery

import GraphQuery.Proofs.Nodes
import GraphQuery.Proofs.Rewriting

/-!
# The laws of structural equality

Structural equality is symmetric and transitive. It is not reflexive: an expression equals itself exactly when it holds
no NaN. All three follow from one description: two expressions are equal when neither holds a NaN and they are the same
once the zeros in them have lost their signs (`Expr.beq_iff`).
-/

namespace GraphQuery

/-! ## Numbers and values -/

namespace Binary64

/-- The number without the sign of a zero. -/
def unsigned (x : Binary64) : Binary64 :=
  if x.isZero then ⟨0⟩ else x

theorem unsigned_eq_iff {x y : Binary64} :
    x.unsigned = y.unsigned ↔ x.bits = y.bits ∨ (x.isZero = true ∧ y.isZero = true) := by
  have hzero : (⟨0⟩ : Binary64).isZero = true := by decide
  constructor
  · intro h
    unfold unsigned at h
    split at h
    · rename_i hx
      split at h
      · rename_i hy
        exact Or.inr ⟨hx, hy⟩
      · exact Or.inr ⟨hx, h ▸ hzero⟩
    · split at h
      · rename_i hy
        exact Or.inr ⟨h ▸ hzero, hy⟩
      · exact Or.inl (congrArg bits h)
  · rintro (hbits | ⟨hx, hy⟩)
    · cases x
      cases y
      cases hbits
      rfl
    · rw [unsigned, unsigned, if_pos hx, if_pos hy]

theorem unsigned_unsigned (x : Binary64) : x.unsigned.unsigned = x.unsigned := by
  apply unsigned_eq_iff.2
  unfold unsigned
  by_cases hzero : x.isZero = true
  · rw [if_pos hzero]
    exact Or.inr ⟨by decide, hzero⟩
  · rw [if_neg hzero]
    exact Or.inl rfl

theorem beq_iff {x y : Binary64} :
    (x == y) = true ↔ (x.isNaN = false ∧ y.isNaN = false) ∧ x.unsigned = y.unsigned := by
  change (!x.isNaN && !y.isNaN && (x.bits == y.bits || (x.isZero && y.isZero))) = true ↔ _
  simp [unsigned_eq_iff]

end Binary64

namespace Value

def isNaN : Value → Bool
  | .float64 x => x.isNaN
  | _ => false

def unsigned : Value → Value
  | .float64 x => .float64 x.unsigned
  | v => v

theorem beq_iff {v w : Value} :
    (v == w) = true ↔ (v.isNaN = false ∧ w.isNaN = false) ∧ v.unsigned = w.unsigned := by
  change v.beq w = true ↔ _
  cases v with
  | float64 x =>
    cases w with
    | float64 y => simpa [Value.beq, isNaN, unsigned] using Binary64.beq_iff
    | _ => simp [Value.beq, unsigned]
  | _ => cases w <;> simp [Value.beq, isNaN, unsigned]

end Value

/-! ## Expressions -/

namespace Expr

/-- Whether an expression is a NaN as a constant. -/
def isNaN : Expr → Bool
  | .constant v _ => v.isNaN
  | _ => false

/-- A constant without the sign of a zero; any other expression is kept. -/
def unsigned : Expr → Expr
  | .constant v t => .constant v.unsigned t
  | e => e

end Expr

/-- No expression of a list is a NaN. -/
def NaNFree (es : List Expr) : Prop :=
  ∀ e ∈ es, e.isNaN = false

@[simp] theorem nanFree_nil : NaNFree [] :=
  List.forall_mem_nil _

@[simp] theorem nanFree_cons {e : Expr} {es : List Expr} : NaNFree (e :: es) ↔ e.isNaN = false ∧ NaNFree es :=
  List.forall_mem_cons

@[simp] theorem nanFree_append {es es' : List Expr} : NaNFree (es ++ es') ↔ NaNFree es ∧ NaNFree es' :=
  List.forall_mem_append

/-- Takes the signs off the zeros in an expression. -/
def unsigning : Rewriting where
  node _ := Expr.unsigned

@[simp] theorem unsigning_node (branch : Bool) (e : Expr) : unsigning.node branch e = e.unsigned := rfl

@[simp] theorem unsigning_source : unsigning.source = id := rfl

/-- A part that holds no expressions, such as a name or a type. -/
theorem plain_iff {α : Type} [BEq α] [LawfulBEq α] (x y : α) : (x == y) = true ↔ (NaNFree [] ∧ NaNFree []) ∧ x = y := by
  simp

/-- Two parts with the expressions that they hold. -/
theorem parts_iff {a b : Bool} {es es' ds ds' : List Expr} {p q : Prop}
    (ha : a = true ↔ (NaNFree es ∧ NaNFree es') ∧ p) (hb : b = true ↔ (NaNFree ds ∧ NaNFree ds') ∧ q) :
    (a && b) = true ↔ (NaNFree (es ++ ds) ∧ NaNFree (es' ++ ds')) ∧ p ∧ q := by
  rw [Bool.and_eq_true, ha, hb, nanFree_append, nanFree_append, and_and_and_comm, and_and_and_comm (c := NaNFree ds)]

theorem kinds_iff {p : Prop} {e e' : Expr} (h : e.kind ≠ e'.kind) : false = true ↔ p ∧ e = e' :=
  iff_of_false Bool.false_ne_true fun heq => h (congrArg Expr.kind heq.2)

mutual

/-- Two expressions are equal when neither holds a NaN and they are the same without the signs of zeros. -/
-- Expressions of different kinds are different with and without signs, so each kind has one pair to compare.
theorem Expr.beq_iff : ∀ (e e' : Expr) (b b' : Bool), e.beq e' = true ↔
    (NaNFree e.nodes ∧ NaNFree e'.nodes) ∧ e.rewrite unsigning b = e'.rewrite unsigning b'
  | .constant v t, e', _, _ => by
    cases e' with
    | constant v' t' =>
      refine Bool.and_eq_true_iff.trans ?_
      simp [Value.beq_iff, Expr.nodes, Expr.isNaN, Expr.rewrite, Expr.unsigned, and_assoc]
    | _ => exact kinds_iff (by rintro ⟨⟩)
  | .parameter n t, e', _, _ => by
    cases e' with
    | parameter n' t' =>
      refine (parts_iff (plain_iff n n') (plain_iff t t')).trans ?_
      simp [Expr.nodes, Expr.isNaN, Expr.rewrite, Expr.unsigned]
    | _ => exact kinds_iff (by rintro ⟨⟩)
  | .source id t, e', _, _ => by
    cases e' with
    | source id' t' =>
      refine (parts_iff (plain_iff id id') (plain_iff t t')).trans ?_
      simp [Expr.nodes, Expr.isNaN, Expr.rewrite, Expr.unsigned]
    | _ => exact kinds_iff (by rintro ⟨⟩)
  | .member e m, e', _, _ => by
    cases e' with
    | member e' m' =>
      refine (parts_iff (Expr.beq_iff e e' false false) (plain_iff m m')).trans ?_
      simp [Expr.nodes, Expr.isNaN, Expr.rewrite, Expr.unsigned, and_assoc]
    | _ => exact kinds_iff (by rintro ⟨⟩)
  | .binary op l r x, e', _, _ => by
    cases e' with
    | binary op' l' r' x' =>
      have hl := Expr.beq_iff l l' false false
      have hr := Expr.beq_iff r r' false false
      refine (parts_iff (parts_iff (parts_iff (plain_iff op op') hl) hr) (plain_iff x x')).trans ?_
      simp [Expr.nodes, Expr.isNaN, Expr.rewrite, Expr.unsigned, and_assoc]
    | _ => exact kinds_iff (by rintro ⟨⟩)
  | .conditional c x y t, e', _, _ => by
    cases e' with
    | conditional c' x' y' t' =>
      have hc := Expr.beq_iff c c' false false
      have hx := Expr.beq_iff x x' true true
      have hy := Expr.beq_iff y y' true true
      refine (parts_iff (parts_iff (parts_iff hc hx) hy) (plain_iff t t')).trans ?_
      simp [Expr.nodes, Expr.isNaN, Expr.rewrite, Expr.unsigned, and_assoc]
    | _ => exact kinds_iff (by rintro ⟨⟩)
  | .convert e t, e', b, b' => by
    cases e' with
    | convert e' t' =>
      refine (parts_iff (Expr.beq_iff e e' b b') (plain_iff t t')).trans ?_
      simp [Expr.nodes, Expr.isNaN, Expr.rewrite, Expr.unsigned, and_assoc]
    | _ => exact kinds_iff (by rintro ⟨⟩)
  | .not e, e', _, _ => by
    cases e' with
    | not e' =>
      refine (Expr.beq_iff e e' false false).trans ?_
      simp [Expr.nodes, Expr.isNaN, Expr.rewrite, Expr.unsigned]
    | _ => exact kinds_iff (by rintro ⟨⟩)
  | .negate e, e', _, _ => by
    cases e' with
    | negate e' =>
      refine (Expr.beq_iff e e' false false).trans ?_
      simp [Expr.nodes, Expr.isNaN, Expr.rewrite, Expr.unsigned]
    | _ => exact kinds_iff (by rintro ⟨⟩)
  | .isNull e, e', _, _ => by
    cases e' with
    | isNull e' =>
      refine (Expr.beq_iff e e' false false).trans ?_
      simp [Expr.nodes, Expr.isNaN, Expr.rewrite, Expr.unsigned]
    | _ => exact kinds_iff (by rintro ⟨⟩)
  | .call e m as t, e', _, _ => by
    cases e' with
    | call e' m' as' t' =>
      have he := Expr.beqOption_iff e e'
      have has := Expr.beqList_iff as as'
      refine (parts_iff (parts_iff (parts_iff he (plain_iff m m')) has) (plain_iff t t')).trans ?_
      simp [Expr.nodes, Expr.isNaN, Expr.rewrite, Expr.unsigned, and_assoc]
    | _ => exact kinds_iff (by rintro ⟨⟩)
  | .construct n ms, e', _, _ => by
    cases e' with
    | construct n' ms' =>
      refine (parts_iff (plain_iff n n') (Expr.beqMembers_iff ms ms')).trans ?_
      simp [Expr.nodes, Expr.isNaN, Expr.rewrite, Expr.unsigned, and_assoc]
    | _ => exact kinds_iff (by rintro ⟨⟩)
  | .subquery q, e', _, _ => by
    cases e' with
    | subquery q' =>
      refine (Query.beq_iff q q').trans ?_
      simp [Expr.nodes, Expr.isNaN, Expr.rewrite, Expr.unsigned]
    | _ => exact kinds_iff (by rintro ⟨⟩)
  | .extension n t, e', _, _ => by
    cases e' with
    | extension n' t' =>
      refine (parts_iff (plain_iff n n') (plain_iff t t')).trans ?_
      simp [Expr.nodes, Expr.isNaN, Expr.rewrite, Expr.unsigned]
    | _ => exact kinds_iff (by rintro ⟨⟩)
  | .sequence as, e', _, _ => by
    cases e' with
    | sequence as' =>
      refine (Expr.beqList_iff as as').trans ?_
      simp [Expr.nodes, Expr.isNaN, Expr.rewrite, Expr.unsigned]
    | _ => exact kinds_iff (by rintro ⟨⟩)
  | .storage p, e', _, _ => by
    cases e' with
    | storage p' =>
      refine (plain_iff p p').trans ?_
      simp [Expr.nodes, Expr.isNaN, Expr.rewrite, Expr.unsigned]
    | _ => exact kinds_iff (by rintro ⟨⟩)
  | .aliased n e, e', _, _ => by
    cases e' with
    | aliased n' e' =>
      refine (parts_iff (plain_iff n n') (Expr.beq_iff e e' false false)).trans ?_
      simp [Expr.nodes, Expr.isNaN, Expr.rewrite, Expr.unsigned, and_assoc]
    | _ => exact kinds_iff (by rintro ⟨⟩)
  | .read r, e', _, _ => by
    cases e' with
    | read r' =>
      refine (Read.beq_iff r r').trans ?_
      simp [Expr.nodes, Expr.isNaN, Expr.rewrite, Expr.unsigned]
    | _ => exact kinds_iff (by rintro ⟨⟩)
termination_by structural x => x

theorem Expr.beqOption_iff : ∀ e e' : Option Expr, Expr.beqOption e e' = true ↔
    (NaNFree (Expr.nodesOfOption e) ∧ NaNFree (Expr.nodesOfOption e')) ∧
      Expr.rewriteOption unsigning e = Expr.rewriteOption unsigning e'
  | none, e' => by cases e' <;> simp [Expr.beqOption, Expr.nodesOfOption, Expr.rewriteOption]
  | some e, none => by simp [Expr.beqOption, Expr.rewriteOption]
  | some e, some e' => by
    refine (Expr.beq_iff e e' false false).trans ?_
    simp [Expr.nodesOfOption, Expr.rewriteOption]
termination_by structural x => x

theorem Expr.beqList_iff : ∀ es es' : List Expr, Expr.beqList es es' = true ↔
    (NaNFree (Expr.nodesOfList es) ∧ NaNFree (Expr.nodesOfList es')) ∧
      Expr.rewriteList unsigning es = Expr.rewriteList unsigning es'
  | [], es' => by cases es' <;> simp [Expr.beqList, Expr.nodesOfList, Expr.rewriteList]
  | e :: es, [] => by simp [Expr.beqList, Expr.rewriteList]
  | e :: es, e' :: es' => by
    refine (parts_iff (Expr.beq_iff e e' false false) (Expr.beqList_iff es es')).trans ?_
    simp [Expr.nodesOfList, Expr.rewriteList]
termination_by structural x => x

theorem Expr.beqMembers_iff : ∀ ms ms' : List (String × Expr), Expr.beqMembers ms ms' = true ↔
    (NaNFree (Expr.nodesOfMembers ms) ∧ NaNFree (Expr.nodesOfMembers ms')) ∧
      Expr.rewriteMembers unsigning ms = Expr.rewriteMembers unsigning ms'
  | [], ms' => by cases ms' <;> simp [Expr.beqMembers, Expr.nodesOfMembers, Expr.rewriteMembers]
  | m :: ms, [] => by simp [Expr.beqMembers, Expr.rewriteMembers]
  | (n, e) :: ms, (n', e') :: ms' => by
    refine (parts_iff (parts_iff (plain_iff n n') (Expr.beq_iff e e' false false))
      (Expr.beqMembers_iff ms ms')).trans ?_
    simp [Expr.nodesOfMembers, Expr.rewriteMembers]
termination_by structural x => x

theorem Read.beqProjections_iff : ∀ ps ps' : List (MemberName × Expr), Read.beqProjections ps ps' = true ↔
    (NaNFree (Read.nodesOfProjections ps) ∧ NaNFree (Read.nodesOfProjections ps')) ∧
      Read.rewriteProjections unsigning ps = Read.rewriteProjections unsigning ps'
  | [], ps' => by cases ps' <;> simp [Read.beqProjections, Read.nodesOfProjections, Read.rewriteProjections]
  | p :: ps, [] => by simp [Read.beqProjections, Read.rewriteProjections]
  | (k, e) :: ps, (k', e') :: ps' => by
    refine (parts_iff (parts_iff (plain_iff k k') (Expr.beq_iff e e' false false))
      (Read.beqProjections_iff ps ps')).trans ?_
    simp [Read.nodesOfProjections, Read.rewriteProjections]
termination_by structural x => x

theorem Read.beq_iff : ∀ r r' : Read, r.beq r' = true ↔
    (NaNFree r.nodes ∧ NaNFree r'.nodes) ∧ r.rewrite unsigning = r'.rewrite unsigning
  | ⟨clauses, items, orderings, limit, skip, star, starNode, projections, aliasPrefix⟩,
    ⟨clauses', items', orderings', limit', skip', star', starNode', projections', aliasPrefix'⟩ => by
    have hclauses := ReadingClause.beqList_iff clauses clauses'
    have hitems := Expr.beqList_iff items items'
    have horderings := SortTerm.beqList_iff orderings orderings'
    have hlimit := Expr.beqOption_iff limit limit'
    have hskip := Expr.beqOption_iff skip skip'
    have hprojections := Read.beqProjections_iff projections projections'
    refine (parts_iff (parts_iff (parts_iff (parts_iff (parts_iff (parts_iff (parts_iff (parts_iff hclauses hitems)
      horderings) hlimit) hskip) (plain_iff star star')) (plain_iff starNode starNode')) hprojections)
      (plain_iff aliasPrefix aliasPrefix')).trans ?_
    simp [Read.nodes, Read.rewrite, and_assoc]
termination_by structural x => x

theorem PatternMatch.beq_iff : ∀ c c' : PatternMatch, c.beq c' = true ↔
    (NaNFree c.nodes ∧ NaNFree c'.nodes) ∧ c.rewrite unsigning = c'.rewrite unsigning
  | ⟨pattern, predicate, optional, source⟩, ⟨pattern', predicate', optional', source'⟩ => by
    refine (parts_iff (parts_iff (parts_iff (plain_iff pattern pattern') (Expr.beqOption_iff predicate predicate'))
      (plain_iff optional optional')) (plain_iff source source')).trans ?_
    simp [PatternMatch.nodes, PatternMatch.rewrite, and_assoc]
termination_by structural x => x

theorem ReadingClause.beq_iff : ∀ c c' : ReadingClause, c.beq c' = true ↔
    (NaNFree c.nodes ∧ NaNFree c'.nodes) ∧ c.rewrite unsigning = c'.rewrite unsigning
  | .pattern c, .pattern c' => by
    refine (PatternMatch.beq_iff c c').trans ?_
    simp [ReadingClause.nodes, ReadingClause.rewrite]
  | .nested s r, .nested s' r' => by
    refine (parts_iff (plain_iff s s') (Read.beq_iff r r')).trans ?_
    simp [ReadingClause.nodes, ReadingClause.rewrite]
  | .pattern c, .nested s' r' => by simp [ReadingClause.beq, ReadingClause.rewrite]
  | .nested s r, .pattern c' => by simp [ReadingClause.beq, ReadingClause.rewrite]
termination_by structural x => x

theorem ReadingClause.beqList_iff : ∀ cs cs' : List ReadingClause, ReadingClause.beqList cs cs' = true ↔
    (NaNFree (ReadingClause.nodesOfList cs) ∧ NaNFree (ReadingClause.nodesOfList cs')) ∧
      ReadingClause.rewriteList unsigning cs = ReadingClause.rewriteList unsigning cs'
  | [], cs' => by cases cs' <;> simp [ReadingClause.beqList, ReadingClause.nodesOfList, ReadingClause.rewriteList]
  | c :: cs, [] => by simp [ReadingClause.beqList, ReadingClause.rewriteList]
  | c :: cs, c' :: cs' => by
    refine (parts_iff (ReadingClause.beq_iff c c') (ReadingClause.beqList_iff cs cs')).trans ?_
    simp [ReadingClause.nodesOfList, ReadingClause.rewriteList]
termination_by structural x => x

theorem SortTerm.beq_iff : ∀ t t' : SortTerm, t.beq t' = true ↔
    (NaNFree t.nodes ∧ NaNFree t'.nodes) ∧ t.rewrite unsigning = t'.rewrite unsigning
  | ⟨e, descending⟩, ⟨e', descending'⟩ => by
    refine (parts_iff (Expr.beq_iff e e' false false) (plain_iff descending descending')).trans ?_
    simp [SortTerm.nodes, SortTerm.rewrite]
termination_by structural x => x

theorem SortTerm.beqList_iff : ∀ ts ts' : List SortTerm, SortTerm.beqList ts ts' = true ↔
    (NaNFree (SortTerm.nodesOfList ts) ∧ NaNFree (SortTerm.nodesOfList ts')) ∧
      SortTerm.rewriteList unsigning ts = SortTerm.rewriteList unsigning ts'
  | [], ts' => by cases ts' <;> simp [SortTerm.beqList, SortTerm.nodesOfList, SortTerm.rewriteList]
  | t :: ts, [] => by simp [SortTerm.beqList, SortTerm.rewriteList]
  | t :: ts, t' :: ts' => by
    refine (parts_iff (SortTerm.beq_iff t t') (SortTerm.beqList_iff ts ts')).trans ?_
    simp [SortTerm.nodesOfList, SortTerm.rewriteList]
termination_by structural x => x

theorem SourceKind.beq_iff : ∀ k k' : SourceKind, k.beq k' = true ↔
    (NaNFree k.nodes ∧ NaNFree k'.nodes) ∧ k.rewrite unsigning = k'.rewrite unsigning
  | .entitySet e, k' => by cases k' <;> simp [SourceKind.beq, SourceKind.nodes, SourceKind.rewrite]
  | .subquery q, .entitySet e' => by simp [SourceKind.beq, SourceKind.rewrite]
  | .subquery q, .subquery q' => by
    refine (Query.beq_iff q q').trans ?_
    simp [SourceKind.nodes, SourceKind.rewrite]
termination_by structural x => x

theorem Source.beq_iff : ∀ s s' : Source, s.beq s' = true ↔
    (NaNFree s.nodes ∧ NaNFree s'.nodes) ∧ s.rewrite unsigning = s'.rewrite unsigning
  | ⟨id, itemName, kind⟩, ⟨id', itemName', kind'⟩ => by
    refine (parts_iff (parts_iff (plain_iff id id') (plain_iff itemName itemName'))
      (SourceKind.beq_iff kind kind')).trans ?_
    simp [Source.nodes, Source.rewrite, and_assoc]
termination_by structural x => x

theorem Join.beq_iff : ∀ j j' : Join, j.beq j' = true ↔
    (NaNFree j.nodes ∧ NaNFree j'.nodes) ∧ j.rewrite unsigning = j'.rewrite unsigning
  | ⟨source, outer, relationship, outerKey, innerKey⟩, ⟨source', outer', relationship', outerKey', innerKey'⟩ => by
    refine (parts_iff (parts_iff (parts_iff (parts_iff (Source.beq_iff source source') (plain_iff outer outer'))
      (plain_iff relationship relationship')) (Expr.beqOption_iff outerKey outerKey'))
      (Expr.beqOption_iff innerKey innerKey')).trans ?_
    simp [Join.nodes, Join.rewrite, and_assoc]
termination_by structural x => x

theorem QueryClause.beq_iff : ∀ c c' : QueryClause, c.beq c' = true ↔
    (NaNFree c.nodes ∧ NaNFree c'.nodes) ∧ c.rewrite unsigning = c'.rewrite unsigning
  | .filter e, c' => by
    cases c' with
    | filter e' =>
      refine (Expr.beq_iff e e' false false).trans ?_
      simp [QueryClause.nodes, QueryClause.rewrite]
    | _ => simp [QueryClause.beq, QueryClause.rewrite]
  | .additional s, c' => by
    cases c' with
    | additional s' =>
      refine (Source.beq_iff s s').trans ?_
      simp [QueryClause.nodes, QueryClause.rewrite]
    | _ => simp [QueryClause.beq, QueryClause.rewrite]
  | .join j, c' => by
    cases c' with
    | join j' =>
      refine (Join.beq_iff j j').trans ?_
      simp [QueryClause.nodes, QueryClause.rewrite]
    | _ => simp [QueryClause.beq, QueryClause.rewrite]
  | .orderBy ts, c' => by
    cases c' with
    | orderBy ts' =>
      refine (SortTerm.beqList_iff ts ts').trans ?_
      simp [QueryClause.nodes, QueryClause.rewrite]
    | _ => simp [QueryClause.beq, QueryClause.rewrite]
  | .take e, c' => by
    cases c' with
    | take e' =>
      refine (Expr.beq_iff e e' false false).trans ?_
      simp [QueryClause.nodes, QueryClause.rewrite]
    | _ => simp [QueryClause.beq, QueryClause.rewrite]
  | .skip e, c' => by
    cases c' with
    | skip e' =>
      refine (Expr.beq_iff e e' false false).trans ?_
      simp [QueryClause.nodes, QueryClause.rewrite]
    | _ => simp [QueryClause.beq, QueryClause.rewrite]
termination_by structural x => x

theorem QueryClause.beqList_iff : ∀ cs cs' : List QueryClause, QueryClause.beqList cs cs' = true ↔
    (NaNFree (QueryClause.nodesOfList cs) ∧ NaNFree (QueryClause.nodesOfList cs')) ∧
      QueryClause.rewriteList unsigning cs = QueryClause.rewriteList unsigning cs'
  | [], cs' => by cases cs' <;> simp [QueryClause.beqList, QueryClause.nodesOfList, QueryClause.rewriteList]
  | c :: cs, [] => by simp [QueryClause.beqList, QueryClause.rewriteList]
  | c :: cs, c' :: cs' => by
    refine (parts_iff (QueryClause.beq_iff c c') (QueryClause.beqList_iff cs cs')).trans ?_
    simp [QueryClause.nodesOfList, QueryClause.rewriteList]
termination_by structural x => x

theorem Query.beq_iff : ∀ q q' : Query, q.beq q' = true ↔
    (NaNFree q.nodes ∧ NaNFree q'.nodes) ∧ q.rewrite unsigning = q'.rewrite unsigning
  | ⟨main, clauses, selector⟩, ⟨main', clauses', selector'⟩ => by
    refine (parts_iff (parts_iff (Source.beq_iff main main') (QueryClause.beqList_iff clauses clauses'))
      (Expr.beq_iff selector selector' false false)).trans ?_
    simp [Query.nodes, Query.rewrite, and_assoc]
termination_by structural x => x

end

/-! ## The laws -/

namespace Expr

variable {a b c : Expr}

theorem beq_symm (h : (a == b) = true) : (b == a) = true := by
  obtain ⟨⟨ha, hb⟩, hab⟩ := (beq_iff a b false false).1 h
  exact (beq_iff b a false false).2 ⟨⟨hb, ha⟩, hab.symm⟩

theorem beq_comm (a b : Expr) : (a == b) = (b == a) :=
  Bool.eq_iff_iff.2 ⟨beq_symm, beq_symm⟩

theorem beq_trans (h : (a == b) = true) (h' : (b == c) = true) : (a == c) = true := by
  obtain ⟨⟨ha, -⟩, hab⟩ := (beq_iff a b false false).1 h
  obtain ⟨⟨-, hc⟩, hbc⟩ := (beq_iff b c false false).1 h'
  exact (beq_iff a c false false).2 ⟨⟨ha, hc⟩, hab.trans hbc⟩

theorem beq_self_iff (e : Expr) : (e == e) = true ↔ NaNFree e.nodes := by
  refine (beq_iff e e false false).trans ?_
  simp

/-- Equal expressions equal the same expressions. -/
theorem beq_congr_left (h : (a == b) = true) (c : Expr) : (a == c) = (b == c) :=
  Bool.eq_iff_iff.2 ⟨beq_trans (beq_symm h), beq_trans h⟩

end Expr

end GraphQuery

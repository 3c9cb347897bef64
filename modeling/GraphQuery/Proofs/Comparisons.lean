import GraphQuery.Lowering.Comparison
import GraphQuery.Proofs.Nodes

/-!
# What comparisons take over from their operands

A property that conversions, negations and null tests take over from their operands, and that a binary expression has
from its operands or by itself, is also taken over by the lowered form of a binary expression
(`Expr.Inherited.combine`). An equality of tuples takes it over from the members of the tuples, and compares them pair
by pair as they are. All other operands are of one type when they are compared.
-/

namespace GraphQuery

/-- Whether an operator tests for equality or inequality. Only these compare tuples. -/
def Operator.isEquality : Operator → Bool
  | equal | notEqual => true
  | _ => false

theorem Operator.isComparison_of_isEquality {op : Operator} (h : op.isEquality = true) : op.isComparison = true := by
  cases op <;> first | rfl | cases h

namespace Expr

/-- A property `P` that expressions have from their operands. A binary expression may also have it by itself, as `own`
says, but only if it compares operands of different types. -/
structure Inherited (P : Expr → Prop) (own : Operator → Expr → Expr → Prop) : Prop where
  constant : ∀ x t, ¬P (.constant x t)
  convert : ∀ {e t}, P (.convert e t) ↔ P e
  not : ∀ {e}, P (.not e) ↔ P e
  isNull : ∀ {e}, P (.isNull e) ↔ P e
  binary : ∀ {op l r d}, P (.binary op l r d) ↔ own op l r ∨ P l ∨ P r
  own_comparison : ∀ {op l r}, own op l r → op.isComparison = true ∧ l.type ≠ r.type

/-- Whether an operand of an equality has a property: a tuple has it from its members. -/
def OfMembers (P : Expr → Prop) (e : Expr) : Prop :=
  match e.bare with
  | .sequence items => ∃ x ∈ items, P x
  | _ => P e

/-- The pairs that an equality of two tuples compares. A pair with a null becomes a null test instead. -/
def comparedMembers (left right : Expr) : List (Expr × Expr) :=
  match left.bare, right.bare with
  | .sequence ls, .sequence rs => (ls.zip rs).filter fun p => !p.1.isNullConstant && !p.2.isNullConstant
  | _, _ => []

variable {P : Expr → Prop} {own : Operator → Expr → Expr → Prop} {op : Operator} {l r e t : Expr} {d : OperatorDetail}

theorem isSequence_iff : e.isSequence = true ↔ ∃ items, e.bare = .sequence items := by
  unfold isSequence
  split
  · rename_i items hitems
    exact ⟨fun _ => ⟨items, hitems⟩, fun _ => rfl⟩
  · rename_i hother
    constructor
    · intro h
      cases h
    · rintro ⟨items, hitems⟩
      exact (hother items hitems).elim

theorem isNullConstant_bare (e : Expr) : e.bare.isNullConstant = e.isNullConstant := by
  fun_induction bare e with
  | case1 e type ih => exact ih
  | case2 e h => rfl

theorem not_sequence_of_isNullConstant (h : e.isNullConstant = true) : e.isSequence = false := by
  unfold isNullConstant at h
  unfold isSequence
  split at h
  · rename_i type hnull
    rw [hnull]
  · cases h

theorem ofMembers_of_bare {items : List Expr} (h : e.bare = .sequence items) :
    e.OfMembers P ↔ ∃ x ∈ items, P x := by
  rw [OfMembers, h]

theorem ofMembers_of_not_sequence (h : e.isSequence = false) : e.OfMembers P ↔ P e := by
  unfold OfMembers
  split
  · rename_i items hitems
    rw [isSequence_iff.2 ⟨items, hitems⟩] at h
    cases h
  · rfl

theorem comparedMembers_of_not_sequence (h : l.isSequence = false ∨ r.isSequence = false) :
    comparedMembers l r = [] := by
  unfold comparedMembers
  split
  · rename_i ls rs hls hrs
    rw [isSequence_iff.2 ⟨ls, hls⟩, isSequence_iff.2 ⟨rs, hrs⟩] at h
    rcases h with h | h
    · cases h
    · cases h
  · rfl

/-! ## Inversion -/

/-- The operand of a null test is the one that is compared with null. -/
theorem nullTest?_cases (h : nullTest? op l r = some t) :
    ∃ x, ((r.isNullConstant = true ∧ x = l) ∨ (l.isNullConstant = true ∧ x = r)) ∧
      (t = .isNull x.withoutNullableConvert ∨ t = .not (.isNull x.withoutNullableConvert)) := by
  unfold nullTest? at h
  generalize ho : (if r.isNullConstant then some l else if l.isNullConstant then some r else none) = o at h
  have operand : ∀ x, o = some x → (r.isNullConstant = true ∧ x = l) ∨ (l.isNullConstant = true ∧ x = r) := by
    intro x hx
    subst hx
    split at ho
    · rename_i hr
      cases ho
      exact .inl ⟨hr, rfl⟩
    · split at ho
      · rename_i hl
        cases ho
        exact .inr ⟨hl, rfl⟩
      · cases ho
  simp only at h
  split at h
  · cases h
    exact ⟨_, operand _ rfl, .inl rfl⟩
  · cases h
    exact ⟨_, operand _ rfl, .inr rfl⟩
  · cases h

theorem nullTest?_eq_none (hop : op.isEquality = true) (h : nullTest? op l r = none) :
    l.isNullConstant = false ∧ r.isNullConstant = false := by
  unfold nullTest? at h
  cases hr : r.isNullConstant <;> cases hl : l.isNullConstant <;> cases op <;> simp_all [Operator.isEquality]

/-- The comparison of operands that are no tuples: a null test, or a comparison of widened operands of one type. -/
structure ComparesValues (op : Operator) (l r : Expr) (d : OperatorDetail) (t : Expr) : Prop where
  left : l.isSequence = false
  right : r.isSequence = false
  compared : nullTest? op l r = some t ∨
    (widen l r).1.type = (widen l r).2.type ∧ t = .binary op (widen l r).1 (widen l r).2 d

/-- A comparison of tuples is kept for later. -/
theorem comparison?_cases (h : comparison? op l r d = some t) :
    (op.isEquality = true ∧ (l.isSequence = true ∨ r.isSequence = true) ∧ t = .binary op l r d) ∨
    ComparesValues op l r d t := by
  unfold comparison? at h
  split at h
  · rename_i hsequence
    rw [Bool.or_eq_true] at hsequence
    split at h
    · cases h; exact .inl ⟨rfl, hsequence, rfl⟩
    · cases h; exact .inl ⟨rfl, hsequence, rfl⟩
    · cases h
  · rename_i hsequence
    rw [Bool.not_eq_true, Bool.or_eq_false_iff] at hsequence
    refine .inr ⟨hsequence.1, hsequence.2, ?_⟩
    split at h
    · rename_i test htest
      cases h
      exact .inl htest
    · simp only at h
      split at h
      · rename_i htypes
        cases h
        exact .inr ⟨htypes, rfl⟩
      · cases h

theorem widen_isSequence (hl : l.isSequence = false) (hr : r.isSequence = false) :
    (widen l r).1.isSequence = false ∧ (widen l r).2.isSequence = false := by
  unfold widen
  split
  · exact ⟨hl, hr⟩
  · split
    · exact ⟨hl, hr⟩
    · exact ⟨hl, hr⟩

/-- The members that an operand of an equality of tuples is compared by: its own, or as many nulls as there are members
on the other side. -/
def HasMembers (e : Expr) (items : List Expr) : Prop :=
  e.bare = .sequence items ∨ e.isNullConstant = true ∧ ∃ n, items = List.replicate n e.bare

/-- The comparison of operands by their members, at least one of which is a tuple. -/
def ComparesMembers (op : Operator) (l r t : Expr) : Prop :=
  ∃ ls rs, unfoldPairs? op ls rs = some t ∧ l.HasMembers ls ∧ r.HasMembers rs ∧
    comparedMembers l r = (ls.zip rs).filter fun p => !p.1.isNullConstant && !p.2.isNullConstant

theorem unfoldSequences?_cases (hsequence : l.isSequence = true ∨ r.isSequence = true)
    (h : unfoldSequences? (.binary op l r d) = some t) : ComparesMembers op l r t := by
  have hnulls : ∀ {x : Expr} {n : Nat}, x.isNullConstant = true → ∀ y ∈ List.replicate n x, y.isNullConstant = true :=
    fun hx y hy => (List.mem_replicate.1 hy).2 ▸ hx
  simp only [unfoldSequences?] at h
  split at h
  · rename_i ls rs hls hrs
    exact ⟨ls, rs, h, .inl hls, .inl hrs, by rw [comparedMembers, hls, hrs]⟩
  · rename_i ls hls hother
    split at h
    · rename_i hnull
      have hr : r.isNullConstant = true := by rw [← isNullConstant_bare, hnull]
      refine ⟨ls, _, h, .inl hls, .inr ⟨hr, _, rfl⟩, ?_⟩
      rw [comparedMembers_of_not_sequence (.inr (not_sequence_of_isNullConstant hr)), eq_comm, List.filter_eq_nil_iff]
      intro p hp
      simp [hnulls hnull p.2 (List.of_mem_zip hp).2]
    · cases h
  · rename_i rs hrs hother
    split at h
    · rename_i hnull
      have hl : l.isNullConstant = true := by rw [← isNullConstant_bare, hnull]
      refine ⟨_, rs, h, .inr ⟨hl, _, rfl⟩, .inl hrs, ?_⟩
      rw [comparedMembers_of_not_sequence (.inl (not_sequence_of_isNullConstant hl)), eq_comm, List.filter_eq_nil_iff]
      intro p hp
      simp [hnulls hnull p.1 (List.of_mem_zip hp).1]
    · cases h
  · rename_i hleft hright hboth
    rcases hsequence with hl | hr
    · obtain ⟨ls, hls⟩ := isSequence_iff.1 hl
      exact (hleft ls hls).elim
    · obtain ⟨rs, hrs⟩ := isSequence_iff.1 hr
      exact (hright rs hrs).elim

/-- A comparison without tuples is not unfolded. -/
theorem ComparesValues.unfoldSequences? (h : ComparesValues op l r d t) : unfoldSequences? t = some t := by
  obtain ⟨hl, hr, htest | ⟨-, rfl⟩⟩ := h
  · obtain ⟨x, -, rfl | rfl⟩ := nullTest?_cases htest
    · rfl
    · rfl
  · obtain ⟨hl', hr'⟩ := widen_isSequence hl hr
    simp only [Expr.unfoldSequences?]
    split
    · rename_i ls rs hls hrs
      rw [isSequence_iff.2 ⟨ls, hls⟩] at hl'
      cases hl'
    · rename_i ls hls hother
      rw [isSequence_iff.2 ⟨ls, hls⟩] at hl'
      cases hl'
    · rename_i rs hrs hother
      rw [isSequence_iff.2 ⟨rs, hrs⟩] at hr'
      cases hr'
    · rfl

/-- What a binary expression with lowered operands becomes: it is kept, or it is an equality of tuples, or a comparison
of other operands. -/
theorem combine?_cases (h : combine? op l r d = some t) :
    (op.isComparison = false ∧ t = .binary op l r d) ∨ (op.isEquality = true ∧ ComparesMembers op l r t) ∨
      ComparesValues op l r d t := by
  have relation : op.isEquality = false → comparison? op l r d = some t → ComparesValues op l r d t := by
    intro hop h
    obtain ⟨hop', -⟩ | hvalues := comparison?_cases h
    · rw [hop] at hop'
      cases hop'
    · exact hvalues
  have equality : (comparison? op l r d).bind Expr.unfoldSequences? = some t →
      (op.isEquality = true ∧ ComparesMembers op l r t) ∨ ComparesValues op l r d t := by
    intro h
    obtain ⟨c, hc, ht⟩ := Option.bind_eq_some_iff.1 h
    obtain ⟨hop, hsequence, rfl⟩ | hvalues := comparison?_cases hc
    · exact .inl ⟨hop, unfoldSequences?_cases hsequence ht⟩
    · rw [hvalues.unfoldSequences?] at ht
      cases ht
      exact .inr hvalues
  unfold combine? at h
  cases op with
  | coalesce =>
    simp only at h
    split at h
    · cases h
    · cases h; exact .inl ⟨rfl, rfl⟩
  | equal => exact .inr (equality h)
  | notEqual => exact .inr (equality h)
  | greaterThan => exact .inr (.inr (relation rfl h))
  | greaterThanOrEqual => exact .inr (.inr (relation rfl h))
  | lessThan => exact .inr (.inr (relation rfl h))
  | lessThanOrEqual => exact .inr (.inr (relation rfl h))
  | _ => cases h; exact .inl ⟨rfl, rfl⟩

/-! ## No tuple comes out -/

theorem nullTest?_isSequence (h : nullTest? op l r = some t) : t.isSequence = false := by
  obtain ⟨x, -, rfl | rfl⟩ := nullTest?_cases h
  · rfl
  · rfl

theorem pairComparison_isSequence (op : Operator) (l r : Expr) : (pairComparison op l r).isSequence = false := by
  unfold pairComparison
  cases htest : nullTest? op l r with
  | none => rfl
  | some test => exact nullTest?_isSequence htest

theorem joinPairs_isSequence (op : Operator) (rest : List Expr) :
    ∀ {first : Expr}, first.isSequence = false → (joinPairs op first rest).isSequence = false := by
  unfold joinPairs
  induction rest with
  | nil => exact fun h => h
  | cons pair rest ih =>
    intro first _
    rw [List.foldl_cons]
    apply ih
    split
    · rfl
    · rfl

/-- The comparison of two tuples is that of the first pair joined with those of the others. -/
theorem unfoldPairs?_cases {ls rs : List Expr} (h : unfoldPairs? op ls rs = some t) :
    ls.length = rs.length ∧ ∃ first rest, (ls.zip rs).map (fun p => pairComparison op p.1 p.2) = first :: rest ∧
      (t = joinPairs op first rest ∨ t = andAlso (joinPairs op first rest) truth) := by
  unfold unfoldPairs? at h
  rw [← List.map_uncurry_zip_eq_zipWith] at h
  split at h
  · rename_i hlength
    refine ⟨hlength, ?_⟩
    split at h
    · cases h
    · rename_i first rest hpairs
      refine ⟨first, rest, hpairs, ?_⟩
      simp only at h
      split at h
      · cases h; exact .inr rfl
      · cases h; exact .inl rfl
  · cases h

theorem combine?_isSequence (h : combine? op l r d = some t) : t.isSequence = false := by
  obtain ⟨-, rfl⟩ | ⟨-, ls, rs, hpairs, -⟩ | ⟨-, -, htest | ⟨-, rfl⟩⟩ := combine?_cases h
  · rfl
  · obtain ⟨-, first, rest, hmap, rfl | rfl⟩ := unfoldPairs?_cases hpairs
    · obtain ⟨p, -, hfirst⟩ := List.mem_map.1 (hmap ▸ List.mem_cons_self)
      exact joinPairs_isSequence op rest (hfirst ▸ pairComparison_isSequence op p.1 p.2)
    · rfl
  · exact nullTest?_isSequence htest
  · rfl

/-! ## Inherited properties -/

namespace Inherited

variable (hP : Inherited P own)

include hP

theorem bare : P e.bare ↔ P e := by
  fun_induction Expr.bare e with
  | case1 e type ih => exact ih.trans hP.convert.symm
  | case2 e h => rfl

theorem nullConstant (h : e.isNullConstant = true) : ¬P e := by
  unfold isNullConstant at h
  split at h
  · rename_i type hnull
    rw [← hP.bare, hnull]
    exact hP.constant .null type
  · cases h

theorem withoutNullableConvert : P e.withoutNullableConvert ↔ P e := by
  unfold Expr.withoutNullableConvert
  split
  · exact hP.convert.symm
  · rfl

theorem nullTest (h : nullTest? op l r = some t) : P t ↔ P l ∨ P r := by
  obtain ⟨x, hx, ht⟩ := nullTest?_cases h
  have htest : P t ↔ P x := by
    rcases ht with rfl | rfl
    · exact hP.isNull.trans hP.withoutNullableConvert
    · exact hP.not.trans (hP.isNull.trans hP.withoutNullableConvert)
  -- The operand that is not tested is null, and has no property of its own.
  rcases hx with ⟨hnull, rfl⟩ | ⟨hnull, rfl⟩
  · rw [htest, or_iff_left (hP.nullConstant hnull)]
  · rw [htest, or_iff_right (hP.nullConstant hnull)]

theorem plain (hop : op.isComparison = false) : P (.binary op l r d) ↔ P l ∨ P r := by
  refine hP.binary.trans (or_iff_right fun hown => ?_)
  have hcompares := (hP.own_comparison hown).1
  rw [hop] at hcompares
  cases hcompares

theorem widen : (P (Expr.widen l r).1 ↔ P l) ∧ (P (Expr.widen l r).2 ↔ P r) := by
  unfold Expr.widen
  split
  · exact ⟨.rfl, .rfl⟩
  · split
    · exact ⟨.rfl, hP.convert⟩
    · exact ⟨hP.convert, .rfl⟩

theorem pairComparison (hop : op.isEquality = true) :
    P (Expr.pairComparison op l r) ↔
      ((!l.isNullConstant && !r.isNullConstant) = true ∧ own op l r) ∨ P l ∨ P r := by
  unfold Expr.pairComparison
  cases htest : nullTest? op l r with
  | none =>
    obtain ⟨hl, hr⟩ := nullTest?_eq_none hop htest
    simp [hl, hr, Expr.plain, hP.binary]
  | some test =>
    obtain ⟨x, hx, -⟩ := nullTest?_cases htest
    rw [Option.getD_some, hP.nullTest htest]
    rcases hx with ⟨hnull, -⟩ | ⟨hnull, -⟩
    · simp [hnull]
    · simp [hnull]

theorem joinPairs (rest : List Expr) : ∀ first, P (Expr.joinPairs op first rest) ↔ ∃ x ∈ first :: rest, P x := by
  have horElse : ∀ l r, P (orElse l r) ↔ P l ∨ P r := fun _ _ => hP.plain rfl
  have handAlso : ∀ l r, P (andAlso l r) ↔ P l ∨ P r := fun _ _ => hP.plain rfl
  unfold Expr.joinPairs
  induction rest with
  | nil => simp
  | cons pair rest ih =>
    intro first
    rw [List.foldl_cons, ih]
    split
    · simp [horElse, or_assoc]
    · simp [handAlso, or_assoc]

theorem unfoldPairs (hop : op.isEquality = true) {ls rs : List Expr} (h : unfoldPairs? op ls rs = some t) :
    P t ↔ (∃ x ∈ ls, P x) ∨ (∃ x ∈ rs, P x) ∨
      ∃ p ∈ (ls.zip rs).filter (fun p => !p.1.isNullConstant && !p.2.isNullConstant), own op p.1 p.2 := by
  obtain ⟨hlength, first, rest, hpairs, ht⟩ := unfoldPairs?_cases h
  have hjoined : P t ↔ ∃ x ∈ first :: rest, P x := by
    rcases ht with rfl | rfl
    · exact hP.joinPairs rest first
    · exact (hP.plain rfl).trans ((or_iff_left (hP.constant _ _)).trans (hP.joinPairs rest first))
  -- Every member stands in a pair, since the tuples are of one length.
  have hls : (∃ x ∈ (ls.zip rs).map Prod.fst, P x) ↔ ∃ x ∈ ls, P x := by
    rw [List.map_fst_zip (Nat.le_of_eq hlength)]
  have hrs : (∃ x ∈ (ls.zip rs).map Prod.snd, P x) ↔ ∃ x ∈ rs, P x := by
    rw [List.map_snd_zip (Nat.le_of_eq hlength.symm)]
  have hpair : ∀ p ∈ ls.zip rs, P (Expr.pairComparison op p.1 p.2) →
      ∃ x ∈ (ls.zip rs).map (fun p => Expr.pairComparison op p.1 p.2), P x :=
    fun p hp h => ⟨_, List.mem_map_of_mem hp, h⟩
  rw [hjoined, ← hpairs, ← hls, ← hrs]
  constructor
  · rintro ⟨x, hx, hPx⟩
    obtain ⟨p, hp, rfl⟩ := List.mem_map.1 hx
    rcases (hP.pairComparison hop).1 hPx with ⟨hnull, hown⟩ | hl | hr
    · exact .inr (.inr ⟨p, List.mem_filter.2 ⟨hp, hnull⟩, hown⟩)
    · exact .inl ⟨p.1, List.mem_map_of_mem hp, hl⟩
    · exact .inr (.inl ⟨p.2, List.mem_map_of_mem hp, hr⟩)
  · rintro (⟨x, hx, hPx⟩ | ⟨x, hx, hPx⟩ | ⟨p, hp, hown⟩)
    · obtain ⟨p, hp, rfl⟩ := List.mem_map.1 hx
      exact hpair p hp ((hP.pairComparison hop).2 (.inr (.inl hPx)))
    · obtain ⟨p, hp, rfl⟩ := List.mem_map.1 hx
      exact hpair p hp ((hP.pairComparison hop).2 (.inr (.inr hPx)))
    · obtain ⟨hp, hnull⟩ := List.mem_filter.1 hp
      exact hpair p hp ((hP.pairComparison hop).2 (.inl ⟨hnull, hown⟩))

theorem hasMembers {items : List Expr} (h : e.HasMembers items) : (∃ x ∈ items, P x) ↔ e.OfMembers P := by
  rcases h with hitems | ⟨hnull, n, rfl⟩
  · exact (ofMembers_of_bare hitems).symm
  · rw [ofMembers_of_not_sequence (not_sequence_of_isNullConstant hnull), ← hP.bare]
    have hbare : ¬P e.bare := fun h => hP.nullConstant hnull (hP.bare.1 h)
    refine iff_of_false ?_ hbare
    rintro ⟨x, hx, hPx⟩
    exact hbare ((List.mem_replicate.1 hx).2 ▸ hPx)

/-- What a lowered binary expression takes over from its operands. Only an equality of tuples can have the property by
itself, at the pairs of members that it compares. -/
theorem combine (h : combine? op l r d = some t) :
    P t ↔ if op.isEquality then l.OfMembers P ∨ r.OfMembers P ∨ ∃ p ∈ comparedMembers l r, own op p.1 p.2
      else P l ∨ P r := by
  obtain ⟨hop, rfl⟩ | ⟨hop, ls, rs, hpairs, hls, hrs, hmembers⟩ | ⟨hl, hr, hcompared⟩ := combine?_cases h
  · have hequality : ¬op.isEquality = true := fun h => by simp [Operator.isComparison_of_isEquality h] at hop
    rw [if_neg hequality, hP.plain hop]
  · rw [if_pos hop, hP.unfoldPairs hop hpairs, hP.hasMembers hls, hP.hasMembers hrs, hmembers]
  · have hcompared : P t ↔ P l ∨ P r := by
      rcases hcompared with htest | ⟨htypes, rfl⟩
      · exact hP.nullTest htest
      · rw [hP.binary, hP.widen.1, hP.widen.2]
        exact or_iff_right fun hown => (hP.own_comparison hown).2 htypes
    rw [ofMembers_of_not_sequence hl, ofMembers_of_not_sequence hr, comparedMembers_of_not_sequence (.inl hl)]
    simp [hcompared]

end Inherited

end Expr

end GraphQuery

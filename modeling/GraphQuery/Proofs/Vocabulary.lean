import GraphQuery.Lowering.Lower
import GraphQuery.Proofs.Comparisons
import GraphQuery.Proofs.Nodes

/-!
# The vocabulary of lowered expressions

A lowered expression is built from constants, operators, conditionals, conversions, negations and null tests over
what the scope gives for member accesses, and from tuples. A condition `v` on nodes that holds of all these therefore
holds of every node of a lowered expression (`Scope.lower_allNodes`). What a condition says about stored properties and
about tuples is left open: the first depends on the reads of the scope, the second on the tuples and the primary keys
that the expression refers to.
-/

namespace GraphQuery

/-- A condition on nodes that holds of every node that lowering builds, stored properties and tuples apart. -/
structure Vocabulary (v : Expr → Prop) : Prop where
  constant : ∀ x t, v (.constant x t)
  binary : ∀ op l r d, v (.binary op l r d)
  conditional : ∀ c a b t, v (.conditional c a b t)
  convert : ∀ e t, v (.convert e t)
  not : ∀ e, v (.not e)
  isNull : ∀ e, v (.isNull e)

/-! ## Comparisons -/

namespace Vocabulary

variable {v : Expr → Prop} (hv : Vocabulary v) {op : Operator} {l r e : Expr} {d : OperatorDetail}

include hv

theorem plain (hl : l.AllNodes v) (hr : r.AllNodes v) : (Expr.plain op l r).AllNodes v :=
  Expr.allNodes_binary.2 ⟨hv.binary .., hl, hr⟩

theorem truth : Expr.truth.AllNodes v :=
  Expr.allNodes_constant.2 (hv.constant ..)

/-- An expression leaves the vocabulary where one of its operands does. -/
theorem inherited : Expr.Inherited (fun e => ¬e.AllNodes v) fun _ _ _ => False where
  constant x t := fun h => h (Expr.allNodes_constant.2 (hv.constant x t))
  convert := by simp [hv.convert]
  not := by simp [hv.not]
  isNull := by simp [hv.isNull]
  binary := by simp [hv.binary, Classical.or_iff_not_imp_left]
  own_comparison := False.elim

omit hv in
theorem not_ofMembers (he : e.AllNodes v) : ¬e.OfMembers fun x => ¬x.AllNodes v := by
  unfold Expr.OfMembers
  split
  · rename_i items hitems
    rintro ⟨x, hx, hout⟩
    exact hout ((Expr.allNodes_sequence.1 (hitems ▸ he.bare)).2 x hx)
  · exact fun hout => hout he

theorem combine (hl : l.AllNodes v) (hr : r.AllNodes v) (h : Expr.combine? op l r d = some e) :
    e.AllNodes v := by
  refine Classical.byContradiction fun hout => ?_
  have hoperand := (hv.inherited.combine h).1 hout
  split at hoperand
  · rcases hoperand with hoperand | hoperand | ⟨p, -, hown⟩
    · exact not_ofMembers hl hoperand
    · exact not_ofMembers hr hoperand
    · exact hown
  · rcases hoperand with hoperand | hoperand
    · exact hoperand hl
    · exact hoperand hr

end Vocabulary

/-! ## Lowering -/

namespace Scope

variable {s : Scope} {v : Expr → Prop} {mode : Mode}

/-- What the scope gives for a member access satisfies `v` at every node. -/
structure Within (s : Scope) (v : Expr → Prop) : Prop where
  stored : ∀ {target m read bound}, s.storedMember? target m = some (read, bound) → bound.AllNodes v
  projected : ∀ {target m e}, s.projectedMember? target m = some e → e.AllNodes v
  outer : ∀ {target m e}, s.outer target m = some e → e.AllNodes v

/-- Without an enclosing query, the scope gives what its reads store and return. -/
theorem Within.of_reads (houter : s.outer = .absent)
    (hstored : ∀ {id r declared source e}, s.workspace.read? id = some r →
      r.storedProperty? declared source = some e → e.AllNodes v)
    (hreturned : ∀ {id r key e}, s.workspace.read? id = some r → r.memberItem? key = some e → e.AllNodes v) :
    s.Within v where
  stored := by
    intro target m read bound h
    obtain ⟨id, declared, r, -, hr, hbound⟩ := storedMember?_eq_some h
    exact hstored hr hbound
  projected := by
    intro target m e h
    obtain ⟨id, r, hr, hitem⟩ := projectedMember?_eq_some h
    exact hreturned hr hitem
  outer := by
    intro target m e h
    rw [houter] at h
    cases h

/-- A front-end node that is lowered within `v`: it carries no output name of its own, and gives a tuple only
when `v` holds of tuples. A reference to a joined item gives one when the primary key has several members. -/
def Admits (s : Scope) (v : Expr → Prop) : Expr → Prop
  | .storage p => v (.storage p)
  | .aliased _ _ => False
  | .sequence _ => ∀ items, v (.sequence items)
  | .source id type =>
    s.workspace.isJoin id = true → ∀ entity, s.schema.entityOf? type = some entity →
      entity.primaryKey.length ≤ 1 ∨ ∀ items, v (.sequence items)
  | _ => True

theorem lowerMember_allNodes (hs : s.Within v) {target : Expr} {m : Member} {e : Expr}
    (h : (s.lowerMember target m).result = some e) : e.AllNodes v := by
  unfold lowerMember at h
  split at h
  · rename_i read bound hb
    cases h
    exact hs.stored hb
  · simp only [Outcome.ofOption, Option.or_eq_some_iff] at h
    rcases h with h | ⟨-, h⟩
    · exact hs.projected h
    · exact hs.outer h

theorem traverse_mem {α β : Type} {f : α → Outcome β} {P : β → Prop}
    (hf : ∀ a b, (f a).result = some b → P b) :
    ∀ {as : List α} {bs : List β}, (Outcome.traverse f as).result = some bs → ∀ b ∈ bs, P b := by
  intro as
  induction as with
  | nil => intro bs h b hb; cases h; cases hb
  | cons a as ih =>
    intro bs h
    simp only [Outcome.traverse, Outcome.result_bind, Option.bind_eq_some_iff] at h
    obtain ⟨b, hb, bs', hbs', h⟩ := h
    cases h
    intro x hx
    rcases List.mem_cons.1 hx with rfl | hx
    · exact hf a x hb
    · exact ih hbs' x hx

theorem lowerSource_allNodes (hs : s.Within v) {id : SourceId} {type : ValueType} {e : Expr}
    (ha : s.Admits v (.source id type)) (h : (s.lowerSource mode id type).result = some e) :
    e.AllNodes v := by
  unfold lowerSource at h
  split at h
  · rename_i hj
    split at h
    · cases h
    · rename_i entity he
      simp only at h
      split at h
      · cases h
      · exact lowerMember_allNodes hs h
      · rename_i keys _ hone
        simp only [Outcome.result_bind, Option.bind_eq_some_iff] at h
        obtain ⟨items, hitems, h⟩ := h
        cases h
        refine Expr.allNodes_sequence.2 ⟨?_, traverse_mem (fun _ _ => lowerMember_allNodes hs) hitems⟩
        rcases ha hj.2 entity he with hlen | hseq
        · exfalso
          match hk : entity.primaryKey with
          | [] => simp_all
          | [key] => exact hone key hk
          | _ :: _ :: _ => rw [hk] at hlen; simp at hlen
        · exact hseq items
  · cases h

theorem conditionalTest_allNodes (hv : Vocabulary v) {test : Expr} (h : test.AllNodes v) :
    (conditionalTest test).AllNodes v := by
  unfold conditionalTest
  split
  · exact hv.plain h hv.truth
  · exact h

mutual

/-- A lowered expression keeps to the vocabulary. -/
theorem lower_allNodes (hv : Vocabulary v) (hs : s.Within v) (mode : Mode) : ∀ (e : Expr) {e' : Expr},
    e.AllNodes (s.Admits v) → (s.lower mode e).result = some e' → e'.AllNodes v
  | .binary op left right detail, e', he, h => by
    obtain ⟨-, hl, hr⟩ := Expr.allNodes_binary.1 he
    simp only [lower, Outcome.result_bind, Option.bind_eq_some_iff] at h
    obtain ⟨l, hl', r, hr', h⟩ := h
    exact hv.combine (lower_allNodes hv hs mode left hl hl') (lower_allNodes hv hs mode right hr hr') h
  | .conditional test ifTrue ifFalse type, e', he, h => by
    obtain ⟨-, ht, ha, hb⟩ := Expr.allNodes_conditional.1 he
    rw [lower] at h
    split at h
    · exact lower_allNodes hv hs mode ifTrue ha h
    · exact lower_allNodes hv hs mode ifFalse hb h
    · simp only [Outcome.result_bind, Option.bind_eq_some_iff] at h
      obtain ⟨t, ht', a, ha', b, hb', h⟩ := h
      cases h
      exact Expr.allNodes_conditional.2 ⟨hv.conditional ..,
        conditionalTest_allNodes hv (lower_allNodes hv hs mode test ht ht'),
        lower_allNodes hv hs mode ifTrue ha ha', lower_allNodes hv hs mode ifFalse hb hb'⟩
  | .member target m, e', _, h => by
    rw [lower] at h
    exact lowerMember_allNodes hs h
  | .source id type, e', he, h => by
    rw [lower] at h
    exact lowerSource_allNodes hs he.self h
  | .constant value type, e', _, h => by
    rw [lower, lowerConstant] at h
    split at h
    · cases h; exact Expr.allNodes_constant.2 (hv.constant ..)
    · cases h
  | .convert operand type, e', he, h => by
    simp only [lower, Outcome.result_bind, Option.bind_eq_some_iff] at h
    obtain ⟨x, hx, h⟩ := h
    cases h
    exact Expr.allNodes_convert.2
      ⟨hv.convert .., lower_allNodes hv hs mode operand (Expr.allNodes_convert.1 he).2 hx⟩
  | .not operand, e', he, h => by
    simp only [lower, Outcome.result_bind, Option.bind_eq_some_iff] at h
    obtain ⟨x, hx, h⟩ := h
    cases h
    exact Expr.allNodes_not.2 ⟨hv.not _, lower_allNodes hv hs mode operand (Expr.allNodes_not.1 he).2 hx⟩
  | .isNull operand, e', he, h => by
    simp only [lower, Outcome.result_bind, Option.bind_eq_some_iff] at h
    obtain ⟨x, hx, h⟩ := h
    cases h
    exact Expr.allNodes_isNull.2 ⟨hv.isNull _, lower_allNodes hv hs mode operand (Expr.allNodes_isNull.1 he).2 hx⟩
  | .sequence items, e', he, h => by
    obtain ⟨hseq, hitems⟩ := Expr.allNodes_sequence.1 he
    simp only [lower, Outcome.result_bind, Option.bind_eq_some_iff] at h
    obtain ⟨xs, hxs, h⟩ := h
    cases h
    exact Expr.allNodes_sequence.2 ⟨hseq xs, lowerAll_allNodes hv hs mode items hitems hxs⟩
  | .storage p, e', he, h => by
    rw [lower] at h
    cases h
    exact Expr.allNodes_storage.2 he.self
  | .aliased name e, e', he, _ => he.self.elim
  | .negate _, _, _, h | .call .., _, _, h | .parameter .., _, _, h | .construct .., _, _, h
  | .subquery _, _, _, h | .extension .., _, _, h | .read _, _, _, h => by
    rw [lower] at h
    cases h

/-- Lowered lists of expressions keep to the vocabulary. -/
theorem lowerAll_allNodes (hv : Vocabulary v) (hs : s.Within v) (mode : Mode) :
    ∀ (es : List Expr) {es' : List Expr},
      (∀ e ∈ es, e.AllNodes (s.Admits v)) → (s.lowerAll mode es).result = some es' →
        ∀ e' ∈ es', e'.AllNodes v
  | [], es', _, h, e', he' => by
    rw [lowerAll] at h
    cases h
    cases he'
  | e :: es, es', hes, h, e', he' => by
    simp only [lowerAll, Outcome.result_bind, Option.bind_eq_some_iff] at h
    obtain ⟨x, hx, xs, hxs, h⟩ := h
    cases h
    rcases List.mem_cons.1 he' with rfl | he'
    · exact lower_allNodes hv hs mode e (hes e List.mem_cons_self) hx
    · exact lowerAll_allNodes hv hs mode es (fun y hy => hes y (List.mem_cons_of_mem e hy)) hxs e' he'

end

end Scope

end GraphQuery

import GraphQuery.Proofs.Promotions

/-!
# What a lowering leaves behind

Operands are lowered from left to right, and a member of another read is promoted as soon as it is bound. Nothing takes
a promotion back, so a lowering that fails leaves behind what it has promoted by then.

`Scope.reached` says which member accesses a lowering comes to before it fails or ends, and `Scope.promotedTo` which
stored properties a read has to return for them. Each read is left as it was, except that it returns these as well
(`Scope.lowerAndPromote_leaves`); a workspace is left unchanged exactly when its reads return them already.
-/

namespace GraphQuery

/-- An access to a member of an expression. -/
structure Access where
  target : Expr
  member : Member

/-! ## Accesses in the order of lowering -/

namespace Scope

/-- Whether an expression has a lowered form. -/
def lowers (s : Scope) (mode : Mode) (e : Expr) : Bool :=
  (s.lower mode e).result.isSome

/-- Accesses one after the other, up to the first that cannot be bound. -/
def upToUnbound (s : Scope) : List Access → List Access
  | [] => []
  | a :: rest => a :: if (s.lowerMember a.target a.member).result.isSome then s.upToUnbound rest else []

/-- The access to a key of an item. -/
def keyAccess (id : SourceId) (type : ValueType) (entity : Entity) (key : Property) : Access :=
  ⟨.source id type, ⟨entity.name, key.name, key.type⟩⟩

/-- The accesses to the primary key that stand for a reference to a joined item in a condition. -/
def keyAccesses (s : Scope) (mode : Mode) (id : SourceId) (type : ValueType) : List Access :=
  if mode = .condition ∧ s.workspace.isJoin id then
    match s.schema.entityOf? type with
    | none => []
    | some entity => entity.primaryKey.map (keyAccess id type entity)
  else []

mutual

/-- The member accesses that lowering an expression comes to, in order. It does not come to what stands behind an
operand without a lowered form. -/
def reached (s : Scope) (mode : Mode) : Expr → List Access
  | .binary _ left right _ =>
    s.reached mode left ++ if s.lowers mode left then s.reached mode right else []
  | .conditional test ifTrue ifFalse _ =>
    match Expr.guardedBranch? test ifTrue ifFalse with
    | some .ifTrue => s.reached mode ifTrue
    | some .ifFalse => s.reached mode ifFalse
    | none =>
      s.reached mode test ++ if s.lowers mode test then
        s.reached mode ifTrue ++ if s.lowers mode ifTrue then s.reached mode ifFalse else []
      else []
  | .member target m => [⟨target, m⟩]
  | .source id type => s.upToUnbound (s.keyAccesses mode id type)
  | .convert operand _ | .not operand | .isNull operand => s.reached mode operand
  | .sequence items => s.reachedAll mode items
  | .constant .. | .storage _ | .aliased .. | .negate _ | .call .. | .parameter .. | .construct .. | .subquery _
  | .extension .. | .read _ => []

def reachedAll (s : Scope) (mode : Mode) : List Expr → List Access
  | [] => []
  | e :: rest => s.reached mode e ++ if s.lowers mode e then s.reachedAll mode rest else []

end

end Scope

/-! ## Promotions along the way -/

namespace Outcome

variable {α β : Type} {x : Outcome α} {f : α → Outcome β} {ps : List Promotion}

theorem promoted_bind_eq (h : ∀ a, (f a).promoted = ps) :
    (x >>= f).promoted = x.promoted ++ if x.result.isSome then ps else [] := by
  rw [promoted_bind]
  cases x.result with
  | none => rfl
  | some a => simp [h]

theorem promoted_bind_nil (h : ∀ a, (f a).promoted = []) : (x >>= f).promoted = x.promoted := by
  rw [promoted_bind_eq h, ite_self, List.append_nil]

end Outcome

namespace Scope

variable {s : Scope}

/-- What an access promotes: a stored property of another read than the target. -/
def promotion? (s : Scope) (a : Access) : Option Promotion :=
  match s.storedMember? a.target a.member with
  | some (read, bound) => if s.target.any (· != read) then some ⟨read, bound⟩ else none
  | none => none

theorem lowerMember_promoted (a : Access) :
    (s.lowerMember a.target a.member).promoted = [a].filterMap s.promotion? := by
  unfold lowerMember
  cases hstored : s.storedMember? a.target a.member with
  | none => simp [promotion?, hstored, Outcome.ofOption]
  | some found =>
    obtain ⟨read, bound⟩ := found
    by_cases hother : s.target.any (· != read) = true
    · simp [promotion?, hstored, hother]
    · simp [promotion?, hstored, hother]

theorem traverse_promoted {α : Type} (access : α → Access) : ∀ as : List α,
    (Outcome.traverse (fun a => s.lowerMember (access a).target (access a).member) as).promoted =
      (s.upToUnbound (as.map access)).filterMap s.promotion?
  | [] => rfl
  | a :: as => by
    rw [Outcome.traverse, Outcome.promoted_bind_eq fun _ => Outcome.promoted_bind_nil fun _ => rfl,
      lowerMember_promoted, traverse_promoted access as, List.map_cons, upToUnbound]
    split
    · exact List.filterMap_append.symm
    · exact List.append_nil _

theorem lowerSource_promoted (mode : Mode) (id : SourceId) (type : ValueType) :
    (s.lowerSource mode id type).promoted = (s.upToUnbound (s.keyAccesses mode id type)).filterMap s.promotion? := by
  unfold lowerSource keyAccesses
  split
  · cases s.schema.entityOf? type with
    | none => rfl
    | some entity =>
      simp only
      split
      · rename_i hkeys
        rw [hkeys]
        rfl
      · rename_i key hkeys
        rw [hkeys, List.map_singleton, upToUnbound, upToUnbound, ite_self]
        exact lowerMember_promoted (keyAccess id type entity key)
      · rw [Outcome.promoted_bind_nil fun _ => rfl]
        exact traverse_promoted (keyAccess id type entity) _
  · rfl

theorem lowerConstant_promoted (value : Value) (type : ValueType) : (s.lowerConstant value type).promoted = [] := by
  unfold lowerConstant
  split
  · rfl
  · rfl

mutual

/-- A lowering promotes what it comes to, in that order, and nothing else. -/
theorem lower_promoted (mode : Mode) : ∀ e, (s.lower mode e).promoted = (s.reached mode e).filterMap s.promotion?
  | .binary op left right detail => by
    rw [lower, reached, Outcome.promoted_bind_eq fun _ => Outcome.promoted_bind_nil fun _ => rfl,
      lower_promoted mode left, lower_promoted mode right, List.filterMap_append, lowers]
    split
    · rfl
    · rfl
  | .conditional test ifTrue ifFalse type => by
    rw [lower, reached]
    rcases Expr.guardedBranch? test ifTrue ifFalse with _ | _ | _
    · rw [Outcome.promoted_bind_eq fun _ => Outcome.promoted_bind_eq fun _ => Outcome.promoted_bind_nil fun _ => rfl,
        lower_promoted mode test, lower_promoted mode ifTrue, lower_promoted mode ifFalse, List.filterMap_append,
        lowers, lowers]
      split
      · rw [List.filterMap_append]
        split
        · rfl
        · rfl
      · rfl
    · exact lower_promoted mode ifTrue
    · exact lower_promoted mode ifFalse
  | .member target m => by
    rw [lower, reached]
    exact lowerMember_promoted ⟨target, m⟩
  | .source id type => by
    rw [lower, reached]
    exact lowerSource_promoted mode id type
  | .constant value type => by
    rw [lower, reached]
    exact lowerConstant_promoted value type
  | .convert operand type => by
    rw [lower, reached, ← lower_promoted mode operand]
    exact Outcome.promoted_bind_nil fun _ => rfl
  | .not operand => by
    rw [lower, reached, ← lower_promoted mode operand]
    exact Outcome.promoted_bind_nil fun _ => rfl
  | .isNull operand => by
    rw [lower, reached, ← lower_promoted mode operand]
    exact Outcome.promoted_bind_nil fun _ => rfl
  | .sequence items => by
    rw [lower, reached, ← lowerAll_promoted mode items]
    exact Outcome.promoted_bind_nil fun _ => rfl
  | .storage _ | .aliased _ _ | .negate _ | .call .. | .parameter .. | .construct .. | .subquery _ | .extension ..
  | .read _ => by
    rw [lower, reached]
    rfl

theorem lowerAll_promoted (mode : Mode) :
    ∀ es, (s.lowerAll mode es).promoted = (s.reachedAll mode es).filterMap s.promotion?
  | [] => by
    rw [lowerAll, reachedAll]
    rfl
  | e :: es => by
    rw [lowerAll, reachedAll, Outcome.promoted_bind_eq fun _ => Outcome.promoted_bind_nil fun _ => rfl,
      lower_promoted mode e, lowerAll_promoted mode es, List.filterMap_append, lowers]
    split
    · rfl
    · rfl

end

end Scope

/-! ## What reads return in the end -/

namespace Read

/-- A read that returns some stored properties as well. Those that it does not return yet come behind, each once, and
end the return of all properties of a node. -/
def offering (ps : List StoredProperty) (r : Read) : Read :=
  let added := (ps.filter fun p => !r.items.any fun item => item.returns (.storage p)).eraseDups
  { r with items := r.items ++ added.map .storage, star := r.star && added.isEmpty }

variable {r : Read} {ps : List StoredProperty}

theorem storage_returns (p q : StoredProperty) : (Expr.storage p).returns (.storage q) = (p == q) := by
  simp only [Expr.returns, Expr.isNamed, Bool.or_false]
  rfl

theorem addItem_storage (r : Read) (p : StoredProperty) :
    (r.addItem (.storage p) true).2 =
      if r.items.any fun item => item.returns (.storage p) then r
      else { r with items := r.items ++ [.storage p], star := false } := by
  have hfound : (r.items.findIdx? fun item => item.returns (.storage p)).isSome =
      r.items.any fun item => item.returns (.storage p) := List.findIdx?_isSome
  simp only [addItem, Expr.withoutWidening]
  cases hindex : r.items.findIdx? fun item => item.returns (.storage p) with
  | none => simp [← hfound, hindex]
  | some index => simp [← hfound, hindex]

theorem offering_of_offered {p : StoredProperty} (h : (r.items.any fun item => item.returns (.storage p)) = true) :
    r.offering (p :: ps) = r.offering ps := by
  simp only [offering, List.filter_cons, h, Bool.not_true, Bool.false_eq_true, if_false]

theorem offering_of_new {p : StoredProperty} (h : (r.items.any fun item => item.returns (.storage p)) = false) :
    r.offering (p :: ps) = { r with items := r.items ++ [Expr.storage p], star := false }.offering ps := by
  have hseen : ∀ q : StoredProperty, (!(r.items ++ [Expr.storage p]).any fun item => item.returns (.storage q)) =
      ((!q == p) && !r.items.any fun item => item.returns (.storage q)) := by
    intro q
    rw [List.any_append, List.any_cons, List.any_nil, Bool.or_false, storage_returns, Bool.not_or, Bool.and_comm,
      BEq.comm]
  simp only [offering, List.filter_cons, h, Bool.not_false, if_true, List.eraseDups_cons, hseen, List.filter_filter]
  simp

/-- Items that are added one after the other are those that are offered. -/
theorem foldl_addItem (ps : List StoredProperty) (r : Read) :
    ps.foldl (fun r p => (r.addItem (.storage p) true).2) r = r.offering ps := by
  induction ps generalizing r with
  | nil => cases r; simp [offering]
  | cons p ps ih =>
    rw [List.foldl_cons, ih, addItem_storage]
    cases h : r.items.any fun item => item.returns (.storage p) with
    | true => rw [offering_of_offered h, if_pos rfl]
    | false => rw [offering_of_new h, if_neg Bool.false_ne_true]

theorem offering_eq_self_iff : r.offering ps = r ↔ ∀ p ∈ ps, r.Offers (.storage p) := by
  have hadded : r.offering ps = r ↔
      (ps.filter fun p => !r.items.any fun item => item.returns (.storage p)).eraseDups = [] := by
    constructor
    · intro h
      have hitems : (r.offering ps).items = r.items := congrArg Read.items h
      simpa [offering] using hitems
    · intro h
      cases r
      simp only [offering, h]
      simp
  rw [hadded, List.eq_nil_iff_forall_not_mem]
  simp [Offers]

end Read

namespace Workspace

theorem read?_promoteAll (ps : List Promotion) (w : Workspace) (id : ReadId) :
    (w.promoteAll ps).read? id = (w.read? id).map fun r =>
      (ps.filter fun p => p.read = id).foldl (fun r p => (r.addItem p.item true).2) r := by
  induction ps generalizing w with
  | nil => simp [promoteAll]
  | cons p ps ih =>
    have hrest := ih (w.promote p)
    rw [read?_promote, Option.map_map] at hrest
    refine hrest.trans ?_
    by_cases hid : p.read = id
    · simp [hid, Function.comp_def]
    · simp [hid, Function.comp_def]

theorem sources_promoteAll (w : Workspace) (ps : List Promotion) : (w.promoteAll ps).sources = w.sources := by
  induction ps generalizing w with
  | nil => rfl
  | cons p ps ih => exact ih (w.promote p)

end Workspace

namespace Scope

variable {s : Scope} {mode : Mode} {e : Expr} {id : ReadId}

/-- The stored property of a read to which an access is bound. -/
def boundAt? (s : Scope) (id : ReadId) (a : Access) : Option StoredProperty :=
  match s.storedMember? a.target a.member with
  | some (read, .storage p) => if read = id then some p else none
  | _ => none

/-- The stored properties that a lowering comes to and that a read other than the target has to return for it. -/
def promotedTo (s : Scope) (mode : Mode) (e : Expr) (id : ReadId) : List StoredProperty :=
  if s.target.any (· != id) then (s.reached mode e).filterMap (s.boundAt? id) else []

/-- Of what a lowering promotes, a read gets the stored properties to which accesses in it are bound. -/
theorem filter_promotion (id : ReadId) (accesses : List Access) :
    (accesses.filterMap s.promotion?).filter (fun p => p.read = id) =
      (if s.target.any (· != id) then accesses.filterMap (s.boundAt? id) else []).map fun p => ⟨id, .storage p⟩ := by
  induction accesses with
  | nil => split <;> rfl
  | cons a accesses ih =>
    cases hstored : s.storedMember? a.target a.member with
    | none => simpa [promotion?, boundAt?, hstored] using ih
    | some found =>
      obtain ⟨read, bound⟩ := found
      obtain ⟨source, declared, r, -, -, hbound⟩ := storedMember?_eq_some hstored
      obtain ⟨node, -, rfl⟩ := Option.map_eq_some_iff.1 hbound
      -- An access that is bound in another read counts on neither side.
      by_cases hread : read = id
      · subst hread
        by_cases hother : s.target.any (· != read) = true
        · simpa [promotion?, boundAt?, hstored, hother] using ih
        · simpa [promotion?, boundAt?, hstored, hother] using ih
      · by_cases hother : s.target.any (· != read) = true
        · simpa [promotion?, boundAt?, hstored, hother, hread] using ih
        · simpa [promotion?, boundAt?, hstored, hother, hread] using ih

/-- Whether it gives a result or fails, a lowering leaves the sources of a workspace as they are, and each read as it
was except that it returns what was promoted to it. So the workspace is unchanged exactly when its reads return all of
that already. -/
theorem lowerAndPromote_leaves (s : Scope) (mode : Mode) (e : Expr) :
    let after := (s.lowerAndPromote mode e).2
    after.sources = s.workspace.sources ∧
    (∀ id, after.read? id = (s.workspace.read? id).map (Read.offering (s.promotedTo mode e id))) ∧
    (after = s.workspace ↔
      ∀ id r, s.workspace.read? id = some r → ∀ p ∈ s.promotedTo mode e id, r.Offers (.storage p)) := by
  intro after
  have hreads : ∀ id, after.read? id = (s.workspace.read? id).map (Read.offering (s.promotedTo mode e id)) := by
    intro id
    show (s.workspace.promoteAll (s.lower mode e).promoted).read? id = _
    rw [Workspace.read?_promoteAll, lower_promoted, filter_promotion]
    refine congrArg (fun f => (s.workspace.read? id).map f) (funext fun r => ?_)
    rw [List.foldl_map]
    exact Read.foldl_addItem _ r
  have hsources : after.sources = s.workspace.sources := s.workspace.sources_promoteAll (s.lower mode e).promoted
  refine ⟨hsources, hreads, fun h id r hr => ?_, fun h => ?_⟩
  · have hread := hreads id
    rw [h, hr] at hread
    exact Read.offering_eq_self_iff.1 (Option.some.inj hread).symm
  · have hsame : after.reads = s.workspace.reads := by
      refine List.ext_getElem? fun id => (hreads id).trans ?_
      cases hr : s.workspace.read? id with
      | none => exact hr.symm
      | some r =>
        rw [Option.map_some, Read.offering_eq_self_iff.2 (h id r hr)]
        exact hr.symm
    show Workspace.mk after.reads after.sources = s.workspace
    rw [hsame, hsources]

/-! ## A sum that fails -/

/-- Conditions on warehouses that may refer to the things of a second read. -/
def warehousesAndThings : Scope :=
  let read (source : Nat) (name entity : String) : Read :=
    (Read.empty Read.defaultAliasPrefix).addClause (.pattern (.ofSource ⟨source⟩ ⟨⟨some name, [entity]⟩, []⟩))
  { workspace :=
      { reads := [read 0 "w" "Warehouse", read 1 "t" "Thing"]
        sources :=
          Table.insert ⟨1⟩ ⟨1, .additional, "t", .entity "Thing"⟩
            (Table.insert ⟨0⟩ ⟨0, .main, "w", .entity "Warehouse"⟩ []) }
    schema := ⟨[
      { name := "Warehouse", properties := [⟨"Size", .int32, none, none⟩] },
      { name := "Thing", properties := [⟨"OwnerId", .int32, none, none⟩] }]⟩
    target := some 0 }

/-- The owner of a thing is promoted before the call behind it fails, and stays promoted. -/
theorem failed_sum_stays_promoted :
    let owner := Source.member ⟨⟨1⟩, "t", .entitySet "Thing"⟩ "OwnerId" .int32
    let sum := Expr.plain .add owner (.call none "Compute" [] .int32)
    let after := warehousesAndThings.lowerAndPromote .condition sum
    after.1 = none ∧ (warehousesAndThings.workspace.reads.map fun r => r.items.length) = [0, 0] ∧
      (after.2.reads.map fun r => r.items.length) = [0, 1] := by
  decide +kernel

end Scope

end GraphQuery

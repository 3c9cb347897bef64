import GraphQuery.Lowering.Lower

/-!
# What a lowering changes

Lowering an expression changes a workspace only by promotions. A promotion makes a read other than the target return a
stored property of a source that it reads (`Scope.Makes`), so whatever a lowering does on the way, and also when it
fails, each read keeps all that it has and may return more behind, and all that was promoted is returned
(`Scope.lowerAndPromote_grows`).
-/

namespace GraphQuery

/-! ## Promotions of an outcome -/

namespace Outcome

variable {α β : Type} {Q : Promotion → Prop}

/-- All promotions of an outcome satisfy `Q`, also when it has no result. -/
def Promotes (Q : Promotion → Prop) (x : Outcome α) : Prop :=
  ∀ p ∈ x.promoted, Q p

theorem Promotes.pure (a : α) : Promotes Q (Pure.pure a : Outcome α) :=
  fun _ hp => nomatch hp

theorem Promotes.ofOption (result : Option α) : Promotes Q (Outcome.ofOption result) :=
  fun _ hp => nomatch hp

theorem Promotes.fail : Promotes Q (Outcome.fail : Outcome α) :=
  fun _ hp => nomatch hp

theorem Promotes.bind {x : Outcome α} {f : α → Outcome β} (hx : x.Promotes Q) (hf : ∀ a, (f a).Promotes Q) :
    (x >>= f).Promotes Q := by
  intro p hp
  rw [promoted_bind] at hp
  rcases List.mem_append.1 hp with hp | hp
  · exact hx p hp
  · cases hresult : x.result with
    | none => rw [hresult] at hp; cases hp
    | some a => rw [hresult] at hp; exact hf a p hp

theorem Promotes.traverse {f : α → Outcome β} (hf : ∀ a, (f a).Promotes Q) :
    ∀ as : List α, (Outcome.traverse f as).Promotes Q
  | [] => .pure []
  | a :: as => (hf a).bind fun _ => (Promotes.traverse hf as).bind fun _ => .pure _

end Outcome

namespace Scope

/-- What a promotion may be: another read than the target is to return a stored property of a source that it reads. -/
structure Makes (s : Scope) (p : Promotion) : Prop where
  other : ∃ target, s.target = some target ∧ target ≠ p.read
  stored : ∃ source declared read, s.workspace.readOf? source = some p.read ∧
    s.workspace.read? p.read = some read ∧ read.storedProperty? declared source = some p.item

variable {s : Scope}

theorem lowerMember_promotes (target : Expr) (m : Member) : (s.lowerMember target m).Promotes s.Makes := by
  unfold lowerMember
  split
  · rename_i read bound hstored
    intro p hp
    by_cases hother : s.target.any (· != read) = true
    · simp only [hother, if_true, List.mem_singleton] at hp
      subst hp
      refine ⟨?_, ?_⟩
      · cases htarget : s.target with
        | none => rw [htarget] at hother; cases hother
        | some id =>
          rw [htarget] at hother
          exact ⟨id, rfl, by simpa using hother⟩
      · obtain ⟨id, declared, r, hread, hr, hbound⟩ := storedMember?_eq_some hstored
        exact ⟨id, declared, r, hread, hr, hbound⟩
    · simp only [hother] at hp
      cases hp
  · exact .ofOption _

theorem lowerSource_promotes (mode : Mode) (id : SourceId) (type : ValueType) :
    (s.lowerSource mode id type).Promotes s.Makes := by
  unfold lowerSource
  split
  · split
    · exact .fail
    · simp only
      split
      · exact .fail
      · exact lowerMember_promotes _ _
      · exact (Outcome.Promotes.traverse (fun _ => lowerMember_promotes _ _) _).bind fun _ => .pure _
  · exact .fail

theorem lowerConstant_promotes (value : Value) (type : ValueType) :
    (s.lowerConstant value type).Promotes s.Makes := by
  unfold lowerConstant
  split
  · exact .pure _
  · exact .fail

mutual

/-- All promotions that a lowering makes on the way are of this kind. -/
theorem lower_promotes (mode : Mode) : ∀ e, (s.lower mode e).Promotes s.Makes
  | .binary op left right detail => by
    rw [lower]
    exact (lower_promotes mode left).bind fun _ => (lower_promotes mode right).bind fun _ => .ofOption _
  | .conditional test ifTrue ifFalse type => by
    rw [lower]
    split
    · exact lower_promotes mode ifTrue
    · exact lower_promotes mode ifFalse
    · exact (lower_promotes mode test).bind fun _ => (lower_promotes mode ifTrue).bind fun _ =>
        (lower_promotes mode ifFalse).bind fun _ => .pure _
  | .member target m => by rw [lower]; exact lowerMember_promotes target m
  | .source id type => by rw [lower]; exact lowerSource_promotes mode id type
  | .constant value type => by rw [lower]; exact lowerConstant_promotes value type
  | .convert operand type => by rw [lower]; exact (lower_promotes mode operand).bind fun _ => .pure _
  | .not operand => by rw [lower]; exact (lower_promotes mode operand).bind fun _ => .pure _
  | .isNull operand => by rw [lower]; exact (lower_promotes mode operand).bind fun _ => .pure _
  | .sequence items => by rw [lower]; exact (lowerAll_promotes mode items).bind fun _ => .pure _
  | .storage _ => by rw [lower]; exact .pure _
  | .aliased _ _ => by rw [lower]; exact .pure _
  | .negate _ | .call .. | .parameter .. | .construct .. | .subquery _ | .extension .. | .read _ => by
    rw [lower]
    exact .fail

theorem lowerAll_promotes (mode : Mode) : ∀ es, (s.lowerAll mode es).Promotes s.Makes
  | [] => by rw [lowerAll]; exact .pure _
  | e :: es => by
    rw [lowerAll]
    exact (lower_promotes mode e).bind fun _ => (lowerAll_promotes mode es).bind fun _ => .pure _

end

end Scope

/-! ## Reads that return more -/

namespace Read

variable {Q : Expr → Prop} {r r' r'' : Read}

/-- A read that is another one with more items behind, all of which satisfy `Q`. A new item ends the return of all
properties of a node, and nothing else changes. -/
def Grows (Q : Expr → Prop) (r r' : Read) : Prop :=
  ∃ added, r' = { r with items := r.items ++ added, star := r.star && added.isEmpty } ∧ ∀ e ∈ added, Q e

theorem Grows.refl (r : Read) : r.Grows Q r :=
  ⟨[], by cases r; simp, fun _ he => nomatch he⟩

theorem Grows.trans (h : r.Grows Q r') (h' : r'.Grows Q r'') : r.Grows Q r'' := by
  obtain ⟨added, rfl, hadded⟩ := h
  obtain ⟨added', rfl, hadded'⟩ := h'
  refine ⟨added ++ added', ?_, ?_⟩
  · cases added <;> simp
  · intro e he
    exact (List.mem_append.1 he).elim (hadded e) (hadded' e)

theorem Grows.addItem (r : Read) {p : StoredProperty} (h : Q (.storage p)) :
    r.Grows Q (r.addItem (.storage p) true).2 := by
  simp only [Read.addItem, Expr.withoutWidening]
  split
  · exact .refl r
  · exact ⟨[.storage p], by simp, by simpa using h⟩

/-- The read returns an expression, perhaps under an output name. -/
def Offers (r : Read) (e : Expr) : Prop :=
  ∃ item ∈ r.items, item.returns e = true

theorem Grows.offers {e : Expr} (h : r.Grows Q r') (he : r.Offers e) : r'.Offers e := by
  obtain ⟨added, rfl, -⟩ := h
  obtain ⟨item, hitem, hreturns⟩ := he
  exact ⟨item, List.mem_append_left added hitem, hreturns⟩

theorem addItem_offers (r : Read) (p : StoredProperty) : (r.addItem (.storage p) true).2.Offers (.storage p) := by
  simp only [Read.addItem, Expr.withoutWidening]
  split
  · rename_i index hindex
    obtain ⟨hlt, hreturns, -⟩ := List.findIdx?_eq_some_iff_getElem.1 hindex
    exact ⟨r.items[index], List.getElem_mem hlt, hreturns⟩
  · have hself : (Expr.storage p == Expr.storage p) = true := beq_self_eq_true p
    exact ⟨.storage p, by simp, by simp [Expr.returns, hself]⟩

end Read

namespace Workspace

variable {Q : ReadId → Expr → Prop} {w w' w'' : Workspace}

/-- A workspace with the same sources and the same reads, each of which may return more. -/
structure Grows (Q : ReadId → Expr → Prop) (w w' : Workspace) : Prop where
  sources : w'.sources = w.sources
  length : w'.reads.length = w.reads.length
  reads : ∀ {id r}, w.read? id = some r → ∃ r', w'.read? id = some r' ∧ r.Grows (Q id) r'

theorem Grows.refl (w : Workspace) : w.Grows Q w :=
  ⟨rfl, rfl, fun {_ r} hr => ⟨r, hr, .refl r⟩⟩

theorem Grows.trans (h : w.Grows Q w') (h' : w'.Grows Q w'') : w.Grows Q w'' := by
  refine ⟨h'.sources.trans h.sources, h'.length.trans h.length, fun {id r} hr => ?_⟩
  obtain ⟨r', hr', hgrows⟩ := h.reads hr
  obtain ⟨r'', hr'', hgrows'⟩ := h'.reads hr'
  exact ⟨r'', hr'', hgrows.trans hgrows'⟩

theorem read?_promote (w : Workspace) (p : Promotion) (id : ReadId) :
    (w.promote p).read? id =
      (w.read? id).map fun r => if p.read = id then (r.addItem p.item true).2 else r := by
  simp only [promote, modify, read?, List.getElem?_modify]
  split <;> simp

theorem Grows.promote (w : Workspace) {p : Promotion} (hitem : ∃ property, p.item = .storage property)
    (h : Q p.read p.item) : w.Grows Q (w.promote p) := by
  obtain ⟨property, hitem⟩ := hitem
  refine ⟨rfl, List.length_modify .., fun {id r} hr => ?_⟩
  simp only [read?_promote, hr, Option.map_some, Option.some.injEq, exists_eq_left']
  split
  · rename_i hid
    subst hid
    rw [hitem] at h ⊢
    exact .addItem r h
  · exact .refl r

/-- Promotions one after the other only make reads return more. -/
theorem Grows.promoteAll {ps : List Promotion} (w : Workspace)
    (h : ∀ p ∈ ps, (∃ property, p.item = .storage property) ∧ Q p.read p.item) : w.Grows Q (w.promoteAll ps) := by
  induction ps generalizing w with
  | nil => exact .refl w
  | cons p ps ih =>
    obtain ⟨hitem, hp⟩ := h p List.mem_cons_self
    exact (Grows.promote w hitem hp).trans (ih (w.promote p) fun p' hp' => h p' (List.mem_cons_of_mem p hp'))

/-- What is promoted is returned in the end: later promotions take nothing away. -/
theorem promoteAll_offers {ps : List Promotion} (w : Workspace)
    (hitem : ∀ p ∈ ps, ∃ property, p.item = .storage property)
    (hread : ∀ p ∈ ps, ∃ r, w.read? p.read = some r) :
    ∀ p ∈ ps, ∃ r, (w.promoteAll ps).read? p.read = some r ∧ r.Offers p.item := by
  induction ps generalizing w with
  | nil => exact fun _ hp => nomatch hp
  | cons p ps ih =>
    have hrest : (w.promote p).Grows (fun _ _ => True) (w.promoteAll (p :: ps)) :=
      .promoteAll (w.promote p) fun p' hp' => ⟨hitem p' (List.mem_cons_of_mem p hp'), trivial⟩
    intro p' hp'
    rcases List.mem_cons.1 hp' with rfl | hp'
    · obtain ⟨r, hr⟩ := hread p' List.mem_cons_self
      obtain ⟨property, hproperty⟩ := hitem p' List.mem_cons_self
      have hfirst : (w.promote p').read? p'.read = some (r.addItem p'.item true).2 := by simp [read?_promote, hr]
      obtain ⟨r', hr', hgrows⟩ := hrest.reads hfirst
      refine ⟨r', hr', hgrows.offers ?_⟩
      rw [hproperty]
      exact r.addItem_offers property
    · refine ih (w.promote p) (fun q hq => hitem q (List.mem_cons_of_mem p hq)) (fun q hq => ?_) p' hp'
      obtain ⟨r, hr⟩ := hread q (List.mem_cons_of_mem p hq)
      rw [read?_promote, hr]
      exact ⟨_, rfl⟩

end Workspace

namespace Scope

variable {s : Scope} {p : Promotion}

theorem Makes.isStorage (h : s.Makes p) : ∃ property, p.item = .storage property := by
  obtain ⟨source, declared, r, -, -, hitem⟩ := h.stored
  obtain ⟨node, -, hitem⟩ := Option.map_eq_some_iff.1 hitem
  exact ⟨_, hitem.symm⟩

/-- Whatever it gives, a lowering changes a workspace only in what reads other than the target return: behind their
items they may return stored properties of sources that they read. All that was promoted is returned. -/
theorem lowerAndPromote_grows (s : Scope) (mode : Mode) (e : Expr) :
    let after := (s.lowerAndPromote mode e).2
    after.sources = s.workspace.sources ∧ after.reads.length = s.workspace.reads.length ∧
      (s.target = none → after = s.workspace) ∧
      (∀ p ∈ (s.lower mode e).promoted, ∃ r', after.read? p.read = some r' ∧ r'.Offers p.item) ∧
      ∀ id r, s.workspace.read? id = some r →
        ∃ r' added, after.read? id = some r' ∧ (s.target = some id → r' = r) ∧
          r' = { r with items := r.items ++ added, star := r.star && added.isEmpty } ∧
          ∀ item ∈ added, (∃ property, item = .storage property) ∧
            ∃ source declared, s.workspace.readOf? source = some id ∧
              r.storedProperty? declared source = some item := by
  intro after
  have hmakes := s.lower_promotes mode e
  have hgrows : s.workspace.Grows (fun id item => s.Makes ⟨id, item⟩) after :=
    .promoteAll s.workspace fun p hp => ⟨(hmakes p hp).isStorage, hmakes p hp⟩
  refine ⟨hgrows.sources, hgrows.length, fun hnone => ?_, ?_, fun id r hr => ?_⟩
  · have hpromoted : (s.lower mode e).promoted = [] := by
      refine List.eq_nil_iff_forall_not_mem.2 fun p hp => ?_
      obtain ⟨target, htarget, -⟩ := (hmakes p hp).other
      rw [hnone] at htarget
      cases htarget
    show s.workspace.promoteAll (s.lower mode e).promoted = s.workspace
    rw [hpromoted]
    rfl
  · refine Workspace.promoteAll_offers s.workspace (fun p hp => (hmakes p hp).isStorage) fun p hp => ?_
    obtain ⟨_, _, r, -, hr, -⟩ := (hmakes p hp).stored
    exact ⟨r, hr⟩
  · obtain ⟨r', hr', added, rfl, hadded⟩ := hgrows.reads hr
    refine ⟨_, added, hr', fun htarget => ?_, rfl, fun item hitem => ⟨(hadded item hitem).isStorage, ?_⟩⟩
    · -- The target itself is never promoted to, so nothing is added.
      have : added = [] := by
        refine List.eq_nil_iff_forall_not_mem.2 fun item hitem => ?_
        obtain ⟨target, htarget', hother⟩ := (hadded item hitem).other
        exact hother (Option.some.inj (htarget'.symm.trans htarget))
      subst this
      cases r
      simp
    · obtain ⟨source, declared, read, hsource, hread, hstored⟩ := (hadded item hitem).stored
      cases hr.symm.trans hread
      exact ⟨source, declared, hsource, hstored⟩

end Scope

end GraphQuery

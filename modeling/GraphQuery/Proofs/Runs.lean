/-!
# Runs that may fail

What the result of a sequence of steps says about the steps. A run that succeeds passes through a result of each step,
and a run that fails does so at one of them.
-/

namespace GraphQuery.Run

variable {ε ε' α β σ : Type}

theorem bind_eq_ok {x : Except ε α} {f : α → Except ε β} {b : β} :
    (x >>= f) = .ok b ↔ ∃ a, x = .ok a ∧ f a = .ok b := by
  cases x with
  | error e => simp [bind, Except.bind]
  | ok a => simp [bind, Except.bind]

theorem bind_eq_error {x : Except ε α} {f : α → Except ε β} {e : ε} :
    (x >>= f) = .error e ↔ x = .error e ∨ ∃ a, x = .ok a ∧ f a = .error e := by
  cases x with
  | error e' => simp [bind, Except.bind]
  | ok a => simp [bind, Except.bind]

@[simp] theorem pure_eq_ok {a b : α} : (pure a : Except ε α) = .ok b ↔ a = b := by
  simp [pure, Except.pure]

@[simp] theorem pure_ne_error {a : α} {e : ε} : (pure a : Except ε α) ≠ .error e := by
  simp [pure, Except.pure]

theorem mapError_eq_ok {f : ε → ε'} {x : Except ε α} {a : α} :
    x.mapError f = .ok a ↔ x = .ok a := by
  cases x with
  | error e =>
    constructor
    · intro h; cases h
    · intro h; cases h
  | ok b =>
    constructor
    · intro h; cases h; rfl
    · intro h; cases h; rfl

theorem mapError_eq_error {f : ε → ε'} {x : Except ε α} {e : ε'} :
    x.mapError f = .error e ↔ ∃ cause, x = .error cause ∧ f cause = e := by
  cases x with
  | error cause =>
    constructor
    · intro h; cases h; exact ⟨cause, rfl, rfl⟩
    · rintro ⟨_, h, rfl⟩; cases h; rfl
  | ok a =>
    constructor
    · intro h; cases h
    · rintro ⟨_, h, -⟩; cases h

theorem map_eq_ok {f : α → β} {x : Except ε α} {b : β} : x.map f = .ok b ↔ ∃ a, x = .ok a ∧ b = f a := by
  cases x with
  | error e => simp [Except.map]
  | ok a => simp [Except.map, eq_comm]

theorem map_eq_error {f : α → β} {x : Except ε α} {e : ε} : x.map f = .error e ↔ x = .error e := by
  cases x with
  | error e' => simp [Except.map]
  | ok a => simp [Except.map]

/-- What each step of a run keeps, the whole run keeps. -/
theorem foldlM_keeps {f : σ → α → Except ε σ} (P : σ → Prop) :
    ∀ {l : List α} {s t : σ}, (∀ a ∈ l, ∀ s t, P s → f s a = .ok t → P t) → P s →
      l.foldlM f s = .ok t → P t := by
  intro l
  induction l with
  | nil =>
    intro s t _ hs h
    simp only [List.foldlM_nil, pure_eq_ok] at h
    exact h ▸ hs
  | cons a l ih =>
    intro s t step hs h
    rw [List.foldlM_cons] at h
    obtain ⟨m, hm, h⟩ := bind_eq_ok.1 h
    exact ih (fun b hb => step b (List.mem_cons_of_mem a hb))
      (step a List.mem_cons_self s m hs hm) h

/-- Steps that agree on the states that a run can reach make the same run. -/
theorem foldlM_congr {f g : σ → α → Except ε σ} (P : σ → Prop) :
    ∀ {l : List α} {s : σ}, (∀ a ∈ l, ∀ s, P s → f s a = g s a) → (∀ a ∈ l, ∀ s t, P s → f s a = .ok t → P t) →
      P s → l.foldlM f s = l.foldlM g s := by
  intro l
  induction l with
  | nil => intros; rfl
  | cons a l ih =>
    intro s same step hs
    rw [List.foldlM_cons, List.foldlM_cons, ← same a List.mem_cons_self s hs]
    cases hstep : f s a with
    | error e => rfl
    | ok m =>
      exact ih (fun b hb => same b (List.mem_cons_of_mem a hb)) (fun b hb => step b (List.mem_cons_of_mem a hb))
        (step a List.mem_cons_self s m hs hstep)

/-- A change of the states with which each step commutes commutes with the whole run. -/
theorem foldlM_map {f : σ → α → Except ε σ} {change : σ → σ} (step : ∀ s a, f (change s) a = (f s a).map change)
    (l : List α) (s : σ) : l.foldlM f (change s) = (l.foldlM f s).map change := by
  induction l generalizing s with
  | nil => rfl
  | cons a l ih =>
    rw [List.foldlM_cons, List.foldlM_cons, step]
    cases f s a with
    | error e => rfl
    | ok t => exact ih t

/-- A run over two lists in a row passes through a result of the first. -/
theorem foldlM_append_eq_ok {f : σ → α → Except ε σ} {xs ys : List α} {s t : σ} :
    (xs ++ ys).foldlM f s = .ok t ↔ ∃ m, xs.foldlM f s = .ok m ∧ ys.foldlM f m = .ok t := by
  rw [List.foldlM_append, bind_eq_ok]

/-- A run over a list that succeeds does so at each element, and its results follow one another like the elements. -/
theorem mapM_flatMap {γ : Type} {f : α → Except ε β} {P : α → Prop} {g : α → List γ} {k : β → List γ}
    (hf : ∀ {a b}, f a = .ok b → P a ∧ k b = g a) {l : List α} {bs : List β} (h : l.mapM f = .ok bs) :
    (∀ a ∈ l, P a) ∧ bs.flatMap k = l.flatMap g := by
  induction l generalizing bs with
  | nil =>
    cases h
    exact ⟨by simp, rfl⟩
  | cons a l ih =>
    rw [List.mapM_cons] at h
    obtain ⟨b, hb, h⟩ := bind_eq_ok.1 h
    obtain ⟨rest, hrest, h⟩ := bind_eq_ok.1 h
    cases h
    obtain ⟨ha, hab⟩ := hf hb
    obtain ⟨hl, hflat⟩ := ih hrest
    exact ⟨List.forall_mem_cons.2 ⟨ha, hl⟩, by rw [List.flatMap_cons, List.flatMap_cons, hab, hflat]⟩

/-! ## The errors of a run -/

/-- A run that fails with no other errors than those that satisfy `Q`. -/
def FailsOnly (Q : ε → Prop) (x : Except ε α) : Prop :=
  ∀ e, x = .error e → Q e

namespace FailsOnly

variable {Q : ε → Prop}

theorem ok (a : α) : FailsOnly Q (.ok a : Except ε α) :=
  fun _ h => nomatch h

theorem pure (a : α) : FailsOnly Q (Pure.pure a : Except ε α) :=
  ok a

theorem error {e : ε} (h : Q e) : FailsOnly Q (.error e : Except ε α) := by
  intro e' he
  cases he
  exact h

theorem bind {x : Except ε α} {f : α → Except ε β} (hx : FailsOnly Q x)
    (hf : ∀ a, x = .ok a → FailsOnly Q (f a)) : FailsOnly Q (x >>= f) := by
  intro e h
  rcases bind_eq_error.1 h with h | ⟨a, ha, h⟩
  · exact hx e h
  · exact hf a ha e h

theorem mapM {f : α → Except ε β} : ∀ {l : List α}, (∀ a ∈ l, FailsOnly Q (f a)) → FailsOnly Q (l.mapM f) := by
  intro l
  induction l with
  | nil => intro _; exact pure []
  | cons a l ih =>
    intro hf
    rw [List.mapM_cons]
    refine (hf a List.mem_cons_self).bind fun b _ => ?_
    exact (ih fun x hx => hf x (List.mem_cons_of_mem a hx)).bind fun bs _ => pure (b :: bs)

theorem foldlM {f : σ → α → Except ε σ} :
    ∀ {l : List α} {s : σ}, (∀ a ∈ l, ∀ s, FailsOnly Q (f s a)) → FailsOnly Q (l.foldlM f s) := by
  intro l
  induction l with
  | nil => intro s _; exact pure s
  | cons a l ih =>
    intro s hf
    rw [List.foldlM_cons]
    exact (hf a List.mem_cons_self s).bind fun t _ => ih fun x hx => hf x (List.mem_cons_of_mem a hx)

end FailsOnly

/-- A run that fails with one error if `b` holds, and succeeds otherwise. -/
def FailsIf (e : ε) (b : Bool) (x : Except ε α) : Prop :=
  if b then x = .error e else ∃ a, x = .ok a

namespace FailsIf

variable {e : ε} {b c : Bool} {x : Except ε α}

theorem ok (a : α) : FailsIf e false (.ok a : Except ε α) :=
  ⟨a, rfl⟩

theorem error : FailsIf e true (.error e : Except ε α) :=
  rfl

theorem bind {f : α → Except ε β} (hx : FailsIf e b x) (hf : ∀ a, FailsIf e c (f a)) :
    FailsIf e (b || c) (x >>= f) := by
  cases b with
  | true => exact bind_eq_error.2 (.inl hx)
  | false =>
    obtain ⟨a, rfl⟩ := hx
    exact hf a

theorem map {f : α → β} (hx : FailsIf e b x) : FailsIf e b (x >>= fun a => pure (f a)) := by
  rw [← Bool.or_false b]
  exact hx.bind fun a => ok (f a)

theorem eq_error_iff {e' : ε} (h : FailsIf e b x) : x = .error e' ↔ e' = e ∧ b = true := by
  cases b with
  | true =>
    rw [show x = .error e from h]
    simp [eq_comm]
  | false =>
    obtain ⟨a, rfl⟩ := h
    simp

end FailsIf

/-- A run that fails with the given fault if there is one, and otherwise gives a result that satisfies `P`. -/
def FailsWith (fault : Option ε) (P : α → Prop) (x : Except ε α) : Prop :=
  match fault with
  | some e => x = .error e
  | none => ∃ a, x = .ok a ∧ P a

namespace FailsWith

variable {fault fault' : Option ε} {P : α → Prop} {Q : β → Prop} {x : Except ε α}

theorem ok {a : α} (h : P a) : FailsWith none P (.ok a : Except ε α) :=
  ⟨a, rfl, h⟩

theorem error (e : ε) : FailsWith (some e) P (.error e : Except ε α) :=
  rfl

/-- Of two faults the first counts. -/
theorem bind {f : α → Except ε β} (hx : FailsWith fault P x) (hf : ∀ a, P a → FailsWith fault' Q (f a)) :
    FailsWith (fault.or fault') Q (x >>= f) := by
  cases fault with
  | some e => exact bind_eq_error.2 (.inl hx)
  | none =>
    obtain ⟨a, rfl, ha⟩ := hx
    exact hf a ha

theorem map {f : α → β} (hx : FailsWith fault P x) (hf : ∀ a, P a → Q (f a)) :
    FailsWith fault Q (x >>= fun a => pure (f a)) := by
  rw [← Option.or_none (o := fault)]
  exact hx.bind fun a ha => ok (hf a ha)

theorem eq_error_iff {e : ε} (h : FailsWith fault P x) : x = .error e ↔ fault = some e := by
  cases fault with
  | some e' =>
    rw [show x = .error e' from h]
    simp
  | none =>
    obtain ⟨a, rfl, -⟩ := h
    simp

theorem exists_ok_iff (h : FailsWith fault P x) : (∃ a, x = .ok a) ↔ fault = none := by
  cases fault with
  | some e =>
    rw [show x = .error e from h]
    simp
  | none =>
    obtain ⟨a, rfl, -⟩ := h
    simp

theorem of_eq_ok {a : α} (h : FailsWith fault P x) (hx : x = .ok a) : P a := by
  subst hx
  cases fault with
  | some e => cases h
  | none =>
    obtain ⟨b, hb, hP⟩ := h
    cases hb
    exact hP

end FailsWith

end GraphQuery.Run

import GraphQuery.Lowering.Layout

/-!
# Outcomes of a lowering

A lowering either gives an expression that runs on the server or gives none. On the way it may promote
members: when a member of another read is bound, that read has to return it. A promotion stands even when the
lowering fails at a later point.
-/

namespace GraphQuery

/-- A stored property that the read at a position has to return. -/
structure Promotion where
  read : ReadId
  item : Expr

/-- What a lowering gives, and the members that it promoted, in order. -/
structure Outcome (α : Type) where
  result : Option α
  promoted : List Promotion

namespace Outcome

variable {α β : Type}

instance : Monad Outcome where
  pure a := ⟨some a, []⟩
  bind x f :=
    match x.result with
    | none => ⟨none, x.promoted⟩
    | some a => ⟨(f a).result, x.promoted ++ (f a).promoted⟩

/-- The outcome that promotes nothing. -/
def ofOption (result : Option α) : Outcome α :=
  ⟨result, []⟩

/-- The outcome of what cannot run on the server. -/
def fail : Outcome α :=
  ⟨none, []⟩

/-- Lowers the elements of a list from left to right, up to the first that fails. -/
def traverse (f : α → Outcome β) : List α → Outcome (List β)
  | [] => pure []
  | a :: rest => do
    let b ← f a
    let bs ← traverse f rest
    return b :: bs

@[simp] theorem result_pure (a : α) : (pure a : Outcome α).result = some a := rfl

@[simp] theorem promoted_pure (a : α) : (pure a : Outcome α).promoted = [] := rfl

@[simp] theorem result_bind (x : Outcome α) (f : α → Outcome β) :
    (x >>= f).result = x.result.bind fun a => (f a).result := by
  cases h : x.result <;> simp [bind, h]

/-- Promotions come in order, and stop where the lowering fails. -/
theorem promoted_bind (x : Outcome α) (f : α → Outcome β) :
    (x >>= f).promoted =
      x.promoted ++ (match x.result with | some a => (f a).promoted | none => []) := by
  cases h : x.result <;> simp [bind, h]

end Outcome

end GraphQuery

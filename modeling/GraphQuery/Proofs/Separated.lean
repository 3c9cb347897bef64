import GraphQuery.Proofs.Runs
import GraphQuery.Proofs.ServerExpr

/-!
# Lists in a text

Return items, terms of an ordering and reading clauses are written one behind the other, with a separator between them.
What follows from that alone is said here for all three.
-/

namespace GraphQuery

/-- `all` writes a list as `one` writes its elements, with a separator between them. -/
structure Separated {α : Type} (one : α → Except RenderError (List Piece)) (separator : Piece)
    (all : List α → Except RenderError (List Piece)) : Prop where
  nil : all [] = .ok []
  single : ∀ a, all [a] = one a
  more : ∀ a b rest, all (a :: b :: rest) =
    one a >>= fun first => all (b :: rest) >>= fun others => pure (first ++ separator :: others)

namespace Generator

variable (g : Generator)

theorem exprs_separated : Separated (g.expr none) (.text ", ") g.exprs :=
  ⟨rfl, fun _ => rfl, fun _ _ _ => rfl⟩

theorem sortTerms_separated : Separated g.sortTerm (.text ", ") g.sortTerms :=
  ⟨rfl, fun _ => rfl, fun _ _ _ => rfl⟩

theorem clauses_separated : Separated g.clause .newLine g.clauses :=
  ⟨rfl, fun _ => rfl, fun _ _ _ => rfl⟩

end Generator

namespace Separated

variable {α : Type} {one : α → Except RenderError (List Piece)} {separator : Piece}
  {all : List α → Except RenderError (List Piece)}

/-- Two lists in a row are written like two elements. -/
theorem append (hs : Separated one separator all) {l l' : List α} (hl : l ≠ []) (hl' : l' ≠ []) :
    all (l ++ l') = all l >>= fun first => all l' >>= fun others => pure (first ++ separator :: others) := by
  induction l with
  | nil => exact absurd rfl hl
  | cons a l ih =>
    cases l with
    | nil =>
      cases l' with
      | nil => exact absurd rfl hl'
      | cons b l' => rw [List.singleton_append, hs.more, hs.single]
    | cons b l =>
      rw [List.cons_append, List.cons_append, hs.more, ← List.cons_append, ih (List.cons_ne_nil b l), hs.more]
      simp only [bind_assoc, pure_bind, List.append_assoc, List.cons_append]

/-- A list is known from how its elements are written. -/
theorem eq_of_one (hs : Separated one separator all) {one' : α → Except RenderError (List Piece)}
    {all' : List α → Except RenderError (List Piece)} (hs' : Separated one' separator all')
    (hone : ∀ a, one a = one' a) : ∀ l, all l = all' l
  | [] => by rw [hs.nil, hs'.nil]
  | [a] => by rw [hs.single, hs'.single, hone]
  | a :: b :: rest => by rw [hs.more, hs'.more, hone, hs.eq_of_one hs' hone (b :: rest)]

/-- What each element contributes, the list contributes in order. -/
theorem collects {β : Type} (hs : Separated one separator all) {measure : List Piece → List β} {value : α → List β}
    (hnil : measure [] = []) (hjoin : ∀ ps qs, measure (ps ++ separator :: qs) = measure ps ++ measure qs)
    (hone : ∀ a ps, one a = .ok ps → measure ps = value a) :
    ∀ {l : List α} {ps : List Piece}, all l = .ok ps → measure ps = l.flatMap value
  | [], ps, h => by
    rw [hs.nil] at h
    cases h
    exact hnil
  | [a], ps, h => by
    rw [hs.single] at h
    rw [List.flatMap_singleton]
    exact hone a ps h
  | a :: b :: rest, ps, h => by
    rw [hs.more] at h
    obtain ⟨first, hfirst, h⟩ := Run.bind_eq_ok.1 h
    obtain ⟨others, hothers, h⟩ := Run.bind_eq_ok.1 h
    cases h
    rw [List.flatMap_cons, hjoin, hone a first hfirst, hs.collects hnil hjoin hone hothers]

end Separated

end GraphQuery

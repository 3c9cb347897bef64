import GraphQuery.Proofs.Rewritten

/-!
# Payloads of constants

When constants are sent as parameters, the text of a read says nothing about them beyond which are null and which
branches of conditionals are truth values: reads that differ only in the payloads of their constants have the same text,
with the same placeholders, or fail alike (`Generator.render_payloads`).

Payloads are masked before a read is written (`Read.rewrite masking`), and the values of placeholders are blanked behind
(`Piece.blank`). Masking makes no difference to the blanked pieces (`Generator.read_masked`), nor do the values to the
text (`Output.blank_writeAll`).
-/

namespace GraphQuery

/-! ## Masked payloads -/

/-- A value without its payload. Null is kept, and so is a truth value that stands as a branch. -/
def Value.masked (branch : Bool) : Value → Value
  | .null => .null
  | .bool b => if branch then .bool b else .string ""
  | _ => .string ""

/-- Masking makes values equal that are both null or both not, and in a branch one truth value or no truth values. -/
theorem Value.masked_eq_iff {branch : Bool} {v v' : Value} :
    v.masked branch = v'.masked branch ↔
      v.isNull = v'.isNull ∧
        (branch = true → ∀ b, v = .bool b ↔ v' = .bool b) := by
  cases branch <;> cases v <;> cases v' <;> simp [masked, isNull, eq_comm]

/-- Takes the payloads out of the constants of an expression. -/
def masking : Rewriting where
  node branch
    | .constant v t => .constant (v.masked branch) t
    | e => e

/-- Two reads that differ at most in the payloads of their constants. -/
def Read.SameButPayloads (r r' : Read) : Prop :=
  r.rewrite masking = r'.rewrite masking

/-! ## Blank placeholders -/

/-- A piece without the value of its placeholder. -/
def Piece.blank : Piece → Piece
  | .slot _ => .slot .null
  | .parameter name _ => .parameter name .null
  | piece => piece

/-- Two ways to write something that fail alike or give the same pieces, up to the values of placeholders. -/
def Alike (x y : Except RenderError (List Piece)) : Prop :=
  x.map (List.map Piece.blank) = y.map (List.map Piece.blank)

theorem Alike.cases {x y : Except RenderError (List Piece)} (h : Alike x y) :
    (∃ e, x = .error e ∧ y = .error e) ∨
      ∃ ps qs, x = .ok ps ∧ y = .ok qs ∧ ps.map Piece.blank = qs.map Piece.blank :=
  SameUnder.cases h

/-! ## Masked reads -/

namespace Generator

variable {g : Generator}

/-- A constant is null or becomes a placeholder, whatever its payload. -/
theorem masked_unseen (hg : g.settings.parameterizeLiterals = true) : Unseen g Piece.blank Value.masked where
  constant hint branch v t := by
    have hnull : (v.masked branch).isNull = v.isNull := by cases v <;> cases branch <;> rfl
    unfold constant
    rw [hnull, hg]
    cases v.isNull
    · exact .ok rfl
    · exact .refl _
  truth v b := by cases v <;> simp [Value.masked]

/-- Masking a read makes no difference to its pieces, up to the values of placeholders. -/
theorem read_masked (hg : g.settings.parameterizeLiterals = true) (r : Read) :
    Alike (g.read (r.rewrite masking)) (g.read r) :=
  read_rewrite fun e _ => expr_rewrite (fun id => id) (masked_unseen hg) none false e

end Generator

/-! ## Writing without values -/

namespace Output

/-- An output without the values of its placeholders. -/
def blank (w : Output) : Output :=
  { w with parameters := w.parameters.map (Prod.map id fun _ => .null) }

theorem blank_write (slotPrefix : String) (w : Output) (piece : Piece) :
    (w.write slotPrefix piece).blank = w.blank.write slotPrefix piece.blank := by
  cases piece with
  | slot value => simp [write, placeholder, blank, Piece.blank, Table.map_insert]
  | parameter name value => simp [write, placeholder, blank, Piece.blank, Table.map_insert]
  | _ => rfl

/-- What is written, apart from the values of placeholders, does not depend on them. -/
theorem blank_writeAll (slotPrefix : String) (pieces : List Piece) (w : Output) :
    (w.writeAll slotPrefix pieces).blank = w.blank.writeAll slotPrefix (pieces.map Piece.blank) := by
  induction pieces generalizing w with
  | nil => rfl
  | cons piece rest ih =>
    have step := ih (w.write slotPrefix piece)
    rw [blank_write] at step
    exact step

theorem text_eq_of_blank {w w' : Output} (h : w.blank = w'.blank) : w.out.text = w'.out.text := by
  have hout : w.blank.out = w'.blank.out := congrArg Output.out h
  exact congrArg IndentedText.text hout

theorem keys_eq_of_blank {w w' : Output} (h : w.blank = w'.blank) :
    w.parameters.map Prod.fst = w'.parameters.map Prod.fst := by
  have keys : ∀ w : Output, w.blank.parameters.map Prod.fst = w.parameters.map Prod.fst := by
    intro w
    simp [blank]
  rw [← keys w, h, keys w']

end Output

namespace Generator

variable {g : Generator}

/-- Reads that differ only in the payloads of their constants fail alike, or have the same text and the same
placeholders. -/
theorem render_payloads (hg : g.settings.parameterizeLiterals = true) {r r' : Read} (h : r.SameButPayloads r') :
    (∃ e, g.render r = .error e ∧ g.render r' = .error e) ∨
      ∃ x x', g.render r = .ok x ∧ g.render r' = .ok x' ∧ x.text = x'.text ∧
        x.parameters.map Prod.fst = x'.parameters.map Prod.fst := by
  have hread : Alike (g.read r) (g.read r') := by
    have hmasked := read_masked hg r
    rw [show r.rewrite masking = r'.rewrite masking from h] at hmasked
    exact hmasked.symm.trans (read_masked hg r')
  obtain ⟨e, hr, hr'⟩ | ⟨ps, qs, hr, hr', hps⟩ := hread.cases
  · refine Or.inl ⟨e, ?_, ?_⟩
    · rw [render, hr]; rfl
    · rw [render, hr']; rfl
  · refine Or.inr ⟨g.write ps, g.write qs, ?_, ?_, ?_⟩
    · rw [render, hr]; rfl
    · rw [render, hr']; rfl
    · have hblank : (g.start.writeAll g.settings.parameterPrefix ps).blank =
          (g.start.writeAll g.settings.parameterPrefix qs).blank := by
        rw [Output.blank_writeAll, Output.blank_writeAll, hps]
      exact ⟨Output.text_eq_of_blank hblank, Output.keys_eq_of_blank hblank⟩

/-- The warehouses at a location, each with a mark or the word for `true`. -/
def markedWarehouses (location mark : Value) : Read :=
  let node : Node := ⟨some "w", ["Warehouse"]⟩
  let atLocation : Expr :=
    .binary .equal (.storage ⟨"Location", ⟨"Warehouse", { name := "Location", type := .string }⟩, node⟩)
      (.constant location .string) {}
  ⟨[.pattern ⟨{ start := node }, some atLocation, false, none⟩],
    [.conditional (.isNull (.parameter "limit" .int32)) (.constant (.bool true) .bool)
      (.convert (.constant mark .int64) .object) .object],
    [], some (.parameter "limit" .int32), none, false, none, [], "s"⟩

/-- A location that reads like a condition is a value like any other. -/
theorem render_payloads_of_marked :
    let g : Generator := { settings := { parameterizeLiterals := true }, parameters := [("limit", .int 5)] }
    let r := markedWarehouses (.string "Oslo") (.int64 7)
    let r' := markedWarehouses (.string "' OR true //") (.enum "Colour" 2)
    r.SameButPayloads r' ∧
      ∃ x x', g.render r = .ok x ∧ g.render r' = .ok x' ∧ x.text = x'.text ∧
        x.parameters.map Prod.fst = x'.parameters.map Prod.fst := by
  intro g r r'
  refine ⟨rfl, ?_⟩
  obtain ⟨e, he, -⟩ | h := render_payloads (g := g) rfl (show r.SameButPayloads r' from rfl)
  · have hok : (g.render r).isOk = true := by rfl
    rw [he] at hok
    cases hok
  · exact h

end Generator

end GraphQuery

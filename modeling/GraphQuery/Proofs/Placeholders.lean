import GraphQuery.Proofs.OutputNames
import GraphQuery.Proofs.Separated

/-!
# Placeholders

The text of a read refers to its constants and parameters by placeholders. Those for constants are numbered, and those
for parameters keep the names that the query gives them, so both kinds of names share one table.

Which constants and parameters a read refers to, and in which order, is said without its text (`Read.referents`), and
so is the name of each placeholder (`Generator.placeholders`). The text holds these placeholders in this order, and the
table gives each name the value that came last (`Output.Records`). A placeholder therefore has its own value unless a
parameter bears the name of a numbered constant (`Generator.render_placeholders`).
-/

namespace GraphQuery

/-! ## What placeholders stand for -/

/-- What a placeholder stands for. -/
inductive Referent where
  | constant (value : Value) (type : ValueType)
  | parameter (name : String)

/-- The name that the query gives to a placeholder. One for a constant has none and is numbered. -/
def Referent.name? : Referent → Option String
  | .constant .. => none
  | .parameter name => some name

/-- Whether a branch of a conditional is written as the word for a truth value. -/
def Expr.isTruth (e : Expr) : Bool :=
  match e.bare with
  | .constant (.bool _) _ => true
  | _ => false

/-- The constants other than null and the parameters of an expression, where they are written. -/
def Expr.referents : Expr → List Referent
  | .constant v t => if v.isNull then [] else [.constant v t]
  | .parameter name _ => [.parameter name]
  | .binary _ l r _ => l.referents ++ r.referents
  | .conditional c a b t =>
    -- A conditional between truth values is written as its test alone.
    if t.isBool then c.referents
    else c.referents ++ ((if a.isTruth then [] else a.referents) ++ if b.isTruth then [] else b.referents)
  | .convert e _ | .isNull e | .not e | .aliased _ e => e.referents
  | _ => []

def ReadingClause.referents : ReadingClause → List Referent
  | .pattern c => c.predicate.toList.flatMap Expr.referents
  | .nested _ _ => []

/-- The constants and parameters of a read in the order in which they are written. -/
def Read.referents (r : Read) : List Referent :=
  r.clauses.flatMap ReadingClause.referents ++ (r.items.flatMap Expr.referents ++
    ((r.orderings.flatMap fun term => term.expr.referents) ++
      (r.skip.toList.flatMap Expr.referents ++ r.limit.toList.flatMap Expr.referents)))

/-- Names what has no name of its own by a number. -/
def number {α : Type} (slotPrefix : String) : Nat → List (Option String × α) → List (String × α)
  | _, [] => []
  | n, (some name, a) :: rest => (name, a) :: number slotPrefix n rest
  | n, (none, a) :: rest => (slotPrefix ++ toString n, a) :: number slotPrefix (n + 1) rest

namespace Generator

variable (g : Generator)

/-- Whether a constant or parameter becomes a placeholder. -/
def sends : Referent → Bool
  | .constant .. => g.settings.parameterizeLiterals
  | .parameter _ => true

/-- The value that is sent for a constant or parameter. -/
def value? : Referent → Option Json
  | .constant v t => some (v.withoutEnum t.underlying?).toJson
  | .parameter name => Table.find? name g.parameters

/-- The placeholders of a read under their names, in the order in which they are written. -/
def placeholders (r : Read) : List (String × Referent) :=
  number g.settings.parameterPrefix 0 ((r.referents.filter g.sends).map fun x => (x.name?, x))

end Generator

/-! ## Placeholders among pieces -/

/-- The name and value of a placeholder. -/
def Piece.mark? : Piece → Option (Option String × Option Json)
  | .slot value => some (none, some value)
  | .parameter name value => some (some name, some value)
  | _ => none

def Piece.marks (ps : List Piece) : List (Option String × Option Json) :=
  ps.filterMap Piece.mark?

namespace Piece

@[simp] theorem marks_nil : marks [] = [] := rfl

@[simp] theorem marks_append (ps qs : List Piece) : marks (ps ++ qs) = marks ps ++ marks qs :=
  List.filterMap_append

@[simp] theorem marks_text (s : String) (ps : List Piece) : marks (.text s :: ps) = marks ps := rfl

@[simp] theorem marks_newLine (ps : List Piece) : marks (.newLine :: ps) = marks ps := rfl

@[simp] theorem marks_indent (ps : List Piece) : marks (.indent :: ps) = marks ps := rfl

@[simp] theorem marks_dedent (ps : List Piece) : marks (.dedent :: ps) = marks ps := rfl

@[simp] theorem marks_group (grouped : Bool) (ps : List Piece) : marks (group grouped ps) = marks ps := by
  cases grouped <;> simp [group]

end Piece

namespace Generator

variable {g : Generator}

/-- The names and values of what an expression or a read sends. -/
def marks (g : Generator) (refs : List Referent) : List (Option String × Option Json) :=
  (refs.filter g.sends).map fun x => (x.name?, g.value? x)

@[simp] theorem marks_nil : g.marks [] = [] := rfl

@[simp] theorem marks_append (xs ys : List Referent) : g.marks (xs ++ ys) = g.marks xs ++ g.marks ys := by
  simp [marks]

theorem marks_flatMap {α : Type} (f : α → List Referent) (l : List α) :
    g.marks (l.flatMap f) = l.flatMap fun a => g.marks (f a) := by
  induction l with
  | nil => rfl
  | cons a l ih => simp [ih]

theorem constant_marks {hint : Option LiteralStyle} {v : Value} {t : ValueType} {ps : List Piece}
    (h : g.constant hint v t = .ok ps) : Piece.marks ps = g.marks (if v.isNull then [] else [.constant v t]) := by
  unfold constant at h
  by_cases hnull : v.isNull
  · rw [if_pos hnull] at h ⊢
    cases h
    rfl
  · rw [if_neg hnull] at h ⊢
    by_cases hg : g.settings.parameterizeLiterals
    · rw [if_pos hg] at h
      cases h
      simp [marks, sends, hg, Piece.marks, Piece.mark?, Referent.name?, value?]
    · simp only [if_neg hg] at h
      split at h
      · cases h
        simp [marks, sends, hg]
      · cases h

theorem parameter_marks {name : String} {ps : List Piece} (h : g.parameter name = .ok ps) :
    Piece.marks ps = g.marks [.parameter name] := by
  have hmarks : g.marks [.parameter name] = [(some name, Table.find? name g.parameters)] := rfl
  unfold parameter at h
  split at h
  · rename_i value hvalue
    cases h
    rw [hmarks, hvalue]
    rfl
  · cases h

theorem branchToken_isSome (e : Expr) : (g.branchToken? e).isSome = e.isTruth := by
  unfold branchToken? Expr.isTruth
  cases e.bare with
  | constant v t => cases v <;> rfl
  | _ => rfl

/-- A branch that is no word for a truth value is written as an expression. -/
theorem branch_marks {hint : Option LiteralStyle} {e : Expr} {f : List Piece → Except RenderError (List Piece)}
    {ps : List Piece}
    (he : ∀ {qs}, g.expr hint e = .ok qs → Piece.marks qs = g.marks e.referents)
    (h : (match g.branchToken? e with
      | some token => pure [Piece.text token] >>= f
      | none => g.expr hint e >>= f) = .ok ps) :
    ∃ qs, Piece.marks qs = g.marks (if e.isTruth then [] else e.referents) ∧ f qs = .ok ps := by
  rw [← branchToken_isSome (g := g)]
  split at h
  · rename_i token htoken
    refine ⟨[.text token], ?_, h⟩
    rw [htoken]
    rfl
  · rename_i hnone
    obtain ⟨qs, hqs, h⟩ := Run.bind_eq_ok.1 h
    refine ⟨qs, ?_, h⟩
    rw [hnone]
    exact he hqs

/-- The placeholders of an expression are those of its constants and parameters, in order. -/
theorem expr_marks {hint : Option LiteralStyle} {e : Expr} {ps : List Piece} (h : g.expr hint e = .ok ps) :
    Piece.marks ps = g.marks e.referents := by
  fun_induction Generator.expr g hint e generalizing ps
  case case1 ihl ihr | case2 ihl ihr =>
    obtain ⟨l, hl, h⟩ := Run.bind_eq_ok.1 h
    obtain ⟨r, hr, h⟩ := Run.bind_eq_ok.1 h
    cases h
    simp [Expr.referents, ihl hl, ihr hr]
  case case3 hbool ih =>
    rw [Expr.referents, if_pos hbool]
    exact ih h
  case case4 hbool iht ihb iha =>
    obtain ⟨c, hc, h⟩ := Run.bind_eq_ok.1 h
    obtain ⟨a, ha, h⟩ := branch_marks iha h
    obtain ⟨b, hb, h⟩ := branch_marks ihb h
    cases h
    simp [Expr.referents, hbool, iht hc, ha, hb]
  case case5 => exact constant_marks h
  case case6 => exact parameter_marks h
  case case7 ih => exact ih h
  case case8 ih | case9 ih | case10 ih =>
    obtain ⟨qs, hqs, h⟩ := Run.bind_eq_ok.1 h
    cases h
    simp [Expr.referents, ih hqs]
  case case11 =>
    unfold storage at h
    split at h
    · cases h
      rfl
    · cases h
  case case12 name e ih =>
    obtain ⟨qs, hqs, h⟩ := Run.bind_eq_ok.1 h
    cases h
    cases name <;> simp [Expr.referents, outputName, ih hqs]
  all_goals cases h

/-! ## Placeholders of a read -/

/-- A list has the placeholders of its elements. -/
theorem separated_marks {α : Type} {one : α → Except RenderError (List Piece)} {separator : Piece}
    {all : List α → Except RenderError (List Piece)} (hs : Separated one separator all)
    (hseparator : separator.mark? = none) {refs : α → List Referent}
    (hone : ∀ a ps, one a = .ok ps → Piece.marks ps = g.marks (refs a)) {l : List α} {ps : List Piece}
    (h : all l = .ok ps) : Piece.marks ps = g.marks (l.flatMap refs) := by
  rw [marks_flatMap]
  refine hs.collects Piece.marks_nil (fun ps qs => ?_) hone h
  simp [Piece.marks, hseparator]

theorem sortTerm_marks {term : SortTerm} {ps : List Piece} (h : g.sortTerm term = .ok ps) :
    Piece.marks ps = g.marks term.expr.referents := by
  obtain ⟨qs, hqs, h⟩ := Run.bind_eq_ok.1 h
  cases h
  rw [← expr_marks hqs]
  split <;> simp

theorem clause_marks {c : ReadingClause} {ps : List Piece} (h : g.clause c = .ok ps) :
    Piece.marks ps = g.marks c.referents := by
  cases c with
  | nested source r => cases h
  | pattern c =>
    obtain ⟨text, -, h⟩ := Run.bind_eq_ok.1 h
    obtain ⟨pattern, predicate, optional, source⟩ := c
    cases predicate with
    | none =>
      cases h
      rfl
    | some predicate =>
      obtain ⟨qs, hqs, h⟩ := Run.bind_eq_ok.1 h
      cases h
      simpa [ReadingClause.referents] using expr_marks hqs

theorem option_marks {keyword : String} {e : Option Expr} {ps : List Piece} (h : g.option keyword e = .ok ps) :
    Piece.marks ps = g.marks (e.toList.flatMap Expr.referents) := by
  cases e with
  | none =>
    cases h
    rfl
  | some e =>
    obtain ⟨qs, hqs, h⟩ := Run.bind_eq_ok.1 h
    cases h
    simpa using expr_marks hqs

theorem opening_marks {r : Read} {ps : List Piece} (h : g.opening r = .ok ps) :
    Piece.marks ps = g.marks (r.clauses.flatMap ReadingClause.referents) := by
  have hblank : ∀ qs : List Piece,
      Piece.marks (if qs.isEmpty then [] else qs ++ [.text " "]) = Piece.marks qs := by
    intro qs
    split
    · rename_i hempty
      rw [List.isEmpty_iff.1 hempty]
    · simp
  unfold opening at h
  split at h
  · rename_i hempty
    rw [List.isEmpty_iff.1 hempty]
    split at h
    · cases h
      rw [hblank]
      split <;> rfl
    · cases h
      rfl
  · obtain ⟨qs, hqs, h⟩ := Run.bind_eq_ok.1 h
    cases h
    rw [hblank]
    exact separated_marks g.clauses_separated rfl (fun _ _ => clause_marks) hqs

theorem star_marks {r : Read} {ps : List Piece} (h : g.star r = .ok ps) : Piece.marks ps = [] := by
  unfold star at h
  split at h
  · split at h <;> cases h
    rfl
  · cases h
    rfl

theorem returned_marks {r : Read} {ps : List Piece} (h : g.returned r = .ok ps) :
    Piece.marks ps = g.marks (r.items.flatMap Expr.referents) := by
  obtain ⟨star, hstar, h⟩ := Run.bind_eq_ok.1 h
  obtain ⟨items, hitems, h⟩ := Run.bind_eq_ok.1 h
  cases h
  have hs := star_marks hstar
  rw [← separated_marks g.exprs_separated rfl (fun _ _ => expr_marks) hitems]
  split
  · rename_i hempty
    rw [List.isEmpty_iff.1 hempty] at hitems
    cases hitems
    split
    · exact hs
    · rfl
  · split <;> simp [hs]

/-- The placeholders of a read are those of its constants and parameters, in order. -/
theorem read_marks {r : Read} {ps : List Piece} (h : g.read r = .ok ps) : Piece.marks ps = g.marks r.referents := by
  obtain ⟨opening, hopening, h⟩ := Run.bind_eq_ok.1 h
  obtain ⟨returned, hreturned, h⟩ := Run.bind_eq_ok.1 h
  obtain ⟨orderings, horderings, h⟩ := Run.bind_eq_ok.1 h
  obtain ⟨skip, hskip, h⟩ := Run.bind_eq_ok.1 h
  obtain ⟨limit, hlimit, h⟩ := Run.bind_eq_ok.1 h
  cases h
  have horderBy : Piece.marks (if r.orderings.isEmpty then [] else .text " ORDER BY " :: orderings) =
      Piece.marks orderings := by
    split
    · rename_i hempty
      rw [List.isEmpty_iff.1 hempty] at horderings
      cases horderings
      rfl
    · rfl
  have hterms := separated_marks g.sortTerms_separated rfl (fun _ _ => sortTerm_marks) horderings
  simp only [Read.referents, marks_append, Piece.marks_append, Piece.marks_text, horderBy, opening_marks hopening,
    returned_marks hreturned, hterms, option_marks hskip, option_marks hlimit, List.append_assoc]

end Generator

/-! ## Placeholders in the text and in the table -/

/-- A text in which placeholders with these names stand one behind the other. -/
def HoldsInOrder (text : String) : List String → Prop
  | [] => True
  | name :: names => ∃ before behind, text = before ++ "$" ++ name ++ behind ∧ HoldsInOrder behind names

namespace HoldsInOrder

theorem append {text : String} {names : List String} (h : HoldsInOrder text names) (more : String) :
    HoldsInOrder (text ++ more) names := by
  induction names generalizing text with
  | nil => trivial
  | cons name names ih =>
    obtain ⟨before, behind, rfl, h⟩ := h
    exact ⟨before, behind ++ more, by simp [String.append_assoc], ih h⟩

theorem placeholder {text : String} {names : List String} (h : HoldsInOrder text names) (name : String) :
    HoldsInOrder (text ++ "$" ++ name) (names ++ [name]) := by
  induction names generalizing text with
  | nil => exact ⟨text, "", by simp, trivial⟩
  | cons first names ih =>
    obtain ⟨before, behind, rfl, h⟩ := h
    exact ⟨before, behind ++ "$" ++ name, by simp [String.append_assoc], ih h⟩

end HoldsInOrder

namespace Output

/-- An output in which placeholders were written under these names, for these values. -/
structure Records (w : Output) (written : List (String × Option Json)) : Prop where
  valued : ∀ entry ∈ written, entry.2.isSome = true
  text : HoldsInOrder w.out.text (written.map Prod.fst)
  /-- The value that came last under a name counts. -/
  table : ∀ name, Table.find? name w.parameters =
    (written.reverse.find? fun entry => entry.1 = name).bind Prod.snd

namespace Records

variable {w : Output} {written : List (String × Option Json)}

theorem append (h : w.Records written) (s : String) : ({ w with out := w.out.append s } : Output).Records written where
  valued := h.valued
  text := by
    change HoldsInOrder (w.out.append s).text _
    unfold IndentedText.append
    split
    · exact h.text
    · exact (h.text.append _).append s
  table := h.table

theorem newLine (h : w.Records written) : ({ w with out := w.out.newLine } : Output).Records written where
  valued := h.valued
  text := h.text.append "\n"
  table := h.table

theorem placeholder (h : w.Records written) (name : String) (value : Json) :
    (w.placeholder name value).Records (written ++ [(name, some value)]) where
  valued entry hentry := by
    rcases List.mem_append.1 hentry with hentry | hentry
    · exact h.valued entry hentry
    · rw [List.mem_singleton.1 hentry]
      rfl
  text := by
    change HoldsInOrder (w.out.append ("$" ++ name)).text _
    have hfilled : ¬("$" ++ name).isEmpty = true := by simp
    rw [IndentedText.append, if_neg hfilled, List.map_append]
    change HoldsInOrder (w.out.text ++ _ ++ ("$" ++ name)) _
    rw [← String.append_assoc]
    exact (h.text.append _).placeholder name
  table other := by
    rw [List.reverse_append]
    by_cases hname : other = name
    · subst hname
      simp [Output.placeholder]
    · have hne : ¬name = other := fun heq => hname heq.symm
      simp [Output.placeholder, Table.find?_insert_of_ne value w.parameters hname, h.table other, hne]

/-- Writing a piece adds its placeholder, if it is one. -/
theorem write (h : w.Records written) (slotPrefix : String) (piece : Piece) :
    (w.write slotPrefix piece).Records (written ++ number slotPrefix w.nextSlot (Piece.marks [piece])) := by
  cases piece with
  | slot value =>
    obtain ⟨hvalued, htext, htable⟩ := h.placeholder (slotPrefix ++ toString w.nextSlot) value
    exact ⟨hvalued, htext, htable⟩
  | parameter name value => exact h.placeholder name value
  | text s =>
    change Records _ (written ++ [])
    rw [List.append_nil]
    exact h.append s
  | newLine =>
    change Records _ (written ++ [])
    rw [List.append_nil]
    exact h.newLine
  | indent | dedent =>
    change Records _ (written ++ [])
    rw [List.append_nil]
    exact ⟨h.valued, h.text, h.table⟩

end Records

/-- The numbers go on behind a piece where it left off. -/
theorem number_write (slotPrefix : String) (w : Output) (piece : Piece) (ps : List Piece) :
    number slotPrefix w.nextSlot (Piece.marks (piece :: ps)) =
      number slotPrefix w.nextSlot (Piece.marks [piece]) ++
        number slotPrefix (w.write slotPrefix piece).nextSlot (Piece.marks ps) := by
  cases piece <;> rfl

/-- Writing pieces adds their placeholders in order. -/
theorem Records.writeAll (slotPrefix : String) (ps : List Piece) {w : Output} {written : List (String × Option Json)}
    (h : w.Records written) :
    (w.writeAll slotPrefix ps).Records (written ++ number slotPrefix w.nextSlot (Piece.marks ps)) := by
  induction ps generalizing w written with
  | nil =>
    change Records w (written ++ [])
    rwa [List.append_nil]
  | cons piece ps ih =>
    rw [number_write, ← List.append_assoc]
    exact ih (h.write slotPrefix piece)

end Output

/-! ## Names of placeholders -/

theorem number_map {α β : Type} (f : α → β) (slotPrefix : String) (l : List (Option String × α)) (n : Nat) :
    number slotPrefix n (l.map (Prod.map id f)) = (number slotPrefix n l).map (Prod.map id f) := by
  fun_induction number slotPrefix n l with
  | case1 => rfl
  | case2 n name a rest ih => simpa [number] using ih
  | case3 n a rest ih => simpa [number] using ih

section Names

variable {slotPrefix name : String} {n : Nat} {refs : List Referent}

/-- A placeholder for a parameter has the name of the parameter. -/
theorem number_parameter {own : String}
    (h : (name, .parameter own) ∈ number slotPrefix n (refs.map fun x => (x.name?, x))) : name = own := by
  induction refs generalizing n with
  | nil => cases h
  | cons y refs ih =>
    cases y with
    | constant v t =>
      rcases List.mem_cons.1 h with heq | h
      · cases heq
      · exact ih h
    | parameter other =>
      rcases List.mem_cons.1 h with heq | h
      · cases heq
        rfl
      · exact ih h

/-- A placeholder for a constant has a number that is not used up. -/
theorem number_constant {v : Value} {t : ValueType}
    (h : (name, .constant v t) ∈ number slotPrefix n (refs.map fun x => (x.name?, x))) :
    ∃ k ≥ n, name = slotPrefix ++ toString k := by
  induction refs generalizing n with
  | nil => cases h
  | cons y refs ih =>
    cases y with
    | constant v' t' =>
      rcases List.mem_cons.1 h with heq | h
      · cases heq
        exact ⟨n, Nat.le_refl n, rfl⟩
      · obtain ⟨k, hk, hname⟩ := ih h
        exact ⟨k, by omega, hname⟩
    | parameter other =>
      rcases List.mem_cons.1 h with heq | h
      · cases heq
      · exact ih h

/-- No two placeholders for constants share a name. -/
theorem number_constant_unique {v v' : Value} {t t' : ValueType}
    (h : (name, .constant v t) ∈ number slotPrefix n (refs.map fun x => (x.name?, x)))
    (h' : (name, .constant v' t') ∈ number slotPrefix n (refs.map fun x => (x.name?, x))) :
    Referent.constant v t = .constant v' t' := by
  induction refs generalizing n with
  | nil => cases h
  | cons y refs ih =>
    cases y with
    | parameter other =>
      rcases List.mem_cons.1 h with heq | h
      · cases heq
      rcases List.mem_cons.1 h' with heq | h'
      · cases heq
      exact ih h h'
    | constant v₀ t₀ =>
      -- The numbers behind the first one are greater.
      have hlater : ∀ v t, (slotPrefix ++ toString n, .constant v t) ∉
          number slotPrefix (n + 1) (refs.map fun x => (x.name?, x)) := by
        intro v t hmem
        obtain ⟨k, hk, hname⟩ := number_constant hmem
        have := numbered_injective hname
        omega
      rcases List.mem_cons.1 h with heq | hrest
      · cases heq
        rcases List.mem_cons.1 h' with heq | hrest'
        · cases heq
          rfl
        · exact absurd hrest' (hlater v' t')
      · rcases List.mem_cons.1 h' with heq | hrest'
        · cases heq
          exact absurd hrest (hlater v t)
        · exact ih hrest hrest'

end Names

namespace Generator

variable {g : Generator}

/-- Placeholders with one name have one value, unless a parameter has the name of a constant. -/
theorem value_eq_of_name_eq {r : Read} {x y : String × Referent}
    (hclash : ∀ name v t, (name, .parameter name) ∈ g.placeholders r → (name, .constant v t) ∈ g.placeholders r →
      g.value? (.parameter name) = g.value? (.constant v t))
    (hx : x ∈ g.placeholders r) (hy : y ∈ g.placeholders r) (hname : x.1 = y.1) : g.value? x.2 = g.value? y.2 := by
  obtain ⟨name, x⟩ := x
  obtain ⟨other, y⟩ := y
  cases hname
  cases x with
  | constant v t =>
    cases y with
    | constant v' t' => rw [number_constant_unique hx hy]
    | parameter own =>
      cases number_parameter hy
      exact (hclash name v t hy hx).symm
  | parameter own =>
    cases number_parameter hx
    cases y with
    | constant v t => exact hclash name v t hx hy
    | parameter own' =>
      cases number_parameter hy
      rfl

theorem placeholders_value (g : Generator) (r : Read) :
    (g.placeholders r).map (Prod.map id g.value?) = number g.settings.parameterPrefix 0 (g.marks r.referents) := by
  rw [placeholders, ← number_map, List.map_map]
  rfl

theorem render_records {r : Read} {rendered : Rendered} (h : g.render r = .ok rendered) :
    ∃ w : Output, w.Records ((g.placeholders r).map (Prod.map id g.value?)) ∧
      rendered = ⟨w.out.text, w.parameters⟩ := by
  obtain ⟨ps, hps, h⟩ := Run.bind_eq_ok.1 h
  cases h
  refine ⟨_, ?_, rfl⟩
  have hstart : g.start.Records [] := ⟨by simp, trivial, fun name => rfl⟩
  have hall := hstart.writeAll g.settings.parameterPrefix ps
  rw [read_marks hps] at hall
  rw [placeholders_value]
  exact hall

/-- The text of a read holds its placeholders in order, all of them have values, and the table holds the value that
came last under each name. Every placeholder has its own value in the table just when no parameter has the name of a
numbered constant with another value. -/
theorem render_placeholders {r : Read} {rendered : Rendered} (h : g.render r = .ok rendered) :
    HoldsInOrder rendered.text ((g.placeholders r).map Prod.fst) ∧
      (∀ x ∈ g.placeholders r, (g.value? x.2).isSome = true) ∧
      (∀ name, Table.find? name rendered.parameters =
        ((g.placeholders r).reverse.find? fun x => x.1 = name).bind fun x => g.value? x.2) ∧
      ((∀ x ∈ g.placeholders r, Table.find? x.1 rendered.parameters = g.value? x.2) ↔
        ∀ name v t, (name, .parameter name) ∈ g.placeholders r → (name, .constant v t) ∈ g.placeholders r →
          g.value? (.parameter name) = g.value? (.constant v t)) := by
  obtain ⟨w, hw, rfl⟩ := render_records h
  have htable : ∀ name, Table.find? name w.parameters =
      ((g.placeholders r).reverse.find? fun x => x.1 = name).bind fun x => g.value? x.2 := by
    intro name
    rw [hw.table name, ← List.map_reverse, List.find?_map, Option.bind_map]
    rfl
  refine ⟨?_, ?_, htable, ?_, ?_⟩
  · have htext := hw.text
    rw [List.map_map] at htext
    exact htext
  · intro x hx
    exact hw.valued _ (List.mem_map_of_mem hx)
  · intro hown name v t hparameter hconstant
    rw [← hown _ hparameter, hown _ hconstant]
  · intro hclash x hx
    -- The last placeholder under the name of `x` counts, and there is one, since there is `x`.
    cases hlast : (g.placeholders r).reverse.find? fun y => y.1 = x.1 with
    | none =>
      have hnone := List.find?_eq_none.1 hlast x (List.mem_reverse.2 hx)
      simp at hnone
    | some y =>
      have hy : y ∈ g.placeholders r := List.mem_reverse.1 (List.mem_of_find?_eq_some hlast)
      have hname : y.1 = x.1 := by simpa using List.find?_some hlast
      rw [htable, hlast]
      exact value_eq_of_name_eq hclash hy hx hname

/-- A read that returns a parameter and the number one. -/
def parameterAndOne (name : String) : Read :=
  ⟨[], [.parameter name .int32, .constant (.int32 1) .int32], [], none, none, false, none, [], "s"⟩

theorem render_placeholders_of_other_name :
    let g : Generator := { settings := { parameterizeLiterals := true }, parameters := [("limit", .int 42)] }
    g.placeholders (parameterAndOne "limit") = [("limit", .parameter "limit"), ("p0", .constant (.int32 1) .int32)] ∧
      ∃ rendered, g.render (parameterAndOne "limit") = .ok rendered ∧
        Table.find? "limit" rendered.parameters = some (.int 42) ∧
        Table.find? "p0" rendered.parameters = some (.int 1) := by
  intro g
  have hnames : g.placeholders (parameterAndOne "limit") =
      [("limit", .parameter "limit"), ("p0", .constant (.int32 1) .int32)] := by rfl
  have hrender : ∃ rendered, g.render (parameterAndOne "limit") = .ok rendered := ⟨_, rfl⟩
  obtain ⟨rendered, hrender⟩ := hrender
  obtain ⟨-, -, -, hown⟩ := render_placeholders hrender
  rw [hnames] at hown
  have hvalues := hown.2 <| by
    intro name v t hparameter hconstant
    have hlimit : name = "limit" := by simpa using hparameter
    have hfirst : name = "p0" ∧ v = .int32 1 ∧ t = .int32 := by simpa using hconstant
    exact absurd (hlimit.symm.trans hfirst.1) (by decide)
  have hlimit := hvalues _ List.mem_cons_self
  have hone := hvalues _ (List.mem_cons_of_mem _ List.mem_cons_self)
  exact ⟨hnames, rendered, hrender, hlimit, hone⟩

/-- A constant whose number makes the name of a parameter takes the place of the parameter's value. -/
theorem value_replaced_by_constant :
    let g : Generator := { settings := { parameterizeLiterals := true }, parameters := [("p0", .int 42)] }
    g.placeholders (parameterAndOne "p0") = [("p0", .parameter "p0"), ("p0", .constant (.int32 1) .int32)] ∧
      ∃ rendered, g.render (parameterAndOne "p0") = .ok rendered ∧ rendered.text = "RETURN $p0, $p0" ∧
        g.value? (.parameter "p0") = some (.int 42) ∧ rendered.parameters = [("p0", .int 1)] := by
  exact ⟨by rfl, _, rfl, by rfl, by rfl, by rfl⟩

end Generator

end GraphQuery

import GraphQuery.Proofs.Placeholders
import GraphQuery.Proofs.Tables
import GraphQuery.Proofs.WrittenExprs

/-!
# Supplied values

A read names its parameters, and their values are supplied beside it. Where constants are written out, the table that
goes with the text holds the supplied values of the parameters that are written, and nothing else. When a value is
missing, the first parameter without one is reported: all in front of it have been written
(`Generator.render_supplied`).
-/

namespace GraphQuery

/-- The names of the parameters of an expression, where they are written. -/
def Expr.parameterNames (e : Expr) : List String :=
  e.referents.filterMap Referent.name?

/-- The names of the parameters of a read in the order in which they are written. -/
def Read.parameterNames (r : Read) : List String :=
  r.referents.filterMap Referent.name?

/-- What a read refers to is what its expressions refer to. -/
theorem Read.referents_eq (r : Read) : r.referents = r.written.flatMap Expr.referents := by
  have hclause : ∀ c : ReadingClause, c.referents = c.conditions.flatMap Expr.referents := by
    intro c
    cases c <;> rfl
  simp only [referents, written, List.flatMap_append, List.flatMap_assoc, List.flatMap_map, ← hclause]

theorem Read.parameterNames_eq (r : Read) : r.parameterNames = r.written.flatMap Expr.parameterNames := by
  rw [parameterNames, referents_eq, List.filterMap_flatMap]
  rfl

namespace Generator

variable {g : Generator}

/-! ## Missing values -/

/-- The first of some names without a supplied value. -/
def missing? (g : Generator) (names : List String) : Option String :=
  names.find? fun name => (Table.find? name g.parameters).isNone

theorem missing?_append (g : Generator) (names names' : List String) :
    g.missing? (names ++ names') = (g.missing? names).or (g.missing? names') :=
  List.find?_append

/-- A run that needs the values of these names in turn: it succeeds only if all are supplied, and reports no other
missing value than the first. -/
structure Needs {α : Type} (g : Generator) (names : List String) (x : Except RenderError α) : Prop where
  ok : ∀ a, x = .ok a → g.missing? names = none
  error : ∀ name, x = .error (.missingParameter name) → g.missing? names = some name

namespace Needs

variable {α β : Type} {names names' : List String} {x : Except RenderError α} {f : α → Except RenderError β}

theorem pure (a : α) : g.Needs [] (Pure.pure a) where
  ok _ _ := rfl
  error name h := by cases h

theorem other {err : RenderError} (h : ∀ name, err ≠ .missingParameter name) :
    g.Needs names (.error err : Except RenderError α) where
  ok a h := by cases h
  error name herr := absurd (Except.error.inj herr) (h name)

theorem bind (hx : g.Needs names x) (hf : ∀ a, g.Needs names' (f a)) : g.Needs (names ++ names') (x >>= f) where
  ok b h := by
    obtain ⟨a, ha, h⟩ := Run.bind_eq_ok.1 h
    rw [missing?_append, hx.ok a ha, (hf a).ok b h]
    rfl
  error name h := by
    rw [missing?_append]
    rcases Run.bind_eq_error.1 h with h | ⟨a, ha, h⟩
    · rw [hx.error name h]
      rfl
    · rw [hx.ok a ha, (hf a).error name h]
      rfl

theorem map (hx : g.Needs names x) (h : α → β) : g.Needs names (x >>= fun a => Pure.pure (h a)) := by
  rw [← List.append_nil names]
  exact hx.bind fun a => .pure (h a)

end Needs

theorem constant_needs (hint : Option LiteralStyle) (v : Value) (t : ValueType) :
    g.Needs (Expr.constant v t).parameterNames (g.constant hint v t) := by
  have hnames : (Expr.constant v t).parameterNames = [] := by
    unfold Expr.parameterNames Expr.referents
    split <;> rfl
  rw [hnames]
  unfold constant
  split
  · exact .pure _
  · simp only
    split
    · exact .pure _
    · split
      · exact .pure _
      · exact .other (by simp)

theorem parameter_needs (name : String) : g.Needs [name] (g.parameter name) := by
  unfold parameter
  cases hvalue : Table.find? name g.parameters with
  | none =>
    constructor
    · intro a h
      cases h
    · intro other h
      cases h
      simp [missing?, hvalue]
  | some value =>
    constructor
    · intro a h
      simp [missing?, hvalue]
    · intro other h
      cases h

theorem branch_needs {hint : Option LiteralStyle} {e : Expr} {names : List String}
    {f : List Piece → Except RenderError (List Piece)} (he : g.Needs e.parameterNames (g.expr hint e))
    (hf : ∀ ps, g.Needs names (f ps)) :
    g.Needs ((if e.isTruth then [] else e.referents).filterMap Referent.name? ++ names)
      (match g.branchToken? e with
        | some token => pure [Piece.text token] >>= f
        | none => g.expr hint e >>= f) := by
  rw [← branchToken_isSome (g := g)]
  cases g.branchToken? e with
  | some token => exact hf [.text token]
  | none => exact he.bind hf

/-- An expression needs the values of its parameters in the order in which they are written. -/
theorem expr_needs (hint : Option LiteralStyle) (e : Expr) : g.Needs e.parameterNames (g.expr hint e) := by
  fun_induction Generator.expr g hint e
  case case1 ihl ihr | case2 ihl ihr =>
    rw [Expr.parameterNames, Expr.referents, List.filterMap_append]
    exact ihl.bind fun _ => ihr.map _
  case case3 hbool ih =>
    rw [Expr.parameterNames, Expr.referents, if_pos hbool]
    exact ih
  case case4 hbool iht ihb iha =>
    rw [Expr.parameterNames, Expr.referents, if_neg hbool, List.filterMap_append, List.filterMap_append,
      ← List.append_nil (List.filterMap _ _ ++ _), List.append_assoc]
    refine iht.bind fun _ => ?_
    rw [List.append_assoc]
    exact branch_needs iha fun _ => branch_needs ihb fun _ => .pure _
  case case5 => exact constant_needs _ _ _
  case case6 => exact parameter_needs _
  case case7 ih => exact ih
  case case8 ih | case9 ih | case10 ih | case12 ih => exact ih.map _
  case case11 =>
    unfold storage
    split
    · exact .pure _
    · exact .other (by simp)
  all_goals exact .other (by simp)

theorem exprs_needs (es : List Expr) : g.Needs (es.flatMap Expr.parameterNames) (es.mapM (g.expr none)) := by
  induction es with
  | nil => exact .pure []
  | cons e es ih =>
    rw [List.flatMap_cons, List.mapM_cons]
    exact (expr_needs none e).bind fun _ => ih.map _

/-- A read needs the values of its parameters in the order in which they are written. -/
theorem read_needs (g : Generator) (r : Read) : g.Needs r.parameterNames (g.read r) := by
  have hwrites := g.read_writes_around r
  rw [Read.parameterNames_eq]
  constructor
  · intro ps hps
    obtain ⟨pss, hpss⟩ := hwrites.ok ps hps
    exact (exprs_needs r.written).ok pss hpss
  · intro name herr
    rcases hwrites.error _ herr with haround | herr
    · exact haround.elim
    · exact (exprs_needs r.written).error name herr

end Generator

/-! ## The table of values -/

namespace Output

theorem write_ordered (slotPrefix : String) {w : Output} (h : Table.Ordered w.parameters) (piece : Piece) :
    Table.Ordered (w.write slotPrefix piece).parameters := by
  cases piece with
  | slot value => exact h.insert (slotPrefix ++ toString w.nextSlot) value
  | parameter name value => exact h.insert name value
  | _ => exact h

theorem writeAll_ordered (slotPrefix : String) (ps : List Piece) {w : Output} (h : Table.Ordered w.parameters) :
    Table.Ordered (w.writeAll slotPrefix ps).parameters := by
  induction ps generalizing w with
  | nil => exact h
  | cons piece ps ih => exact ih (write_ordered slotPrefix h piece)

namespace Records

variable {w : Output} {written : List (String × Option Json)} {name : String}

/-- A name that was written for one value only has this value. -/
theorem find?_of_mem (h : w.Records written) {value : Option Json} (hmem : (name, value) ∈ written)
    (hone : ∀ other, (name, other) ∈ written → other = value) : Table.find? name w.parameters = value := by
  rw [h.table name]
  cases hlast : written.reverse.find? fun entry => entry.1 = name with
  | none =>
    have hnone := List.find?_eq_none.1 hlast (name, value) (List.mem_reverse.2 hmem)
    simp at hnone
  | some entry =>
    obtain ⟨key, other⟩ := entry
    have hkey : key = name := by simpa using List.find?_some hlast
    subst hkey
    exact hone other (List.mem_reverse.1 (List.mem_of_find?_eq_some hlast))

/-- A name that was not written has no value. -/
theorem find?_of_not_mem (h : w.Records written) (hname : name ∉ written.map Prod.fst) :
    Table.find? name w.parameters = none := by
  have hlast : (written.reverse.find? fun entry => entry.1 = name) = none := by
    refine List.find?_eq_none.2 fun entry hentry hkey => hname ?_
    exact List.mem_map.2 ⟨entry, List.mem_reverse.1 hentry, of_decide_eq_true hkey⟩
  rw [h.table name, hlast]
  rfl

end Records

end Output

namespace Generator

variable {g : Generator}

/-- The table that goes with a text has its keys in order, so none stands twice. -/
theorem render_ordered {r : Read} {x : Rendered} (h : g.render r = .ok x) : Table.Ordered x.parameters := by
  obtain ⟨ps, -, h⟩ := Run.bind_eq_ok.1 h
  cases h
  exact Output.writeAll_ordered g.settings.parameterPrefix ps List.Pairwise.nil

/-- Where constants are written out, the placeholders are those of the parameters. -/
theorem placeholders_of_literals (hmode : g.settings.parameterizeLiterals = false) (r : Read) :
    g.placeholders r = r.parameterNames.map fun name => (name, .parameter name) := by
  unfold placeholders Read.parameterNames
  induction r.referents with
  | nil => rfl
  | cons x refs ih =>
    cases x with
    | constant v t =>
      have hsends : g.sends (.constant v t) = false := hmode
      rw [List.filter_cons_of_neg (Bool.eq_false_iff.1 hsends), List.filterMap_cons_none rfl]
      exact ih
    | parameter name =>
      have hsends : g.sends (.parameter name) = true := rfl
      have hname : Referent.name? (.parameter name) = some name := rfl
      rw [List.filter_cons_of_pos hsends, List.filterMap_cons_some hname]
      exact congrArg (List.cons (name, .parameter name)) ih

/-- Where constants are written out, the table that goes with a text is the table of supplied values at the names of the
parameters that are written, and all of these have values. A read fails for want of a value only at a parameter that is
written and has none, and at the first such parameter. -/
theorem render_supplied (g : Generator) (r : Read) :
    (g.settings.parameterizeLiterals = false → ∀ x, g.render r = .ok x →
      (x.parameters.map Prod.fst).Nodup ∧
      (∀ name ∈ r.parameterNames, (Table.find? name g.parameters).isSome = true) ∧
      ∀ name, Table.find? name x.parameters =
        if name ∈ r.parameterNames then Table.find? name g.parameters else none) ∧
    ∀ name, g.render r = .error (.missingParameter name) →
      name ∈ r.parameterNames ∧ Table.find? name g.parameters = none ∧ g.missing? r.parameterNames = some name := by
  have hneeds : g.Needs r.parameterNames (g.render r) := (g.read_needs r).map _
  constructor
  · intro hmode x hx
    refine ⟨(render_ordered hx).nodup, fun name hname => ?_, fun name => ?_⟩
    · have hsome := List.find?_eq_none.1 (hneeds.ok x hx) name hname
      simpa [Option.isSome_iff_ne_none] using hsome
    · obtain ⟨w, hw, rfl⟩ := render_records hx
      rw [placeholders_of_literals hmode, List.map_map] at hw
      split
      · rename_i hname
        refine hw.find?_of_mem (List.mem_map.2 ⟨name, hname, rfl⟩) fun other hother => ?_
        obtain ⟨own, -, hown⟩ := List.mem_map.1 hother
        cases hown
        rfl
      · rename_i hname
        refine hw.find?_of_not_mem ?_
        simpa [Function.comp_def] using hname
  · intro name herr
    have hfirst := hneeds.error name herr
    refine ⟨List.mem_of_find?_eq_some hfirst, ?_, hfirst⟩
    simpa using List.find?_some hfirst

/-- A read that returns a conditional truth value with a test, and a case distinction behind it. -/
def guardedParameters : Read :=
  let parameter (name : String) : Expr := .parameter name .object
  ⟨[], [.conditional (.isNull (parameter "tested")) (parameter "unused") (parameter "unused") .bool,
      .conditional (.isNull (parameter "tested")) (parameter "first") (.constant (.int32 1) .int32) .object],
    [], some (parameter "count"), none, false, none, [], "s"⟩

/-- A value that is supplied for a branch that is not written is left out, and none is missed there. -/
theorem render_supplied_of_guarded :
    let g : Generator :=
      { parameters := [("count", .int 5), ("first", .null), ("other", .int 1), ("tested", .int 2), ("unused", .int 3)] }
    let short : Generator := { parameters := [("tested", .int 2)] }
    guardedParameters.parameterNames = ["tested", "tested", "first", "count"] ∧
      (∃ x, g.render guardedParameters = .ok x ∧ Table.find? "unused" x.parameters = none ∧
        Table.find? "other" x.parameters = none ∧ Table.find? "count" x.parameters = some (.int 5)) ∧
      short.render guardedParameters = .error (.missingParameter "first") ∧
      short.missing? guardedParameters.parameterNames = some "first" := by
  intro g short
  have hnames : guardedParameters.parameterNames = ["tested", "tested", "first", "count"] := rfl
  have hrender : ∃ x, g.render guardedParameters = .ok x := ⟨_, rfl⟩
  obtain ⟨x, hx⟩ := hrender
  obtain ⟨-, -, htable⟩ := (render_supplied g guardedParameters).1 rfl x hx
  have hshort : short.render guardedParameters = .error (.missingParameter "first") := rfl
  refine ⟨hnames, ⟨x, hx, ?_, ?_, ?_⟩, hshort, ((render_supplied short guardedParameters).2 "first" hshort).2.2⟩
  · rw [htable, hnames]
    rfl
  · rw [htable, hnames]
    rfl
  · rw [htable, hnames]
    rfl

end Generator

end GraphQuery

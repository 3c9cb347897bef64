import GraphQuery.Proofs.QuotedTexts
import GraphQuery.Proofs.Runs
import GraphQuery.Render.Pattern

/-!
# The texts of patterns

Nodes, arrows, brackets, quoted kinds and ranges of a pattern are written one behind the other without separators. The
text nevertheless shows where each of them ends, since the character that stands next decides about every part that may
be missing, and about every list that may go on. A text whose end shows like this determines what it is the text of
(`Determines`), and the ways in which texts are put together keep that.

Two patterns have the same text exactly when they differ at most in what is not written, the labels of nodes without an
alias (`Pattern.render_determines`).
-/

namespace GraphQuery

/-! ## Texts that show where they end -/

/-- The texts of values determine the values and where the texts end, as far as `next` holds of what stands behind: the
next character, if there is one. -/
def Determines {α : Type} (valid : α → Prop) (next : Option Char → Prop) (write : α → List Char) : Prop :=
  ∀ ⦃a b : α⦄ ⦃rest rest' : List Char⦄, valid a → valid b → next rest.head? → next rest'.head? →
    write a ++ rest = write b ++ rest' → a = b ∧ rest = rest'

namespace Determines

variable {α β : Type} {v : α → Prop} {w : β → Prop} {next next' : Option Char → Prop} {f : α → List Char}
  {g : β → List Char}

theorem mono (h : Determines v next f) (hnext : ∀ c, next' c → next c) : Determines v next' f :=
  fun _ _ _ _ ha hb hrest hrest' => h ha hb (hnext _ hrest) (hnext _ hrest')

/-- Values that are written as the parts of which they consist. -/
theorem ofParts (h : Determines v next f) (parts : β → α) (hwrite : ∀ b, g b = f (parts b))
    (hvalid : ∀ b, w b → v (parts b)) (hinj : ∀ b b', w b → w b' → parts b = parts b' → b = b') :
    Determines w next g := by
  intro b b' rest rest' hb hb' hrest hrest' heq
  rw [hwrite, hwrite] at heq
  obtain ⟨hparts, hend⟩ := h (hvalid b hb) (hvalid b' hb') hrest hrest' heq
  exact ⟨hinj b b' hb hb' hparts, hend⟩

/-- Words of some kind of characters, where no such character stands next. -/
theorem word (p : Char → Bool) :
    Determines (fun s : String => ∀ c ∈ s.toList, p c = true) (fun c => ∀ x ∈ c, p x = false) String.toList := by
  have htake : ∀ {s t : List Char}, (∀ c ∈ s, p c = true) → (∀ x ∈ t.head?, p x = false) →
      (s ++ t).takeWhile p = s := by
    intro s t hs ht
    rw [List.takeWhile_append_of_pos hs]
    cases t with
    | nil => rw [List.takeWhile_nil, List.append_nil]
    | cons x t => rw [List.takeWhile_cons_of_neg (by simp [ht x rfl]), List.append_nil]
  intro a b rest rest' ha hb hrest hrest' h
  have hwords : a.toList = b.toList := by rw [← htake ha hrest, h, htake hb hrest']
  rw [hwords] at h
  exact ⟨String.toList_inj.1 hwords, List.append_cancel_left h⟩

theorem behind (h : Determines v next f) (start : List Char) : Determines v next fun a => start ++ f a := by
  intro a b rest rest' ha hb hrest hrest' heq
  rw [List.append_assoc, List.append_assoc] at heq
  exact h ha hb hrest hrest' (List.append_cancel_left heq)

/-- A fixed text behind ends a text, whatever stands next. -/
theorem before (h : Determines v next f) {c : Char} (hc : next (some c)) (ending : List Char) :
    Determines v (fun _ => True) fun a => f a ++ c :: ending := by
  intro a b rest rest' ha hb _ _ heq
  rw [List.append_assoc, List.append_assoc] at heq
  obtain ⟨hab, hend⟩ := @h a b (c :: (ending ++ rest)) (c :: (ending ++ rest')) ha hb hc hc heq
  exact ⟨hab, List.append_cancel_left (List.cons.inj hend).2⟩

theorem append (hf : Determines v next f) (hg : Determines w next' g)
    (hnext : ∀ b rest, w b → next' rest.head? → next (g b ++ rest).head?) :
    Determines (fun p : α × β => v p.1 ∧ w p.2) next' fun p => f p.1 ++ g p.2 := by
  rintro ⟨a, b⟩ ⟨a', b'⟩ rest rest' ⟨ha, hb⟩ ⟨ha', hb'⟩ hrest hrest' heq
  simp only [List.append_assoc] at heq
  obtain ⟨rfl, hsecond⟩ := hf ha ha' (hnext b rest hb hrest) (hnext b' rest' hb' hrest') heq
  obtain ⟨rfl, hend⟩ := hg hb hb' hrest hrest' hsecond
  exact ⟨rfl, hend⟩

/-- A part may be missing when it starts otherwise than what stands next. -/
theorem option (hf : Determines v next f) (hstart : ∀ a rest, v a → ¬next (f a ++ rest).head?) :
    Determines (fun o : Option α => ∀ a ∈ o, v a) next fun o => o.elim [] f := by
  intro o o' rest rest' ho ho' hrest hrest' heq
  cases o with
  | none =>
    cases o' with
    | none => exact ⟨rfl, heq⟩
    | some b =>
      simp only [Option.elim_none, Option.elim_some, List.nil_append] at heq
      exact absurd (heq ▸ hrest) (hstart b rest' (ho' b rfl))
  | some a =>
    cases o' with
    | none =>
      simp only [Option.elim_none, Option.elim_some, List.nil_append] at heq
      exact absurd (heq ▸ hrest') (hstart a rest (ho a rfl))
    | some b =>
      obtain ⟨rfl, hend⟩ := hf (ho a rfl) (ho' b rfl) hrest hrest' heq
      exact ⟨rfl, hend⟩

/-- A list may go on with any of its elements, when they start otherwise than what stands next. -/
theorem list (hf : Determines v next f) (hnext : ∀ c, next' c → next c)
    (hstart : ∀ a rest, v a → next (f a ++ rest).head? ∧ ¬next' (f a ++ rest).head?) :
    Determines (fun l : List α => ∀ a ∈ l, v a) next' (List.flatMap f) := by
  have hbehind : ∀ {l : List α} {rest : List Char}, (∀ a ∈ l, v a) → next' rest.head? →
      next (l.flatMap f ++ rest).head? := by
    intro l rest hl hrest
    cases l with
    | nil => exact hnext _ hrest
    | cons a l =>
      rw [List.flatMap_cons, List.append_assoc]
      exact (hstart a _ (hl a List.mem_cons_self)).1
  intro l
  induction l with
  | nil =>
    intro l' rest rest' _ hl' hrest hrest' heq
    cases l' with
    | nil => exact ⟨rfl, heq⟩
    | cons b l' =>
      rw [List.flatMap_nil, List.nil_append, List.flatMap_cons, List.append_assoc] at heq
      exact absurd (heq ▸ hrest) (hstart b _ (hl' b List.mem_cons_self)).2
  | cons a l ih =>
    intro l' rest rest' hl hl' hrest hrest' heq
    obtain ⟨ha, has⟩ := List.forall_mem_cons.1 hl
    cases l' with
    | nil =>
      rw [List.flatMap_nil, List.nil_append, List.flatMap_cons, List.append_assoc] at heq
      exact absurd (heq ▸ hrest') (hstart a _ ha).2
    | cons b l' =>
      obtain ⟨hb, hbs⟩ := List.forall_mem_cons.1 hl'
      rw [List.flatMap_cons, List.flatMap_cons, List.append_assoc, List.append_assoc] at heq
      obtain ⟨rfl, htail⟩ := hf ha hb (hbehind has hrest) (hbehind hbs hrest') heq
      obtain ⟨rfl, hend⟩ := ih has hbs hrest hrest' htail
      exact ⟨rfl, hend⟩

/-- A character that may be missing. -/
theorem flag (c : Char) : Determines (fun _ : Bool => True) (· ≠ some c) fun b => if b then [c] else [] := by
  intro b b' rest rest' _ _ hrest hrest' heq
  cases b with
  | true =>
    cases b' with
    | true => exact ⟨rfl, (List.cons.inj heq).2⟩
    | false => exact absurd (by rw [← show _ = rest' from heq]; rfl) hrest'
  | false =>
    cases b' with
    | true => exact absurd (by rw [show rest = _ from heq]; rfl) hrest
    | false => exact ⟨rfl, heq⟩

end Determines

/-! ## Names and numbers -/

namespace Text

theorem isIdentifierPart_of_start {c : Char} (h : isIdentifierStart c = true) : isIdentifierPart c = true := by
  simp only [isIdentifierStart, isIdentifierPart, Char.isAlphanum, Bool.or_eq_true] at h ⊢
  exact h.imp_left .inl

theorem isIdentifier_cons {name : String} (h : isIdentifier name = true) :
    ∃ c cs, name.toList = c :: cs ∧ ∀ x ∈ c :: cs, isIdentifierPart x = true := by
  unfold isIdentifier at h
  split at h
  · cases h
  · rename_i c cs hname
    rw [Bool.and_eq_true, List.all_eq_true] at h
    exact ⟨c, cs, hname, List.forall_mem_cons.2 ⟨isIdentifierPart_of_start h.1, h.2⟩⟩

/-- The next character is no part of an identifier. -/
def EndsIdentifier (c : Option Char) : Prop :=
  ∀ x ∈ c, isIdentifierPart x = false

theorem endsIdentifier_some (c : Char) (h : isIdentifierPart c = false) : EndsIdentifier (some c) := by
  simpa [EndsIdentifier] using h

theorem identifier_determines : Determines (fun s => isIdentifier s = true) EndsIdentifier String.toList := by
  refine (Determines.word isIdentifierPart).ofParts id (fun _ => rfl) (fun s hs => ?_) fun _ _ _ _ h => h
  obtain ⟨c, cs, hname, hparts⟩ := isIdentifier_cons hs
  rwa [id, hname]

theorem identifier_starts {name : String} (h : isIdentifier name = true) (rest : List Char) :
    ¬EndsIdentifier (name.toList ++ rest).head? := by
  obtain ⟨c, cs, hname, hparts⟩ := isIdentifier_cons h
  rw [hname]
  intro hends
  have hpart := hparts c List.mem_cons_self
  rw [hends c rfl] at hpart
  cases hpart

/-- The next character is no digit. -/
def EndsNumber (c : Option Char) : Prop :=
  ∀ x ∈ c, x.isDigit = false

theorem endsNumber_some (c : Char) (h : c.isDigit = false) : EndsNumber (some c) := by
  simpa [EndsNumber] using h

theorem isDigit_of_mem_number {n : Nat} {c : Char} (h : c ∈ (toString n).toList) : c.isDigit = true := by
  rw [Nat.toString_eq_ofList_toDigits, String.toList_ofList] at h
  exact Nat.isDigit_of_mem_toDigits (by decide) (by decide) h

theorem number_determines : Determines (fun _ : Nat => True) EndsNumber fun n => (toString n).toList := by
  refine (Determines.word Char.isDigit).ofParts toString (fun _ => rfl) (fun n _ c hc => isDigit_of_mem_number hc) ?_
  intro m n _ _ h
  rw [Nat.toString_eq_ofList_toDigits, Nat.toString_eq_ofList_toDigits, String.ofList_inj] at h
  rw [← Nat.ofDigitChars_toDigits (b := 10) (n := m) (by decide) (by decide), h,
    Nat.ofDigitChars_toDigits (by decide) (by decide)]

theorem number_starts (n : Nat) (rest : List Char) : ¬EndsNumber ((toString n).toList ++ rest).head? := by
  intro hends
  cases hdigits : (toString n).toList with
  | nil =>
    rw [Nat.toString_eq_ofList_toDigits, String.toList_ofList] at hdigits
    exact Nat.toDigits_ne_nil hdigits
  | cons c cs =>
    have hdigit : c.isDigit = true := isDigit_of_mem_number (n := n) (by rw [hdigits]; exact List.mem_cons_self)
    rw [hdigits] at hends
    rw [hends c rfl] at hdigit
    cases hdigit

end Text

/-! ## Spellings -/

/-- The characters of the bounds on the number of hops. -/
def Hops.spelling (range : Hops) : List Char :=
  let bound (n : Option Nat) : List Char := n.elim [] fun n => (toString n).toList
  '*' :: (bound range.lower ++ '.' :: '.' :: bound range.upper)

/-- The characters of the kinds of a relationship, between double quotes. -/
def kindsSpelling : List String → List Char
  | [] => []
  | kind :: kinds =>
    ':' :: ((Text.delimit '\x22' kind).toList ++ kinds.flatMap fun k => '|' :: ':' :: (Text.delimit '\x22' k).toList)

/-- The characters of the bracketed part of a relationship. -/
def RelationshipBody.spelling (detail : RelationshipBody) : List Char :=
  '[' :: (detail.name.elim [] String.toList ++ (kindsSpelling detail.kinds ++
    (detail.range.elim [] Hops.spelling ++ [']'])))

/-- Whether a relationship points to the node before it. -/
def Direction.pointsLeft : Direction → Bool
  | both | left => true
  | right | undirected => false

/-- Whether a relationship points to the node behind it. -/
def Direction.pointsRight : Direction → Bool
  | both | right => true
  | left | undirected => false

/-- The characters of a relationship. -/
def Relationship.spelling (r : Relationship) : List Char :=
  (if r.direction.pointsLeft then ['<'] else []) ++
    '-' :: (r.detail.elim [] RelationshipBody.spelling ++ '-' :: if r.direction.pointsRight then ['>'] else [])

/-- The characters of a node with its labels. -/
def Node.spelling (node : Node) : List Char :=
  '(' :: ((node.name.elim [] fun name => name.toList ++ node.labels.flatMap fun l => ':' :: l.toList) ++ [')'])

def stepSpelling (step : Relationship × Node) : List Char :=
  step.1.spelling ++ step.2.spelling

/-- The characters of a pattern. -/
def Pattern.spelling (p : Pattern) : List Char :=
  p.start.spelling ++ p.steps.flatMap stepSpelling

/-! ## What is written -/

/-- A node that can be written as it is: its names are identifiers, and it has labels only if it has an alias. -/
structure Node.IsWritable (node : Node) : Prop where
  name : ∀ name ∈ node.name, Text.isIdentifier name = true
  labels : ∀ label ∈ node.labels, Text.isIdentifier label = true
  shown : node.name = none → node.labels = []

/-- The alias of a relationship is an identifier. -/
def Relationship.IsWritable (r : Relationship) : Prop :=
  ∀ detail ∈ r.detail, ∀ name ∈ detail.name, Text.isIdentifier name = true

def Pattern.IsWritable (p : Pattern) : Prop :=
  p.start.IsWritable ∧ ∀ step ∈ p.steps, step.1.IsWritable ∧ step.2.IsWritable

/-! ## Spellings determine patterns -/

theorem Hops.spelling_determines : Determines (fun _ => True) Text.EndsNumber Hops.spelling := by
  have hbound := Text.number_determines.option fun n rest _ => Text.number_starts n rest
  have hlower := hbound.before (Text.endsNumber_some '.' rfl) ['.']
  refine ((hlower.append hbound fun _ _ _ _ => trivial).behind ['*']).ofParts (fun r => (r.lower, r.upper))
    (fun r => by simp [spelling]) (fun _ _ => by simp) ?_
  rintro ⟨lower, upper⟩ ⟨lower', upper'⟩ _ _ h
  cases h
  rfl

/-- What stands behind the kinds of a relationship: a range or the closing bracket. -/
def EndsKinds (c : Option Char) : Prop :=
  c = some '*' ∨ c = some ']'

theorem kindsSpelling_determines : Determines (fun _ : List String => True) EndsKinds kindsSpelling := by
  have hkind : Determines (fun _ : String => True) (· ≠ some '\x22') fun k => (Text.delimit '\x22' k).toList :=
    fun _ _ _ _ _ _ hrest hrest' h => Text.delimit_append_inj hrest hrest' h
  have hends : ∀ c, EndsKinds c → c ≠ some '\x22' := by
    rintro c (rfl | rfl)
    · decide
    · decide
  have hmore := (hkind.behind ['|', ':']).list hends fun k rest _ => ⟨by simp, by simp [EndsKinds]⟩
  have hfirst := hkind.append hmore fun kinds rest _ hrest => by
    cases kinds with
    | nil => exact hends _ hrest
    | cons k kinds => simp
  refine ((hfirst.behind [':']).option fun _ rest _ => by simp [EndsKinds]).ofParts
    (fun kinds => kinds.head?.map fun k => (k, kinds.tail)) (fun kinds => ?_) (fun kinds _ => by simp) ?_
  · cases kinds with
    | nil => rfl
    | cons k kinds => simp [kindsSpelling]
  · intro kinds kinds' _ _ h
    cases kinds with
    | nil =>
      cases kinds' with
      | nil => rfl
      | cons k' kinds' => cases h
    | cons k kinds =>
      cases kinds' with
      | nil => cases h
      | cons k' kinds' =>
        cases h
        rfl

theorem RelationshipBody.spelling_determines :
    Determines (fun d : RelationshipBody => ∀ name ∈ d.name, Text.isIdentifier name = true) (fun _ => True)
      RelationshipBody.spelling := by
  have hrange : Determines (fun o : Option Hops => ∀ r ∈ o, True) (fun _ => True) fun o =>
      o.elim [] Hops.spelling ++ [']'] := by
    have hend : ∀ c, c = some ']' → Text.EndsNumber c := by
      rintro c rfl
      exact Text.endsNumber_some ']' rfl
    exact ((Hops.spelling_determines.mono hend).option fun r rest _ => by simp [Hops.spelling]).before rfl []
  have hkinds := kindsSpelling_determines.append hrange fun o rest _ _ => by
    cases o with
    | none => exact .inr rfl
    | some r => exact .inl rfl
  have hname := Text.identifier_determines.option fun name rest hname => Text.identifier_starts hname rest
  have hall := hname.append hkinds fun p rest _ _ => by
    obtain ⟨kinds, o⟩ := p
    cases kinds with
    | nil =>
      cases o with
      | none => exact Text.endsIdentifier_some ']' rfl
      | some r => exact Text.endsIdentifier_some '*' rfl
    | cons k kinds => exact Text.endsIdentifier_some ':' rfl
  refine (hall.behind ['[']).ofParts (fun d => (d.name, d.kinds, d.range)) (fun d => by simp [spelling])
    (fun d hd => ⟨hd, trivial, fun _ _ => trivial⟩) ?_
  rintro ⟨name, kinds, range⟩ ⟨name', kinds', range'⟩ _ _ h
  cases h
  rfl

theorem Direction.eq_of_points {d d' : Direction} (hleft : d.pointsLeft = d'.pointsLeft)
    (hright : d.pointsRight = d'.pointsRight) : d = d' := by
  cases d <;> cases d' <;> simp [pointsLeft, pointsRight] at hleft hright ⊢

theorem Relationship.spelling_determines :
    Determines Relationship.IsWritable (· = some '(') Relationship.spelling := by
  have hdetail := (RelationshipBody.spelling_determines.mono fun c (_ : c = some '-') => trivial).option
    fun d rest _ => by simp [RelationshipBody.spelling]
  have hright : Determines (fun _ : Bool => True) (· = some '(') fun b => '-' :: if b then ['>'] else [] :=
    ((Determines.flag '>').mono fun c (hc : c = some '(') => by rw [hc]; decide).behind ['-']
  have hbehind := (hdetail.append hright fun b rest _ _ => rfl).behind ['-']
  refine ((Determines.flag '<').append hbehind fun p rest _ _ => by simp).ofParts
    (fun r => (r.direction.pointsLeft, r.detail, r.direction.pointsRight)) (fun r => rfl)
    (fun r hr => ⟨trivial, hr, trivial⟩) ?_
  rintro ⟨direction, detail⟩ ⟨direction', detail'⟩ _ _ h
  simp only [Prod.mk.injEq] at h
  obtain ⟨hleft, rfl, hright⟩ := h
  rw [Direction.eq_of_points hleft hright]

theorem Node.spelling_determines : Determines Node.IsWritable (fun _ => True) Node.spelling := by
  have hclosing : ∀ c, c = some ')' → Text.EndsIdentifier c := by
    rintro c rfl
    exact Text.endsIdentifier_some ')' rfl
  have hcolon : Text.EndsIdentifier (some ':') := Text.endsIdentifier_some ':' rfl
  have hlabels : Determines (fun labels => ∀ l ∈ labels, Text.isIdentifier l = true) (· = some ')')
      (List.flatMap fun l : String => ':' :: l.toList) :=
    (Text.identifier_determines.behind [':']).list hclosing fun l rest _ => ⟨hcolon, by simp⟩
  have hnames := Text.identifier_determines.append hlabels fun labels rest _ hrest => by
    cases labels with
    | nil => exact hclosing _ hrest
    | cons l labels => exact hcolon
  have hpart := hnames.option fun p rest hp hend =>
    Text.identifier_starts hp.1 (p.2.flatMap (fun l => ':' :: l.toList) ++ rest)
      (by rw [← List.append_assoc]; exact hclosing _ hend)
  refine ((hpart.before rfl []).behind ['(']).ofParts (fun n => n.name.map fun name => (name, n.labels)) (fun n => ?_)
    (fun n hn => ?_) ?_
  · rw [spelling]
    cases n.name with
    | none => rfl
    | some name => rfl
  · intro p hp
    obtain ⟨name, hname, rfl⟩ := Option.map_eq_some_iff.1 hp
    exact ⟨hn.name name hname, hn.labels⟩
  · rintro ⟨name, labels⟩ ⟨name', labels'⟩ hn hn' h
    cases name with
    | none =>
      cases name' with
      | none =>
        obtain rfl : labels = [] := hn.shown rfl
        obtain rfl : labels' = [] := hn'.shown rfl
        rfl
      | some name' => cases h
    | some name =>
      cases name' with
      | none => cases h
      | some name' =>
        cases h
        rfl

theorem stepSpelling_determines :
    Determines (fun s : Relationship × Node => s.1.IsWritable ∧ s.2.IsWritable) (fun _ => True) stepSpelling :=
  Relationship.spelling_determines.append Node.spelling_determines fun _ _ _ _ => rfl

theorem stepSpelling_head (step : Relationship × Node) (rest : List Char) :
    (stepSpelling step ++ rest).head? ≠ none := by
  simp [stepSpelling, Node.spelling]

theorem Pattern.spelling_determines : Determines Pattern.IsWritable (· = none) Pattern.spelling := by
  have hsteps := stepSpelling_determines.list (fun c (_ : c = none) => trivial)
    fun step rest _ => ⟨trivial, stepSpelling_head step rest⟩
  refine (Node.spelling_determines.append hsteps fun _ _ _ _ => trivial).ofParts (fun p => (p.start, p.steps))
    (fun _ => rfl) (fun _ hp => hp) ?_
  rintro ⟨start, steps⟩ ⟨start', steps'⟩ _ _ h
  cases h
  rfl

/-! ## Rendering -/

/-- A node without the labels that are not written. -/
def Node.shown (node : Node) : Node :=
  match node.name with
  | none => {}
  | some _ => node

/-- A pattern without the labels that are not written, those of nodes without an alias. -/
def Pattern.shown (p : Pattern) : Pattern :=
  ⟨p.start.shown, p.steps.map fun step => (step.1, step.2.shown)⟩

theorem plainName_eq_ok {name text : String} :
    plainName name = .ok text ↔ Text.isIdentifier name = true ∧ text = name := by
  unfold plainName
  split
  · rename_i hname
    simp [hname, eq_comm]
  · rename_i hname
    simp [hname]

theorem Node.render_eq_ok {node : Node} {text : String} (h : node.render = .ok text) :
    node.shown.IsWritable ∧ text.toList = node.shown.spelling := by
  obtain ⟨name, labels⟩ := node
  cases name with
  | none =>
    cases h
    exact ⟨⟨by simp [shown], by simp [shown], fun _ => rfl⟩, rfl⟩
  | some name =>
    obtain ⟨_, hname, h⟩ := Run.bind_eq_ok.1 h
    obtain ⟨labels', hlabels, htext⟩ := Run.bind_eq_ok.1 h
    obtain ⟨hidentifier, rfl⟩ := plainName_eq_ok.1 hname
    have hlabel : ∀ {l l' : String}, plainName l = .ok l' →
        Text.isIdentifier l = true ∧ ':' :: l'.toList = ':' :: l.toList := by
      intro l l' hl
      obtain ⟨hl, rfl⟩ := plainName_eq_ok.1 hl
      exact ⟨hl, rfl⟩
    obtain ⟨hidentifiers, htexts⟩ := Run.mapM_flatMap hlabel hlabels
    cases htext
    refine ⟨⟨by simpa [shown] using hidentifier, hidentifiers, by simp [shown]⟩, ?_⟩
    simp [shown, spelling, String.toList_join, List.flatMap_map, htexts]

theorem Hops.toList_render (range : Hops) : range.render.toList = range.spelling := by
  obtain ⟨lower, upper⟩ := range
  cases lower <;> cases upper <;> simp [render, spelling]

theorem toList_renderKinds (kinds : List String) :
    (renderKinds (.quoting '\x22') kinds).toList = kindsSpelling kinds := by
  have hjoined : ∀ (k : String) (ks : List String),
      (String.intercalate "|:" ((k :: ks).map (Text.delimit '\x22'))).toList =
        (Text.delimit '\x22' k).toList ++ ks.flatMap fun k => '|' :: ':' :: (Text.delimit '\x22' k).toList := by
    intro k ks
    induction ks generalizing k with
    | nil => simp
    | cons next ks ih =>
      rw [List.map_cons, List.map_cons, String.intercalate_cons_cons, ← List.map_cons, String.toList_append, ih]
      simp
  cases kinds with
  | nil => rfl
  | cons k kinds =>
    rw [renderKinds, kindsSpelling, ← hjoined]
    simp [Delimiter.quoting]

theorem RelationshipBody.render_eq_ok {detail : RelationshipBody} {text : String}
    (h : detail.render (.quoting '\x22') = .ok text) :
    (∀ name ∈ detail.name, Text.isIdentifier name = true) ∧ text.toList = detail.spelling := by
  obtain ⟨name, kinds, range⟩ := detail
  have hrange : ((range.map Hops.render).getD "").toList = range.elim [] Hops.spelling := by
    cases range with
    | none => rfl
    | some r => exact r.toList_render
  cases name with
  | none =>
    cases h
    exact ⟨by simp, by simp [spelling, hrange, toList_renderKinds]⟩
  | some name =>
    obtain ⟨_, hname, htext⟩ := Run.bind_eq_ok.1 h
    obtain ⟨hidentifier, rfl⟩ := plainName_eq_ok.1 hname
    cases htext
    exact ⟨by simpa using hidentifier, by simp [spelling, hrange, toList_renderKinds]⟩

theorem Direction.toList_opening (d : Direction) :
    d.opening.toList = (if d.pointsLeft then ['<'] else []) ++ ['-'] := by
  cases d <;> rfl

theorem Direction.toList_closing (d : Direction) :
    d.closing.toList = '-' :: if d.pointsRight then ['>'] else [] := by
  cases d <;> rfl

theorem Relationship.render_eq_ok {r : Relationship} {text : String} (h : r.render (.quoting '\x22') = .ok text) :
    r.IsWritable ∧ text.toList = r.spelling := by
  obtain ⟨direction, detail⟩ := r
  cases detail with
  | none =>
    cases h
    exact ⟨by simp [IsWritable], by simp [spelling, Direction.toList_opening, Direction.toList_closing]⟩
  | some d =>
    obtain ⟨written, hdetail, htext⟩ := Run.bind_eq_ok.1 h
    obtain ⟨hname, hspelling⟩ := RelationshipBody.render_eq_ok hdetail
    cases htext
    refine ⟨by simpa [IsWritable] using hname, ?_⟩
    simp [spelling, hspelling, Direction.toList_opening, Direction.toList_closing]

theorem renderStep_eq_ok {step : Relationship × Node} {text : String}
    (h : renderStep (.quoting '\x22') step = .ok text) :
    (step.1.IsWritable ∧ step.2.shown.IsWritable) ∧ text.toList = stepSpelling (step.1, step.2.shown) := by
  obtain ⟨relationship, hrelationship, h⟩ := Run.bind_eq_ok.1 h
  obtain ⟨node, hnode, h⟩ := Run.bind_eq_ok.1 h
  cases h
  obtain ⟨hfirst, hrelationship⟩ := Relationship.render_eq_ok hrelationship
  obtain ⟨hsecond, hnode⟩ := Node.render_eq_ok hnode
  exact ⟨⟨hfirst, hsecond⟩, by rw [String.toList_append, hrelationship, hnode]; rfl⟩

namespace Pattern

theorem render_eq_ok {p : Pattern} {text : String} (h : p.render (.quoting '\x22') = .ok text) :
    p.shown.IsWritable ∧ text.toList = p.shown.spelling := by
  obtain ⟨start, hstart, h⟩ := Run.bind_eq_ok.1 h
  obtain ⟨steps, hsteps, h⟩ := Run.bind_eq_ok.1 h
  cases h
  obtain ⟨hfirst, hstart⟩ := Node.render_eq_ok hstart
  obtain ⟨hrest, hsteps⟩ := Run.mapM_flatMap renderStep_eq_ok hsteps
  refine ⟨⟨hfirst, ?_⟩, ?_⟩
  · intro step hstep
    obtain ⟨step', hstep', rfl⟩ := List.mem_map.1 hstep
    exact hrest step' hstep'
  · rw [String.toList_append, String.toList_join, hstart, hsteps, spelling, shown, List.flatMap_map]

/-- Two patterns that can be written with double quotes have the same text exactly when they are equal up to the labels
of nodes without an alias. -/
theorem render_determines {p q : Pattern} {text text' : String} (hp : p.render (.quoting '\x22') = .ok text)
    (hq : q.render (.quoting '\x22') = .ok text') : text = text' ↔ p.shown = q.shown := by
  obtain ⟨hp, hptext⟩ := render_eq_ok hp
  obtain ⟨hq, hqtext⟩ := render_eq_ok hq
  rw [← String.toList_inj, hptext, hqtext]
  constructor
  · intro h
    have hnone : ([] : List Char).head? = none := rfl
    refine (spelling_determines hp hq hnone hnone ?_).1
    rw [List.append_nil, List.append_nil, h]
  · intro h
    rw [h]

/-- The path from a warehouse to a node without an alias, over at most two relationships of some kinds. -/
def nearby (kinds labels : List String) : Pattern :=
  ⟨⟨some "w", ["Warehouse"]⟩, [(⟨.right, some ⟨none, kinds, some ⟨none, some 2⟩⟩⟩, ⟨none, labels⟩)]⟩

/-- The labels of the last node do not show, and a kind that reads like two kinds is still one. -/
theorem render_determines_of_nearby :
    ∃ text text' text'', (nearby ["A\x22|:\x22B"] ["Thing"]).render (.quoting '\x22') = .ok text ∧
      (nearby ["A\x22|:\x22B"] []).render (.quoting '\x22') = .ok text' ∧
      (nearby ["A", "B"] []).render (.quoting '\x22') = .ok text'' ∧ text = text' ∧ text' ≠ text'' := by
  have hone : (nearby ["A\x22|:\x22B"] ["Thing"]).render (.quoting '\x22') = .ok _ := rfl
  have hhidden : (nearby ["A\x22|:\x22B"] []).render (.quoting '\x22') = .ok _ := rfl
  have htwo : (nearby ["A", "B"] []).render (.quoting '\x22') = .ok _ := rfl
  exact ⟨_, _, _, hone, hhidden, htwo, (render_determines hone hhidden).2 rfl,
    fun h => absurd ((render_determines hhidden htwo).1 h) (by decide)⟩

end Pattern

end GraphQuery

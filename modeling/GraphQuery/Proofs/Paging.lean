import GraphQuery.Proofs.Rows

/-!
# Paging

A read has one skip and one limit. As long as the server pages, a later skip or limit takes the place of the one that is
there instead of applying to the rows that it leaves: of skips at the front only the last is in effect, and so it is
with the limits behind them. What the plan of a query of pages does is thus what the pages in effect do, and the two
sides of `Compiler.plan_pages` say when that is what the query asks for.
-/

namespace GraphQuery

variable {Row : Type}

/-! ## Windows -/

/-- A stretch of rows: where it starts, and how long it is unless it goes to the end. -/
structure Window where
  start : Nat
  length : Option Nat
  deriving DecidableEq

namespace Window

variable {w w' : Window}

def all : Window :=
  ⟨0, none⟩

def skip (n : Nat) (w : Window) : Window :=
  ⟨w.start + n, w.length.map (· - n)⟩

def take (n : Nat) (w : Window) : Window :=
  ⟨w.start, some (w.length.elim n (min n))⟩

def rows (w : Window) (rows : List Row) : List Row :=
  w.length.elim (rows.drop w.start) fun n => (rows.drop w.start).take n

/-- Two windows that show the same rows: windows of the same length at the same place, or two without rows. -/
def Same (w w' : Window) : Prop :=
  w.length = w'.length ∧ (w.length = some 0 ∨ w.start = w'.start)

instance : Decidable (w.Same w') :=
  inferInstanceAs (Decidable (_ ∧ _))

theorem rows_skip (n : Nat) (w : Window) (rows : List Row) : (w.skip n).rows rows = (w.rows rows).drop n := by
  obtain ⟨start, _ | length⟩ := w
  · simp [Window.rows, skip, List.drop_drop]
  · simp [Window.rows, skip, List.drop_take, List.drop_drop]

theorem rows_take (n : Nat) (w : Window) (rows : List Row) : (w.take n).rows rows = (w.rows rows).take n := by
  obtain ⟨start, _ | length⟩ := w
  · simp [Window.rows, take]
  · simp [Window.rows, take, List.take_take]

/-- The number of rows that a window shows. -/
theorem length_rows (w : Window) (rows : List Row) :
    (w.rows rows).length = w.length.elim (rows.length - w.start) fun n => min n (rows.length - w.start) := by
  obtain ⟨start, _ | length⟩ := w <;> simp [Window.rows]

/-- Windows that show as many rows of every list are the same. -/
theorem same_of_length (h : ∀ total, w.length.elim (total - w.start) (fun n => min n (total - w.start)) =
    w'.length.elim (total - w'.start) fun n => min n (total - w'.start)) : w.Same w' := by
  obtain ⟨start, length⟩ := w
  obtain ⟨start', length'⟩ := w'
  match length, length' with
  | none, none =>
    have := h (start + start' + 1)
    simp only [Option.elim_none] at this
    exact ⟨rfl, Or.inr (by simp only; omega)⟩
  | none, some k =>
    have := h (start + start' + k + 1)
    simp only [Option.elim_none, Option.elim_some] at this
    omega
  | some k, none =>
    have := h (start + start' + k + 1)
    simp only [Option.elim_none, Option.elim_some] at this
    omega
  | some k, some k' =>
    simp only [Option.elim_some] at h
    -- A long list shows the lengths, and lists that end right behind a start show the starts.
    have hlong := h (start + start' + k + k')
    have hstart := h (start + 1)
    have hstart' := h (start' + 1)
    have hk : k = k' := by omega
    refine ⟨by rw [hk], ?_⟩
    by_cases hzero : k = 0
    · exact Or.inl (by rw [hzero])
    · exact Or.inr (by simp only; omega)

/-- Windows show the same rows of every list exactly when they are the same. -/
theorem rows_eq_iff [Nonempty Row] : (∀ rows : List Row, w.rows rows = w'.rows rows) ↔ w.Same w' := by
  constructor
  · intro h
    obtain ⟨row⟩ := ‹Nonempty Row›
    refine same_of_length fun total => ?_
    have hlength := congrArg List.length (h (List.replicate total row))
    simpa only [length_rows, List.length_replicate] using hlength
  · rintro ⟨hlength, hzero | hstart⟩ rows
    · simp [Window.rows, ← hlength, hzero]
    · simp [Window.rows, ← hlength, hstart]

end Window

/-! ## Pages -/

namespace Page

def rowsOf (m : Meaning Row) (pages : List Page) (rows : List Row) : List Row :=
  pages.foldl (fun rows page => page.rows m rows) rows

def window (m : Meaning Row) (w : Window) : Page → Window
  | .skip n => w.skip (m.count n)
  | .take n => w.take (m.count n)

/-- The window that pages leave. -/
def windowOf (m : Meaning Row) (pages : List Page) : Window :=
  pages.foldl (window m) .all

theorem rowsOf_eq_window (m : Meaning Row) (pages : List Page) (rows : List Row) :
    rowsOf m pages rows = (windowOf m pages).rows rows := by
  suffices h : ∀ w : Window, rowsOf m pages (w.rows rows) = (pages.foldl (window m) w).rows rows by
    exact h .all
  induction pages with
  | nil => intro w; rfl
  | cons page pages ih =>
    intro w
    rw [List.foldl_cons, ← ih, rowsOf, List.foldl_cons]
    cases page with
    | skip n => rw [window, Window.rows_skip]; rfl
    | take n => rw [window, Window.rows_take]; rfl

/-- The pages behind limits in a row, with the last of these limits. -/
def lastLimit : List Page → List Page
  | .take _ :: .take n :: pages => lastLimit (.take n :: pages)
  | pages => pages

/-- The pages that a plan applies: the last one of the skips at the front, the last one of the limits that follow, and
all pages behind them. -/
def inEffect : List Page → List Page
  | .skip _ :: .skip n :: pages => inEffect (.skip n :: pages)
  | .skip n :: pages => .skip n :: lastLimit pages
  | pages => lastLimit pages

theorem mem_of_mem_lastLimit {page : Page} {pages : List Page} (h : page ∈ lastLimit pages) : page ∈ pages := by
  fun_induction lastLimit pages with
  | case1 _ n pages ih => exact List.mem_cons_of_mem _ (ih h)
  | case2 pages _ => exact h

theorem mem_of_mem_inEffect {page : Page} {pages : List Page} (h : page ∈ inEffect pages) : page ∈ pages := by
  fun_induction inEffect pages with
  | case1 _ n pages ih => exact List.mem_cons_of_mem _ (ih h)
  | case2 n pages _ =>
    rcases List.mem_cons.1 h with rfl | h
    · exact List.mem_cons_self
    · exact List.mem_cons_of_mem _ (mem_of_mem_lastLimit h)
  | case3 pages _ _ => exact mem_of_mem_lastLimit h

/-- Unless a skip comes first, nothing is left or a limit behind which no limit follows at once. -/
theorem lastLimit_cases {pages : List Page} (h : ∀ n, pages.head? ≠ some (.skip n)) :
    lastLimit pages = [] ∨ ∃ n rest, lastLimit pages = .take n :: rest ∧ ∀ n', rest.head? ≠ some (.take n') := by
  fun_induction lastLimit pages with
  | case1 _ n pages ih => exact ih fun n' hn' => nomatch hn'
  | case2 pages hpages =>
    match pages with
    | [] => exact Or.inl rfl
    | .skip n :: _ => exact absurd rfl (h n)
    | .take n :: rest =>
      refine Or.inr ⟨n, rest, rfl, fun n' hn' => ?_⟩
      obtain ⟨rest', rfl⟩ := List.head?_eq_some_iff.1 hn'
      exact hpages n n' rest' rfl

variable {translation : Expr → Option Expr}

/-- With a skip in front or without one, limits of which the last is in effect are in the order of the server. -/
theorem lastLimit_inOrder {skip : Option Expr} {pages : List Page} (hhead : ∀ n, pages.head? ≠ some (.skip n))
    (hskip : ∀ n ∈ skip, (translation n).isSome = true)
    (hpages : ∀ page ∈ pages, (translation page.count).isSome = true) :
    RowClause.InOrder translation (RowClause.opening [] skip ++ (lastLimit pages).map .page) := by
  rcases lastLimit_cases hhead with hnil | ⟨n, rest, hlast, hdistinct⟩
  · rw [hnil]
    exact .upToLimit [] skip none
  · have hn : (translation n).isSome = true := hpages (.take n) (mem_of_mem_lastLimit (by simp [hlast]))
    rw [hlast]
    refine .behindLimit [] skip n (rest.map .page) (fun clause hclause => ?_) fun n' hn' => ?_
    · rcases List.mem_append.1 hclause with hclause | hclause
      · obtain ⟨k, hk, rfl⟩ : ∃ k ∈ skip, RowClause.page (.skip k) = clause := by
          simpa [RowClause.opening] using hclause
        exact hskip k hk
      · rw [List.mem_singleton.1 hclause]
        exact hn
    · rw [List.head?_map] at hn'
      obtain ⟨page, hpage, heq⟩ := Option.map_eq_some_iff.1 hn'
      cases heq
      exact hdistinct n' hpage

/-- The pages in effect are in the order of the server. -/
theorem inEffect_inOrder {pages : List Page} (h : ∀ page ∈ pages, (translation page.count).isSome = true) :
    RowClause.InOrder translation ((inEffect pages).map .page) := by
  fun_induction inEffect pages with
  | case1 _ n pages ih => exact ih fun page hpage => h page (List.mem_cons_of_mem _ hpage)
  | case2 n pages hskips =>
    have hn : ∀ k ∈ some n, (translation k).isSome = true := by
      rintro k ⟨⟩
      exact h (.skip n) List.mem_cons_self
    refine lastLimit_inOrder (fun k hk => ?_) hn fun page hpage => h page (List.mem_cons_of_mem _ hpage)
    obtain ⟨rest, rfl⟩ := List.head?_eq_some_iff.1 hk
    exact hskips k rest rfl
  | case3 pages _ hskips =>
    have hnone : ∀ k ∈ (none : Option Expr), (translation k).isSome = true := fun _ hk => nomatch hk
    refine lastLimit_inOrder (fun k hk => ?_) hnone h
    obtain ⟨rest, rfl⟩ := List.head?_eq_some_iff.1 hk
    exact hskips k rest rfl

end Page

/-! ## Runs -/

namespace Progress

variable {translation : Expr → Option Expr} {p p' : Progress}

/-- A limit takes the place of the one before it. -/
theorem take_take (hrows : p.clientRows = false) {n n' : Expr} (hn : (translation n).isSome = true)
    (hn' : (translation n').isSome = true) :
    (p.take n (translation n)).take n' (translation n') = p.take n' (translation n') := by
  obtain ⟨e, he⟩ := Option.isSome_iff_exists.1 hn
  obtain ⟨e', he'⟩ := Option.isSome_iff_exists.1 hn'
  simp [take, hrows, he, he']

/-- A skip takes the place of the one before it. -/
theorem skip_skip (hrows : p.clientRows = false) (hlimited : p.limited = false) {n n' : Expr}
    (hn : (translation n).isSome = true) (hn' : (translation n').isSome = true) :
    (p.skip n (translation n)).skip n' (translation n') = p.skip n' (translation n') := by
  obtain ⟨e, he⟩ := Option.isSome_iff_exists.1 hn
  obtain ⟨e', he'⟩ := Option.isSome_iff_exists.1 hn'
  simp [skip, hrows, hlimited, he, he']

theorem run_lastLimit {pages : List Page} (hpages : ∀ page ∈ pages, (translation page.count).isSome = true)
    (hrows : p.clientRows = false) :
    (pages.map Page.clause).foldlM (bindBy translation) p =
      ((Page.lastLimit pages).map Page.clause).foldlM (bindBy translation) p := by
  fun_induction Page.lastLimit pages with
  | case1 k n pages ih =>
    rw [← ih fun page hpage => hpages page (List.mem_cons_of_mem _ hpage)]
    have htake := take_take hrows (hpages (.take k) (by simp)) (hpages (.take n) (by simp))
    exact congrArg (fun p => (pages.map Page.clause).foldlM (bindBy translation) p) htake
  | case2 pages _ => rfl

/-- While the server pages, a run is one of the pages in effect. -/
theorem run_inEffect {pages : List Page} (hpages : ∀ page ∈ pages, (translation page.count).isSome = true)
    (hrows : p.clientRows = false) (hlimited : p.limited = false) :
    (pages.map Page.clause).foldlM (bindBy translation) p =
      ((Page.inEffect pages).map Page.clause).foldlM (bindBy translation) p := by
  fun_induction Page.inEffect pages with
  | case1 k n pages ih =>
    rw [← ih fun page hpage => hpages page (List.mem_cons_of_mem _ hpage)]
    have hskip := skip_skip hrows hlimited (hpages (.skip k) (by simp)) (hpages (.skip n) (by simp))
    exact congrArg (fun p => (pages.map Page.clause).foldlM (bindBy translation) p) hskip
  | case2 n pages _ =>
    have hn : (translation n).isSome = true := hpages (.skip n) (by simp)
    have hskip : (p.skip n (translation n)).clientRows = false := by
      obtain ⟨e, he⟩ := Option.isSome_iff_exists.1 hn
      simp [skip, hrows, hlimited, he]
    exact run_lastLimit (fun page hpage => hpages page (List.mem_cons_of_mem _ hpage)) hskip
  | case3 pages _ _ => exact run_lastLimit hpages hrows

end Progress

/-! ## Plans -/

namespace Compiler

variable {c : Compiler} {q : Query} {plan : Plan}

theorem serverConditions_pages (translation : Expr → Option Expr) (pages : List Page) :
    QueryClause.serverConditions translation (pages.map Page.clause) = [] := by
  induction pages using List.reverseRecOn with
  | nil => rfl
  | append_singleton pages page ih =>
    rw [List.map_append, List.map_singleton, QueryClause.serverConditions_concat, ih]
    cases page <;> rfl

/-- A plan of pages keeps the rows that the pages in effect keep. -/
theorem rows_inEffect (server client : Meaning Row) {pages : List Page} (hq : q.clauses = pages.map Page.clause)
    (hcounts : ∀ page ∈ pages, ∃ e, c.translation? q page.count = some e ∧ server.count e = client.count page.count)
    (h : c.plan q = .ok plan) (rows : List Row) :
    plan.rows server client rows = Page.rowsOf client (Page.inEffect pages) rows := by
  obtain ⟨l, p, hl, hp, hrows⟩ := plan_rows_bound server client h
  rw [hq] at hp
  have htranslates : ∀ page ∈ pages, (c.translation? q page.count).isSome = true := by
    intro page hpage
    obtain ⟨e, he, -⟩ := hcounts page hpage
    rw [he]; rfl
  have hconditions : p.read.conditions = [] := by
    rw [(Progress.conditions_run (.layout hl) hp).1.conditions, serverConditions_pages]; rfl
  -- The read has no conditions, so it does not matter what the server means by them.
  let counting : Meaning Row := ⟨fun _ _ => true, server.count⟩
  have hcounting : p.rows server client rows = p.rows counting client rows := by
    simp [Progress.rows, Read.rows, hconditions, counting]
  have hm : Meaning.Translates (c.translation? q) counting client ((Page.inEffect pages).map .page) := by
    refine ⟨fun _ _ _ => rfl, fun e e' he => ?_, fun page e' hpage he' => ?_⟩
    · simp at he
    · have hmem : page ∈ Page.inEffect pages := by simpa using hpage
      obtain ⟨e, he, hcount⟩ := hcounts page (Page.mem_of_mem_inEffect hmem)
      rw [he] at he'
      cases he'
      exact hcount
  rw [Progress.run_inEffect htranslates rfl rfl] at hp
  have hagrees : p.Agrees counting client ((Page.inEffect pages).map .page) :=
    Progress.inOrder_run hm (Page.inEffect_inOrder htranslates) (.layout hl) rfl (.layout hl)
      (by rw [List.map_map]; exact hp)
  rw [hrows rows, hcounting, hagrees.rows rows, RowClause.rowsOf, List.foldl_map]
  rfl

/-- The plan of a query whose clauses are pages with translations does what the pages in effect do. That is what the
query asks for exactly when these leave the same window as all pages. -/
theorem plan_pages [Nonempty Row] (server client : Meaning Row) {pages : List Page}
    (hq : q.clauses = pages.map Page.clause)
    (hcounts : ∀ page ∈ pages, ∃ e, c.translation? q page.count = some e ∧ server.count e = client.count page.count)
    (h : c.plan q = .ok plan) :
    (∀ rows, plan.rows server client rows = Page.rowsOf client (Page.inEffect pages) rows) ∧
    ((∀ rows, plan.rows server client rows = Page.rowsOf client pages rows) ↔
      (Page.windowOf client (Page.inEffect pages)).Same (Page.windowOf client pages)) := by
  have hrows := rows_inEffect server client hq hcounts h
  refine ⟨hrows, ?_⟩
  simp only [hrows, Page.rowsOf_eq_window]
  exact Window.rows_eq_iff

/-- A skip and a limit on the server and two more pages on the client. -/
theorem plan_pages_of_alternating :
    let pages : List Page := [.skip (rowCount 1), .take (rowCount 4), .skip (rowCount 1), .take (rowCount 2)]
    ∃ plan, warehouseCompiler.plan (warehouses (pages.map Page.clause)) = .ok plan ∧
      ∀ rows, plan.rows sizeMeaning sizeMeaning rows = Page.rowsOf sizeMeaning pages rows := by
  intro pages
  have hplan : ∃ plan, warehouseCompiler.plan (warehouses (pages.map Page.clause)) = .ok plan := ⟨_, rfl⟩
  obtain ⟨plan, hplan⟩ := hplan
  refine ⟨plan, hplan, (plan_pages sizeMeaning sizeMeaning rfl ?_ hplan).2.2 (by decide)⟩
  intro page hpage
  refine ⟨page.count, ?_, rfl⟩
  have hpage : page = .skip (rowCount 1) ∨ page = .take (rowCount 4) ∨ page = .skip (rowCount 1) ∨
      page = .take (rowCount 2) := by simpa [pages] using hpage
  rcases hpage with rfl | rfl | rfl | rfl <;> rfl

/-- A limit that a larger one follows, and a skip that another follows, are not applied. -/
theorem repeated_pages_overwritten :
    (∃ plan, warehouseCompiler.plan (warehouses [.take (rowCount 3), .take (rowCount 5)]) = .ok plan ∧
      plan.rows sizeMeaning sizeMeaning [1, 2, 3, 4, 5, 6] = [1, 2, 3, 4, 5] ∧
      Page.rowsOf sizeMeaning [.take (rowCount 3), .take (rowCount 5)] [1, 2, 3, 4, 5, 6] = [1, 2, 3]) ∧
    (∃ plan, warehouseCompiler.plan (warehouses [.skip (rowCount 3), .skip (rowCount 5)]) = .ok plan ∧
      plan.rows sizeMeaning sizeMeaning [1, 2, 3, 4, 5, 6] = [6] ∧
      Page.rowsOf sizeMeaning [.skip (rowCount 3), .skip (rowCount 5)] [1, 2, 3, 4, 5, 6] = []) :=
  ⟨⟨_, rfl, rfl, rfl⟩, ⟨_, rfl, rfl, rfl⟩⟩

end Compiler

end GraphQuery

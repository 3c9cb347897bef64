import GraphQuery.Table
import Mathlib.Data.List.Nodup
import Mathlib.Data.String.Basic

/-!
# Tables in key order

The order in which a table keeps its keys is the usual order of texts, so setting a value keeps the keys in order and no
key stands twice (`Table.Ordered.insert`). The entries of a table with distinct keys are then known, up to their order,
from the values that are found in it (`Table.perm_of_find?`).
-/

namespace GraphQuery

/-- The order of texts by their code points is the usual one. -/
theorem Text.before_iff (as bs : List Char) : Text.before as bs = true ↔ as < bs := by
  fun_induction Text.before as bs with
  | case1 as => simp
  | case2 b bs => simp
  | case3 as a bs ih => simp [ih]
  | case4 a as b bs hne =>
    rw [List.cons_lt_cons_iff, Nat.blt_eq]
    have hlt : a.toNat < b.toNat ↔ a < b := Iff.rfl
    simp [hlt, hne]

namespace Table

/-- A table whose keys stand in order. -/
def Ordered {α : Type} (t : Table String α) : Prop :=
  t.Pairwise fun entry entry' => entry.1 < entry'.1

variable {κ α : Type}

theorem Ordered.nodup {t : Table String α} (h : Ordered t) : (t.map Prod.fst).Nodup :=
  List.pairwise_map.2 (h.imp fun hlt => ne_of_lt hlt)

theorem mem_insert [DecidableEq κ] [KeyOrder κ] {key : κ} {value : α} {entry : κ × α} :
    ∀ {t : Table κ α}, entry ∈ insert key value t → entry = (key, value) ∨ entry ∈ t
  | [], h => .inl (List.mem_singleton.1 h)
  | (k, v) :: rest, h => by
    unfold insert at h
    split at h
    · exact (List.mem_cons.1 h).imp_right (List.mem_cons_of_mem _)
    · split at h
      · exact List.mem_cons.1 h
      · rcases List.mem_cons.1 h with rfl | h
        · exact .inr List.mem_cons_self
        · exact (mem_insert h).imp_right (List.mem_cons_of_mem _)

/-- Setting a value keeps the keys in order. -/
theorem Ordered.insert {t : Table String α} (h : Ordered t) (key : String) (value : α) :
    Ordered (Table.insert key value t) := by
  induction t with
  | nil => exact List.pairwise_singleton _ _
  | cons entry rest ih =>
    obtain ⟨k, v⟩ := entry
    obtain ⟨hhead, hrest⟩ := List.pairwise_cons.1 h
    by_cases hk : key = k
    · subst hk
      simpa [Table.insert, Ordered] using h
    · by_cases hb : KeyOrder.before key k
      · have hlt : key < k := String.lt_iff_toList_lt.2 ((Text.before_iff _ _).1 hb)
        simp only [Table.insert, hk, hb, ↓reduceIte]
        refine List.pairwise_cons.2 ⟨fun entry hentry => ?_, h⟩
        rcases List.mem_cons.1 hentry with rfl | hentry
        · exact hlt
        · exact hlt.trans (hhead entry hentry)
      · have hlt : k < key := by
          refine lt_of_le_of_ne (not_lt.1 fun hlt => hb ?_) (Ne.symm hk)
          exact (Text.before_iff _ _).2 (String.lt_iff_toList_lt.1 hlt)
        simp only [Table.insert, hk, hb, ↓reduceIte]
        refine List.pairwise_cons.2 ⟨fun entry hentry => ?_, ih hrest⟩
        rcases mem_insert hentry with rfl | hentry
        · exact hlt
        · exact hhead entry hentry

/-- With distinct keys an entry stands in a table just when it is found there. -/
theorem mem_iff_find? [DecidableEq κ] {t : Table κ α} (h : (t.map Prod.fst).Nodup) {key : κ} {value : α} :
    (key, value) ∈ t ↔ find? key t = some value := by
  induction t with
  | nil => simp
  | cons entry rest ih =>
    obtain ⟨k, v⟩ := entry
    obtain ⟨hnew, hrest⟩ := List.nodup_cons.1 h
    by_cases hk : key = k
    · subst hk
      have hnot : (key, value) ∉ rest := fun hmem => hnew (List.mem_map.2 ⟨_, hmem, rfl⟩)
      simp [find?, hnot, eq_comm]
    · simp [find?, hk, ih hrest]

/-- A table with distinct keys has the entries that are found in it. -/
theorem perm_of_find? [DecidableEq κ] {t : Table κ α} {entries : List (κ × α)} (h : (t.map Prod.fst).Nodup)
    (hkeys : (entries.map Prod.fst).Nodup) (hmem : ∀ key value, (key, value) ∈ entries → find? key t = some value)
    (hnot : ∀ key, key ∉ entries.map Prod.fst → find? key t = none) : t.Perm entries := by
  refine (List.perm_ext_iff_of_nodup (List.Nodup.of_map _ h) (List.Nodup.of_map _ hkeys)).2 fun entry => ?_
  obtain ⟨key, value⟩ := entry
  rw [mem_iff_find? h]
  refine ⟨fun hfind => ?_, hmem key value⟩
  by_cases hkey : key ∈ entries.map Prod.fst
  · obtain ⟨⟨_, other⟩, hother, rfl⟩ := List.mem_map.1 hkey
    rw [hmem _ other hother] at hfind
    cases hfind
    exact hother
  · rw [hnot key hkey] at hfind
    cases hfind

end Table

end GraphQuery

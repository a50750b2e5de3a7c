import Mathlib

/-!
# Scatter: adding and copying numbered rows into a table

A table is a list of rows; numbered rows are added to it (`indexAdd`) or written over it
(`indexCopy`).  What is added to one row of the table is the sum of the rows with its number, in any
order and in any grouping.

* `indexAdd`, `total`      row `t` gains `total rows t`;
* `total_flatMap`         the sum over groups of rows;
* `indexCopy`              with distinct numbers every copied row is found under its number.
-/

namespace Scatter

section
variable {V ι : Type*} [AddCommMonoid V]

/-- add every row to the row of the table that its number names -/
def indexAdd (table : List V) (rows : List (Nat × V)) : List V :=
  rows.foldl (fun acc row => acc.modify row.1 (· + row.2)) table

/-- what the rows add up to under the number `t` -/
def total (rows : List (Nat × V)) (t : Nat) : V :=
  (rows.map fun row => if row.1 = t then row.2 else 0).sum

@[simp] theorem total_nil (t : Nat) : total ([] : List (Nat × V)) t = 0 := rfl

theorem total_cons (row : Nat × V) (rows : List (Nat × V)) (t : Nat) :
    total (row :: rows) t = (if row.1 = t then row.2 else 0) + total rows t := by
  simp [total]

theorem total_append (rows rows' : List (Nat × V)) (t : Nat) :
    total (rows ++ rows') t = total rows t + total rows' t := by
  simp [total]

theorem total_flatMap (l : List ι) (f : ι → List (Nat × V)) (t : Nat) :
    total (l.flatMap f) t = (l.map fun i => total (f i) t).sum := by
  induction l with
  | nil => rfl
  | cons i l ih => rw [List.flatMap_cons, total_append, ih, List.map_cons, List.sum_cons]

theorem length_indexAdd (table : List V) (rows : List (Nat × V)) :
    (indexAdd table rows).length = table.length := by
  induction rows generalizing table with
  | nil => rfl
  | cons row rows ih =>
    show (indexAdd (table.modify row.1 (· + row.2)) rows).length = table.length
    rw [ih, List.length_modify]

theorem indexAdd_append (table : List V) (rows rows' : List (Nat × V)) :
    indexAdd table (rows ++ rows') = indexAdd (indexAdd table rows) rows' :=
  List.foldl_append

theorem getElem?_indexAdd (table : List V) (rows : List (Nat × V)) (t : Nat) :
    (indexAdd table rows)[t]? = table[t]?.map (· + total rows t) := by
  induction rows generalizing table with
  | nil => simp [indexAdd]
  | cons row rows ih =>
    show (indexAdd (table.modify row.1 (· + row.2)) rows)[t]? = _
    rw [ih, List.getElem?_modify, total_cons]
    by_cases h : row.1 = t
    · simp only [h, if_true, Option.map_eq_map, Option.map_map]
      congr 1
      funext v
      exact add_assoc v row.2 _
    · simp only [h, if_false, Option.map_eq_map, id_eq, zero_add, Option.map_id_fun']

/-- rows that are numbered in order -/
theorem total_range_zip (rows : List V) {t : Nat} (ht : t < rows.length) :
    total ((List.range rows.length).zip rows) t = rows[t] := by
  have hmap : (List.range rows.length).zip rows
      = (List.range rows.length).map fun i => (i, rows.getD i 0) := by
    apply List.ext_getElem
    · simp
    · intro i h1 h2
      simp at h1
      simp [h1]
  have hsum : total ((List.range rows.length).zip rows) t
      = ∑ i ∈ Finset.range rows.length, if i = t then rows.getD i 0 else 0 := by
    unfold total
    rw [hmap, List.map_map]
    rfl
  rw [hsum, Finset.sum_ite_eq_of_mem' _ _ _ (Finset.mem_range.mpr ht)]
  simp [ht]

end

section
variable {α : Type*}

/-- write every row over the row of the table that its number names -/
def indexCopy (table : List α) (rows : List (Nat × α)) : List α :=
  rows.foldl (fun acc row => acc.set row.1 row.2) table

theorem length_indexCopy (table : List α) (rows : List (Nat × α)) :
    (indexCopy table rows).length = table.length := by
  induction rows generalizing table with
  | nil => rfl
  | cons row rows ih =>
    show (indexCopy (table.set row.1 row.2) rows).length = table.length
    rw [ih, List.length_set]

theorem getElem?_indexCopy_of_not_mem {table : List α} {rows : List (Nat × α)} {t : Nat}
    (h : t ∉ rows.map Prod.fst) : (indexCopy table rows)[t]? = table[t]? := by
  induction rows generalizing table with
  | nil => rfl
  | cons row rows ih =>
    simp only [List.map_cons, List.mem_cons, not_or] at h
    show (indexCopy (table.set row.1 row.2) rows)[t]? = table[t]?
    rw [ih h.2, List.getElem?_set_ne (Ne.symm h.1)]

theorem getElem?_indexCopy_of_mem {table : List α} {rows : List (Nat × α)} {t : Nat} {a : α}
    (hnd : (rows.map Prod.fst).Nodup) (hm : (t, a) ∈ rows) (ht : t < table.length) :
    (indexCopy table rows)[t]? = some a := by
  induction rows generalizing table with
  | nil => cases hm
  | cons row rows ih =>
    rw [List.map_cons, List.nodup_cons] at hnd
    show (indexCopy (table.set row.1 row.2) rows)[t]? = some a
    rcases List.mem_cons.mp hm with rfl | hm
    · rw [getElem?_indexCopy_of_not_mem hnd.1, List.getElem?_set_self ht]
    · exact ih hnd.2 hm (by rw [List.length_set]; exact ht)

theorem getD_indexCopy_map {β : Type*} {table : List α} {l : List β} {number : β → Nat}
    {row : β → α} (hnd : (l.map number).Nodup) {b : β} (hb : b ∈ l) (hlt : number b < table.length)
    (default : α) :
    (indexCopy table (l.map fun b => (number b, row b))).getD (number b) default = row b := by
  have hnd' : ((l.map fun b => (number b, row b)).map Prod.fst).Nodup := by
    rw [List.map_map]
    exact hnd
  rw [List.getD_eq_getElem?_getD,
    getElem?_indexCopy_of_mem hnd' (List.mem_map.mpr ⟨b, hb, rfl⟩) hlt]
  rfl

/-- among distinct numbers at most one is `t` -/
theorem flatMap_at {β : Type*} [DecidableEq α] {l : List α} (hnd : l.Nodup) (f : α → List β)
    (t : α) : (l.flatMap fun a => if a = t then f a else []) = if t ∈ l then f t else [] := by
  induction l with
  | nil => rfl
  | cons a l ih =>
    rw [List.nodup_cons] at hnd
    rw [List.flatMap_cons, ih hnd.2]
    by_cases h : a = t
    · subst h
      rw [if_pos rfl, if_neg hnd.1, if_pos List.mem_cons_self, List.append_nil]
    · have hiff : t ∈ a :: l ↔ t ∈ l := by simp [Ne.symm h]
      rw [if_neg h, List.nil_append]
      simp only [hiff]

/-- exactly one position is `i` -/
theorem flatMap_zipIdx_at {β : Type*} (l : List α) {i : Nat} (hi : i < l.length) (b : List β) :
    (l.zipIdx.flatMap fun e => if i = e.2 then b else []) = b := by
  have hmap : l.zipIdx.map Prod.snd = List.range l.length := by
    rw [List.zipIdx_map_snd, List.range_eq_range']
  have hat := flatMap_at (List.nodup_range (n := l.length)) (fun _ => b) i
  rw [if_pos (List.mem_range.mpr hi), ← hmap, List.flatMap_map] at hat
  simpa only [eq_comm] using hat

end

end Scatter

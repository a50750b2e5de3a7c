import Mathlib

/-!
# Association lists with distinct keys

The entries of an ordered dictionary, in its order.

* `lookup_iff_mem`   the value of a key;
* `erase`            the entries of the other keys;
* `perm_erase`       an entry and the others, for sums and counts over all entries.
-/

namespace Assoc

section
variable {α β : Type*} [DecidableEq α]

def erase (l : List (α × β)) (k : α) : List (α × β) := l.filter fun e => decide (e.1 ≠ k)

theorem mem_of_lookup {l : List (α × β)} {k : α} {v : β} (h : l.lookup k = some v) :
    (k, v) ∈ l := by
  obtain ⟨front, back, hsplit, _⟩ := List.lookup_eq_some_iff.mp h
  rw [hsplit]
  simp

theorem lookup_of_mem {l : List (α × β)} (hnd : (l.map Prod.fst).Nodup) {k : α} {v : β}
    (h : (k, v) ∈ l) : l.lookup k = some v := by
  induction l with
  | nil => cases h
  | cons a l ih =>
    rw [List.map_cons, List.nodup_cons] at hnd
    rcases List.mem_cons.mp h with rfl | h
    · rw [List.lookup_cons_self]
    · have hne : k ≠ a.1 := fun heq => hnd.1 (heq ▸ List.mem_map_of_mem h)
      rw [List.lookup_cons, beq_false_of_ne hne]
      exact ih hnd.2 h

theorem lookup_iff_mem {l : List (α × β)} (hnd : (l.map Prod.fst).Nodup) {k : α} {v : β} :
    l.lookup k = some v ↔ (k, v) ∈ l :=
  ⟨mem_of_lookup, lookup_of_mem hnd⟩

theorem lookup_none_iff {l : List (α × β)} {k : α} :
    l.lookup k = none ↔ k ∉ l.map Prod.fst := by
  rw [List.lookup_eq_none_iff, List.mem_map]
  constructor
  · rintro h ⟨e, he, rfl⟩
    have hne := h e he
    simp at hne
  · intro h e he
    simpa using fun heq => h ⟨e, he, heq.symm⟩

theorem mem_erase {l : List (α × β)} {k : α} {e : α × β} :
    e ∈ erase l k ↔ e ∈ l ∧ e.1 ≠ k := by
  simp [erase]

theorem keys_erase (l : List (α × β)) (k : α) :
    (erase l k).map Prod.fst = (l.map Prod.fst).filter fun a => decide (a ≠ k) := by
  unfold erase
  rw [List.filter_map]
  rfl

theorem nodup_erase {l : List (α × β)} (hnd : (l.map Prod.fst).Nodup) (k : α) :
    ((erase l k).map Prod.fst).Nodup := by
  rw [keys_erase]
  exact hnd.filter _

theorem erase_of_not_mem {l : List (α × β)} {k : α} (h : k ∉ l.map Prod.fst) :
    erase l k = l := by
  unfold erase
  rw [List.filter_eq_self]
  intro e he
  have hne : e.1 ≠ k := fun heq => h (heq ▸ List.mem_map_of_mem he)
  simpa using hne

theorem perm_erase {l : List (α × β)} (hnd : (l.map Prod.fst).Nodup) {k : α} {v : β}
    (h : (k, v) ∈ l) : l.Perm ((k, v) :: erase l k) := by
  induction l with
  | nil => cases h
  | cons a l ih =>
    rw [List.map_cons, List.nodup_cons] at hnd
    rcases List.mem_cons.mp h with rfl | h
    · have hrest : erase ((k, v) :: l) k = l := by
        unfold erase
        rw [List.filter_cons_of_neg (by simp)]
        exact erase_of_not_mem hnd.1
      rw [hrest]
    · have hne : a.1 ≠ k := fun heq => hnd.1 (heq ▸ List.mem_map_of_mem h)
      have hrest : erase (a :: l) k = a :: erase l k := by
        unfold erase
        rw [List.filter_cons_of_pos (by simpa using hne)]
      rw [hrest]
      exact ((ih hnd.2 h).cons a).trans (List.Perm.swap _ _ _)

theorem erase_sublist (l : List (α × β)) (k : α) : (erase l k).Sublist l := List.filter_sublist

end

end Assoc

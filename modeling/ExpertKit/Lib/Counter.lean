import ExpertKit.Lib.Maps

/-!
# Counters

A counter is a finite map of positive counts, where a missing key counts `0`; a key leaves the map
with its last count.

* `count`                 the count of one key;
* `addAll`, `dropAll`     one more, or one less, for every entry of a list;
* `count_addAll`, `count_dropAll`   the counts after it.
-/

set_option linter.unusedSectionVars false

namespace Counter
open Std

section
variable {α : Type*} [Ord α] [TransOrd α] [LawfulEqOrd α] [DecidableEq α]

def count (t : ExtTreeMap α Nat) (k : α) : Nat := (t[k]?).getD 0

def add (t : ExtTreeMap α Nat) (k : α) : ExtTreeMap α Nat := t.insert k (count t k + 1)

def drop (t : ExtTreeMap α Nat) (k : α) : ExtTreeMap α Nat :=
  if count t k - 1 = 0 then t.erase k else t.insert k (count t k - 1)

def addAll (t : ExtTreeMap α Nat) (keys : List α) : ExtTreeMap α Nat := keys.foldl add t
def dropAll (t : ExtTreeMap α Nat) (keys : List α) : ExtTreeMap α Nat := keys.foldl drop t

theorem count_empty (k : α) : count (∅ : ExtTreeMap α Nat) k = 0 := by
  simp [count]

theorem count_add (t : ExtTreeMap α Nat) (a k : α) :
    count (add t a) k = count t k + if a = k then 1 else 0 := by
  unfold add
  show ((t.insert a (count t a + 1))[k]?).getD 0 = _
  rw [Maps.getElem?_insert_eq]
  split_ifs with h
  · rw [h]
    rfl
  · rfl

theorem count_drop (t : ExtTreeMap α Nat) (a k : α) :
    count (drop t a) k = count t k - if a = k then 1 else 0 := by
  unfold drop
  split_ifs with h0 h h
  · subst h
    show ((t.erase a)[a]?).getD 0 = _
    rw [Maps.getElem?_erase_eq, if_pos rfl, h0]
    rfl
  · show ((t.erase a)[k]?).getD 0 = _
    rw [Maps.getElem?_erase_eq, if_neg h]
    rfl
  · subst h
    show ((t.insert a (count t a - 1))[a]?).getD 0 = _
    rw [Maps.getElem?_insert_eq, if_pos rfl]
    rfl
  · show ((t.insert a (count t a - 1))[k]?).getD 0 = _
    rw [Maps.getElem?_insert_eq, if_neg h]
    rfl

theorem count_cons_eq (a k : α) (keys : List α) :
    (a :: keys).count k = (if a = k then 1 else 0) + keys.count k := by
  rw [List.count_cons, Nat.add_comm]
  simp

theorem count_addAll (t : ExtTreeMap α Nat) (keys : List α) (k : α) :
    count (addAll t keys) k = count t k + keys.count k := by
  induction keys generalizing t with
  | nil => rfl
  | cons a keys ih =>
    show count (addAll (add t a) keys) k = _
    rw [ih, count_add, count_cons_eq]
    omega

theorem count_dropAll (t : ExtTreeMap α Nat) (keys : List α) (k : α) :
    count (dropAll t keys) k = count t k - keys.count k := by
  induction keys generalizing t with
  | nil => rfl
  | cons a keys ih =>
    show count (dropAll (drop t a) keys) k = _
    rw [ih, count_drop, count_cons_eq]
    omega

end

end Counter

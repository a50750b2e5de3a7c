import Mathlib

/-!
# Erasing repetitions

`List.eraseReps` keeps the first element of every run of equal elements (`dedup` of a Rust vector).

* `eraseReps_cons`       the recursion behind the accumulator loop;
* `eraseReps_sublist`    nothing new appears, the order stays;
* `eraseReps_chain`      neighbours in the result differ;
* `eraseReps_of_chain`   a list without repetitions is left alone.
-/

namespace Reps

section
variable {α : Type*} [DecidableEq α]

/-- the rest of the result after a current element `a` -/
def afterHead : α → List α → List α
  | _, [] => []
  | a, b :: l => if a = b then afterHead a l else b :: afterHead b l

theorem loop_eq (a : α) (l acc : List α) :
    List.eraseRepsBy.loop (· == ·) a l acc = acc.reverse ++ a :: afterHead a l := by
  induction l generalizing a acc with
  | nil => simp [List.eraseRepsBy.loop, afterHead]
  | cons b l ih =>
    unfold List.eraseRepsBy.loop afterHead
    by_cases h : a = b
    · rw [beq_iff_eq.mpr h, if_pos h]
      exact ih a acc
    · rw [beq_eq_false_iff_ne.mpr h, if_neg h]
      show List.eraseRepsBy.loop (· == ·) b l (a :: acc) = _
      rw [ih b (a :: acc)]
      simp

theorem eraseReps_cons (a : α) (l : List α) : (a :: l).eraseReps = a :: afterHead a l :=
  loop_eq a l []

theorem afterHead_sublist (a : α) (l : List α) : List.Sublist (afterHead a l) l := by
  induction l generalizing a with
  | nil => exact List.Sublist.refl _
  | cons b l ih =>
    unfold afterHead
    split_ifs
    · exact (ih a).trans (List.sublist_cons_self b l)
    · exact (ih b).cons_cons b

theorem eraseReps_sublist (l : List α) : List.Sublist l.eraseReps l := by
  cases l with
  | nil => exact List.Sublist.refl _
  | cons a l =>
    rw [eraseReps_cons]
    exact (afterHead_sublist a l).cons_cons a

theorem afterHead_chain (a : α) (l : List α) : (a :: afterHead a l).IsChain (· ≠ ·) := by
  induction l generalizing a with
  | nil => exact List.isChain_singleton a
  | cons b l ih =>
    unfold afterHead
    split_ifs with h
    · exact ih a
    · exact List.isChain_cons_cons.mpr ⟨h, ih b⟩

theorem eraseReps_chain (l : List α) : l.eraseReps.IsChain (· ≠ ·) := by
  cases l with
  | nil => exact List.isChain_nil
  | cons a l =>
    rw [eraseReps_cons]
    exact afterHead_chain a l

theorem afterHead_of_chain {a : α} {l : List α} (h : (a :: l).IsChain (· ≠ ·)) :
    afterHead a l = l := by
  induction l generalizing a with
  | nil => rfl
  | cons b l ih =>
    obtain ⟨hne, hrest⟩ := List.isChain_cons_cons.mp h
    unfold afterHead
    rw [if_neg hne, ih hrest]

theorem eraseReps_of_chain {l : List α} (h : l.IsChain (· ≠ ·)) : l.eraseReps = l := by
  cases l with
  | nil => rfl
  | cons a l => rw [eraseReps_cons, afterHead_of_chain h]

end

end Reps

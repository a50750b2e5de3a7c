import Mathlib

/-!
# Ranks in a sorted list

The first elements of a list that is sorted by a strict order are those with few elements before
them.

* `rank`                 how many elements of the list come before this one;
* `mem_take_iff`         which elements are among the first ones.
-/

namespace Ranks

variable {α : Type*}

def rank (before : α → α → Bool) (l : List α) (a : α) : Nat := (l.filter fun b => before b a).length

theorem rank_perm {before : α → α → Bool} {l l' : List α} (h : l.Perm l') (a : α) :
    rank before l a = rank before l' a := (h.filter _).length_eq

theorem rank_cons (before : α → α → Bool) (b : α) (l : List α) (a : α) :
    rank before (b :: l) a = rank before l a + if before b a then 1 else 0 := by
  unfold rank
  rw [List.filter_cons]
  split_ifs <;> rfl

theorem rank_eq_zero {before : α → α → Bool} {l : List α} {a : α}
    (h : ∀ b ∈ l, before b a = false) : rank before l a = 0 := by
  unfold rank
  rw [List.filter_eq_nil_iff.mpr fun b hb => by rw [h b hb]; exact Bool.false_ne_true]
  rfl

theorem mem_take_iff {before : α → α → Bool} {l : List α}
    (hasymm : ∀ a b, before a b = true → before b a = false)
    (h : l.Pairwise fun a b => before a b = true) {a : α} {t : Nat} :
    a ∈ l.take t ↔ a ∈ l ∧ rank before l a < t := by
  induction l generalizing t with
  | nil => simp
  | cons b rest ih =>
    obtain ⟨hb, hrest⟩ := List.pairwise_cons.mp h
    cases t with
    | zero => simp
    | succ t =>
      rw [List.take_succ_cons, List.mem_cons, List.mem_cons, ih hrest, rank_cons]
      constructor
      · rintro (rfl | ⟨ha, hlt⟩)
        · have hself : before a a = false := by
            cases hcase : before a a with
            | false => rfl
            | true => rw [← hcase, hasymm a a hcase]
          rw [rank_eq_zero fun c hc => hasymm a c (hb c hc), hself]
          exact ⟨.inl rfl, Nat.succ_pos t⟩
        · rw [if_pos (hb a ha)]
          exact ⟨.inr ha, Nat.succ_lt_succ hlt⟩
      · rintro ⟨rfl | ha, hlt⟩
        · exact .inl rfl
        · rw [if_pos (hb a ha)] at hlt
          exact .inr ⟨ha, Nat.lt_of_succ_lt_succ hlt⟩

end Ranks

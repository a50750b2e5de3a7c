import Mathlib

/-!
# Filling bins in proportion to their capacity

One item after the other goes into a bin that has room and whose load is least in proportion to its
capacity.

* `Fair`, `Picks`    the invariant and the choice;
* `Fair.step`        the choice keeps the invariant;
* `exists_room`      there is a choice while the loads are below the capacities in total.
-/

set_option linter.unusedSectionVars false

namespace Shares

variable {ι : Type*} [DecidableEq ι]

/-- no bin is above its capacity, and none was filled ahead of an emptier one -/
structure Fair (bins : List ι) (capacity load : ι → ℕ) : Prop where
  bounded : ∀ i ∈ bins, load i ≤ capacity i
  even : ∀ i ∈ bins, ∀ j ∈ bins, 0 < load i → (load i - 1) * capacity j ≤ load j * capacity i

/-- a bin with room, and none with room is emptier -/
structure Picks (bins : List ι) (capacity load : ι → ℕ) (s : ι) : Prop where
  mem : s ∈ bins
  room : load s < capacity s
  least : ∀ j ∈ bins, load j < capacity j → load s * capacity j ≤ load j * capacity s

theorem Fair.zero (bins : List ι) (capacity : ι → ℕ) : Fair bins capacity fun _ => 0 :=
  ⟨fun _ _ => Nat.zero_le _, fun _ _ _ _ h => absurd h (Nat.lt_irrefl 0)⟩

theorem Fair.step {bins : List ι} {capacity load : ι → ℕ} {s : ι} (h : Fair bins capacity load)
    (hs : Picks bins capacity load s) :
    Fair bins capacity (Function.update load s (load s + 1)) := by
  have hself : Function.update load s (load s + 1) s = load s + 1 := Function.update_self ..
  have hother : ∀ i, i ≠ s → Function.update load s (load s + 1) i = load i := fun i hi =>
    Function.update_of_ne hi ..
  refine ⟨?_, ?_⟩
  · intro i hi
    by_cases his : i = s
    · rw [his, hself]
      exact hs.room
    · rw [hother i his]
      exact h.bounded i hi
  · intro i hi j hj hpos
    by_cases his : i = s
    · subst his
      rw [hself, Nat.add_sub_cancel]
      by_cases hji : j = i
      · rw [hji, hself]
        exact Nat.mul_le_mul_right _ (Nat.le_succ _)
      · rw [hother j hji]
        by_cases hroom : load j < capacity j
        · exact hs.least j hj hroom
        · -- a full bin is at its capacity, and the chosen one is below its own
          have hfull : load j = capacity j := Nat.le_antisymm (h.bounded j hj) (Nat.le_of_not_lt hroom)
          rw [hfull, Nat.mul_comm]
          exact Nat.mul_le_mul_left _ (h.bounded i hi)
    · rw [hother i his] at hpos ⊢
      have heven := h.even i hi j hj hpos
      by_cases hjs : j = s
      · subst hjs
        rw [hself]
        exact heven.trans (Nat.mul_le_mul_right _ (Nat.le_succ _))
      · rw [hother j hjs]
        exact heven

theorem exists_room {bins : List ι} {capacity load : ι → ℕ}
    (h : (bins.map load).sum < (bins.map capacity).sum) : ∃ i ∈ bins, load i < capacity i := by
  by_contra hnone
  push Not at hnone
  exact absurd h (Nat.not_lt.mpr (List.sum_le_sum hnone))

end Shares

import Mathlib

/-!
# Wrapping lease counters

A counter of `m` values that skips `0`: its numbers come round after `m - 1` leases.

* `next`               the value after `n`;
* `number`             the value of the n-th lease, `0` before the first;
* `next_number`        one more lease;
* `number_eq_iff`      two leases have one number exactly when they agree modulo `m - 1`;
* `number_ne_of_lt`    fewer than `m - 1` leases apart, numbers differ.
-/

namespace Lease

def next (m n : Nat) : Nat := max ((n + 1) % m) 1

def number (m n : Nat) : Nat := if n = 0 then 0 else (n - 1) % (m - 1) + 1

section
variable {m : Nat}

theorem number_succ (n : Nat) : number m (n + 1) = n % (m - 1) + 1 := rfl

theorem number_succ_pos (n : Nat) : 0 < number m (n + 1) := Nat.succ_pos _

theorem next_number (hm : 2 < m) (n : Nat) : next m (number m n) = number m (n + 1) := by
  cases n with
  | zero =>
    show max (1 % m) 1 = 0 % (m - 1) + 1
    rw [Nat.mod_eq_of_lt (by omega), Nat.zero_mod]
    rfl
  | succ k =>
    show max ((k % (m - 1) + 1 + 1) % m) 1 = (k + 1) % (m - 1) + 1
    have hr : k % (m - 1) < m - 1 := Nat.mod_lt _ (by omega)
    have hk : (k + 1) % (m - 1) = (k % (m - 1) + 1) % (m - 1) := (Nat.mod_add_mod _ _ _).symm
    rw [hk]
    generalize k % (m - 1) = r at hr
    rcases Nat.lt_or_ge (r + 1) (m - 1) with hlt | hge
    · rw [Nat.mod_eq_of_lt hlt, Nat.mod_eq_of_lt (by omega)]
      omega
    · have heq : r + 1 = m - 1 := by omega
      have hm1 : r + 1 + 1 = m := by omega
      rw [heq, Nat.mod_self, ← heq, hm1, Nat.mod_self]
      rfl

theorem number_succ_eq_iff {i j : Nat} :
    number m (i + 1) = number m (j + 1) ↔ i % (m - 1) = j % (m - 1) := by
  rw [number_succ, number_succ]
  omega

theorem number_eq_iff {i j : Nat} (hi : 0 < i) (hj : 0 < j) :
    number m i = number m j ↔ i % (m - 1) = j % (m - 1) := by
  obtain ⟨i, rfl⟩ := Nat.exists_eq_succ_of_ne_zero (Nat.ne_of_gt hi)
  obtain ⟨j, rfl⟩ := Nat.exists_eq_succ_of_ne_zero (Nat.ne_of_gt hj)
  rw [number_succ_eq_iff]
  exact ⟨fun h => Nat.ModEq.add_right 1 h, fun h => Nat.ModEq.add_right_cancel' 1 h⟩

theorem number_ne_of_lt {i j : Nat} (h : i < j) (hd : j - i < m - 1) :
    number m (i + 1) ≠ number m (j + 1) := by
  intro heq
  rw [number_succ_eq_iff] at heq
  have hdvd : m - 1 ∣ j - i := (Nat.modEq_iff_dvd' (Nat.le_of_lt h)).mp heq
  have hle := Nat.le_of_dvd (by omega) hdvd
  omega

end

end Lease

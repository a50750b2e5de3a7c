import ExpertKit.Lib.Maps

/-!
# Multipart messages: cutting a list into numbered parts and collecting the parts again

A bounded transport sends a long list as parts.  Part `i` of `n` carries the entries
`i * k ≤ j < i * k + k`; an empty list is still one (empty) part.  The receiver keeps a table
from part numbers to parts and is done when the table has `n` entries.

* `slice k l i`          the entries of part `i`;
* `partCount k m`        the number of parts of a list of length `m` (`div_ceil`, at least one);
* `multipart k l mk`     the parts, each built by `mk index count entries`;
* `Filled t ps j`        the table `t` holds exactly the first `j` parts of `ps`;
* `Filled.insert`, `Filled.size`, `Filled.ordered`, `Filled.values`   one more part, the number of
                         parts, and the parts read back in order.
-/

namespace Parts
open Std

section
variable {α β : Type*}

/-- number of parts of at most `k` entries for `m` entries; never zero -/
def partCount (k m : Nat) : Nat := max ((m + k - 1) / k) 1

/-- the entries of part `i` -/
def slice (k : Nat) (l : List α) (i : Nat) : List α :=
  l.extract (i * k) (min (i * k + k) l.length)

def multipart (k : Nat) (l : List α) (mk : Nat → Nat → List α → β) : List β :=
  (List.range (partCount k l.length)).map fun i => mk i (partCount k l.length) (slice k l i)

theorem partCount_pos (k m : Nat) : 0 < partCount k m := by
  unfold partCount; omega

theorem le_partCount_mul (k m : Nat) (hk : 0 < k) : m ≤ partCount k m * k := by
  unfold partCount
  have h : m ≤ (m + k - 1) / k * k := by
    have h1 := Nat.div_add_mod (m + k - 1) k
    have h2 := Nat.mod_lt (m + k - 1) hk
    rw [Nat.mul_comm] at h1
    omega
  exact h.trans (Nat.mul_le_mul_right k (le_max_left _ _))

theorem partCount_le_iff (k m n : Nat) (hk : 0 < k) (hn : 0 < n) :
    partCount k m ≤ n ↔ m ≤ n * k := by
  constructor
  · intro h
    exact (le_partCount_mul k m hk).trans (Nat.mul_le_mul_right k h)
  · intro h
    have h1 : (m + k - 1) / k ≤ n := by
      apply Nat.le_of_lt_succ
      rw [Nat.div_lt_iff_lt_mul hk, Nat.succ_mul]
      omega
    unfold partCount
    omega

theorem slice_eq (k : Nat) (l : List α) (i : Nat) : slice k l i = (l.drop (i * k)).take k := by
  unfold slice
  rw [List.extract_eq_take_drop]
  by_cases h : i * k + k ≤ l.length
  · rw [min_eq_left h, Nat.add_sub_cancel_left]
  · rw [min_eq_right (by omega), List.take_of_length_le (by simp),
      List.take_of_length_le (by simp; omega)]

theorem length_slice_le (k : Nat) (l : List α) (i : Nat) : (slice k l i).length ≤ k := by
  rw [slice_eq]; simp

theorem flatMap_slice_range (k : Nat) (l : List α) (n : Nat) :
    (List.range n).flatMap (slice k l) = l.take (n * k) := by
  induction n with
  | zero => simp
  | succ n ih =>
    rw [List.range_succ, List.flatMap_append, ih, List.flatMap_singleton, slice_eq,
      Nat.succ_mul, List.take_add]

/-- the parts of a list put together give the list -/
theorem flatMap_slice (k : Nat) (l : List α) (hk : 0 < k) :
    (List.range (partCount k l.length)).flatMap (slice k l) = l := by
  rw [flatMap_slice_range]
  exact List.take_of_length_le (le_partCount_mul k l.length hk)

theorem length_multipart (k : Nat) (l : List α) (mk : Nat → Nat → List α → β) :
    (multipart k l mk).length = partCount k l.length := by
  simp [multipart]

theorem getElem?_multipart (k : Nat) (l : List α) (mk : Nat → Nat → List α → β) (i : Nat)
    (hi : i < partCount k l.length) :
    (multipart k l mk)[i]? = some (mk i (partCount k l.length) (slice k l i)) := by
  simp [multipart, hi]

end

/-! ## the table of received parts -/

section
variable {β : Type*}

/-- the table holds exactly the first `j` parts of `ps`, each under its own number -/
def Filled (t : ExtTreeMap Nat β) (ps : List β) (j : Nat) : Prop :=
  ∀ i : Nat, t[i]? = if i < j then ps[i]? else none

theorem Filled.empty (ps : List β) : Filled ∅ ps 0 := by
  intro i
  rw [if_neg (Nat.not_lt_zero i)]
  simp

theorem Filled.not_mem {t : ExtTreeMap Nat β} {ps : List β} {j : Nat} (h : Filled t ps j) :
    t.contains j = false := by
  have hj : t[j]? = none := by rw [h j, if_neg (Nat.lt_irrefl j)]
  rw [← ExtTreeMap.isSome_getElem?_eq_contains, hj]
  rfl

theorem Filled.insert {t : ExtTreeMap Nat β} {ps : List β} {j : Nat} (h : Filled t ps j) {b : β}
    (hb : ps[j]? = some b) : Filled (t.insert j b) ps (j + 1) := by
  intro i
  rw [ExtTreeMap.getElem?_insert]
  by_cases e : j = i
  · subst e
    rw [if_pos Std.compare_self, if_pos (Nat.lt_succ_self j), hb]
  · rw [if_neg (fun hc => e (Std.compare_eq_iff_eq.mp hc)), h i]
    by_cases hi : i < j
    · rw [if_pos hi, if_pos (Nat.lt_succ_of_lt hi)]
    · rw [if_neg hi, if_neg (by omega)]

theorem Filled.keys {t : ExtTreeMap Nat β} {ps : List β} {j : Nat} (h : Filled t ps j)
    (hj : j ≤ ps.length) : t.keys = List.range j := by
  have hmem : ∀ i, i ∈ t.keys ↔ i ∈ List.range j := by
    intro i
    rw [ExtTreeMap.mem_keys, ← ExtTreeMap.isSome_getElem?_iff_mem, h i, List.mem_range]
    by_cases hi : i < j
    · rw [if_pos hi, List.getElem?_eq_getElem (by omega)]
      simp [hi]
    · rw [if_neg hi]
      simp [hi]
  have hperm : t.keys.Perm (List.range j) :=
    (List.perm_ext_iff_of_nodup ExtTreeMap.nodup_keys List.nodup_range).mpr hmem
  have hsorted : t.keys.Pairwise fun a b => a < b :=
    (ExtTreeMap.ordered_keys (t := t)).imp fun hlt => Nat.compare_eq_lt.mp hlt
  refine hperm.eq_of_pairwise ?_ hsorted List.pairwise_lt_range
  intro a b _ _ hab hba
  omega

theorem Filled.size {t : ExtTreeMap Nat β} {ps : List β} {j : Nat} (h : Filled t ps j)
    (hj : j ≤ ps.length) : t.size = j := by
  rw [← ExtTreeMap.length_keys, h.keys hj, List.length_range]

/-- the values of a full table are the parts -/
theorem Filled.values {t : ExtTreeMap Nat β} {ps : List β} (h : Filled t ps ps.length) :
    Maps.values t = ps := by
  have hlen : t.toList.length = ps.length := by
    rw [ExtTreeMap.length_toList, h.size (Nat.le_refl _)]
  apply List.ext_getElem?
  intro i
  unfold Maps.values
  rw [List.getElem?_map]
  by_cases hi : i < ps.length
  · have hkey : (t.toList.map Prod.fst)[i]? = some i := by
      rw [ExtTreeMap.map_fst_toList_eq_keys, h.keys (Nat.le_refl _), List.getElem?_range hi]
    rw [List.getElem?_map, Option.map_eq_some_iff] at hkey
    obtain ⟨⟨k, b⟩, he, hk⟩ := hkey
    have hget := ExtTreeMap.mem_toList_iff_getElem?_eq_some.mp (List.mem_of_getElem? he)
    rw [show k = i from hk, h i, if_pos hi] at hget
    rw [he, hget]
    rfl
  · rw [List.getElem?_eq_none (by omega), List.getElem?_eq_none (by omega)]
    rfl

/-- reading a full table in part order gives the parts back -/
theorem Filled.ordered {t : ExtTreeMap Nat β} {ps : List β} (h : Filled t ps ps.length) :
    (List.range ps.length).filterMap (fun i => t[i]?) = ps := by
  have hread : ∀ i ∈ List.range ps.length, t[i]? = ps[i]? := by
    intro i hi
    rw [h i, if_pos (List.mem_range.mp hi)]
  rw [List.filterMap_congr hread]
  have hget : ∀ l : List β, (List.range l.length).filterMap (fun i => l[i]?) = l := by
    intro l
    induction l with
    | nil => rfl
    | cons b l ih =>
      rw [List.length_cons, List.range_succ_eq_map, List.filterMap_cons_some (by rfl),
        List.filterMap_map]
      exact congrArg (b :: ·) ih
  exact hget ps

end

end Parts

import Mathlib

/-!
# Ledgers

Lists of records that are appended and changed in place: what one change does to a sum and to a
count over all records.

* `sum_map_set`     the sum after one record changed;
* `countP_set`      the count after one record changed;
* `getElem?_set_cases`, `getElem?_concat_cases`   where a record comes from;
* `flatMap_set`, `flatMap_set_same`, `flatMap_set_perm`   what the records list together, after one
                  changed.
-/

namespace Ledger

section
variable {α M : Type*}

theorem sum_map_set [AddCommMonoid M] {l : List α} {i : Nat} {a : α} (h : l[i]? = some a) (b : α)
    (f : α → M) : ((l.set i b).map f).sum + f a = (l.map f).sum + f b := by
  induction l generalizing i with
  | nil => simp at h
  | cons x l ih =>
    cases i with
    | zero =>
      rw [List.getElem?_cons_zero, Option.some.injEq] at h
      rw [h, List.set_cons_zero, List.map_cons, List.map_cons, List.sum_cons, List.sum_cons,
        add_right_comm, add_comm (f b) (f a), add_right_comm]
    | succ i =>
      rw [List.getElem?_cons_succ] at h
      rw [List.set_cons_succ, List.map_cons, List.map_cons, List.sum_cons, List.sum_cons,
        add_assoc, ih h, add_assoc]

theorem countP_set {l : List α} {i : Nat} {a : α} (h : l[i]? = some a) (b : α) (p : α → Bool) :
    (l.set i b).countP p + (if p a then 1 else 0) = l.countP p + if p b then 1 else 0 := by
  obtain ⟨hlt, hget⟩ := List.getElem?_eq_some_iff.mp h
  rw [List.countP_set hlt, hget]
  split_ifs with ha hb
  · have hpos := List.countP_pos_iff.mpr ⟨a, List.mem_of_getElem? h, ha⟩
    omega
  · have hpos := List.countP_pos_iff.mpr ⟨a, List.mem_of_getElem? h, ha⟩
    omega
  all_goals rfl

theorem getElem?_set_cases {l : List α} {i j : Nat} {a b : α} (h : (l.set i a)[j]? = some b) :
    (i = j ∧ b = a) ∨ (i ≠ j ∧ l[j]? = some b) := by
  rw [List.getElem?_set] at h
  split_ifs at h with hij
  · exact .inl ⟨hij, (Option.some.inj h).symm⟩
  · exact .inr ⟨hij, h⟩

theorem getElem?_concat_cases {l : List α} {j : Nat} {a b : α} (h : (l ++ [a])[j]? = some b) :
    (j = l.length ∧ b = a) ∨ (j < l.length ∧ l[j]? = some b) := by
  rcases Nat.lt_trichotomy j l.length with hj | rfl | hj
  · rw [List.getElem?_append_left hj] at h
    exact .inr ⟨hj, h⟩
  · rw [List.getElem?_concat_length] at h
    exact .inl ⟨rfl, (Option.some.inj h).symm⟩
  · rw [List.getElem?_eq_none_iff.mpr (by simpa using hj)] at h
    cases h

/-- the largest of the numbers, and of the one before them -/
theorem foldl_max_le {l : List Nat} {a b : Nat} :
    l.foldl max a ≤ b ↔ a ≤ b ∧ ∀ x ∈ l, x ≤ b := by
  induction l generalizing a with
  | nil => simp
  | cons x l ih =>
    rw [List.foldl_cons, ih, Nat.max_le, List.forall_mem_cons, and_assoc]

/-- at most one record passes the test -/
theorem eq_of_countP_le_one {l : List α} {p : α → Bool} (h : l.countP p ≤ 1) {i j : Nat} {a b : α}
    (hi : l[i]? = some a) (ha : p a = true) (hj : l[j]? = some b) (hb : p b = true) : i = j := by
  induction l generalizing i j with
  | nil => simp at hi
  | cons x l ih =>
    rw [List.countP_cons] at h
    have hnone : ∀ (k : Nat) (c : α), l[k]? = some c → p c = true → p x = false := by
      intro k c hk hc
      have hpos := List.countP_pos_iff.mpr ⟨c, List.mem_of_getElem? hk, hc⟩
      by_contra hx
      rw [if_pos (by simpa using hx)] at h
      omega
    cases i with
    | zero =>
      cases j with
      | zero => rfl
      | succ j =>
        rw [List.getElem?_cons_zero, Option.some.injEq] at hi
        rw [List.getElem?_cons_succ] at hj
        rw [← hi, hnone j b hj hb] at ha
        cases ha
    | succ i =>
      rw [List.getElem?_cons_succ] at hi
      cases j with
      | zero =>
        rw [List.getElem?_cons_zero, Option.some.injEq] at hj
        rw [← hj, hnone i a hi ha] at hb
        cases hb
      | succ j =>
        rw [List.getElem?_cons_succ] at hj
        rw [ih (by omega) hi hj]

/-- no other record contributes -/
theorem flatMap_set {β : Type*} {l : List α} {i : Nat} {a : α} (hi : l[i]? = some a) (b : α)
    (f : α → List β) (hother : ∀ j c, j ≠ i → l[j]? = some c → f c = []) :
    l.flatMap f = f a ∧ (l.set i b).flatMap f = f b := by
  induction l generalizing i with
  | nil => simp at hi
  | cons x l ih =>
    rw [List.flatMap_cons]
    cases i with
    | zero =>
      rw [List.getElem?_cons_zero, Option.some.injEq] at hi
      have hrest : l.flatMap f = [] := by
        refine List.flatMap_eq_nil_iff.mpr fun c hc => ?_
        obtain ⟨j, hj⟩ := List.mem_iff_getElem?.mp hc
        exact hother (j + 1) c (Nat.succ_ne_zero j) (by rwa [List.getElem?_cons_succ])
      rw [List.set_cons_zero, List.flatMap_cons, hrest, hi, List.append_nil, List.append_nil]
      exact ⟨rfl, rfl⟩
    | succ i =>
      rw [List.getElem?_cons_succ] at hi
      have hx : f x = [] := hother 0 x (Nat.succ_ne_zero i).symm (by rw [List.getElem?_cons_zero])
      obtain ⟨h1, h2⟩ := ih hi fun j c hj hc =>
        hother (j + 1) c (fun heq => hj (Nat.succ.inj heq)) (by rwa [List.getElem?_cons_succ])
      rw [List.set_cons_succ, List.flatMap_cons, hx, h1, h2]
      exact ⟨rfl, rfl⟩

theorem flatMap_set_same {β : Type*} {l : List α} {i : Nat} {a : α} (hi : l[i]? = some a) {b : α}
    {f : α → List β} (h : f b = f a) : (l.set i b).flatMap f = l.flatMap f := by
  induction l generalizing i with
  | nil => simp at hi
  | cons x l ih =>
    cases i with
    | zero =>
      rw [List.getElem?_cons_zero, Option.some.injEq] at hi
      rw [List.set_cons_zero, List.flatMap_cons, List.flatMap_cons, h, hi]
    | succ i =>
      rw [List.getElem?_cons_succ] at hi
      rw [List.set_cons_succ, List.flatMap_cons, List.flatMap_cons, ih hi]

/-- the other records keep what they list -/
theorem flatMap_set_perm {β : Type*} {l : List α} {i : Nat} {a : α} (hi : l[i]? = some a)
    (f : α → List β) : ∃ rest, (l.flatMap f).Perm (f a ++ rest) ∧
      ∀ b, ((l.set i b).flatMap f).Perm (f b ++ rest) := by
  obtain ⟨hlt, rfl⟩ := List.getElem?_eq_some_iff.mp hi
  refine ⟨(l.take i).flatMap f ++ (l.drop (i + 1)).flatMap f, ?_, fun b => ?_⟩
  · have hsplit := List.take_append_drop i l
    rw [List.drop_eq_getElem_cons hlt] at hsplit
    have hflat := congrArg (List.flatMap f) hsplit
    rw [List.flatMap_append, List.flatMap_cons] at hflat
    rw [← hflat]
    exact List.perm_append_comm_assoc _ _ _
  · rw [List.set_eq_take_append_cons_drop, if_pos hlt, List.flatMap_append, List.flatMap_cons]
    exact List.perm_append_comm_assoc _ _ _

end

end Ledger

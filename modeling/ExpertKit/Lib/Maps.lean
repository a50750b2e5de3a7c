import Mathlib

/-!
# Finite maps in key order

`Std.ExtTreeMap` with a lawful order: look-ups after an update are stated with `=` on keys, and
the values in key order are described by the strictly ordered list of keys.

* `getElem?_insert_eq`, `getElem?_erase_eq`   look-up after one update;
* `values`, `mem_values`                       the values are exactly the stored ones;
* `pairwise_values`                            a relation that follows the key order holds along
                                               the values;
* `filterMap_values_congr`                     what a function picks from the values depends only
                                               on what it picks under each key;
* `filterMap_toList_key`                       what lies under one key of the entry list;
* `insertAll`                                  a loop of insertions, and the look-ups after it.
-/

set_option linter.unusedSectionVars false

namespace Maps
open Std

section
variable {α β : Type*} [Ord α] [TransOrd α] [LawfulEqOrd α] [DecidableEq α]

/-- the stored values in key order -/
def values (m : ExtTreeMap α β) : List β := m.toList.map Prod.snd

theorem getElem?_insert_eq (m : ExtTreeMap α β) (k a : α) (v : β) :
    (m.insert k v)[a]? = if k = a then some v else m[a]? := by
  rw [ExtTreeMap.getElem?_insert]
  by_cases h : k = a
  · rw [if_pos (Std.compare_eq_iff_eq.mpr h), if_pos h]
  · rw [if_neg (fun h' => h (Std.compare_eq_iff_eq.mp h')), if_neg h]

theorem getElem?_erase_eq (m : ExtTreeMap α β) (k a : α) :
    (m.erase k)[a]? = if k = a then none else m[a]? := by
  rw [ExtTreeMap.getElem?_erase]
  by_cases h : k = a
  · rw [if_pos (Std.compare_eq_iff_eq.mpr h), if_pos h]
  · rw [if_neg (fun h' => h (Std.compare_eq_iff_eq.mp h')), if_neg h]

theorem mem_of_getElem? {m : ExtTreeMap α β} {a : α} {v : β} (h : m[a]? = some v) : a ∈ m :=
  ExtTreeMap.isSome_getElem?_iff_mem.mp (by rw [h]; rfl)

theorem exists_getElem? {m : ExtTreeMap α β} {a : α} (h : a ∈ m) : ∃ v, m[a]? = some v :=
  Option.isSome_iff_exists.mp (ExtTreeMap.isSome_getElem?_iff_mem.mpr h)

theorem mem_values {m : ExtTreeMap α β} {v : β} : v ∈ values m ↔ ∃ a : α, m[a]? = some v := by
  unfold values
  rw [List.mem_map]
  constructor
  · rintro ⟨⟨a, w⟩, h, rfl⟩
    exact ⟨a, ExtTreeMap.mem_toList_iff_getElem?_eq_some.mp h⟩
  · rintro ⟨a, h⟩
    exact ⟨(a, v), ExtTreeMap.mem_toList_iff_getElem?_eq_some.mpr h, rfl⟩

theorem pairwise_values {m : ExtTreeMap α β} {r : β → β → Prop}
    (h : ∀ (a b : α) (v w : β), m[a]? = some v → m[b]? = some w → compare a b = .lt → r v w) :
    (values m).Pairwise r := by
  unfold values
  rw [List.pairwise_map]
  refine (ExtTreeMap.ordered_keys_toList (t := m)).imp_of_mem ?_
  intro a b ha hb hlt
  exact h a.1 b.1 a.2 b.2 (ExtTreeMap.mem_toList_iff_getElem?_eq_some.mp ha)
    (ExtTreeMap.mem_toList_iff_getElem?_eq_some.mp hb) hlt

theorem filterMap_values {γ : Type*} (m : ExtTreeMap α β) (f : β → Option γ) :
    (values m).filterMap f = values (m.filterMap fun _ => f) := by
  unfold values
  rw [ExtTreeMap.toList_filterMap, List.filterMap_map, List.map_filterMap]
  congr 1
  funext e
  show f e.2 = ((f e.2).map fun x => (e.1, x)).map Prod.snd
  cases f e.2 <;> rfl

theorem filterMap_values_congr {γ : Type*} (m m' : ExtTreeMap α β) (f : β → Option γ)
    (h : ∀ a : α, (m[a]?).bind f = (m'[a]?).bind f) :
    (values m).filterMap f = (values m').filterMap f := by
  have hm : m.filterMap (fun _ => f) = m'.filterMap fun _ => f := by
    apply ExtTreeMap.ext_getElem?
    intro a
    rw [ExtTreeMap.getElem?_filterMap', ExtTreeMap.getElem?_filterMap']
    exact h a
  rw [filterMap_values, filterMap_values, hm]

/-- picking the entries under one key from the list of entries -/
theorem filterMap_toList_key {γ : Type*} (m : ExtTreeMap α β) (k : α) (f : α × β → Option γ)
    (hf : ∀ e, e.1 ≠ k → f e = none) :
    m.toList.filterMap f = ((m[k]?).bind fun v => f (k, v)).toList := by
  have hd : m.toList.Pairwise fun a b => a.1 ≠ b.1 := by
    refine (ExtTreeMap.distinct_keys_toList (t := m)).imp ?_
    intro a b hne e
    exact hne (Std.compare_eq_iff_eq.mpr e)
  cases hk : m[k]? with
  | none =>
    rw [List.filterMap_eq_nil_iff.mpr]
    · rfl
    · intro e he
      refine hf e ?_
      intro hek
      have hv := ExtTreeMap.mem_toList_iff_getElem?_eq_some.mp he
      rw [hek, hk] at hv
      cases hv
  | some v =>
    obtain ⟨l1, l2, hl⟩ :=
      List.append_of_mem (ExtTreeMap.mem_toList_iff_getElem?_eq_some.mpr hk)
    rw [hl, List.pairwise_append, List.pairwise_cons] at hd
    have h1 : l1.filterMap f = [] := by
      refine List.filterMap_eq_nil_iff.mpr ?_
      intro e he
      exact hf e (hd.2.2 e he (k, v) List.mem_cons_self)
    have h2 : l2.filterMap f = [] := by
      refine List.filterMap_eq_nil_iff.mpr ?_
      intro e he
      exact hf e (hd.2.1.1 e he).symm
    rw [hl, List.filterMap_append, List.filterMap_cons, h1, h2]
    cases hv : f (k, v) <;> simp [hv]

/-! ## a loop of insertions -/

def insertAll {γ : Type*} (key : γ → α) (val : γ → β) (m : ExtTreeMap α β) (l : List γ) :
    ExtTreeMap α β :=
  l.foldl (fun m e => m.insert (key e) (val e)) m

theorem getElem?_insertAll_of_not_mem {γ : Type*} (key : γ → α) (val : γ → β)
    (m : ExtTreeMap α β) (l : List γ) (k : α) (h : ∀ e ∈ l, key e ≠ k) :
    (insertAll key val m l)[k]? = m[k]? := by
  induction l generalizing m with
  | nil => rfl
  | cons e l ih =>
    show (insertAll key val (m.insert (key e) (val e)) l)[k]? = m[k]?
    rw [ih _ (fun e' he' => h e' (List.mem_cons_of_mem _ he')), getElem?_insert_eq,
      if_neg (h e List.mem_cons_self)]

theorem getElem?_insertAll_of_mem {γ : Type*} (key : γ → α) (val : γ → β)
    (m : ExtTreeMap α β) (l : List γ) (hd : l.Pairwise fun a b => key a ≠ key b) (e : γ)
    (he : e ∈ l) : (insertAll key val m l)[key e]? = some (val e) := by
  induction l generalizing m with
  | nil => cases he
  | cons a l ih =>
    rw [List.pairwise_cons] at hd
    show (insertAll key val (m.insert (key a) (val a)) l)[key e]? = some (val e)
    rcases List.mem_cons.mp he with rfl | hm
    · rw [getElem?_insertAll_of_not_mem _ _ _ _ _ (fun b hb => (hd.1 b hb).symm),
        getElem?_insert_eq, if_pos rfl]
    · exact ih _ hd.2 hm

/-- what a loop of insertions leaves under a key was inserted or was there before -/
theorem getElem?_insertAll_cases {γ : Type*} (key : γ → α) (val : γ → β) {m : ExtTreeMap α β}
    {l : List γ} {k : α} {v : β} (h : (insertAll key val m l)[k]? = some v) :
    (∃ e ∈ l, key e = k ∧ val e = v) ∨ m[k]? = some v := by
  induction l generalizing m with
  | nil => exact .inr h
  | cons a l ih =>
    rcases ih h with ⟨e, he, hk, hv⟩ | hm
    · exact .inl ⟨e, List.mem_cons_of_mem _ he, hk, hv⟩
    · rw [getElem?_insert_eq] at hm
      split_ifs at hm with hk
      · exact .inl ⟨a, List.mem_cons_self, hk, Option.some.inj hm⟩
      · exact .inr hm

theorem mem_insertAll {γ : Type*} (key : γ → α) (val : γ → β) (m : ExtTreeMap α β) (l : List γ)
    (e : γ) (he : e ∈ l) : key e ∈ insertAll key val m l := by
  have hmono : ∀ (l : List γ) (m : ExtTreeMap α β) (k : α), k ∈ m → k ∈ insertAll key val m l := by
    intro l
    induction l with
    | nil => intro m k hk; exact hk
    | cons a l ih => intro m k hk; exact ih _ k (ExtTreeMap.mem_insert.mpr (.inr hk))
  induction l generalizing m with
  | nil => cases he
  | cons a l ih =>
    rcases List.mem_cons.mp he with rfl | he
    · exact hmono l _ _ ExtTreeMap.mem_insert_self
    · exact ih _ he

/-- inserting the entries of a map, with the values transformed, transforms the map -/
theorem insertAll_toList {γ : Type*} (m : ExtTreeMap α γ) (f : γ → β) :
    insertAll Prod.fst (fun e => f e.2) (∅ : ExtTreeMap α β) m.toList = m.map fun _ v => f v := by
  apply ExtTreeMap.ext_getElem?
  intro k
  rw [ExtTreeMap.getElem?_map]
  have hd : m.toList.Pairwise fun a b => a.1 ≠ b.1 := by
    refine (ExtTreeMap.distinct_keys_toList (t := m)).imp ?_
    intro a b hne e
    exact hne (Std.compare_eq_iff_eq.mpr e)
  cases hk : m[k]? with
  | none =>
    rw [getElem?_insertAll_of_not_mem]
    · simp
    · rintro ⟨a, v⟩ he e
      have hv := ExtTreeMap.mem_toList_iff_getElem?_eq_some.mp he
      rw [show a = k from e, hk] at hv
      cases hv
  | some v =>
    exact getElem?_insertAll_of_mem Prod.fst (fun e => f e.2) ∅ m.toList hd (k, v)
      (ExtTreeMap.mem_toList_iff_getElem?_eq_some.mpr hk)

end

end Maps

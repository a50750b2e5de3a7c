import Mathlib

/-!
# Intervals that tile a range

A list of half-open intervals, given by their ends, tiles a range when each starts where the one
before it stops.  Empty intervals are allowed anywhere.

* `Tiles`, `place`       the property, and the intervals of given lengths one after the other;
* `Tiles.disjoint`, `Tiles.covers`   no two overlap and no position is left out;
* `Tiles.perm_sorted`    sorting by start and then stop recovers the order;
* `Tiles.flatten`        the slices of a list that the intervals cut are the list;
* `slice_place`          the slices of concatenated blocks are the blocks.
-/

namespace Tiling

/-- the intervals tile the range from the cursor to the end -/
def Tiles (stop : Nat) : Nat → List (Nat × Nat) → Prop
  | cursor, [] => cursor = stop
  | cursor, r :: rest => r.1 = cursor ∧ r.1 ≤ r.2 ∧ Tiles stop r.2 rest

theorem Tiles.cursor_le {stop cursor : Nat} {rs : List (Nat × Nat)} (h : Tiles stop cursor rs) :
    cursor ≤ stop := by
  induction rs generalizing cursor with
  | nil => exact Nat.le_of_eq h
  | cons r rest ih =>
    obtain ⟨rfl, hr, hrest⟩ := h
    exact hr.trans (ih hrest)

theorem Tiles.bounds {stop cursor : Nat} {rs : List (Nat × Nat)} (h : Tiles stop cursor rs) :
    ∀ r ∈ rs, cursor ≤ r.1 ∧ r.1 ≤ r.2 ∧ r.2 ≤ stop := by
  induction rs generalizing cursor with
  | nil => exact fun r hr => absurd hr List.not_mem_nil
  | cons r rest ih =>
    obtain ⟨rfl, hr, hrest⟩ := h
    intro s hs
    rcases List.mem_cons.mp hs with rfl | hs
    · exact ⟨Nat.le_refl _, hr, hrest.cursor_le⟩
    · obtain ⟨h1, h2, h3⟩ := ih hrest s hs
      exact ⟨hr.trans h1, h2, h3⟩

/-- an earlier interval stops before a later one starts -/
theorem Tiles.disjoint {stop cursor : Nat} {rs : List (Nat × Nat)} (h : Tiles stop cursor rs) :
    rs.Pairwise fun r s => r.2 ≤ s.1 := by
  induction rs generalizing cursor with
  | nil => exact List.Pairwise.nil
  | cons r rest ih =>
    obtain ⟨rfl, _, hrest⟩ := h
    exact List.pairwise_cons.mpr ⟨fun s hs => (hrest.bounds s hs).1, ih hrest⟩

theorem Tiles.covers {stop cursor : Nat} {rs : List (Nat × Nat)} (h : Tiles stop cursor rs)
    {i : Nat} (hlow : cursor ≤ i) (hhigh : i < stop) : ∃ r ∈ rs, r.1 ≤ i ∧ i < r.2 := by
  induction rs generalizing cursor with
  | nil => exact absurd (Nat.le_of_eq h.symm) (by omega)
  | cons r rest ih =>
    obtain ⟨rfl, hr, hrest⟩ := h
    by_cases hi : i < r.2
    · exact ⟨r, List.mem_cons_self, hlow, hi⟩
    · obtain ⟨s, hs, hin⟩ := ih hrest (Nat.le_of_not_lt hi)
      exact ⟨s, List.mem_cons_of_mem _ hs, hin⟩

/-! ## order -/

/-- by start, then by stop -/
def Before (r s : Nat × Nat) : Prop := r.1 < s.1 ∨ r.1 = s.1 ∧ r.2 ≤ s.2

theorem Before.antisymm {r s : Nat × Nat} (h : Before r s) (h' : Before s r) : r = s := by
  unfold Before at h h'
  exact Prod.ext (by omega) (by omega)

theorem Tiles.sorted {stop cursor : Nat} {rs : List (Nat × Nat)} (h : Tiles stop cursor rs) :
    rs.Pairwise Before := by
  induction rs generalizing cursor with
  | nil => exact List.Pairwise.nil
  | cons r rest ih =>
    obtain ⟨rfl, hr, hrest⟩ := h
    refine List.pairwise_cons.mpr ⟨fun s hs => ?_, ih hrest⟩
    obtain ⟨h1, h2, _⟩ := hrest.bounds s hs
    unfold Before
    omega

theorem Tiles.perm_sorted {stop cursor : Nat} {rs ss : List (Nat × Nat)} (h : Tiles stop cursor rs)
    (hperm : ss.Perm rs) (hsorted : ss.Pairwise Before) : Tiles stop cursor ss := by
  have heq : ss = rs := List.Perm.eq_of_pairwise
    (fun _ _ _ _ h1 h2 => Before.antisymm h1 h2) hsorted h.sorted hperm
  rwa [heq]

/-! ## slices -/

def slice {α : Type*} (l : List α) (r : Nat × Nat) : List α := (l.drop r.1).take (r.2 - r.1)

theorem Tiles.flatten {α : Type*} {l : List α} {cursor : Nat} {rs : List (Nat × Nat)}
    (h : Tiles l.length cursor rs) : (rs.map (slice l)).flatten = l.drop cursor := by
  induction rs generalizing cursor with
  | nil =>
    rw [show cursor = l.length from h, List.drop_length]
    rfl
  | cons r rest ih =>
    obtain ⟨rfl, hr, hrest⟩ := h
    have hdrop : l.drop r.2 = (l.drop r.1).drop (r.2 - r.1) := by
      rw [List.drop_drop]
      congr 1
      omega
    rw [List.map_cons, List.flatten_cons, ih hrest, hdrop, slice, List.take_append_drop]

/-! ## placing -/

/-- the intervals of blocks of these lengths, one after the other -/
def place : Nat → List Nat → List (Nat × Nat)
  | _, [] => []
  | cursor, n :: rest => (cursor, cursor + n) :: place (cursor + n) rest

theorem length_place (cursor : Nat) (lengths : List Nat) :
    (place cursor lengths).length = lengths.length := by
  induction lengths generalizing cursor with
  | nil => rfl
  | cons n rest ih => simp [place, ih]

theorem mem_zip_place {cursor : Nat} {lengths : List Nat} {n : Nat} {r : Nat × Nat}
    (h : (n, r) ∈ lengths.zip (place cursor lengths)) : r.2 = r.1 + n := by
  induction lengths generalizing cursor with
  | nil => exact absurd h List.not_mem_nil
  | cons m rest ih =>
    rcases List.mem_cons.mp h with heq | hrest
    · cases heq
      rfl
    · exact ih hrest

theorem place_tiles (cursor : Nat) (lengths : List Nat) :
    Tiles (cursor + lengths.sum) cursor (place cursor lengths) := by
  induction lengths generalizing cursor with
  | nil => rfl
  | cons n rest ih =>
    refine ⟨rfl, Nat.le_add_right _ _, ?_⟩
    rw [List.sum_cons, ← Nat.add_assoc]
    exact ih (cursor + n)

/-- the blocks are cut out again -/
theorem slice_place {α : Type*} (front : List α) (blocks : List (List α)) :
    (place front.length (blocks.map List.length)).map (slice (front ++ blocks.flatten)) =
      blocks := by
  induction blocks generalizing front with
  | nil => rfl
  | cons block rest ih =>
    have hrest := ih (front ++ block)
    rw [List.length_append, List.append_assoc] at hrest
    rw [List.map_cons, place, List.map_cons, List.flatten_cons, hrest]
    congr 1
    simp [slice]

end Tiling

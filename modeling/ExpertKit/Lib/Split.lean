import Mathlib

/-!
# Splitting a list at a separator

`splitOn sep` cuts a list at the non-overlapping occurrences of `sep`, found from left to right.

* `splitOn_eq_single`   without an occurrence there is one piece;
* `splitOn_append`      a separator whose first element occurs nowhere else in it cuts a list
                        wherever it stands;
* `splitOn_eq_pair`, `length_splitOn_lt`   the lists with exactly two pieces.
-/

namespace Split

variable {α : Type*} [DecidableEq α]

/-- the pieces, the first `skip` elements being the rest of an occurrence -/
def pieces (sep : List α) : Nat → List α → List (List α)
  | _, [] => [[]]
  | skip + 1, _ :: rest => pieces sep skip rest
  | 0, x :: rest =>
    if sep.isPrefixOf (x :: rest) then [] :: pieces sep (sep.length - 1) rest
    else (pieces sep 0 rest).modifyHead (x :: ·)

def splitOn (sep l : List α) : List (List α) := pieces sep 0 l

theorem pieces_cut {a x : α} {sep rest : List α} (h : (a :: sep).isPrefixOf (x :: rest)) :
    pieces (a :: sep) 0 (x :: rest) = [] :: pieces (a :: sep) sep.length rest :=
  if_pos h

theorem pieces_keep {x : α} {sep rest : List α} (h : ¬ sep.isPrefixOf (x :: rest)) :
    pieces sep 0 (x :: rest) = (pieces sep 0 rest).modifyHead (x :: ·) :=
  if_neg h

theorem pieces_ne_nil (sep : List α) (skip : Nat) (l : List α) : pieces sep skip l ≠ [] := by
  induction l generalizing skip with
  | nil => simp [pieces]
  | cons x rest ih =>
    cases skip with
    | succ skip => exact ih skip
    | zero =>
      rw [pieces]
      split_ifs with h
      · exact List.cons_ne_nil _ _
      · cases hp : pieces sep 0 rest with
        | nil => exact absurd hp (ih 0)
        | cons piece others => simp

theorem length_splitOn_pos (sep l : List α) : 0 < (splitOn sep l).length :=
  List.length_pos_of_ne_nil (pieces_ne_nil sep 0 l)

theorem pieces_skip (sep front l : List α) :
    pieces sep front.length (front ++ l) = splitOn sep l := by
  induction front with
  | nil => rfl
  | cons x front ih => exact ih

theorem splitOn_eq_single {sep l : List α} (h : ¬ sep <:+: l) : splitOn sep l = [l] := by
  induction l with
  | nil => rfl
  | cons x rest ih =>
    have hfits : sep.isPrefixOf (x :: rest) = false := by
      rw [Bool.eq_false_iff]
      exact fun hp => h (List.isPrefixOf_iff_prefix.mp hp).isInfix
    have hrest : splitOn sep rest = [rest] :=
      ih fun hin => h (hin.trans (List.suffix_cons x rest).isInfix)
    rw [splitOn, pieces_keep (by simp [hfits]),
      show pieces sep 0 rest = [rest] from hrest]
    rfl

/-! ## a separator that does not overlap itself -/

section
variable {a : α} {sep : List α}

/-- an occurrence that starts before another one ends before it -/
theorem length_le_of_prefix (ha : a ∉ sep) {x : α} {front back : List α}
    (h : (a :: sep).isPrefixOf (x :: (front ++ (a :: sep ++ back)))) :
    sep.length ≤ front.length := by
  by_contra hlt
  obtain ⟨tail, htail⟩ := List.isPrefixOf_iff_prefix.mp h
  have hget := congrArg (fun l => l[front.length + 1]?) htail
  have hmem : sep[front.length]? = some a := by
    simpa [List.getElem?_append_left (show front.length < sep.length by omega)] using hget
  exact ha (List.mem_of_getElem? hmem)

theorem pieces_append (ha : a ∉ sep) (skip : Nat) (front back : List α)
    (hskip : skip ≤ front.length) :
    pieces (a :: sep) skip (front ++ (a :: sep ++ back)) =
      pieces (a :: sep) skip front ++ splitOn (a :: sep) back := by
  induction front generalizing skip with
  | nil =>
    obtain rfl : skip = 0 := by simpa using hskip
    have hfits : (a :: sep).isPrefixOf (a :: (sep ++ back)) = true :=
      List.isPrefixOf_iff_prefix.mpr ⟨back, rfl⟩
    rw [List.nil_append, List.cons_append, pieces_cut hfits, pieces_skip]
    rfl
  | cons x front ih =>
    cases skip with
    | succ skip => exact ih skip (by simpa using hskip)
    | zero =>
      rw [List.cons_append]
      by_cases h : (a :: sep).isPrefixOf (x :: (front ++ (a :: sep ++ back)))
      · -- the whole occurrence lies before the separator
        have hlen := length_le_of_prefix ha h
        have hfront : (a :: sep).isPrefixOf (x :: front) = true := by
          rw [List.isPrefixOf_iff_prefix] at h ⊢
          exact List.prefix_of_prefix_length_le h ⟨a :: sep ++ back, rfl⟩ (by simpa using hlen)
        rw [pieces_cut h, pieces_cut hfront, ih _ hlen, List.cons_append]
      · have hfront : ¬ (a :: sep).isPrefixOf (x :: front) = true := by
          rw [List.isPrefixOf_iff_prefix] at h ⊢
          exact fun hp => h (hp.trans ⟨a :: sep ++ back, rfl⟩)
        rw [pieces_keep h, pieces_keep hfront, ih 0 (Nat.zero_le _)]
        cases hp : pieces (a :: sep) 0 front with
        | nil => exact absurd hp (pieces_ne_nil _ _ _)
        | cons piece others => rfl

theorem splitOn_append (ha : a ∉ sep) (front back : List α) :
    splitOn (a :: sep) (front ++ (a :: sep ++ back)) =
      splitOn (a :: sep) front ++ splitOn (a :: sep) back :=
  pieces_append ha 0 front back (Nat.zero_le _)

theorem splitOn_eq_pair (ha : a ∉ sep) {front back : List α} (hfront : ¬ a :: sep <:+: front)
    (hback : ¬ a :: sep <:+: back) :
    splitOn (a :: sep) (front ++ (a :: sep ++ back)) = [front, back] := by
  rw [splitOn_append ha, splitOn_eq_single hfront, splitOn_eq_single hback]
  rfl

theorem length_splitOn_lt (ha : a ∉ sep) {front : List α} (back : List α)
    (hfront : a :: sep <:+: front) :
    2 < (splitOn (a :: sep) (front ++ (a :: sep ++ back))).length := by
  obtain ⟨before, after, rfl⟩ := hfront
  rw [splitOn_append ha, List.append_assoc, splitOn_append ha]
  have h1 := length_splitOn_pos (a :: sep) before
  have h2 := length_splitOn_pos (a :: sep) after
  have h3 := length_splitOn_pos (a :: sep) back
  simp only [List.length_append]
  omega

end

end Split

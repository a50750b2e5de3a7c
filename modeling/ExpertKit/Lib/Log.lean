import Mathlib

/-!
# Versioned state with a bounded log of revisions

A state has a version; a revision leads from one version to a newer one.  The owner keeps the last
revisions in a log and answers a reader that knows an older version with the revisions that join
it.  Over arbitrary revisions `R` and states `S`:

* `Chain a h b`      the revisions of `h` lead from version `a` to version `b`;
* `join v h`         the revisions that join `v` one after the other, and where they end;
* `join_cases`       on a chain, `join` selects a whole suffix or nothing;
* `Anchored`         a state `x` of version `v` leads to the current state whenever the log still
                     joins `v`; kept by a new revision and by forgetting old ones.
-/

namespace Log

section
variable {R S : Type*} (prev next : R → Nat) (act : S → R → S)

def Chain : Nat → List R → Nat → Prop
  | a, [], b => a = b
  | a, r :: h, b => prev r = a ∧ a < next r ∧ Chain (next r) h b

def join : Nat → List R → List R × Nat
  | v, [] => ([], v)
  | v, r :: h => if prev r = v then (r :: (join (next r) h).1, (join (next r) h).2) else join v h

variable {prev next act}

theorem Chain.le {a b : Nat} {h : List R} (hc : Chain prev next a h b) : a ≤ b := by
  induction h generalizing a with
  | nil => exact Nat.le_of_eq hc
  | cons r h ih => exact (Nat.le_of_lt hc.2.1).trans (ih hc.2.2)

theorem Chain.concat {a b : Nat} {h : List R} (hc : Chain prev next a h b) {r : R}
    (hp : prev r = b) (hn : b < next r) : Chain prev next a (h ++ [r]) (next r) := by
  induction h generalizing a with
  | nil =>
    have e : a = b := hc
    exact ⟨hp.trans e.symm, e ▸ hn, rfl⟩
  | cons r' h ih => exact ⟨hc.1, hc.2.1, ih hc.2.2⟩

theorem Chain.drop {a b : Nat} {h : List R} (hc : Chain prev next a h b) (n : Nat) :
    ∃ a', Chain prev next a' (h.drop n) b := by
  induction n generalizing a h with
  | zero => exact ⟨a, hc⟩
  | succ n ih =>
    cases h with
    | nil => exact ⟨a, hc⟩
    | cons r h => exact ih hc.2.2

/-- no revision of the chain starts at its end -/
theorem Chain.prev_lt {a b : Nat} {h : List R} (hc : Chain prev next a h b) {r : R} (hr : r ∈ h) :
    prev r < b := by
  induction h generalizing a with
  | nil => cases hr
  | cons r' h ih =>
    rcases List.mem_cons.mp hr with rfl | hm
    · rw [hc.1]
      exact hc.2.1.trans_le hc.2.2.le
    · exact ih hc.2.2 hm

theorem join_of_chain {a b : Nat} {h : List R} (hc : Chain prev next a h b) :
    join prev next a h = (h, b) := by
  induction h generalizing a with
  | nil =>
    have e : a = b := hc
    rw [join, e]
  | cons r h ih => rw [join, if_pos hc.1, ih hc.2.2]

theorem join_cases {a b v : Nat} {h : List R} (hc : Chain prev next a h b) :
    (∃ l r t, h = l ++ r :: t ∧ prev r = v ∧ Chain prev next v (r :: t) b ∧
      join prev next v h = (r :: t, b)) ∨
    join prev next v h = ([], v) := by
  induction h generalizing a with
  | nil => exact .inr rfl
  | cons r h ih =>
    by_cases e : prev r = v
    · have hv : Chain prev next v (r :: h) b := ⟨e, e ▸ hc.1 ▸ hc.2.1, hc.2.2⟩
      exact .inl ⟨[], r, h, rfl, e, hv, join_of_chain hv⟩
    · rw [join, if_neg e]
      rcases ih hc.2.2 with ⟨l, r', t, hl, hp, hv, hj⟩ | hj
      · exact .inl ⟨r :: l, r', t, by rw [hl]; rfl, hp, hv, hj⟩
      · exact .inr hj

variable (prev act)

/-- where a suffix of the log starts: its first revision, or the current version -/
def startOf (version : Nat) (h : List R) : Nat := (h.head?).elim version prev

/-- the state `x` of version `v` leads to `state` whenever the log still joins `v` -/
structure Anchored (version : Nat) (state : S) (history : List R) (v : Nat) (x : S) : Prop where
  le : v ≤ version
  replay : ∀ l h, history = l ++ h → startOf prev version h = v → h.foldl act x = state

variable {prev act}

/-- a state is anchored at itself -/
theorem Anchored.self {a version : Nat} {history : List R} (hc : Chain prev next a history version)
    (state : S) : Anchored prev act version state history version state := by
  refine ⟨Nat.le_refl _, ?_⟩
  intro l h e hs
  cases h with
  | nil => rfl
  | cons r h =>
    have hr : prev r < version := hc.prev_lt (by rw [e]; simp)
    have hs' : prev r = version := hs
    omega

/-- a new version without a log is never joined -/
theorem Anchored.fresh {version v : Nat} (h : v < version) (state x : S) :
    Anchored prev act version state [] v x := by
  refine ⟨Nat.le_of_lt h, ?_⟩
  intro l h' e hs
  obtain ⟨_, rfl⟩ := List.append_eq_nil_iff.mp e.symm
  have hs' : version = v := hs
  omega

/-- one more revision, and any number of old ones forgotten -/
theorem Anchored.commit {version v : Nat} {state x : S} {history : List R}
    (ha : Anchored prev act version state history v x) (next : R → Nat) {r : R}
    (hp : prev r = version) (hn : version < next r) (n : Nat) :
    Anchored prev act (next r) (act state r) ((history ++ [r]).drop n) v x := by
  have hle := ha.le
  refine ⟨by omega, ?_⟩
  intro l h e hs
  rcases List.eq_nil_or_concat h with rfl | ⟨h0, r', rfl⟩
  · have hs' : next r = v := hs
    omega
  · rw [List.concat_eq_append] at e hs ⊢
    have hfull : history ++ [r] = (((history ++ [r]).take n ++ l) ++ h0) ++ [r'] := by
      rw [List.append_assoc, List.append_assoc, ← e, List.take_append_drop]
    obtain ⟨hpre, hlast⟩ := List.append_inj' hfull rfl
    simp only [List.cons.injEq, and_true] at hlast
    subst hlast
    have hstart : startOf prev version h0 = v := by
      cases h0 with
      | nil => exact hp.symm.trans hs
      | cons r0 h0 => exact hs
    rw [List.foldl_append, ha.replay _ _ hpre hstart]
    rfl

end

end Log

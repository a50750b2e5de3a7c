import Mathlib

/-!
# Runs of a labelled step function

A step function `step : σ → ι → Option σ` is enabled where it returns a state.  `Reach` are the
states of all runs whose steps meet a condition on the label and the state before it.

* `Reach.invariant`   what the start has and every such step keeps holds in every state reached;
* `run`, `Reach.of_run`   an evaluated run reaches its last state;
* `run_take_invariant`    the same as `Reach.invariant` after each prefix of an evaluated run;
* `run_states_iff`, `run_prefixes_iff`   a property of all states of a run that exactly the bad
                      steps break;
* `run_checked_cases`     either every step of a run passes the check, or its end is beyond repair.
-/

namespace Steps

section
variable {σ ι : Type*}

inductive Reach (step : σ → ι → Option σ) (ok : σ → ι → Prop) (start : σ) : σ → Prop where
  | refl : Reach step ok start start
  | step {s s' : σ} (l : ι) (h : Reach step ok start s) (hok : ok s l) (hs : step s l = some s') :
      Reach step ok start s'

theorem Reach.invariant {step : σ → ι → Option σ} {ok : σ → ι → Prop} {start s : σ}
    {P : σ → Prop} (h : Reach step ok start s) (h0 : P start)
    (hstep : ∀ s l s', P s → ok s l → step s l = some s' → P s') : P s := by
  induction h with
  | refl => exact h0
  | step l _ hok hs ih => exact hstep _ l _ ih hok hs

theorem Reach.mono {step : σ → ι → Option σ} {ok ok' : σ → ι → Prop} {start s : σ}
    (h : Reach step ok start s) (hok : ∀ s l, ok s l → ok' s l) : Reach step ok' start s := by
  induction h with
  | refl => exact .refl
  | step l _ hl hs ih => exact .step l ih (hok _ _ hl) hs

/-- the state after the labels; `none` where a step is not enabled or fails the condition -/
def run (step : σ → ι → Option σ) (ok : σ → ι → Bool) : σ → List ι → Option σ
  | s, [] => some s
  | s, l :: rest => if ok s l then (step s l).bind fun s' => run step ok s' rest else none

theorem run_cons {step : σ → ι → Option σ} {ok : σ → ι → Bool} {s s' : σ} {l : ι} {ls : List ι}
    (h : run step ok s (l :: ls) = some s') :
    ok s l = true ∧ ∃ s1, step s l = some s1 ∧ run step ok s1 ls = some s' := by
  unfold run at h
  split_ifs at h with hok
  exact ⟨hok, Option.bind_eq_some_iff.mp h⟩

theorem run_append (step : σ → ι → Option σ) (ok : σ → ι → Bool) (s : σ) (ls ls' : List ι) :
    run step ok s (ls ++ ls') = (run step ok s ls).bind fun s' => run step ok s' ls' := by
  induction ls generalizing s with
  | nil => rfl
  | cons l ls ih =>
    rw [List.cons_append, run, run]
    split_ifs
    · rw [Option.bind_assoc]
      congr 1
      funext s1
      exact ih s1
    · rfl

theorem Reach.of_run {step : σ → ι → Option σ} {ok : σ → ι → Bool} {start s s' : σ}
    (h : Reach step (fun s l => ok s l = true) start s) {ls : List ι}
    (hr : run step ok s ls = some s') : Reach step (fun s l => ok s l = true) start s' := by
  induction ls generalizing s with
  | nil =>
    cases hr
    exact h
  | cons l ls ih =>
    obtain ⟨hok, s1, hs1, hrest⟩ := run_cons hr
    exact ih (.step l h hok hs1) hrest

theorem run_mono {step : σ → ι → Option σ} {ok ok' : σ → ι → Bool} {s s' : σ} {ls : List ι}
    (h : run step ok s ls = some s') (hok : ∀ s l, ok s l = true → ok' s l = true) :
    run step ok' s ls = some s' := by
  induction ls generalizing s with
  | nil => exact h
  | cons l ls ih =>
    obtain ⟨hl, s1, hs1, hrest⟩ := run_cons h
    rw [run, if_pos (hok s l hl), hs1]
    exact ih hrest

/-- what the start has, and every step of the run hands on, holds after each prefix of the run -/
theorem run_take_invariant {step : σ → ι → Option σ} {ok : σ → ι → Bool} {start : σ}
    {ls : List ι} {P : Nat → σ → Prop} (h0 : P 0 start)
    (hstep : ∀ n x l y, run step ok start (ls.take n) = some x → P n x → ls[n]? = some l →
      step x l = some y → P (n + 1) y)
    {n : Nat} {x : σ} (hn : n ≤ ls.length) (hx : run step ok start (ls.take n) = some x) :
    P n x := by
  induction n generalizing x with
  | zero =>
    cases hx
    exact h0
  | succ n ih =>
    have hl : ls[n]? = some ls[n] := List.getElem?_eq_getElem hn
    rw [List.take_add_one, hl, run_append] at hx
    obtain ⟨y, hy, hlast⟩ := Option.bind_eq_some_iff.mp hx
    rw [Option.toList_some, run] at hlast
    split_ifs at hlast
    obtain ⟨z, hz, hend⟩ := Option.bind_eq_some_iff.mp hlast
    cases hend
    exact hstep n y _ _ hy (ih (Nat.le_of_lt hn) hy) hl hz

/-- good steps keep `Inv`, which gives `P`, and a bad step from `Inv` breaks `P`: then `P` holds
in all states of a run exactly when every step is good where it is taken -/
theorem run_states_iff {step : σ → ι → Option σ} {ok : σ → ι → Bool} (allowed : ι → Prop)
    (good : σ → ι → Prop) {I P : σ → Prop} (hP : ∀ s, I s → P s)
    (hgood : ∀ s l s', I s → allowed l → good s l → step s l = some s' → I s')
    (hbad : ∀ s l s', I s → allowed l → ¬ good s l → step s l = some s' → ¬ P s')
    {s s' : σ} {ls : List ι} (h0 : I s) (hall : ∀ l ∈ ls, allowed l)
    (hr : run step ok s ls = some s') :
    (∀ n x, run step ok s (ls.take n) = some x → P x) ↔
      ∀ n x l, run step ok s (ls.take n) = some x → ls[n]? = some l → good x l := by
  induction ls generalizing s with
  | nil =>
    refine ⟨fun _ n x l _ hl => (by simp at hl), fun _ n x hx => ?_⟩
    rw [List.take_nil] at hx
    cases hx
    exact hP s h0
  | cons l ls ih =>
    obtain ⟨hok, s1, hs1, hrest⟩ := run_cons hr
    have hl0 : allowed l := hall l List.mem_cons_self
    have hhead : ∀ n x, run step ok s ((l :: ls).take (n + 1)) = some x ↔
        run step ok s1 (ls.take n) = some x := by
      intro n x
      rw [List.take_succ_cons, run, if_pos hok, hs1]
      rfl
    by_cases hl : good s l
    · have h1 := ih (hgood s l s1 h0 hl0 hl hs1)
        (fun l' hl' => hall l' (List.mem_cons_of_mem _ hl')) hrest
      constructor
      · intro h n x l' hx hl'
        cases n with
        | zero =>
          cases hx
          cases hl'
          exact hl
        | succ n =>
          exact h1.mp (fun n x hx => h (n + 1) x ((hhead n x).mpr hx)) n x l'
            ((hhead n x).mp hx) hl'
      · intro h n x hx
        cases n with
        | zero =>
          cases hx
          exact hP s h0
        | succ n =>
          exact h1.mpr (fun n x l' hx hl' => h (n + 1) x l' ((hhead n x).mpr hx) hl') n x
            ((hhead n x).mp hx)
    · constructor
      · intro h
        have hb : P s1 := h 1 s1 ((hhead 0 s1).mpr rfl)
        exact absurd hb (hbad s l s1 h0 hl0 hl hs1)
      · intro h
        exact absurd (h 0 s l rfl rfl) hl

/-- the same with a condition on the label only -/
theorem run_prefixes_iff {step : σ → ι → Option σ} {ok : σ → ι → Bool} (good : ι → Prop)
    {Inv P : σ → Prop} (hP : ∀ s, Inv s → P s)
    (hgood : ∀ s l s', Inv s → good l → step s l = some s' → Inv s')
    (hbad : ∀ s l s', Inv s → ¬ good l → step s l = some s' → ¬ P s')
    {s s' : σ} {ls : List ι} (h0 : Inv s) (hr : run step ok s ls = some s') :
    (∀ n x, run step ok s (ls.take n) = some x → P x) ↔ ∀ l ∈ ls, good l := by
  rw [run_states_iff (fun _ => True) (fun _ => good) hP
    (fun s l s' hs _ => hgood s l s' hs) (fun s l s' hs _ => hbad s l s' hs) h0
    (fun _ _ => trivial) hr]
  constructor
  · intro h l hl
    obtain ⟨n, hn⟩ := List.mem_iff_getElem?.mp hl
    have hprefix := run_append step ok s (ls.take n) (ls.drop n)
    rw [List.take_append_drop, hr] at hprefix
    obtain ⟨x, hx, _⟩ := Option.bind_eq_some_iff.mp hprefix.symm
    exact h n x l hx hn
  · intro h n x l _ hl
    exact h l (List.mem_of_getElem? hl)

/-- checked steps keep `Inv`, a step that fails the check leads to `Bad`, and `Bad` is final -/
theorem run_checked_cases {step : σ → ι → Option σ} {ok : σ → ι → Bool} {Inv Bad : σ → Prop}
    (hgood : ∀ s l s', Inv s → ok s l = true → step s l = some s' → Inv s')
    (hbad : ∀ s l s', Inv s → ok s l = false → step s l = some s' → Bad s')
    (hfinal : ∀ s l s', Bad s → step s l = some s' → Bad s')
    {s s' : σ} {ls : List ι} (h0 : Inv s) (hr : run step (fun _ _ => true) s ls = some s') :
    (run step ok s ls = some s' ∧ Inv s') ∨ (run step ok s ls = none ∧ Bad s') := by
  have hrest : ∀ (ls : List ι) (s : σ), Bad s →
      run step (fun _ _ => true) s ls = some s' → Bad s' := by
    intro ls
    induction ls with
    | nil =>
      intro s hs hr
      cases hr
      exact hs
    | cons l ls ih =>
      intro s hs hr
      obtain ⟨s1, hs1, hr1⟩ := Option.bind_eq_some_iff.mp hr
      exact ih s1 (hfinal s l s1 hs hs1) hr1
  induction ls generalizing s with
  | nil =>
    cases hr
    exact .inl ⟨rfl, h0⟩
  | cons l ls ih =>
    obtain ⟨s1, hs1, hr1⟩ := Option.bind_eq_some_iff.mp hr
    cases hok : ok s l with
    | true =>
      have hstep : run step ok s (l :: ls) = run step ok s1 ls := by
        rw [run, if_pos hok, hs1]
        rfl
      rw [hstep]
      exact ih (hgood s l s1 h0 hok hs1) hr1
    | false =>
      refine .inr ⟨?_, hrest ls s1 (hbad s l s1 h0 hok hs1) hr1⟩
      rw [run, hok]
      rfl

end

end Steps

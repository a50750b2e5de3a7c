import Mathlib

/-!
# Programs that raise

Programs over a state that survives an exception, with calls on an environment that may raise.

* `Ends`                    what holds of each way a program ends: returned, or raised;
* `Ends.bind`, `Ends.tryCatch`, `Ends.finally`, `Ends.observing`   the rules, one per construct;
* `Traced`, `record`, `call`   a state with the log of the calls, which the environment answers.
-/

namespace Attempts

variable {ε σ α β : Type}

/-! ## the ways a program ends -/

/-- from `s` the program returns with `Q`, or raises with `E` -/
def Ends (x : EStateM ε σ α) (s : σ) (Q : α → σ → Prop) (E : ε → σ → Prop) : Prop :=
  match x s with
  | .ok a s' => Q a s'
  | .error e s' => E e s'

section
variable {x : EStateM ε σ α} {f : α → EStateM ε σ β} {s : σ} {Q P : α → σ → Prop}
  {R : β → σ → Prop} {E F : ε → σ → Prop}

theorem Ends.mono (h : Ends x s Q E) (hQ : ∀ a s', Q a s' → P a s')
    (hE : ∀ e s', E e s' → F e s') : Ends x s P F := by
  unfold Ends at h ⊢
  split at h
  · exact hQ _ _ h
  · exact hE _ _ h

theorem Ends.and {Q₂ : α → σ → Prop} {E₂ : ε → σ → Prop} (h : Ends x s Q E) (h₂ : Ends x s Q₂ E₂) :
    Ends x s (fun a s' => Q a s' ∧ Q₂ a s') fun e s' => E e s' ∧ E₂ e s' := by
  unfold Ends at h h₂ ⊢
  cases hrun : x s with
  | ok a s' =>
    rw [hrun] at h h₂
    exact ⟨h, h₂⟩
  | error e s' =>
    rw [hrun] at h h₂
    exact ⟨h, h₂⟩

theorem Ends.ok {a : α} {s' : σ} (h : Ends x s Q E) (hrun : x s = .ok a s') : Q a s' := by
  unfold Ends at h
  rw [hrun] at h
  exact h

theorem Ends.error {e : ε} {s' : σ} (h : Ends x s Q E) (hrun : x s = .error e s') : E e s' := by
  unfold Ends at h
  rw [hrun] at h
  exact h

theorem Ends.pure {a : α} (h : Q a s) : Ends (pure a) s Q E := h

theorem Ends.throw {e : ε} (h : E e s) : Ends (throw e : EStateM ε σ α) s Q E := h

theorem Ends.get {Q : σ → σ → Prop} (h : Q s s) : Ends (get : EStateM ε σ σ) s Q E := h

theorem Ends.modify {g : σ → σ} {Q : PUnit → σ → Prop} (h : Q ⟨⟩ (g s)) :
    Ends (modify g : EStateM ε σ PUnit) s Q E := h

theorem Ends.bind (hx : Ends x s Q E) (hf : ∀ a s', Q a s' → Ends (f a) s' R E) :
    Ends (x >>= f) s R E := by
  unfold Ends at hx
  change match EStateM.bind x f s with | .ok b s' => R b s' | .error e s' => E e s'
  unfold EStateM.bind
  cases hrun : x s with
  | ok a s' =>
    rw [hrun] at hx
    exact hf a s' hx
  | error e s' =>
    rw [hrun] at hx
    exact hx

theorem Ends.map {g : α → β} (hx : Ends x s (fun a s' => R (g a) s') E) : Ends (g <$> x) s R E := by
  rw [map_eq_pure_bind]
  exact hx.bind fun _ _ h => .pure h

theorem Ends.ite {y : EStateM ε σ α} {p : Prop} [Decidable p] (ht : p → Ends x s Q E)
    (hf : ¬p → Ends y s Q E) : Ends (if p then x else y) s Q E := by
  split
  · exact ht ‹_›
  · exact hf ‹_›

/-- the handler starts in the state that the raising program left -/
theorem Ends.tryCatch {h : ε → EStateM ε σ α} (hx : Ends x s Q F)
    (hh : ∀ e s', F e s' → Ends (h e) s' Q E) : Ends (tryCatch x h) s Q E := by
  unfold Ends at hx
  change match EStateM.tryCatch x h s with | .ok b s' => Q b s' | .error e s' => E e s'
  unfold EStateM.tryCatch
  cases hrun : x s with
  | ok a s' =>
    rw [hrun] at hx
    exact hx
  | error e s' =>
    rw [hrun] at hx
    exact hh e s' hx

/-- the last part runs either way; an exception of its own replaces the earlier one -/
theorem Ends.finally {y : EStateM ε σ β} (hx : Ends x s P F)
    (hok : ∀ a s', P a s' → Ends y s' (fun _ s'' => Q a s'') E)
    (herror : ∀ e s', F e s' → Ends y s' (fun _ s'' => E e s'') E) :
    Ends (tryFinally x y) s Q E := by
  refine .map ?_
  unfold Ends at hx
  simp only [Ends, tryFinally']
  cases hrun : x s with
  | ok a s' =>
    rw [hrun] at hx
    have hy := hok a s' hx
    unfold Ends at hy
    cases hlast : y s' <;> simpa only [hlast] using hy
  | error e s' =>
    rw [hrun] at hx
    have hy := herror e s' hx
    unfold Ends at hy
    cases hlast : y s' <;> simpa only [hlast] using hy

/-- the outcome as a value: nothing is raised -/
theorem Ends.observing {R : Except ε α → σ → Prop} (hx : Ends x s (fun a => R (.ok a))
    fun e => R (.error e)) : Ends (observing x) s R E :=
  .tryCatch (.map hx) fun _ _ h => .pure h

end

/-! ## calls on an environment -/

/-- a state with the calls made so far, the first one first -/
structure Traced (σ κ : Type) where
  state : σ
  calls : List κ

section
variable {κ : Type}

/-- log a call; the calls before it are what the environment answers from -/
def record (c : κ) : EStateM ε (Traced σ κ) (List κ) :=
  modifyGet fun t => (t.calls, { t with calls := t.calls ++ [c] })

/-- a call that may raise -/
def call (raises : List κ → κ → Option ε) (c : κ) : EStateM ε (Traced σ κ) Unit := do
  match raises (← record c) c with
  | some e => throw e
  | none => pure ()

variable {c : κ} {t : Traced σ κ} {raises : List κ → κ → Option ε} {E : ε → Traced σ κ → Prop}

theorem Ends.record {Q : List κ → Traced σ κ → Prop}
    (h : Q t.calls { t with calls := t.calls ++ [c] }) : Ends (record c) t Q E := h

theorem Ends.call {Q : Unit → Traced σ κ → Prop}
    (hok : raises t.calls c = none → Q () { t with calls := t.calls ++ [c] })
    (herror : ∀ e, raises t.calls c = some e → E e { t with calls := t.calls ++ [c] }) :
    Ends (call raises c) t Q E := by
  refine .bind (Q := fun history t' => history = t.calls ∧ t' = { t with calls := t.calls ++ [c] })
    (.record ⟨rfl, rfl⟩) ?_
  rintro _ _ ⟨rfl, rfl⟩
  cases hraises : raises t.calls c with
  | none => exact .pure (hok hraises)
  | some e => exact .throw (herror e hraises)

end

end Attempts

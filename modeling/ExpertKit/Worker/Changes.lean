import ExpertKit.Worker.Manager

/-!
# Worker: the changes that the Manager reports

Which experts are READY changes only together with a reported change of that expert.

* `Emits`              what the reported changes of an operation say about READY experts;
* `Emits.applyTargets`, `Emits.finishReady`, `Emits.finishFailure`, `Emits.loadEnded`,
  `Emits.finishRemoval`   the operations.
-/

namespace ExpertKit.Worker
open Std

namespace WeightManager
variable {m m' : WeightManager} {changes : List ExpertStateChange} {key k : ExpertKey}

/-- the expert is recorded READY -/
def Ready (m : WeightManager) (k : ExpertKey) : Prop := m.states[k]? = some .ready

/-- each change says whether its expert is READY afterwards, and no other expert changed that -/
structure Emits (m m' : WeightManager) (changes : List ExpertStateChange) : Prop where
  config : m'.config = m.config
  generation : ∀ change ∈ changes, change.placementGeneration = m'.placementGeneration
  inShape : ∀ change ∈ changes, m.config.inShape change.key = true
  agree : ∀ change ∈ changes, change.state = .ready ↔ m'.Ready change.key
  kept : ∀ k, (∀ change ∈ changes, change.key ≠ k) → (m'.Ready k ↔ m.Ready k)

theorem Emits.none (hconfig : m'.config = m.config) (h : ∀ k, m'.Ready k ↔ m.Ready k) :
    Emits m m' [] :=
  ⟨hconfig, by simp, by simp, by simp, fun k _ => h k⟩

theorem Emits.same (m : WeightManager) : Emits m m [] := .none rfl fun _ => Iff.rfl

/-! ## one state -/

theorem mem_setState {change : ExpertStateChange} {state : LocalState}
    (h : change ∈ (m.setState key state).2) : change = ⟨m.placementGeneration, key, state⟩ := by
  unfold setState at h
  split_ifs at h
  · cases h
  · exact List.mem_singleton.mp h

theorem setState_changed (m : WeightManager) (key : ExpertKey) (state : LocalState) :
    ⟨m.placementGeneration, key, state⟩ ∈ (m.setState key state).2 ∨
      m.states[key]? = some state := by
  unfold setState
  split_ifs with h
  · exact .inr h
  · exact .inl List.mem_cons_self

theorem Emits.setState (m : WeightManager) {state : LocalState}
    (hshape : m.config.inShape key = true) :
    Emits m (m.setState key state).1 (m.setState key state).2 := by
  obtain ⟨loads, states, hcore⟩ := m.setState_core key state
  have hstates := m.setState_states key state
  refine ⟨by rw [hcore], fun change hc => ?_, fun change hc => ?_, fun change hc => ?_,
    fun k hk => ?_⟩
  · rw [mem_setState hc, hcore]
  · rw [mem_setState hc]
    exact hshape
  · rw [mem_setState hc]
    unfold Ready
    rw [hstates, if_pos rfl, Option.some.injEq]
  · unfold Ready
    rw [hstates]
    split_ifs with he
    · subst he
      rcases setState_changed m key state with hin | heq
      · exact absurd rfl (hk _ hin)
      · rw [heq]
    · rfl

/-! ## loads -/

theorem Emits.finishReady (hok : ManagerOk m) (key : ExpertKey) :
    Emits m (m.finishReady key).1 (m.finishReady key).2 := by
  rcases m.finishReady_cases key with ⟨heq, _⟩ | ⟨ht, _, heq | ⟨bytes, heq⟩⟩ <;> rw [heq]
  · exact .same m
  · exact .setState m (hok.targets_shape key ht)
  · -- the ready objects and their bytes are no part of the states
    have h := @Emits.setState key { m with
      readyKeys := m.readyKeys.insert key, loadedDeviceBytes := bytes } .ready
      (hok.targets_shape key ht)
    exact ⟨h.config, h.generation, h.inShape, h.agree, h.kept⟩

theorem Emits.finishFailure (hok : ManagerOk m) (key : ExpertKey) (failure : LoadFailure) :
    Emits m (m.finishFailure key failure).1 (m.finishFailure key failure).2 := by
  rcases m.finishFailure_cases key failure with heq | ⟨ht, _, heq⟩ <;> rw [heq]
  · exact .same m
  · exact .setState m (hok.targets_shape key ht)

theorem Emits.loadEnded (hok : ManagerOk m) (key : ExpertKey) (cancelled : Bool) :
    Emits m (m.loadEnded key cancelled) [] := by
  rcases m.loadEnded_cases key cancelled with ⟨loads, heq⟩ | ⟨hnot, loads, heq⟩ <;> rw [heq]
  · exact .none rfl fun _ => Iff.rfl
  · refine .none rfl fun k => ?_
    show (m.states.erase key)[k]? = some .ready ↔ m.states[k]? = some .ready
    rw [Maps.getElem?_erase_eq]
    split_ifs with he
    · subst he
      rw [hok.ready_iff] at hnot
      exact ⟨nofun, fun h => absurd h hnot⟩
    · rfl

/-! ## target lists -/

theorem mem_dropTargets {change : ExpertStateChange} {l : List ExpertKey}
    (h : change ∈ (m.dropTargets l).2) : change.placementGeneration = m.placementGeneration ∧
      change.state = .removed ∧ change.key ∈ l ∧ change.key ∉ m.readyKeys := by
  induction l generalizing m with
  | nil => cases h
  | cons key l ih =>
    rcases List.mem_append.mp (show change ∈ (m.dropTarget key).2
      ++ ((m.dropTarget key).1.dropTargets l).2 from h) with h | h
    · unfold dropTarget at h
      split_ifs at h with hr
      · cases h
      · rw [mem_setState h]
        exact ⟨rfl, rfl, List.mem_cons_self, hr⟩
    · obtain ⟨hgen, hstate, hkey, hr⟩ := ih h
      obtain ⟨loads, states, hcore⟩ := m.dropTarget_core key
      rw [hcore] at hgen hr
      exact ⟨hgen, hstate, List.mem_cons_of_mem _ hkey, hr⟩

/-- a new list removes no READY expert -/
theorem Emits.install (hok : ManagerOk m) (generation : Nat)
    (resolved : ExtTreeMap ExpertKey TargetExpert) :
    Emits m (m.install generation resolved).1 (m.install generation resolved).2 := by
  obtain ⟨⟨loads, states, hcore⟩, hstates⟩ := m.install_spec generation resolved
  have hready : ∀ k, (m.install generation resolved).1.Ready k ↔ m.Ready k := by
    intro k
    have hiff := hok.ready_iff k
    unfold Ready
    rw [hstates]
    split_ifs with h1 h2 h3
    · rfl
    · exact ⟨nofun, fun h => absurd (hiff.mpr h) h1⟩
    · exact ⟨nofun, fun h => absurd (hiff.mpr h) h1⟩
    · rfl
  have hdrop : ∀ change ∈ (m.install generation resolved).2, _ :=
    fun change hc => mem_dropTargets (m := { m with
      placementGeneration := generation, targets := resolved }) hc
  refine ⟨by rw [hcore]; rfl, fun change hc => ?_, fun change hc => ?_, fun change hc => ?_,
    fun k _ => hready k⟩
  · rw [(hdrop change hc).1, hcore]
    rfl
  · have hkey := (hdrop change hc).2.2.1
    exact hok.targets_shape _ (ExtTreeMap.mem_keys.mp (List.mem_of_mem_filter hkey))
  · obtain ⟨_, hstate, _, hnot⟩ := hdrop change hc
    rw [hstate, hready]
    exact ⟨nofun, fun h => absurd ((hok.ready_iff _).mpr h) hnot⟩

theorem Emits.applyTargets {generation : Nat} {targets : List TargetExpert} {applied : Bool}
    (hok : ManagerOk m) (h : m.applyTargets generation targets = .ok (applied, m', changes)) :
    Emits m m' changes ∧ ManagerOk m' ∧ m.placementGeneration ≤ m'.placementGeneration ∧
      (m' = m ∧ changes = [] ∨ m'.placementGeneration = generation ∧ 0 < generation) := by
  obtain ⟨resolved, hv, hpos, ⟨_, rfl, rfl, _⟩ | ⟨_, hlt, _, hinst⟩⟩ := applyTargets_cases h
  · exact ⟨.same _, hok, Nat.le_refl _, .inl ⟨rfl, rfl⟩⟩
  · obtain ⟨rfl, rfl⟩ := Prod.mk.inj hinst
    obtain ⟨loads, states, hcore⟩ := (m.install_spec generation resolved).1
    have hgen : (m.install generation resolved).1.placementGeneration = generation := by
      rw [hcore]
      rfl
    exact ⟨.install hok generation resolved, hok.install generation (validateTargets_spec hv).1,
      (hlt.trans_eq hgen.symm).le, .inr ⟨hgen, hpos⟩⟩

/-! ## removals -/

theorem mem_setRemoved {change : ExpertStateChange} {l : List ExpertKey}
    (h : change ∈ (m.setRemoved l).2) : change.placementGeneration = m.placementGeneration ∧
      change.state = .removed ∧ change.key ∈ l := by
  induction l generalizing m with
  | nil => cases h
  | cons key l ih =>
    rcases List.mem_append.mp (show change ∈ (m.setState key .removed).2
      ++ ((m.setState key .removed).1.setRemoved l).2 from h) with h | h
    · rw [mem_setState h]
      exact ⟨rfl, rfl, List.mem_cons_self⟩
    · obtain ⟨hgen, hstate, hkey⟩ := ih h
      obtain ⟨loads, states, hcore⟩ := m.setState_core key .removed
      rw [hcore] at hgen
      exact ⟨hgen, hstate, List.mem_cons_of_mem _ hkey⟩

/-- every key gets a change, unless it was REMOVED before -/
theorem setRemoved_changed {l : List ExpertKey} (hk : k ∈ l) :
    (∃ change ∈ (m.setRemoved l).2, change.key = k) ∨ m.states[k]? = some .removed := by
  induction l generalizing m with
  | nil => cases hk
  | cons key l ih =>
    have happ : (m.setRemoved (key :: l)).2 = (m.setState key .removed).2
      ++ ((m.setState key .removed).1.setRemoved l).2 := rfl
    rw [happ]
    by_cases he : key = k
    · subst he
      rcases setState_changed m key .removed with h | h
      · exact .inl ⟨_, List.mem_append_left _ h, rfl⟩
      · exact .inr h
    · rcases ih (m := (m.setState key .removed).1)
        (List.mem_of_ne_of_mem (Ne.symm he) hk) with ⟨change, hc, hkey⟩ | h
      · exact .inl ⟨change, List.mem_append_right _ hc, hkey⟩
      · rw [setState_states, if_neg he] at h
        exact .inr h

theorem Emits.finishRemoval {request : RemovalRequest}
    (hshape : ∀ k ∈ request.keys, m.config.inShape k = true) :
    Emits m (m.finishRemoval request).1 (m.finishRemoval request).2 := by
  obtain ⟨⟨bytes, ready, states, hcore⟩, _, hstates⟩ := m.finishRemoval_spec request
  obtain ⟨bytes', ready', heq, _⟩ := foldl_releaseReady m (m.withdrawn request)
  have hchanges : (m.finishRemoval request).2
    = (((m.withdrawn request).foldl releaseReady m).setRemoved request.keys).2 := rfl
  rw [heq] at hchanges
  have hremoved : ∀ change ∈ (m.finishRemoval request).2,
      change.placementGeneration = m.placementGeneration ∧
        change.state = .removed ∧ change.key ∈ request.keys := by
    intro change hc
    rw [hchanges] at hc
    exact mem_setRemoved (m := { m with
      readyKeys := ready', loadedDeviceBytes := bytes' }) hc
  refine ⟨by rw [hcore], fun change hc => ?_, fun change hc => ?_, fun change hc => ?_,
    fun k hk => ?_⟩
  · rw [(hremoved change hc).1, hcore]
  · exact hshape _ (hremoved change hc).2.2
  · obtain ⟨_, hstate, hkey⟩ := hremoved change hc
    unfold Ready
    rw [hstate, hstates, if_pos hkey]
    exact ⟨nofun, nofun⟩
  · unfold Ready
    rw [hstates]
    split_ifs with hin
    · rcases setRemoved_changed hin with ⟨change, hc, hkey⟩ | hremovedBefore
      · exact absurd hkey (hk change (hchanges ▸ hc))
      · rw [show m.states[k]? = some .removed from hremovedBefore]
    · rfl

end WeightManager
end ExpertKit.Worker

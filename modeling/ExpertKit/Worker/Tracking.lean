import ExpertKit.Worker.Consistency

/-!
# Worker: every load is tracked to its end

Which runs of a `LiveManager` keep their load tasks in order.  A task that is cancelled before its
first step, or while it waits for the lock in `_load_ended`, leaves its entry in `_load_tasks` for
good; a list that is applied between the result of a load and the end of its task takes the result
away without starting another load; and a load whose `acquire` raises anything but
`WeightLoadFailed` ends without a result.

* `tracked`             the steps that do none of this;
* `Tracked`, `Tracked.step`   the invariant such steps keep;
* `loadWork`, `TaskStep.loadWork_lt`   the steps the running loads still have;
* `loads_tracked`       what holds in every run of such steps;
* `settled_targets`     when the loads are over, every target is READY or met a full device.
-/

set_option linter.unusedSectionVars false

namespace ExpertKit.Worker
open Std

/-! ## what the operations do to the loads -/

namespace WeightManager

theorem setState_loads (m : WeightManager) (key : ExpertKey) (state : LocalState) :
    (m.setState key state).1.loadTasks = m.loadTasks := by
  unfold setState
  split_ifs <;> rfl

theorem cancelLoad_loads (m : WeightManager) (key k : ExpertKey) :
    (m.cancelLoad key).loadTasks[k]?
      = if key = k then m.loadTasks[k]?.map fun _ => true else m.loadTasks[k]? := by
  unfold cancelLoad
  by_cases hc : m.loadTasks.contains key = true
  · simp only [hc, if_true, Maps.getElem?_insert_eq]
    split_ifs with hk
    · subst hk
      obtain ⟨b, hb⟩ := mem_iff_getElem?.mp (ExtTreeMap.contains_iff_mem.mp hc)
      rw [hb]
      rfl
    · rfl
  · simp only [hc, Bool.false_eq_true, if_false]
    split_ifs with hk
    · subst hk
      have hnone : m.loadTasks[key]? = none :=
        ExtTreeMap.getElem?_eq_none (fun h => hc (ExtTreeMap.contains_iff_mem.mpr h))
      rw [hnone]
      rfl
    · rfl

theorem dropTarget_loads (m : WeightManager) (key k : ExpertKey) :
    (m.dropTarget key).1.loadTasks[k]?
      = if key = k then m.loadTasks[k]?.map fun _ => true else m.loadTasks[k]? := by
  unfold dropTarget
  split_ifs
  all_goals simp_all [setState_loads, cancelLoad_loads]

theorem dropTargets_loads (m : WeightManager) (l : List ExpertKey) (k : ExpertKey) :
    (m.dropTargets l).1.loadTasks[k]?
      = if k ∈ l then m.loadTasks[k]?.map fun _ => true else m.loadTasks[k]? := by
  induction l generalizing m with
  | nil => simp [dropTargets]
  | cons key l ih =>
    show ((m.dropTarget key).1.dropTargets l).1.loadTasks[k]? = _
    have hmem : k ∈ key :: l ↔ key = k ∨ k ∈ l := by rw [List.mem_cons, eq_comm]
    rw [ih, dropTarget_loads]
    simp only [hmem]
    by_cases h1 : k ∈ l <;> by_cases h2 : key = k <;> simp [h1, h2, Option.map_map]

theorem addTarget_loads (m : WeightManager) (key k : ExpertKey) :
    (m.addTarget key).loadTasks[k]?
      = if key = k ∧ k ∉ m.readyKeys ∧ k ∉ m.loadTasks ∧ m.shuttingDown = false then some false
        else m.loadTasks[k]? := by
  unfold addTarget
  by_cases hr : key ∈ m.readyKeys
  · rw [if_pos hr, if_neg]
    rintro ⟨rfl, h, _⟩
    exact h hr
  · rw [if_neg hr]
    by_cases hc : key ∈ m.loadTasks
    · have hc' : m.loadTasks.contains key = true := ExtTreeMap.contains_iff_mem.mpr hc
      simp only [hc', Bool.not_true, Bool.false_and, Bool.false_eq_true, if_false]
      rw [if_neg]
      rintro ⟨rfl, _, h, _⟩
      exact h hc
    · have hc' : m.loadTasks.contains key = false := by
        rw [← Bool.not_eq_true, ExtTreeMap.contains_iff_mem]
        exact hc
      cases hs : m.shuttingDown with
      | true => simp [hc']
      | false =>
        simp only [hc', Bool.not_false, Bool.and_self, if_true, Maps.getElem?_insert_eq,
          and_true]
        by_cases hk : key = k
        · subst hk
          simp [hr, hc]
        · simp [hk]

theorem addTarget_shuttingDown (m : WeightManager) (key : ExpertKey) :
    (m.addTarget key).shuttingDown = m.shuttingDown := by
  obtain ⟨_, _, h⟩ := m.addTarget_core key
  rw [h]

theorem foldl_addTarget_loads (m : WeightManager) (l : List ExpertKey) (k : ExpertKey) :
    (l.foldl addTarget m).loadTasks[k]?
      = if k ∈ l ∧ k ∉ m.readyKeys ∧ k ∉ m.loadTasks ∧ m.shuttingDown = false then some false
        else m.loadTasks[k]? := by
  induction l generalizing m with
  | nil => simp
  | cons key l ih =>
    have hmem : k ∈ key :: l ↔ key = k ∨ k ∈ l := by rw [List.mem_cons, eq_comm]
    have hin : k ∈ (m.addTarget key).loadTasks ↔ k ∈ m.loadTasks ∨
        (key = k ∧ k ∉ m.readyKeys ∧ m.shuttingDown = false) := by
      rw [mem_iff_getElem?, mem_iff_getElem?, addTarget_loads]
      split_ifs with hc
      · simp [hc]
      · rw [mem_iff_getElem?] at hc
        tauto
    rw [List.foldl_cons, ih, (addTarget_core m key).readyKeys, addTarget_shuttingDown,
      addTarget_loads]
    simp only [hmem, hin]
    by_cases h1 : k ∈ l <;> by_cases h2 : key = k <;> by_cases h3 : k ∈ m.readyKeys <;>
      by_cases h4 : k ∈ m.loadTasks <;> by_cases h5 : m.shuttingDown = false <;>
      simp [h1, h2, h3, h4, h5]

/-- the loads after a new list: those of dropped experts are cancelled, and those of assigned experts
that are neither ready nor loading are started -/
theorem install_loads (m : WeightManager) (generation : Nat)
    (resolved : ExtTreeMap ExpertKey TargetExpert) (k : ExpertKey) :
    (m.install generation resolved).1.loadTasks[k]?
      = if k ∈ resolved then
          if k ∉ m.readyKeys ∧ k ∉ m.loadTasks ∧ m.shuttingDown = false then some false
          else m.loadTasks[k]?
        else if k ∈ m.targets then m.loadTasks[k]?.map fun _ => true else m.loadTasks[k]? := by
  show (resolved.keys.foldl addTarget ((m.placed generation resolved).dropTargets
    (m.targets.keys.filter (· ∉ resolved))).1).loadTasks[k]? = _
  have hdropped : k ∈ m.targets.keys.filter (· ∉ resolved) ↔ k ∈ m.targets ∧ k ∉ resolved := by
    simp [List.mem_filter]
  have hcore := dropTargets_core (m.placed generation resolved)
    (m.targets.keys.filter (· ∉ resolved))
  have hshut : ((m.placed generation resolved).dropTargets
      (m.targets.keys.filter (· ∉ resolved))).1.shuttingDown = m.shuttingDown := by
    obtain ⟨_, _, h⟩ := hcore
    rw [h]
    rfl
  have hmem : k ∈ ((m.placed generation resolved).dropTargets
      (m.targets.keys.filter (· ∉ resolved))).1.loadTasks ↔ k ∈ m.loadTasks := by
    rw [← ExtTreeMap.isSome_getElem?_iff_mem, ← ExtTreeMap.isSome_getElem?_iff_mem,
      dropTargets_loads]
    split_ifs
    · rw [Option.isSome_map]
      rfl
    · rfl
  rw [foldl_addTarget_loads, hcore.readyKeys, hshut, dropTargets_loads]
  simp only [hdropped, hmem, ExtTreeMap.mem_keys]
  show (if k ∈ resolved ∧ k ∉ m.readyKeys ∧ k ∉ m.loadTasks ∧ m.shuttingDown = false then some false
    else if k ∈ m.targets ∧ k ∉ resolved then m.loadTasks[k]?.map fun _ => true
    else m.loadTasks[k]?) = _
  by_cases h1 : k ∈ resolved
  · simp [h1]
  · by_cases h2 : k ∈ m.targets <;> simp [h1, h2]

theorem loadEnded_loads (m : WeightManager) (key k : ExpertKey) (cancelled : Bool) :
    (m.loadEnded key cancelled).loadTasks[k]?
      = if key = k then
          if cancelled = true ∧ m.shuttingDown = false ∧ key ∈ m.targets ∧ key ∉ m.readyKeys then
            some false
          else none
        else m.loadTasks[k]? := by
  unfold loadEnded
  split_ifs with h1 h2 h3
  · simp [h2]
  · simp [Maps.getElem?_insert_eq, Maps.getElem?_erase_eq, h2]
  · simp [h3]
  · simp [Maps.getElem?_erase_eq, h3]

theorem finishFailure_loads (m : WeightManager) (key : ExpertKey) (failure : LoadFailure) :
    (m.finishFailure key failure).1.loadTasks = m.loadTasks := by
  rcases m.finishFailure_cases key failure with heq | ⟨_, _, heq⟩
  · rw [heq]
  · rw [heq, setState_loads]

theorem finishReady_loads (m : WeightManager) (key : ExpertKey) :
    (m.finishReady key).1.loadTasks = m.loadTasks := by
  rcases m.finishReady_cases key with ⟨heq, _⟩ | ⟨_, _, heq | ⟨bytes, heq⟩⟩
  · rw [heq]
  · rw [heq, setState_loads]
  · rw [heq, setState_loads]

theorem setRemoved_loads (m : WeightManager) (l : List ExpertKey) :
    (m.setRemoved l).1.loadTasks = m.loadTasks := by
  induction l generalizing m with
  | nil => rfl
  | cons key l ih =>
    show ((m.setState key .removed).1.setRemoved l).1.loadTasks = _
    rw [ih, setState_loads]

end WeightManager

/-! ## the steps that keep the loads in order -/

namespace LoadPhase

/-- a cancellation at this await reaches the `finally` of `_load_one`, and then the lock -/
def interruptible : Option LoadPhase → Bool
  | none | some (.ending _) => false
  | _ => true

/-- the load has its result, and its task is about to end without starting another one -/
def settled : Option LoadPhase → Bool
  | some (.publishing true false) | some (.closing false) | some (.ending false) => true
  | _ => false

end LoadPhase

/-- the list is a valid new one, and a Manager that shuts down is not asked for new experts -/
def LiveManager.accepts (s : LiveManager) (generation : Nat) (targets : List TargetExpert) : Bool :=
  match s.manager.validateTargets targets with
  | .error _ => false
  | .ok resolved => decide (s.manager.placementGeneration < generation) &&
      !(s.manager.shuttingDown && resolved.keys.any fun key => !s.manager.targets.contains key)

/-- the list cancels no load that cannot be interrupted, and names no expert whose load has just had
its result, unless the expert is ready -/
def LiveManager.mayApply (s : LiveManager) (targets : List TargetExpert) : Bool :=
  let keys := targets.map TargetExpert.key
  (s.manager.targets.keys.all fun key =>
    keys.contains key || !s.manager.loadTasks.contains key ||
      LoadPhase.interruptible s.phases[key]?) &&
  (s.manager.shuttingDown || s.fatal || keys.all fun key =>
    s.manager.readyKeys.contains key ||
      !(s.manager.loadTasks[key]? == some false && LoadPhase.settled s.phases[key]?))

/-- a removal takes assigned experts only from a Manager that is shutting down or has died -/
def LiveManager.mayRemove (s : LiveManager) (generation : Nat) (keys : List ExpertKey)
    (whole : Bool) : Bool :=
  !whole || s.manager.shuttingDown || s.fatal ||
    decide (generation ≠ s.manager.placementGeneration) ||
    keys.all fun key => !s.manager.targets.contains key

def tracked (s : LiveManager) : LoadLabel → Bool
  | .applyTargets generation targets => !s.accepts generation targets || s.mayApply targets
  | .beginShutdown => s.manager.shuttingDown ||
      s.manager.loadTasks.keys.all fun key => LoadPhase.interruptible s.phases[key]?
  | .cancel key => LoadPhase.interruptible s.phases[key]?
  | .beginRemoval generation keys whole => s.mayRemove generation keys whole
  | .acquired _ .raised => false
  | _ => true

/-- the expert has a result, or a load that will give one or start again -/
def LiveManager.underWay (s : LiveManager) (k : ExpertKey) : Prop :=
  s.manager.states[k]? = some .ready ∨ (∃ f, s.manager.states[k]? = some (.failed f)) ∨
    (k ∈ s.manager.loadTasks ∧
      (s.manager.loadTasks[k]? = some true ∨ LoadPhase.settled s.phases[k]? = false))

/-- the task of one expert, and what it promises -/
structure KeyOk (s : LiveManager) (k : ExpertKey) : Prop where
  shape : k ∈ s.manager.loadTasks → s.manager.config.inShape k = true
  started : s.phases[k]? ≠ none → k ∈ s.manager.loadTasks
  unfinished : s.phases[k]? ≠ some .finished
  flagged : s.manager.loadTasks[k]? = some true → LoadPhase.interruptible s.phases[k]? = true
  progress : s.manager.shuttingDown = false → s.fatal = false → k ∈ s.manager.targets →
    s.underWay k

structure Tracked (s : LiveManager) : Prop where
  live : LiveOk s
  keys : ∀ k, KeyOk s k
  removing : ∀ request rest, s.removal = some (request, rest) →
    s.manager.shuttingDown = true ∨ s.fatal = true ∨ ∀ k ∈ request.keys, k ∉ s.manager.targets

theorem tracked_new (config : ManagerConfig) (fused : Bool) (limit : Nat)
    (hlimit : 0 < limit) :
    Tracked (.new config fused limit hlimit) := by
  refine ⟨liveOk_new config fused limit hlimit, fun k => ⟨?_, ?_, ?_, ?_, ?_⟩, ?_⟩
  all_goals simp [LiveManager.new, WeightManager.new]

/-! ## a step of a load -/

/-- one task moves: the others, the placement and what is recorded about them stay -/
structure TaskFrame (s : LiveManager) (key : ExpertKey) (s' : LiveManager) : Prop where
  config : s'.manager.config = s.manager.config
  targets : s'.manager.targets = s.manager.targets
  generation : s'.manager.placementGeneration = s.manager.placementGeneration
  shuttingDown : s'.manager.shuttingDown = s.manager.shuttingDown
  removal : s'.removal = s.removal
  loads : ∀ k, k ≠ key → s'.manager.loadTasks[k]? = s.manager.loadTasks[k]?
  phases : ∀ k, k ≠ key → s'.phases[k]? = s.phases[k]?
  states : ∀ k, k ≠ key → s'.manager.states[k]? = s.manager.states[k]?
  fatal : s'.fatal = false → s.fatal = false

theorem TaskFrame.of_phase {s : LiveManager} {key : ExpertKey} (phase : LoadPhase)
    (owners : ExtTreeSet ExpertKey) :
    TaskFrame s key ({ s with owners := owners }.setPhase key phase) := by
  refine ⟨rfl, rfl, rfl, rfl, rfl, fun _ _ => rfl, ?_, fun _ _ => rfl, id⟩
  intro k hk
  show (s.phases.insert key phase)[k]? = _
  rw [Maps.getElem?_insert_eq, if_neg (fun h => hk h.symm)]

theorem TaskFrame.of_manager {s : LiveManager} {key : ExpertKey} {m : WeightManager}
    (hconfig : m.config = s.manager.config) (htargets : m.targets = s.manager.targets)
    (hgen : m.placementGeneration = s.manager.placementGeneration)
    (hshut : m.shuttingDown = s.manager.shuttingDown)
    (hloads : ∀ k, k ≠ key → m.loadTasks[k]? = s.manager.loadTasks[k]?)
    (hstates : ∀ k, k ≠ key → m.states[k]? = s.manager.states[k]?)
    {s' : LiveManager} (hm : s'.manager = m) (hr : s'.removal = s.removal)
    (hf : s'.fatal = s.fatal) (hp : ∀ k, k ≠ key → s'.phases[k]? = s.phases[k]?) :
    TaskFrame s key s' := by
  refine ⟨?_, ?_, ?_, ?_, hr, ?_, hp, ?_, fun h => hf ▸ h⟩
  · rw [hm, hconfig]
  · rw [hm, htargets]
  · rw [hm, hgen]
  · rw [hm, hshut]
  · intro k hk
    rw [hm, hloads k hk]
  · intro k hk
    rw [hm, hstates k hk]

theorem getElem?_insert_ne {β : Type} {t : ExtTreeMap ExpertKey β} {key k : ExpertKey} {v : β}
    (hk : k ≠ key) : (t.insert key v)[k]? = t[k]? := by
  rw [Maps.getElem?_insert_eq, if_neg (fun h => hk h.symm)]

theorem getElem?_erase_ne {β : Type} {t : ExtTreeMap ExpertKey β} {key k : ExpertKey}
    (hk : k ≠ key) : (t.erase key)[k]? = t[k]? := by
  rw [Maps.getElem?_erase_eq, if_neg (fun h => hk h.symm)]

theorem setState_frame (m : WeightManager) (key : ExpertKey) (state : LocalState) :
    (m.setState key state).1.config = m.config ∧ (m.setState key state).1.targets = m.targets ∧
    (m.setState key state).1.placementGeneration = m.placementGeneration ∧
    (m.setState key state).1.shuttingDown = m.shuttingDown ∧
    (m.setState key state).1.loadTasks = m.loadTasks ∧
    ∀ k, k ≠ key → (m.setState key state).1.states[k]? = m.states[k]? := by
  obtain ⟨_, _, h⟩ := m.setState_core key state
  refine ⟨?_, ?_, ?_, ?_, m.setState_loads key state, ?_⟩
  · rw [h]
  · rw [h]
  · rw [h]
  · rw [h]
  · intro k hk
    rw [m.setState_states, if_neg (fun h => hk h.symm)]

theorem finishFailure_frame (m : WeightManager) (key : ExpertKey) (failure : LoadFailure) :
    (m.finishFailure key failure).1.config = m.config ∧
    (m.finishFailure key failure).1.targets = m.targets ∧
    (m.finishFailure key failure).1.placementGeneration = m.placementGeneration ∧
    (m.finishFailure key failure).1.shuttingDown = m.shuttingDown ∧
    (m.finishFailure key failure).1.loadTasks = m.loadTasks ∧
    ∀ k, k ≠ key → (m.finishFailure key failure).1.states[k]? = m.states[k]? := by
  rcases m.finishFailure_cases key failure with heq | ⟨_, _, heq⟩
  · rw [heq]
    exact ⟨rfl, rfl, rfl, rfl, rfl, fun _ _ => rfl⟩
  · rw [heq]
    exact setState_frame m key (.failed failure)

theorem finishReady_frame (m : WeightManager) (key : ExpertKey) :
    (m.finishReady key).1.config = m.config ∧ (m.finishReady key).1.targets = m.targets ∧
    (m.finishReady key).1.placementGeneration = m.placementGeneration ∧
    (m.finishReady key).1.shuttingDown = m.shuttingDown ∧
    (m.finishReady key).1.loadTasks = m.loadTasks ∧
    ∀ k, k ≠ key → (m.finishReady key).1.states[k]? = m.states[k]? := by
  rcases m.finishReady_cases key with ⟨heq, _⟩ | ⟨_, _, heq | ⟨bytes, heq⟩⟩
  · rw [heq]
    exact ⟨rfl, rfl, rfl, rfl, rfl, fun _ _ => rfl⟩
  · rw [heq]
    exact setState_frame m key _
  · rw [heq]
    exact setState_frame { m with
      readyKeys := m.readyKeys.insert key, loadedDeviceBytes := bytes } key .ready

theorem LiveManager.finishReady_eq {s : LiveManager} (h : LiveOk s) (key : ExpertKey) :
    (s.finishReady key).manager = (s.manager.finishReady key).1 ∧
    (s.finishReady key).phases = s.phases ∧ (s.finishReady key).removal = s.removal ∧
    (s.finishReady key).fatal = s.fatal := by
  unfold LiveManager.finishReady
  split_ifs with hc
  · have hempty : key ∉ s.table := fun hk => hc.2.1 ((h.table_iff key).mp hk)
    have hpub : s.table.publish key = .ok (s.table.insert key ⟨true, 0⟩) := if_neg hempty
    rw [hpub]
    exact ⟨rfl, rfl, rfl, rfl⟩
  · exact ⟨rfl, rfl, rfl, rfl⟩

theorem TaskStep.frame {s s' : LiveManager} {key : ExpertKey} {l : LoadLabel} (hok : LiveOk s)
    (h : TaskStep s key l s') : TaskFrame s key s' := by
  cases h with
  | delivered hflag hp =>
    exact ⟨rfl, rfl, rfl, rfl, rfl, fun k hk => getElem?_insert_ne hk,
      fun k hk => getElem?_insert_ne hk, fun _ _ => rfl, id⟩
  | converted source result cancelled hflag hp =>
    cases result with
    | ready =>
      cases cancelled with
      | true => exact .of_phase (.closing true) (s.owners.erase key)
      | false => exact .of_phase (.publishing false false) s.owners
    | unsupported diagnostic => exact .of_phase _ s.owners
    | internal diagnostic => exact .of_phase _ s.owners
    | fatal => exact .of_phase .settingFatal s.owners
  | claimed source cancelled owners hp hc => exact .of_phase _ owners
  | executed source work result cancelled owners hp hleft hready howners => exact .of_phase _ owners
  | failed failure leased hflag hp hfree =>
    obtain ⟨h1, h2, h3, h4, h5, h6⟩ := finishFailure_frame s.manager key failure
    exact .of_manager h1 h2 h3 h4 (fun k _ => by rw [h5]) h6 rfl rfl rfl
      fun k hk => getElem?_insert_ne hk
  | died hflag hp hfree =>
    exact ⟨rfl, rfl, rfl, rfl, rfl, fun _ _ => rfl, fun k hk => getElem?_insert_ne hk,
      fun _ _ => rfl, fun h => by cases h⟩
  | finished cancelled hp hfree =>
    obtain ⟨h1, h2, h3, h4, h5, h6⟩ := finishReady_frame s.manager key
    obtain ⟨e1, e2, e3, e4⟩ := LiveManager.finishReady_eq hok key
    refine .of_manager h1 h2 h3 h4 (fun k _ => by rw [h5]) h6 e1 e3 e4 ?_
    intro k hk
    show ((s.finishReady key).phases.insert key _)[k]? = _
    rw [getElem?_insert_ne hk, e2]
  | ended cancelled hflag hp hfree =>
    have hloads : ∀ k, k ≠ key →
        (s.manager.loadEnded key cancelled).loadTasks[k]? = s.manager.loadTasks[k]? := by
      intro k hk
      rw [WeightManager.loadEnded_loads, if_neg (fun h => hk h.symm)]
    have hphases : ∀ k, k ≠ key → (s.phases.erase key)[k]? = s.phases[k]? :=
      fun k hk => getElem?_erase_ne hk
    rcases s.manager.loadEnded_cases key cancelled with ⟨loads, heq⟩ | ⟨_, loads, heq⟩
    · refine .of_manager (m := s.manager.loadEnded key cancelled) ?_ ?_ ?_ ?_ hloads ?_ rfl rfl rfl
        hphases
      all_goals rw [heq]
      exact fun _ _ => rfl
    · refine .of_manager (m := s.manager.loadEnded key cancelled) ?_ ?_ ?_ ?_ hloads ?_ rfl rfl rfl
        hphases
      all_goals rw [heq]
      exact fun k hk => getElem?_erase_ne hk
  | _ => exact .of_phase _ s.owners

theorem KeyOk.frame {s s' : LiveManager} {key k : ExpertKey} (h : KeyOk s k)
    (hf : TaskFrame s key s') (hk : k ≠ key) : KeyOk s' k := by
  have hmem : k ∈ s'.manager.loadTasks ↔ k ∈ s.manager.loadTasks := by
    rw [mem_iff_getElem?, mem_iff_getElem?, hf.loads k hk]
  refine ⟨?_, ?_, ?_, ?_, ?_⟩
  · rw [hmem, hf.config]
    exact h.shape
  · rw [hmem, hf.phases k hk]
    exact h.started
  · rw [hf.phases k hk]
    exact h.unfinished
  · rw [hf.loads k hk, hf.phases k hk]
    exact h.flagged
  · intro hshut hfatal ht
    rw [hf.shuttingDown] at hshut
    rw [hf.targets] at ht
    have hp := h.progress hshut (hf.fatal hfatal) ht
    unfold LiveManager.underWay at hp ⊢
    rw [hmem, hf.loads k hk, hf.phases k hk, hf.states k hk]
    exact hp

/-- the load has its result: it is recorded -/
theorem KeyOk.recorded {s : LiveManager} {k : ExpertKey} (h : KeyOk s k)
    (hflag : s.manager.loadTasks[k]? = some false) (hset : LoadPhase.settled s.phases[k]? = true)
    (hshut : s.manager.shuttingDown = false) (hfatal : s.fatal = false)
    (ht : k ∈ s.manager.targets) :
    s.manager.states[k]? = some .ready ∨ ∃ f, s.manager.states[k]? = some (.failed f) := by
  rcases h.progress hshut hfatal ht with hr | hf | ⟨_, hc | hc⟩
  · exact .inl hr
  · exact .inr hf
  · rw [hflag] at hc
    cases hc
  · rw [hset] at hc
    cases hc

/-- a task goes on to another await -/
theorem KeyOk.moved {s s' : LiveManager} {key : ExpertKey} (h : KeyOk s key) {phase : LoadPhase}
    (hconfig : s'.manager.config = s.manager.config)
    (hin : key ∈ s.manager.loadTasks)
    (hloads : s'.manager.loadTasks[key]? = s.manager.loadTasks[key]?)
    (hphase : s'.phases[key]? = some phase) (hne : phase ≠ .finished)
    (hflag : s.manager.loadTasks[key]? = some true → LoadPhase.interruptible (some phase) = true)
    (hprogress : s'.manager.shuttingDown = false → s'.fatal = false → key ∈ s'.manager.targets →
      LoadPhase.settled (some phase) = false ∨ s'.manager.states[key]? = some .ready ∨
        ∃ f, s'.manager.states[key]? = some (.failed f)) : KeyOk s' key := by
  have hmem : key ∈ s'.manager.loadTasks := by
    rw [mem_iff_getElem?, hloads, ← mem_iff_getElem?]
    exact hin
  refine ⟨fun _ => hconfig ▸ h.shape hin, fun _ => hmem, ?_, ?_, ?_⟩
  · rw [hphase]
    simpa using hne
  · rw [hloads, hphase]
    exact hflag
  · intro hshut hfatal ht
    rcases hprogress hshut hfatal ht with hs | hr | hf
    · exact .inr (.inr ⟨hmem, .inr (by rw [hphase]; exact hs)⟩)
    · exact .inl hr
    · exact .inr (.inl hf)

theorem interrupted_spec {p : Option LoadPhase} (h : LoadPhase.interruptible p = true)
    (hp : p ≠ some .finished) :
    LoadPhase.interrupted p ≠ .finished ∧
      LoadPhase.settled (some (LoadPhase.interrupted p)) = false := by
  cases p with
  | none => cases h
  | some p =>
    cases p with
    | recordingFailure failure leased => cases leased <;> exact ⟨by simp [LoadPhase.interrupted], rfl⟩
    | publishing done cancelled => cases done <;> exact ⟨by simp [LoadPhase.interrupted], rfl⟩
    | ending cancelled => cases h
    | finished => exact absurd rfl hp
    | _ => exact ⟨by simp [LoadPhase.interrupted], rfl⟩

theorem getElem?_setPhase (s : LiveManager) (key : ExpertKey) (phase : LoadPhase) :
    (s.setPhase key phase).phases[key]? = some phase := by
  show (s.phases.insert key phase)[key]? = some phase
  rw [Maps.getElem?_insert_eq, if_pos rfl]

/-- a running task has nothing to deliver -/
theorem flag_false {s : LiveManager} {key : ExpertKey} {P : Prop}
    (hflag : s.manager.loadTasks[key]? = some false) :
    s.manager.loadTasks[key]? = some true → P := by
  intro h
  rw [hflag] at h
  cases h

theorem mem_of_flag {s : LiveManager} {key : ExpertKey} {b : Bool}
    (hflag : s.manager.loadTasks[key]? = some b) : key ∈ s.manager.loadTasks :=
  mem_iff_getElem?.mpr ⟨b, hflag⟩

/-- the recorded result of a settled load stays through the last awaits of its task -/
theorem KeyOk.keep {s : LiveManager} {key : ExpertKey} (h : KeyOk s key) {c : Bool}
    {phase phase' : LoadPhase} (hflag : s.manager.loadTasks[key]? = some false)
    (hp : s.phases[key]? = some phase) (hne : phase' ≠ .finished)
    (hset : LoadPhase.settled (some phase) = !c)
    (hset' : LoadPhase.settled (some phase') = !c) : KeyOk (s.setPhase key phase') key := by
  refine h.moved rfl (mem_of_flag hflag) rfl (getElem?_setPhase s key phase') hne
    (flag_false hflag) ?_
  intro hshut hfatal ht
  cases c with
  | true => exact .inl hset'
  | false => exact .inr (h.recorded hflag (by rw [hp]; exact hset) hshut hfatal ht)

theorem finishFailure_recorded {m : WeightManager} (h : CoreOk m) {key : ExpertKey}
    (failure : LoadFailure) (ht : key ∈ m.targets) :
    (m.finishFailure key failure).1.states[key]? = some .ready ∨
      ∃ f, (m.finishFailure key failure).1.states[key]? = some (.failed f) := by
  unfold WeightManager.finishFailure
  split_ifs with hc
  · exact .inl ((h.ready_iff key).mp (hc.resolve_left (not_not.mpr ht)))
  · exact .inr ⟨failure, by rw [WeightManager.setState_states, if_pos rfl]⟩

theorem finishReady_recorded {m : WeightManager} (h : CoreOk m) {key : ExpertKey}
    (ht : key ∈ m.targets) :
    (m.finishReady key).1.states[key]? = some .ready ∨
      ∃ f, (m.finishReady key).1.states[key]? = some (.failed f) := by
  unfold WeightManager.finishReady
  split_ifs with hc hfull
  · exact .inl ((h.ready_iff key).mp (hc.resolve_left (not_not.mpr ht)))
  · exact .inr ⟨_, by rw [WeightManager.setState_states, if_pos rfl]⟩
  · exact .inl (by rw [WeightManager.setState_states, if_pos rfl])

/-- the task ends: its entry goes, and a cancelled load of an expert that still needs one starts
again -/
theorem KeyOk.ended {s : LiveManager} {key : ExpertKey} (h : KeyOk s key) {cancelled : Bool}
    (hcore : CoreOk s.manager) (hflag : s.manager.loadTasks[key]? = some false)
    (hp : s.phases[key]? = some (.ending cancelled)) :
    KeyOk { s with
      manager := s.manager.loadEnded key cancelled, phases := s.phases.erase key } key := by
  have hloads := s.manager.loadEnded_loads key key cancelled
  rw [if_pos rfl] at hloads
  have hphase : (s.phases.erase key)[key]? = none := by
    rw [Maps.getElem?_erase_eq, if_pos rfl]
  by_cases hc : cancelled = true ∧ s.manager.shuttingDown = false ∧ key ∈ s.manager.targets ∧
      key ∉ s.manager.readyKeys
  · rw [if_pos hc] at hloads
    refine ⟨?_, fun hne => absurd hphase hne, ?_, ?_, ?_⟩
    · intro _
      have hshape := hcore.targets_shape key hc.2.2.1
      rcases s.manager.loadEnded_cases key cancelled with ⟨loads, heq⟩ | ⟨_, loads, heq⟩ <;>
        simpa only [heq] using hshape
    · rw [hphase]
      simp
    · intro hf
      rw [hloads] at hf
      cases hf
    · intro _ _ _
      refine .inr (.inr ⟨mem_iff_getElem?.mpr ⟨false, hloads⟩, .inr ?_⟩)
      rw [hphase]
      rfl
  · rw [if_neg hc] at hloads
    have hnot : key ∉ (s.manager.loadEnded key cancelled).loadTasks := by
      rw [mem_iff_getElem?, hloads]
      simp
    refine ⟨fun hin => absurd hin hnot, fun hne => absurd hphase hne, ?_, ?_, ?_⟩
    · rw [hphase]
      simp
    · intro hf
      rw [hloads] at hf
      cases hf
    · have heq : s.manager.loadEnded key cancelled
          = { s.manager with loadTasks := s.manager.loadTasks.erase key } := by
        unfold WeightManager.loadEnded
        rw [if_neg hc]
      simp only [heq]
      intro hshut hfatal ht
      cases cancelled with
      | true =>
        have hr : key ∈ s.manager.readyKeys := by
          by_contra hr
          exact hc ⟨rfl, hshut, ht, hr⟩
        exact .inl ((hcore.ready_iff key).mp hr)
      | false =>
        rcases h.recorded hflag (by rw [hp]; rfl) hshut hfatal ht with hr | hf
        · exact .inl hr
        · exact .inr (.inl hf)

theorem KeyOk.task {s s' : LiveManager} {key : ExpertKey} {l : LoadLabel} (hok : LiveOk s)
    (h : KeyOk s key) (htr : tracked s l = true) (ht : TaskStep s key l s') : KeyOk s' key := by
  cases ht with
  | delivered hflag hp =>
    obtain ⟨hne, hset⟩ := interrupted_spec (h.flagged hflag) hp
    have hload : (s.manager.loadTasks.insert key false)[key]? = some false := by
      rw [Maps.getElem?_insert_eq, if_pos rfl]
    have hphase : (s.phases.insert key (LoadPhase.interrupted s.phases[key]?))[key]?
        = some (LoadPhase.interrupted s.phases[key]?) := by
      rw [Maps.getElem?_insert_eq, if_pos rfl]
    have hmem : key ∈ s.manager.loadTasks.insert key false := mem_iff_getElem?.mpr ⟨false, hload⟩
    refine ⟨fun _ => h.shape (mem_of_flag hflag), fun _ => hmem, ?_, ?_, ?_⟩
    · rw [hphase]
      simpa using hne
    · exact fun hf => by rw [hload] at hf; cases hf
    · intro _ _ _
      exact .inr (.inr ⟨hmem, .inr (by rw [hphase]; exact hset)⟩)
  | started hflag hp | admitted hflag hp | assigned hflag hp hfree _ | leased _ hflag hp
  | refused _ hflag hp =>
    exact h.moved rfl (mem_of_flag hflag) rfl (getElem?_setPhase s key _) (by simp)
      (flag_false hflag) fun _ _ _ => .inl rfl
  | raised hflag hp => cases htr
  | unassigned hflag hp hfree ht =>
    exact h.moved rfl (mem_of_flag hflag) rfl (getElem?_setPhase s key _) (by simp)
      (flag_false hflag) fun _ _ h => absurd h ht
  | claimed _ _ _ hp _ | unclaimed _ _ _ hp _ _ | executed _ _ _ _ _ hp _ _ _ =>
    have hin := h.started (by simp [hp])
    exact h.moved rfl hin rfl (getElem?_setPhase _ key _) (by simp) (fun _ => rfl)
      fun _ _ _ => .inl rfl
  | converted source result cancelled hflag hp =>
    have hmove : ∀ (phase : LoadPhase) (owners : ExtTreeSet ExpertKey), phase ≠ .finished →
        LoadPhase.settled (some phase) = false →
        KeyOk ({ s with owners := owners }.setPhase key phase) key := by
      intro phase owners hne hset
      exact h.moved rfl (mem_of_flag hflag) rfl (getElem?_setPhase _ key phase) hne
        (flag_false hflag) fun _ _ _ => .inl hset
    cases result with
    | ready =>
      cases cancelled with
      | true => exact hmove (.closing true) (s.owners.erase key) (by simp) rfl
      | false => exact hmove (.publishing false false) s.owners (by simp) rfl
    | unsupported diagnostic => exact hmove _ s.owners (by simp) rfl
    | internal diagnostic => exact hmove _ s.owners (by simp) rfl
    | fatal => exact hmove .settingFatal s.owners (by simp) rfl
  | failed failure leased hflag hp hfree =>
    have hframe := finishFailure_frame s.manager key failure
    refine h.moved hframe.1 (mem_of_flag hflag) ?_ (getElem?_setPhase _ key _) ?_
      (flag_false hflag) ?_
    · show (s.manager.finishFailure key failure).1.loadTasks[key]? = _
      rw [hframe.2.2.2.2.1]
    · cases leased <;> simp
    · intro _ _ ht
      have ht' : key ∈ s.manager.targets := hframe.2.1 ▸ ht
      exact .inr (finishFailure_recorded (hok.core hfree) failure ht')
  | died hflag hp hfree =>
    exact h.moved rfl (mem_of_flag hflag) rfl (getElem?_setPhase _ key _) (by simp)
      (flag_false hflag) fun _ hfatal _ => absurd hfatal (by simp [LiveManager.setPhase])
  | finished cancelled hp hfree =>
    have hin := h.started (by simp [hp])
    obtain ⟨e1, _, _, _⟩ := LiveManager.finishReady_eq hok key
    have hframe := finishReady_frame s.manager key
    have hm : ((s.finishReady key).setPhase key (.publishing true cancelled)).manager
        = (s.manager.finishReady key).1 := e1
    refine h.moved ?_ hin ?_ (getElem?_setPhase _ key _) (by simp) (fun _ => rfl) ?_
    · rw [hm]
      exact hframe.1
    · rw [hm, hframe.2.2.2.2.1]
    · intro _ _ ht
      rw [hm] at ht ⊢
      exact .inr (finishReady_recorded (hok.core hfree) (hframe.2.1 ▸ ht))
  | published cancelled hflag hp =>
    exact h.keep (c := cancelled) hflag hp (by simp) (by cases cancelled <;> rfl)
      (by cases cancelled <;> rfl)
  | closed cancelled hflag hp =>
    exact h.keep (c := cancelled) hflag hp (by simp) (by cases cancelled <;> rfl)
      (by cases cancelled <;> rfl)
  | ended cancelled hflag hp hfree => exact h.ended (hok.core hfree) hflag hp

theorem Tracked.task {s s' : LiveManager} {key : ExpertKey} {l : LoadLabel} (h : Tracked s)
    (htr : tracked s l = true) (ht : TaskStep s key l s') : Tracked s' := by
  have hframe := ht.frame h.live
  refine ⟨h.live.task ht, ?_, ?_⟩
  · intro k
    by_cases hk : k = key
    · subst hk
      exact (h.keys k).task h.live htr ht
    · exact (h.keys k).frame hframe hk
  · intro request rest hr
    rw [hframe.removal] at hr
    rw [hframe.shuttingDown, hframe.targets]
    rcases h.removing request rest hr with hsd | hf | hno
    · exact .inl hsd
    · refine .inr (.inl ?_)
      by_contra hf'
      rw [hframe.fatal (by simpa using hf')] at hf
      cases hf
    · exact .inr (.inr hno)

/-! ## the operations -/

/-- what happens to one expert when a list is applied -/
theorem KeyOk.install {s : LiveManager} {k : ExpertKey} (hok : LiveOk s) (h : KeyOk s k)
    (hfree : s.removal = none) {generation : Nat} {targets : List TargetExpert}
    {resolved : ExtTreeMap ExpertKey TargetExpert}
    (hv : s.manager.validateTargets targets = .ok resolved) (hmay : s.mayApply targets = true) :
    KeyOk { s with manager := (s.manager.install generation resolved).1 } k := by
  obtain ⟨⟨loads, states, hcore⟩, hstates⟩ := s.manager.install_spec generation resolved
  have hloads := s.manager.install_loads generation resolved k
  have hshape := (WeightManager.validateTargets_spec hv).1
  have hkeys := WeightManager.validateTargets_keys hv k
  obtain ⟨hdrop, hkept⟩ := Bool.and_eq_true_iff.mp hmay
  rw [List.all_eq_true] at hdrop
  have hdropped : k ∈ s.manager.targets → k ∉ resolved → k ∈ s.manager.loadTasks →
      LoadPhase.interruptible s.phases[k]? = true := by
    intro ht hres hin
    have hd := hdrop k (ExtTreeMap.mem_keys.mpr ht)
    have hnot : (targets.map TargetExpert.key).contains k = false := by
      rw [← Bool.not_eq_true, List.contains_iff_mem]
      exact fun hm => hres (hkeys.mpr hm)
    rw [hnot, ExtTreeMap.contains_iff_mem.mpr hin] at hd
    simpa using hd
  have hassigned : s.manager.shuttingDown = false → s.fatal = false → k ∈ resolved →
      k ∉ s.manager.readyKeys → s.manager.loadTasks[k]? = some false →
      LoadPhase.settled s.phases[k]? = false := by
    intro hshut hfatal hres hr hflag
    rw [hshut, hfatal, Bool.false_or, Bool.false_or, List.all_eq_true] at hkept
    have hd := hkept k (hkeys.mp hres)
    have hnot : s.manager.readyKeys.contains k = false := by
      rw [← Bool.not_eq_true, ExtTreeSet.contains_iff_mem]
      exact hr
    rw [hnot, hflag] at hd
    simpa using hd
  have hgrow : k ∈ s.manager.loadTasks → k ∈ (s.manager.install generation resolved).1.loadTasks := by
    intro hin
    obtain ⟨b, hb⟩ := mem_iff_getElem?.mp hin
    rw [mem_iff_getElem?, hloads, hb]
    split_ifs <;> simp
  refine ⟨?_, fun hne => hgrow (h.started hne), h.unfinished, ?_, ?_⟩
  · intro hin
    show (s.manager.install generation resolved).1.config.inShape k = true
    have hconfig : (s.manager.install generation resolved).1.config = s.manager.config := by
      rw [hcore]
      rfl
    rw [hconfig]
    by_cases hres : k ∈ resolved
    · exact hshape k hres
    · obtain ⟨b, hb⟩ := mem_iff_getElem?.mp hin
      rw [hloads, if_neg hres] at hb
      refine h.shape (mem_iff_getElem?.mpr ?_)
      split_ifs at hb
      · obtain ⟨b', hb', _⟩ := Option.map_eq_some_iff.mp hb
        exact ⟨b', hb'⟩
      · exact ⟨b, hb⟩
  · intro hflag
    change (s.manager.install generation resolved).1.loadTasks[k]? = some true at hflag
    show LoadPhase.interruptible s.phases[k]? = true
    rw [hloads] at hflag
    split_ifs at hflag with hres _ ht
    · cases hflag
    · exact h.flagged hflag
    · obtain ⟨b, hb, _⟩ := Option.map_eq_some_iff.mp hflag
      exact hdropped ht hres (mem_iff_getElem?.mpr ⟨b, hb⟩)
    · exact h.flagged hflag
  · intro hshut hfatal ht
    have hres : k ∈ resolved := by
      have htargets : (s.manager.install generation resolved).1.targets = resolved := by
        rw [hcore]
        rfl
      exact htargets ▸ ht
    have hshut' : s.manager.shuttingDown = false := by
      have heq : (s.manager.install generation resolved).1.shuttingDown
          = s.manager.shuttingDown := by
        rw [hcore]
        rfl
      exact heq ▸ hshut
    by_cases hr : k ∈ s.manager.readyKeys
    · left
      show (s.manager.install generation resolved).1.states[k]? = some .ready
      rw [hstates k, if_pos hr]
      exact ((hok.core hfree).ready_iff k).mp hr
    · refine .inr (.inr ?_)
      show k ∈ (s.manager.install generation resolved).1.loadTasks ∧
        ((s.manager.install generation resolved).1.loadTasks[k]? = some true ∨
          LoadPhase.settled s.phases[k]? = false)
      by_cases hin : k ∈ s.manager.loadTasks
      · refine ⟨hgrow hin, ?_⟩
        obtain ⟨b, hb⟩ := mem_iff_getElem?.mp hin
        have hsame : (s.manager.install generation resolved).1.loadTasks[k]?
            = s.manager.loadTasks[k]? := by
          rw [hloads, if_pos hres, if_neg (fun h => h.2.1 hin)]
        cases b with
        | true => exact .inl (hsame.trans hb)
        | false => exact .inr (hassigned hshut' hfatal hres hr hb)
      · have hnew : (s.manager.install generation resolved).1.loadTasks[k]? = some false := by
          rw [hloads, if_pos hres, if_pos ⟨hr, hin, hshut'⟩]
        have hnone : s.phases[k]? = none := by
          by_contra hne
          exact hin (h.started hne)
        exact ⟨mem_iff_getElem?.mpr ⟨false, hnew⟩, .inr (by rw [hnone]; rfl)⟩

/-- a step that leaves the tasks alone and takes no recorded result from an assigned expert -/
theorem KeyOk.of_same {s s' : LiveManager} {k : ExpertKey} (h : KeyOk s k)
    (hconfig : s'.manager.config = s.manager.config)
    (hloads : s'.manager.loadTasks = s.manager.loadTasks) (hphases : s'.phases = s.phases)
    (hfatal : s'.fatal = s.fatal) (hshut : s'.manager.shuttingDown = s.manager.shuttingDown)
    (htargets : s'.manager.targets = s.manager.targets)
    (hstates : s.manager.shuttingDown = false → s.fatal = false → k ∈ s.manager.targets →
      s'.manager.states[k]? = s.manager.states[k]?) : KeyOk s' k := by
  refine ⟨?_, ?_, ?_, ?_, ?_⟩
  · rw [hloads, hconfig]
    exact h.shape
  · rw [hphases, hloads]
    exact h.started
  · rw [hphases]
    exact h.unfinished
  · rw [hloads, hphases]
    exact h.flagged
  · rw [hshut, hfatal, htargets]
    intro h1 h2 h3
    have hp := h.progress h1 h2 h3
    unfold LiveManager.underWay at hp ⊢
    rw [hloads, hphases, hstates h1 h2 h3]
    exact hp

theorem Tracked.of_same {s s' : LiveManager} (h : Tracked s) (hlive : LiveOk s')
    (hm : s'.manager = s.manager) (hphases : s'.phases = s.phases) (hfatal : s'.fatal = s.fatal)
    (hr : s'.removal = s.removal) : Tracked s' := by
  refine ⟨hlive, fun k => (h.keys k).of_same ?_ ?_ hphases hfatal ?_ ?_ ?_, ?_⟩
  any_goals rw [hm]
  · intro _ _ _
    rfl
  · rw [hr, hfatal]
    exact h.removing

theorem Tracked.applyTargets {s s' : LiveManager} (h : Tracked s) {generation : Nat}
    {targets : List TargetExpert} (htr : tracked s (.applyTargets generation targets) = true)
    (hs : s.applyTargets generation targets = some s') : Tracked s' := by
  have hlive := h.live.applyTargets hs
  obtain ⟨hfree, rfl | ⟨resolved, hv, hgen, hnew, rfl⟩⟩ := applyTargets_live hs
  · exact h
  · have hacc : s.accepts generation targets = true := by
      unfold LiveManager.accepts
      rw [hv]
      simp only [hgen, decide_true, Bool.true_and, Bool.not_eq_true', Bool.and_eq_false_imp,
        List.any_eq_false]
      intro hsd k hk
      rw [Bool.not_eq_false, ExtTreeMap.contains_iff_mem]
      exact hnew hsd k (ExtTreeMap.mem_keys.mp hk)
    have hmay : s.mayApply targets = true := by
      change (!s.accepts generation targets || s.mayApply targets) = true at htr
      rw [hacc] at htr
      exact htr
    refine ⟨hlive, fun k => (h.keys k).install h.live hfree hv hmay, ?_⟩
    intro request rest hr
    change s.removal = some (request, rest) at hr
    rw [hfree] at hr
    cases hr

theorem Tracked.beginShutdown {s s' : LiveManager} (h : Tracked s)
    (htr : tracked s .beginShutdown = true) (hs : s.beginShutdown = some s') : Tracked s' := by
  have hlive := h.live.step (l := .beginShutdown) hs
  obtain ⟨hfree, rfl | ⟨hshut, rfl⟩⟩ := beginShutdown_live hs
  · exact h
  · have hall : ∀ k ∈ s.manager.loadTasks, LoadPhase.interruptible s.phases[k]? = true := by
      change (s.manager.shuttingDown || s.manager.loadTasks.keys.all fun key =>
        LoadPhase.interruptible s.phases[key]?) = true at htr
      rw [hshut, Bool.false_or, List.all_eq_true] at htr
      exact fun k hk => htr k (ExtTreeMap.mem_keys.mpr hk)
    have hmem : ∀ k : ExpertKey, k ∈ s.manager.loadTasks.map (fun _ _ => true) ↔
        k ∈ s.manager.loadTasks := fun k => ExtTreeMap.mem_map
    refine ⟨hlive, fun k => ⟨?_, ?_, (h.keys k).unfinished, ?_, ?_⟩, ?_⟩
    · exact fun hin => (h.keys k).shape ((hmem k).mp hin)
    · exact fun hne => (hmem k).mpr ((h.keys k).started hne)
    · intro hflag
      exact hall k ((hmem k).mp (mem_iff_getElem?.mpr ⟨true, hflag⟩))
    · exact fun hno => absurd hno (by simp)
    · exact fun _ _ _ => .inl rfl

theorem Tracked.cancel {s s' : LiveManager} {key : ExpertKey} (h : Tracked s)
    (htr : tracked s (.cancel key) = true) (hs : s.cancel key = some s') : Tracked s' := by
  have hlive := h.live.step (l := .cancel key) hs
  obtain ⟨hin, rfl⟩ := cancel_live hs
  have hload : ∀ k : ExpertKey, (s.manager.loadTasks.insert key true)[k]?
      = if key = k then some true else s.manager.loadTasks[k]? :=
    fun k => Maps.getElem?_insert_eq _ _ _ _
  have hmem : ∀ k : ExpertKey, k ∈ s.manager.loadTasks.insert key true ↔
      k ∈ s.manager.loadTasks := by
    intro k
    rw [ExtTreeMap.mem_insert, Std.compare_eq_iff_eq]
    refine or_iff_right_of_imp ?_
    rintro rfl
    exact hin
  refine ⟨hlive, fun k => ⟨?_, ?_, (h.keys k).unfinished, ?_, ?_⟩, h.removing⟩
  · exact fun hk => (h.keys k).shape ((hmem k).mp hk)
  · exact fun hne => (hmem k).mpr ((h.keys k).started hne)
  · intro hflag
    change (s.manager.loadTasks.insert key true)[k]? = some true at hflag
    rw [hload] at hflag
    split_ifs at hflag with he
    · exact he ▸ htr
    · exact (h.keys k).flagged hflag
  · intro hshut hfatal ht
    rcases (h.keys k).progress hshut hfatal ht with hr | hf | ⟨hk, hc⟩
    · exact .inl hr
    · exact .inr (.inl hf)
    · refine .inr (.inr ⟨(hmem k).mpr hk, ?_⟩)
      show (s.manager.loadTasks.insert key true)[k]? = some true ∨ _
      rw [hload]
      split_ifs with he
      · exact .inl rfl
      · exact hc

theorem Tracked.removal {s s' : LiveManager} {l : LoadLabel} (h : Tracked s)
    (htr : tracked s l = true) (hs : s.step l = some s')
    (hl : (∃ generation keys whole, l = .beginRemoval generation keys whole) ∨ l = .withdraw ∨
      l = .finishRemoval) : Tracked s' := by
  have hlive := h.live.step hs
  obtain ⟨generation, keys, whole, rfl⟩ | rfl | rfl := hl
  · obtain rfl | ⟨request, hfree, hreq, hcheck, rfl⟩ := beginRemoval_live h.live hs
    · exact h
    · refine ⟨hlive, fun k => (h.keys k).of_same rfl rfl rfl rfl rfl rfl fun _ _ _ => rfl, ?_⟩
      intro request' rest heq
      cases heq
      obtain ⟨hgen, hw | hno⟩ := checkRemoval_eq_true hcheck
      · obtain ⟨hreq1, hreq2, _, _, _, hmem⟩ := removalRequest_spec hreq
        change s.mayRemove generation keys whole = true at htr
        unfold LiveManager.mayRemove at htr
        rw [← hreq1, hgen, ← hreq2, hw] at htr
        simp only [Bool.not_true, Bool.false_or, ne_eq, not_true_eq_false, decide_false,
          Bool.or_false, Bool.or_eq_true, List.all_eq_true, Bool.not_eq_true'] at htr
        rcases htr with (hsd | hf) | hall
        · exact .inl hsd
        · exact .inr (.inl hf)
        · refine .inr (.inr fun k hk ht => ?_)
          have hc := hall k ((hmem k).mp hk)
          rw [ExtTreeMap.contains_iff_mem.mpr ht] at hc
          cases hc
      · exact .inr (.inr hno)
  · obtain ⟨request, key, rest, hr, rfl⟩ := withdraw_live h.live hs
    refine ⟨hlive, fun k => (h.keys k).of_same rfl rfl rfl rfl rfl rfl fun _ _ _ => rfl, ?_⟩
    intro request' rest' heq
    cases heq
    exact h.removing request (key :: rest) hr
  · obtain ⟨request, hr, rfl⟩ := finishRemoval_live hs
    have hstates := s.manager.setRemoved_states request.keys
    have hloads := s.manager.setRemoved_loads request.keys
    obtain ⟨loads, states, hcore⟩ := s.manager.setRemoved_core request.keys
    refine ⟨hlive, fun k => (h.keys k).of_same ?_ hloads rfl rfl ?_ ?_ ?_, ?_⟩
    · rw [hcore]
    · rw [hcore]
    · rw [hcore]
    · intro hshut hfatal ht
      show (s.manager.setRemoved request.keys).1.states[k]? = _
      rw [hstates k, if_neg]
      intro hk
      rcases h.removing request [] hr with hsd | hf | hno
      · rw [hsd] at hshut
        cases hshut
      · rw [hf] at hfatal
        cases hfatal
      · exact hno k hk ht
    · intro request' rest heq
      cases heq

theorem Tracked.step {s s' : LiveManager} {l : LoadLabel} (h : Tracked s)
    (htr : tracked s l = true) (hs : s.step l = some s') : Tracked s' := by
  cases l with
  | applyTargets generation targets => exact h.applyTargets htr hs
  | beginShutdown => exact h.beginShutdown htr hs
  | cancel key => exact h.cancel htr hs
  | beginRemoval generation keys whole => exact h.removal htr hs (.inl ⟨_, _, _, rfl⟩)
  | withdraw => exact h.removal htr hs (.inr (.inl rfl))
  | finishRemoval => exact h.removal htr hs (.inr (.inr rfl))
  | acquireMany layerId expertIds =>
    have hlive := h.live.step hs
    change s.acquireMany layerId expertIds = some s' at hs
    unfold LiveManager.acquireMany at hs
    split at hs
    all_goals
      cases hs
      exact h.of_same hlive rfl rfl rfl rfl
  | closeLease i =>
    have hlive := h.live.step hs
    change s.closeLease i = some s' at hs
    unfold LiveManager.closeLease at hs
    split at hs
    · cases hs
    · split at hs
      all_goals
        cases hs
        exact h.of_same hlive rfl rfl rfl rfl
  | _ => exact h.task htr (LiveManager.taskStep_of_step hs rfl)

theorem tracked_of_reach {config : ManagerConfig} {fused : Bool} {limit : Nat} {hlimit : 0 < limit}
    {s : LiveManager}
    (h : Steps.Reach LiveManager.step (fun s l => tracked s l = true)
      (.new config fused limit hlimit) s) :
    Tracked s :=
  h.invariant (tracked_new config fused limit hlimit) fun _ _ _ ht hok hs => ht.step hok hs

/-! ## the steps that are left -/

/-- what a cancelled load costs more: it starts again -/
def restartWork (cancelled : Bool) : Nat := if cancelled then 20 else 0

/-- an upper bound of the steps of a task from this await on -/
def LoadPhase.work : Option LoadPhase → Nat
  | none => 13
  | some .waitingLimit => 12
  | some .readingTarget => 11
  | some .acquiring => 10
  | some (.converting _ work cancelled) => 6 + work.left + restartWork cancelled
  | some (.recordingFailure _ _) => 5
  | some .settingFatal => 5
  | some (.publishing done cancelled) => (if done then 3 else 4) + restartWork cancelled
  | some (.closing cancelled) => 2 + restartWork cancelled
  | some (.ending cancelled) => 1 + restartWork cancelled
  | some .finished => 0

def LiveManager.taskWork (s : LiveManager) (k : ExpertKey) : Nat :=
  match s.manager.loadTasks[k]? with
  | none => 0
  | some flag => LoadPhase.work s.phases[k]? + if flag then 21 else 0

/-- the positions of the model -/
def ManagerConfig.positions (c : ManagerConfig) : Finset (Nat × Nat) :=
  Finset.range c.numLayers ×ˢ Finset.range c.expertsPerLayer

def LiveManager.loadWork (s : LiveManager) : Nat :=
  ∑ p ∈ s.manager.config.positions, s.taskWork ⟨p.1, p.2⟩

theorem work_interrupted (p : Option LoadPhase) (hp : p ≠ some .finished) :
    LoadPhase.work (some (LoadPhase.interrupted p)) < LoadPhase.work p + 21 := by
  cases p with
  | none => simp [LoadPhase.interrupted, LoadPhase.work]
  | some p =>
    cases p with
    | converting source work cancelled =>
      cases cancelled <;> simp [LoadPhase.interrupted, LoadPhase.work, restartWork]
    | recordingFailure failure leased =>
      cases leased <;> simp [LoadPhase.interrupted, LoadPhase.work, restartWork]
    | publishing done cancelled =>
      cases done <;> cases cancelled <;> simp [LoadPhase.interrupted, LoadPhase.work, restartWork]
    | finished => exact absurd rfl hp
    | _ => simp [LoadPhase.interrupted, LoadPhase.work, restartWork]

theorem taskWork_eq {s : LiveManager} {k : ExpertKey} {flag : Bool}
    (h : s.manager.loadTasks[k]? = some flag) :
    s.taskWork k = LoadPhase.work s.phases[k]? + if flag then 21 else 0 := by
  unfold LiveManager.taskWork
  rw [h]

/-- the task goes on with the same entry -/
theorem taskWork_moved {s s' : LiveManager} {key : ExpertKey} {flag : Bool} {phase : LoadPhase}
    (hflag : s.manager.loadTasks[key]? = some flag)
    (hloads : s'.manager.loadTasks[key]? = s.manager.loadTasks[key]?)
    (hphase : s'.phases[key]? = some phase)
    (hlt : LoadPhase.work (some phase) < LoadPhase.work s.phases[key]?) :
    s'.taskWork key < s.taskWork key := by
  rw [taskWork_eq hflag, taskWork_eq (hloads.trans hflag), hphase]
  omega

theorem TaskStep.taskWork_lt {s s' : LiveManager} {key : ExpertKey} {l : LoadLabel} (h : Tracked s)
    (ht : TaskStep s key l s') : s'.taskWork key < s.taskWork key := by
  cases ht with
  | delivered hflag hp =>
    have hload : (s.manager.loadTasks.insert key false)[key]? = some false := by
      rw [Maps.getElem?_insert_eq, if_pos rfl]
    have hphase : (s.phases.insert key (LoadPhase.interrupted s.phases[key]?))[key]?
        = some (LoadPhase.interrupted s.phases[key]?) := by
      rw [Maps.getElem?_insert_eq, if_pos rfl]
    rw [taskWork_eq hflag, taskWork_eq hload, hphase]
    exact work_interrupted _ hp
  | started hflag hp | admitted hflag hp | assigned hflag hp hfree _ | leased _ hflag hp
  | refused _ hflag hp | raised hflag hp | unassigned hflag hp hfree _ =>
    refine taskWork_moved hflag rfl (getElem?_setPhase s key _) ?_
    simp [hp, LoadPhase.work, restartWork, Conversion.left]
  | claimed _ _ _ hp _ | unclaimed _ _ _ hp _ _ =>
    obtain ⟨flag, hflag⟩ := mem_iff_getElem?.mp ((h.keys key).started (by simp [hp]))
    refine taskWork_moved hflag rfl (getElem?_setPhase _ key _) ?_
    simp [hp, LoadPhase.work, Conversion.left]
  | executed source work result cancelled owners hp hleft hready howners =>
    obtain ⟨flag, hflag⟩ := mem_iff_getElem?.mp ((h.keys key).started (by simp [hp]))
    refine taskWork_moved hflag rfl (getElem?_setPhase _ key _) ?_
    rw [hp]
    simp only [LoadPhase.work, Conversion.left] at hleft ⊢
    omega
  | converted source result cancelled hflag hp =>
    have hmove : ∀ (phase : LoadPhase) (owners : ExtTreeSet ExpertKey),
        LoadPhase.work (some phase) < 6 + restartWork cancelled →
        ({ s with owners := owners }.setPhase key phase).taskWork key < s.taskWork key := by
      intro phase owners hlt
      refine taskWork_moved hflag rfl (getElem?_setPhase _ key phase) ?_
      rw [hp]
      simpa [LoadPhase.work, Conversion.left] using hlt
    cases result with
    | ready =>
      cases cancelled with
      | true => exact hmove (.closing true) (s.owners.erase key) (by simp [LoadPhase.work])
      | false => exact hmove (.publishing false false) s.owners (by simp [LoadPhase.work])
    | unsupported diagnostic => exact hmove _ s.owners (by simp only [LoadPhase.work]; omega)
    | internal diagnostic => exact hmove _ s.owners (by simp only [LoadPhase.work]; omega)
    | fatal => exact hmove .settingFatal s.owners (by simp only [LoadPhase.work]; omega)
  | failed failure leased hflag hp hfree =>
    have hloads := s.manager.finishFailure_loads key failure
    refine taskWork_moved hflag ?_ (getElem?_setPhase _ key _) ?_
    · show (s.manager.finishFailure key failure).1.loadTasks[key]? = _
      rw [hloads]
    · cases leased <;> simp [hp, LoadPhase.work, restartWork]
  | died hflag hp hfree =>
    refine taskWork_moved hflag rfl (getElem?_setPhase _ key _) ?_
    simp [hp, LoadPhase.work, restartWork]
  | finished cancelled hp hfree =>
    obtain ⟨flag, hflag⟩ := mem_iff_getElem?.mp ((h.keys key).started (by simp [hp]))
    obtain ⟨e1, _, _, _⟩ := LiveManager.finishReady_eq h.live key
    refine taskWork_moved hflag ?_ (getElem?_setPhase _ key _) ?_
    · show (s.finishReady key).manager.loadTasks[key]? = _
      rw [e1, s.manager.finishReady_loads]
    · simp [hp, LoadPhase.work]
  | published cancelled hflag hp =>
    refine taskWork_moved hflag rfl (getElem?_setPhase _ key _) ?_
    simp [hp, LoadPhase.work]
  | closed cancelled hflag hp =>
    refine taskWork_moved hflag rfl (getElem?_setPhase _ key _) ?_
    simp [hp, LoadPhase.work]
  | ended cancelled hflag hp hfree =>
    have hloads := s.manager.loadEnded_loads key key cancelled
    rw [if_pos rfl] at hloads
    have hphase : (s.phases.erase key)[key]? = none := by
      rw [Maps.getElem?_erase_eq, if_pos rfl]
    have hold : s.taskWork key = 1 + restartWork cancelled := by
      rw [taskWork_eq hflag, hp]
      rfl
    rw [hold]
    unfold LiveManager.taskWork
    simp only [hloads, hphase]
    split_ifs with hc
    · rw [hc.1]
      simp [LoadPhase.work, restartWork]
    · simp

/-- only a task with an entry takes a step -/
theorem TaskStep.loading {s s' : LiveManager} {key : ExpertKey} {l : LoadLabel} (h : Tracked s)
    (ht : TaskStep s key l s') : key ∈ s.manager.loadTasks := by
  by_contra hno
  have hnone : s.manager.loadTasks[key]? = none := ExtTreeMap.getElem?_eq_none hno
  have hlt := ht.taskWork_lt h
  unfold LiveManager.taskWork at hlt
  rw [hnone] at hlt
  exact absurd hlt (Nat.not_lt_zero _)

theorem TaskStep.loadWork_lt {s s' : LiveManager} {key : ExpertKey} {l : LoadLabel} (h : Tracked s)
    (ht : TaskStep s key l s') : s'.loadWork < s.loadWork := by
  have hframe := ht.frame h.live
  have hlt := ht.taskWork_lt h
  have hshape := (h.keys key).shape (ht.loading h)
  unfold ManagerConfig.inShape at hshape
  rw [Bool.and_eq_true, decide_eq_true_eq, decide_eq_true_eq] at hshape
  unfold LiveManager.loadWork
  rw [hframe.config]
  refine Finset.sum_lt_sum ?_ ⟨(key.layerId, key.expertId), ?_, hlt⟩
  · intro p _
    by_cases hk : (⟨p.1, p.2⟩ : ExpertKey) = key
    · rw [hk]
      exact hlt.le
    · unfold LiveManager.taskWork
      rw [hframe.loads _ hk, hframe.phases _ hk]
  · exact Finset.mem_product.mpr ⟨Finset.mem_range.mpr hshape.1, Finset.mem_range.mpr hshape.2⟩

/-- a run of load tasks alone is no longer than the work it starts with -/
theorem length_le_loadWork {ls : List LoadLabel} {s s' : LiveManager} (h : Tracked s)
    (hl : ∀ l ∈ ls, l.task.isSome = true)
    (hr : Steps.run LiveManager.step tracked s ls = some s') : ls.length ≤ s.loadWork := by
  induction ls generalizing s with
  | nil => exact Nat.zero_le _
  | cons l ls ih =>
    obtain ⟨htr, s1, hs1, hr1⟩ := Steps.run_cons hr
    obtain ⟨key, hkey⟩ := Option.isSome_iff_exists.mp (hl l List.mem_cons_self)
    have ht := LiveManager.taskStep_of_step hs1 hkey
    have hlt := ht.loadWork_lt h
    have hrest := ih (h.task htr ht) (fun l' hl' => hl l' (List.mem_cons_of_mem _ hl')) hr1
    rw [List.length_cons]
    omega

/-! ## a Manager whose loads have stopped -/

/-- a task that holds a permit of the load limit can go on while the lock is free -/
theorem holder_runs {s : LiveManager} (hfree : s.removal = none) {key : ExpertKey}
    {phase : LoadPhase} (hflag : s.manager.loadTasks[key]? = some false)
    (hp : s.phases[key]? = some phase) (hhold : phase.holdsPermit = true) :
    ∃ l : LoadLabel, l.task.isSome = true ∧ s.step l ≠ none := by
  have hfree' : ∀ t : LiveManager, s.whenFree t = some t := by
    intro t
    unfold LiveManager.whenFree
    rw [hfree]
    rfl
  have hresume : s.resume key ≠ none → ∃ l : LoadLabel, l.task.isSome = true ∧ s.step l ≠ none :=
    fun h => ⟨.resume key, rfl, h⟩
  cases phase with
  | waitingLimit => cases hhold
  | readingTarget => exact hresume (by simp [LiveManager.resume, hflag, hp, hfree'])
  | acquiring =>
    exact ⟨.acquired key (.leased .disk), rfl, by
      simp [LiveManager.step, LiveManager.acquired, hflag, hp]⟩
  | converting source work cancelled =>
    cases work with
    | queued =>
      exact ⟨.converted key .fatal, rfl, by simp [LiveManager.step, LiveManager.converted, hp]⟩
    | running =>
      exact ⟨.converted key .fatal, rfl, by simp [LiveManager.step, LiveManager.converted, hp]⟩
    | done result => exact hresume (by simp [LiveManager.resume, hflag, hp])
  | recordingFailure failure leased =>
    exact hresume (by simp [LiveManager.resume, hflag, hp, hfree'])
  | settingFatal => exact hresume (by simp [LiveManager.resume, hflag, hp, hfree'])
  | publishing done cancelled =>
    cases done with
    | true => exact hresume (by simp [LiveManager.resume, hflag, hp])
    | false =>
      exact ⟨.publish key, rfl, by simp [LiveManager.step, LiveManager.publish, hp, hfree']⟩
  | closing cancelled => exact hresume (by simp [LiveManager.resume, hflag, hp])
  | ending cancelled => cases hhold
  | finished => cases hhold

/-- while a load is left and the lock is free, some load can go on -/
theorem load_runs {s : LiveManager} (h : Tracked s) (hfree : s.removal = none) {key : ExpertKey}
    (hin : key ∈ s.manager.loadTasks) :
    ∃ l : LoadLabel, l.task.isSome = true ∧ s.step l ≠ none := by
  have hdeliver : ∀ k : ExpertKey, s.manager.loadTasks[k]? = some true →
      ∃ l : LoadLabel, l.task.isSome = true ∧ s.step l ≠ none := by
    intro k hk
    exact ⟨.deliver k, rfl, by
      simp [LiveManager.step, LiveManager.deliver, hk, (h.keys k).unfinished]⟩
  obtain ⟨flag, hflag⟩ := mem_iff_getElem?.mp hin
  cases flag with
  | true => exact hdeliver key hflag
  | false =>
    cases hp : s.phases[key]? with
    | none => exact ⟨.resume key, rfl, by simp [LiveManager.step, LiveManager.resume, hflag, hp]⟩
    | some phase =>
      by_cases hhold : phase.holdsPermit = true
      · exact holder_runs hfree hflag hp hhold
      · cases phase with
        | waitingLimit =>
          by_cases hl : s.permits < s.maxConcurrentLoads
          · exact ⟨.resume key, rfl, by
              simp [LiveManager.step, LiveManager.resume, hflag, hp, hl]⟩
          · -- the limit is reached, so another task holds a permit and can go on
            have hne : s.phases.toList.filter (·.2.holdsPermit) ≠ [] := by
              intro hnil
              unfold LiveManager.permits at hl
              rw [hnil, List.length_nil] at hl
              exact hl s.limit_pos
            obtain ⟨⟨k, p⟩, hmem⟩ := List.exists_mem_of_ne_nil _ hne
            obtain ⟨hlist, hkp⟩ := List.mem_filter.mp hmem
            have hk : s.phases[k]? = some p := ExtTreeMap.mem_toList_iff_getElem?_eq_some.mp hlist
            obtain ⟨b, hb⟩ := mem_iff_getElem?.mp ((h.keys k).started (by simp [hk]))
            cases b with
            | true => exact hdeliver k hb
            | false => exact holder_runs hfree hb hk hkp
        | ending cancelled =>
          refine ⟨.resume key, rfl, ?_⟩
          simp [LiveManager.step, LiveManager.resume, hflag, hp, LiveManager.whenFree, hfree]
        | finished => exact absurd hp (h.keys key).unfinished
        | _ => exact absurd rfl hhold

/-! ## every run -/

/-- the look of `wait_for_idle` under the lock -/
def LiveManager.idle (s : LiveManager) : Bool := s.manager.loadTasks.isEmpty

/-- no task that has ended has an entry, and every target is READY, FAILED or loading -/
structure LoadsTracked (s : LiveManager) : Prop where
  no_finished_entry : ∀ k ∈ s.manager.loadTasks, s.phases[k]? ≠ some .finished
  targets_live : s.manager.shuttingDown = false → s.fatal = false → ∀ k ∈ s.manager.targets,
    s.manager.states[k]? = some .ready ∨ (∃ f, s.manager.states[k]? = some (.failed f)) ∨
      (k ∈ s.manager.loadTasks ∧ s.phases[k]? ≠ some .finished)

theorem Tracked.loadsTracked {s : LiveManager} (h : Tracked s) : LoadsTracked s := by
  refine ⟨fun k _ => (h.keys k).unfinished, ?_⟩
  intro hshut hfatal k hk
  rcases (h.keys k).progress hshut hfatal hk with hr | hf | ⟨hin, _⟩
  · exact .inl hr
  · exact .inr (.inl hf)
  · exact .inr (.inr ⟨hin, (h.keys k).unfinished⟩)

/-- an applied list starts a load for each of its experts that is neither ready nor loading -/
theorem Tracked.reload {s s' : LiveManager} (h : Tracked s) {generation : Nat}
    {targets : List TargetExpert} (hs : s.step (.applyTargets generation targets) = some s')
    (hnew : s.manager.placementGeneration < generation)
    (happlied : s'.manager.placementGeneration = generation)
    (hshut : s.manager.shuttingDown = false) {t : TargetExpert} (ht : t ∈ targets) :
    s'.manager.states[t.key]? = some .ready ∨
      (t.key ∈ s'.manager.loadTasks ∧ s'.phases[t.key]? ≠ some .finished) := by
  obtain ⟨hfree, rfl | ⟨resolved, hv, _, _, rfl⟩⟩ := applyTargets_live hs
  · omega
  · by_cases hr : t.key ∈ s.manager.readyKeys
    · left
      show (s.manager.install generation resolved).1.states[t.key]? = some .ready
      rw [(s.manager.install_spec generation resolved).2 t.key, if_pos hr]
      exact ((h.live.core hfree).ready_iff t.key).mp hr
    · refine .inr ⟨?_, (h.keys t.key).unfinished⟩
      have hres : t.key ∈ resolved :=
        (WeightManager.validateTargets_keys hv t.key).mpr (List.mem_map_of_mem ht)
      have hloads := s.manager.install_loads generation resolved t.key
      rw [if_pos hres] at hloads
      show t.key ∈ (s.manager.install generation resolved).1.loadTasks
      rw [mem_iff_getElem?, hloads]
      split_ifs with hc
      · exact ⟨false, rfl⟩
      · rw [← mem_iff_getElem?]
        by_contra hno
        exact hc ⟨hr, hno, hshut⟩

/-- in a run of tracked steps every load is tracked to its end, an expert that is assigned again is
loaded again, and the loads come to an end that `wait_for_idle` sees -/
theorem loads_tracked (config : ManagerConfig) (fused : Bool) (limit : Nat) (hlimit : 0 < limit)
    {s : LiveManager} (h : Steps.Reach LiveManager.step (fun s l => tracked s l = true)
      (.new config fused limit hlimit) s) :
    LoadsTracked s ∧
    (∀ generation targets s', s.step (.applyTargets generation targets) = some s' →
      s.manager.placementGeneration < generation → s'.manager.placementGeneration = generation →
      s.manager.shuttingDown = false → ∀ t ∈ targets,
        s'.manager.states[t.key]? = some .ready ∨
          (t.key ∈ s'.manager.loadTasks ∧ s'.phases[t.key]? ≠ some .finished)) ∧
    (s.removal = none → (∀ l : LoadLabel, l.task.isSome = true → s.step l = none) →
      s.idle = true) ∧
    ∀ (ls : List LoadLabel) (s' : LiveManager), (∀ l ∈ ls, l.task.isSome = true) →
      Steps.run LiveManager.step tracked s ls = some s' → ls.length ≤ s.loadWork := by
  have ht := tracked_of_reach h
  refine ⟨ht.loadsTracked, ?_, ?_, ?_⟩
  · intro generation targets s' hs hnew happlied hshut t hmem
    exact ht.reload hs hnew happlied hshut hmem
  · intro hfree hstuck
    refine ExtTreeMap.isEmpty_iff.mpr (ExtTreeMap.eq_empty_iff_forall_not_mem.mpr ?_)
    intro key hin
    obtain ⟨l, hl, hs⟩ := load_runs ht hfree hin
    exact hs (hstuck l hl)
  · intro ls s' hl hr
    exact length_le_loadWork ht hl hr

theorem loads_tracked_reloaded :
    ∃ s, Steps.Reach LiveManager.step (fun s l => tracked s l = true)
      (.new smallConfig false 1 (by decide)) s ∧ LoadsTracked s ∧
      s.manager.placementGeneration = 3 ∧ s.manager.states[expert 0]? = some .ready := by
  have hrun := (Option.any_eq_true
    (fun s : LiveManager => decide (s.manager.placementGeneration = 3)
      && decide (s.manager.states[expert 0]? = some .ready))
    (Steps.run LiveManager.step tracked (.new smallConfig false 1 (by decide))
      ([.applyTargets 1 [target 0], .resume (expert 0), .applyTargets 2 [], .deliver (expert 0),
        .applyTargets 3 [target 0], .resume (expert 0)] ++ loadSteps 0 ++ endSteps 0))).mp
    (by decide +kernel)
  obtain ⟨s, hs, hp⟩ := hrun
  simp only [Bool.and_eq_true, decide_eq_true_eq] at hp
  have hreach := Steps.Reach.refl.of_run hs
  exact ⟨s, hreach, (loads_tracked smallConfig false 1 (by decide) hreach).1, hp.1, hp.2⟩

/-- the expert is dropped before its load task has run, and assigned again: the entry of the task
that never ran stays, and the expert is never loaded -/
theorem load_task_lost :
    ∃ s, Steps.Reach LiveManager.step (fun _ _ => True) (.new smallConfig false 1 (by decide)) s ∧
      s.removal = none ∧ s.manager.shuttingDown = false ∧ s.fatal = false ∧
      (∀ k ∈ s.manager.loadTasks, s.phases[k]? = some .finished) ∧ s.idle = false ∧
      expert 0 ∈ s.manager.targets ∧ s.manager.states[expert 0]? = none := by
  have hrun := (Option.any_eq_true
    (fun s : LiveManager => s.removal.isNone && !s.manager.shuttingDown && !s.fatal
      && s.manager.loadTasks.keys.all (fun k => decide (s.phases[k]? = some .finished)) && !s.idle
      && decide (expert 0 ∈ s.manager.targets) && decide (s.manager.states[expert 0]? = none))
    (Steps.run LiveManager.step (fun _ _ => true) (.new smallConfig false 1 (by decide))
      [.applyTargets 1 [target 0], .applyTargets 2 [], .deliver (expert 0),
        .applyTargets 3 [target 0]])).mp (by decide +kernel)
  obtain ⟨s, hs, hp⟩ := hrun
  simp only [Bool.and_eq_true, decide_eq_true_eq, Option.isNone_iff_eq_none, Bool.not_eq_true',
    List.all_eq_true, ExtTreeMap.mem_keys] at hp
  obtain ⟨⟨⟨⟨⟨⟨h1, h2⟩, h3⟩, h4⟩, h5⟩, h6⟩, h7⟩ := hp
  exact ⟨s, (Steps.Reach.refl.of_run hs).mono fun _ _ _ => True.intro, h1, h2, h3, h4, h5, h6, h7⟩

end ExpertKit.Worker

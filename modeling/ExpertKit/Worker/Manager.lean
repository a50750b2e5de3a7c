import ExpertKit.Worker.Parts

/-!
# Worker: the Weight Manager

`WeightManager` of `ek-worker/src/expertkit_worker/weights/manager.py`: complete target lists, loads
in the background and the removal of drained experts.  Every operation takes the Manager lock and has
no suspension point while it holds it, except the removal, which waits for the withdrawn objects; so an
operation is one step and the removal is two.  A started and not yet closed Manager is modelled; logs,
clocks and the weights themselves are left out.

* `LocalState`, `ExpertStateChange`   what is known and reported about one expert;
* `applyTargets`, `beginShutdown`, `snapshot`   the operations of the control session;
* `finishReady`, `finishFailure`, `loadEnded`   the results of a load task;
* `checkRemoval`, `finishRemoval`     the two ends of `_remove_after_drain`;
* `ManagerOp`, `runManager`           histories;
* `ManagerOk`, `runManager_ok`        what holds after every history.
-/

set_option linter.unusedSectionVars false

namespace ExpertKit.Worker
open Std

/-! ## data -/

inductive WeightSource where
  | dram
  | disk
  | peer
  | weightServer
deriving DecidableEq, Repr

/-- a failed load; its stage and code are never the unspecified ones of the wire -/
structure LoadFailure where
  source : WeightSource
  stage : WeightLoadStage
  code : WeightLoadErrorCode
  retryable : Bool
  diagnostic : String
  stage_ne : stage ≠ .unspecified
  code_ne : code ≠ .unspecified
deriving DecidableEq

/-- the state of one expert; only a failure carries details -/
inductive LocalState where
  | ready
  | failed (failure : LoadFailure)
  | removed
deriving DecidableEq

structure ExpertStateChange where
  placementGeneration : Nat
  key : ExpertKey
  state : LocalState
deriving DecidableEq

/-- the arguments of the constructor; `maxExperts` experts fit the device -/
structure ManagerConfig where
  numLayers : Nat
  expertsPerLayer : Nat
  device : String
  deviceWeightCapacityBytes : Nat
  readyWeightBytes : Nat
  maxExperts_pos : 0 < deviceWeightCapacityBytes / readyWeightBytes

def ManagerConfig.maxExperts (c : ManagerConfig) : Nat :=
  c.deviceWeightCapacityBytes / c.readyWeightBytes

def ManagerConfig.inShape (c : ManagerConfig) (key : ExpertKey) : Bool :=
  decide (key.layerId < c.numLayers) && decide (key.expertId < c.expertsPerLayer)

structure WeightManager where
  config : ManagerConfig
  placementGeneration : Nat
  targets : ExtTreeMap ExpertKey TargetExpert
  states : ExtTreeMap ExpertKey LocalState
  /-- the running load of each expert, and whether it was cancelled -/
  loadTasks : ExtTreeMap ExpertKey Bool
  readyKeys : ExtTreeSet ExpertKey
  loadedDeviceBytes : Nat
  shuttingDown : Bool

structure RemovalRequest where
  placementGeneration : Nat
  keys : List ExpertKey
  wholeWorkerShutdown : Bool
deriving DecidableEq, Repr

def WeightManager.new (config : ManagerConfig) : WeightManager :=
  ⟨config, 0, ∅, ∅, ∅, ∅, 0, false⟩

namespace WeightManager

/-! ## targets -/

/-- `_validate_targets`: the list as a map, in one pass -/
def resolveTargets (m : WeightManager) :
    List TargetExpert → ExtTreeMap ExpertKey TargetExpert →
    Except ValueError (ExtTreeMap ExpertKey TargetExpert)
  | [], resolved => .ok resolved
  | target :: rest, resolved =>
    if !m.config.inShape target.key then .error ⟨"target expert exceeds the configured model shape"⟩
    else if target.targetDevice ≠ m.config.device then
      .error ⟨"target device does not match this Worker process"⟩
    else if resolved.contains target.key then .error ⟨"target expert list contains a duplicate"⟩
    else m.resolveTargets rest (resolved.insert target.key target)

def validateTargets (m : WeightManager) (targets : List TargetExpert) :
    Except ValueError (ExtTreeMap ExpertKey TargetExpert) :=
  match m.resolveTargets targets ∅ with
  | .error e => .error e
  | .ok resolved =>
    if m.config.maxExperts < resolved.size then .error ⟨"target expert count exceeds max_experts"⟩
    else .ok resolved

/-- `_set_state_locked`, with the change to report -/
def setState (m : WeightManager) (key : ExpertKey) (state : LocalState) :
    WeightManager × List ExpertStateChange :=
  if m.states[key]? = some state then (m, [])
  else ({ m with states := m.states.insert key state }, [⟨m.placementGeneration, key, state⟩])

def cancelLoad (m : WeightManager) (key : ExpertKey) : WeightManager :=
  { m with
    loadTasks := if m.loadTasks.contains key then m.loadTasks.insert key true else m.loadTasks }

/-- an assigned expert that is not in the new list: its load is cancelled, and it is REMOVED unless
it is ready (then its drain removes it) -/
def dropTarget (m : WeightManager) (key : ExpertKey) : WeightManager × List ExpertStateChange :=
  if key ∈ m.readyKeys then (m.cancelLoad key, []) else (m.cancelLoad key).setState key .removed

def dropTargets (m : WeightManager) :
    List ExpertKey → WeightManager × List ExpertStateChange
  | [] => (m, [])
  | key :: rest =>
    let (m, changes) := m.dropTarget key
    let (m, more) := m.dropTargets rest
    (m, changes ++ more)

/-- an expert of the new list: its load is started unless it is ready or loading -/
def addTarget (m : WeightManager) (key : ExpertKey) : WeightManager :=
  if key ∈ m.readyKeys then m
  else
    { m with
      states := m.states.erase key
      loadTasks := if !m.loadTasks.contains key && !m.shuttingDown then
        m.loadTasks.insert key false else m.loadTasks }

/-- the new list is in force -/
def install (m : WeightManager) (generation : Nat) (resolved : ExtTreeMap ExpertKey TargetExpert) :
    WeightManager × List ExpertStateChange :=
  let dropped := { m with placementGeneration := generation, targets := resolved }.dropTargets
    (m.targets.keys.filter (· ∉ resolved))
  (resolved.keys.foldl addTarget dropped.1, dropped.2)

/-- `apply_targets`: whether the list was applied, the Manager and the changes to report -/
def applyTargets (m : WeightManager) (generation : Nat) (targets : List TargetExpert) :
    Except ValueError (Bool × WeightManager × List ExpertStateChange) :=
  if generation = 0 then .error ⟨"placement_generation must be positive"⟩
  else
    match m.validateTargets targets with
    | .error e => .error e
    | .ok resolved =>
      if generation < m.placementGeneration then .ok (false, m, [])
      else if generation = m.placementGeneration then
        if resolved ≠ m.targets then
          .error ⟨"one placement generation cannot contain different targets"⟩
        else .ok (false, m, [])
      else if m.shuttingDown = true ∧ ∃ key ∈ resolved.keys, key ∉ m.targets then
        .error ⟨"shutting-down Weight Manager rejects new expert targets"⟩
      else .ok (true, m.install generation resolved)

def beginShutdown (m : WeightManager) : WeightManager :=
  if m.shuttingDown then m
  else { m with shuttingDown := true, loadTasks := m.loadTasks.map fun _ _ => true }

/-- the recorded states in key order -/
def snapshot (m : WeightManager) : Nat × List (ExpertKey × LocalState) :=
  (m.placementGeneration, m.states.toList)

/-! ## loads -/

def capacityFailure : LoadFailure :=
  ⟨.dram, .place, .internal, false, "ready expert exceeds the derived device weight capacity",
    by decide, by decide⟩

/-- a load has produced a ready object -/
def finishReady (m : WeightManager) (key : ExpertKey) : WeightManager × List ExpertStateChange :=
  if key ∉ m.targets ∨ key ∈ m.readyKeys then (m, [])
  else if m.config.deviceWeightCapacityBytes < m.loadedDeviceBytes + m.config.readyWeightBytes then
    m.setState key (.failed capacityFailure)
  else
    { m with
      readyKeys := m.readyKeys.insert key
      loadedDeviceBytes := m.loadedDeviceBytes + m.config.readyWeightBytes }.setState key .ready

def finishFailure (m : WeightManager) (key : ExpertKey) (failure : LoadFailure) :
    WeightManager × List ExpertStateChange :=
  if key ∉ m.targets ∨ key ∈ m.readyKeys then (m, [])
  else m.setState key (.failed failure)

/-- the load task ends; a cancelled load of an assigned expert starts again -/
def loadEnded (m : WeightManager) (key : ExpertKey) (cancelled : Bool) : WeightManager :=
  if cancelled = true ∧ m.shuttingDown = false ∧ key ∈ m.targets ∧ key ∉ m.readyKeys then
    { m with states := m.states.erase key, loadTasks := (m.loadTasks.erase key).insert key false }
  else { m with loadTasks := m.loadTasks.erase key }

/-! ## removal -/

/-- `_validate_weight_keys` and `_validate_placement_generation` -/
def removalRequest (m : WeightManager) (generation : Nat) (keys : List ExpertKey)
    (wholeWorkerShutdown : Bool) : Except ValueError RemovalRequest :=
  if generation = 0 then .error ⟨"placement_generation must be positive"⟩
  else if ¬ keys.Nodup then .error ⟨"drained experts must not contain duplicates"⟩
  else if !keys.all m.config.inShape then .error ⟨"drained expert exceeds the configured model shape"⟩
  else .ok ⟨generation, (ExtTreeSet.ofList keys).toList, wholeWorkerShutdown⟩

/-- the checks of `_remove_after_drain`; after `true` every ready key of the request is withdrawn -/
def checkRemoval (m : WeightManager) (request : RemovalRequest) : Except ValueError Bool :=
  if request.placementGeneration < m.placementGeneration then .ok false
  else if m.placementGeneration < request.placementGeneration then
    .error ⟨"drain generation is newer than current placement"⟩
  else if (∃ key ∈ request.keys, key ∈ m.targets) ∧ request.wholeWorkerShutdown = false then
    .error ⟨"cannot remove an expert in the current target list"⟩
  else .ok true

/-- the objects whose withdrawal begins -/
def withdrawn (m : WeightManager) (request : RemovalRequest) : List ExpertKey :=
  request.keys.filter (· ∈ m.readyKeys)

def releaseReady (m : WeightManager) (key : ExpertKey) : WeightManager :=
  { m with
    readyKeys := m.readyKeys.erase key
    loadedDeviceBytes := m.loadedDeviceBytes - m.config.readyWeightBytes }

def setRemoved (m : WeightManager) : List ExpertKey → WeightManager × List ExpertStateChange
  | [] => (m, [])
  | key :: rest =>
    let (m, changes) := m.setState key .removed
    let (m, more) := m.setRemoved rest
    (m, changes ++ more)

/-- the withdrawn objects are released and every key of the request is REMOVED -/
def finishRemoval (m : WeightManager) (request : RemovalRequest) :
    WeightManager × List ExpertStateChange :=
  ((m.withdrawn request).foldl releaseReady m).setRemoved request.keys

end WeightManager

/-! ## histories -/

inductive ManagerOp where
  | applyTargets (generation : Nat) (targets : List TargetExpert)
  | beginShutdown
  | finishReady (key : ExpertKey)
  | finishFailure (key : ExpertKey) (failure : LoadFailure)
  | loadEnded (key : ExpertKey) (cancelled : Bool)
  | removeAfterDrain (generation : Nat) (keys : List ExpertKey) (wholeWorkerShutdown : Bool)

/-- the Manager and the reported changes after one operation; an error changes nothing -/
def ManagerOp.run (m : WeightManager) : ManagerOp → WeightManager × List ExpertStateChange
  | .applyTargets generation targets =>
    match m.applyTargets generation targets with
    | .error _ => (m, [])
    | .ok (_, result) => result
  | .beginShutdown => (m.beginShutdown, [])
  | .finishReady key => m.finishReady key
  | .finishFailure key failure => m.finishFailure key failure
  | .loadEnded key cancelled => (m.loadEnded key cancelled, [])
  | .removeAfterDrain generation keys wholeWorkerShutdown =>
    match m.removalRequest generation keys wholeWorkerShutdown with
    | .error _ => (m, [])
    | .ok request =>
      match m.checkRemoval request with
      | .ok true => m.finishRemoval request
      | _ => (m, [])

def runManager (m : WeightManager) (ops : List ManagerOp) : WeightManager :=
  ops.foldl (fun m op => (op.run m).1) m

/-! ## what the operations change -/

namespace WeightManager

/-- the configuration, the placement and the ready objects stay; loads and states may change -/
def SameCore (m m' : WeightManager) : Prop :=
  ∃ loadTasks states, m' = { m with loadTasks := loadTasks, states := states }

theorem SameCore.refl (m : WeightManager) : m.SameCore m := ⟨m.loadTasks, m.states, rfl⟩

theorem SameCore.trans {m m' m'' : WeightManager} (h : m.SameCore m') (h' : m'.SameCore m'') :
    m.SameCore m'' := by
  obtain ⟨loads, states, rfl⟩ := h
  obtain ⟨loads', states', rfl⟩ := h'
  exact ⟨loads', states', rfl⟩

theorem SameCore.readyKeys {m m' : WeightManager} (h : m.SameCore m') :
    m'.readyKeys = m.readyKeys := by
  obtain ⟨loads, states, rfl⟩ := h
  rfl

theorem setState_core (m : WeightManager) (key : ExpertKey) (state : LocalState) :
    m.SameCore (m.setState key state).1 := by
  unfold setState
  split_ifs
  · exact .refl m
  · exact ⟨m.loadTasks, _, rfl⟩

theorem setState_states (m : WeightManager) (key : ExpertKey) (state : LocalState)
    (k : ExpertKey) :
    (m.setState key state).1.states[k]? = if key = k then some state else m.states[k]? := by
  unfold setState
  split_ifs with h1 h2 h2
  · rw [← h2, h1]
  · rfl
  · rw [Maps.getElem?_insert_eq, if_pos h2]
  · rw [Maps.getElem?_insert_eq, if_neg h2]

theorem dropTarget_core (m : WeightManager) (key : ExpertKey) :
    m.SameCore (m.dropTarget key).1 := by
  have hcancel : m.SameCore (m.cancelLoad key) := ⟨_, m.states, rfl⟩
  unfold dropTarget
  split_ifs
  · exact hcancel
  · exact hcancel.trans (setState_core _ _ _)

theorem dropTarget_states (m : WeightManager) (key k : ExpertKey) :
    (m.dropTarget key).1.states[k]?
      = if key = k ∧ k ∉ m.readyKeys then some .removed else m.states[k]? := by
  unfold dropTarget
  by_cases hr : key ∈ m.readyKeys
  · rw [if_pos hr, if_neg]
    · rfl
    · rintro ⟨rfl, h⟩
      exact h hr
  · rw [if_neg hr, setState_states]
    by_cases hk : key = k
    · subst hk
      rw [if_pos rfl, if_pos ⟨rfl, hr⟩]
    · rw [if_neg hk, if_neg (fun h => hk h.1)]
      rfl

theorem dropTargets_core (m : WeightManager) (l : List ExpertKey) :
    m.SameCore (m.dropTargets l).1 := by
  induction l generalizing m with
  | nil => exact .refl m
  | cons key l ih => exact (dropTarget_core m key).trans (ih _)

theorem dropTargets_states (m : WeightManager) (l : List ExpertKey) (k : ExpertKey) :
    (m.dropTargets l).1.states[k]?
      = if k ∈ l ∧ k ∉ m.readyKeys then some .removed else m.states[k]? := by
  induction l generalizing m with
  | nil => simp [dropTargets]
  | cons key l ih =>
    show ((m.dropTarget key).1.dropTargets l).1.states[k]? = _
    have hmem : k ∈ key :: l ↔ key = k ∨ k ∈ l := by rw [List.mem_cons, eq_comm]
    rw [ih, (dropTarget_core m key).readyKeys, dropTarget_states]
    simp only [hmem]
    by_cases h1 : k ∈ l <;> by_cases h2 : key = k <;> by_cases h3 : k ∈ m.readyKeys <;>
      simp [h1, h2, h3]

theorem addTarget_core (m : WeightManager) (key : ExpertKey) : m.SameCore (m.addTarget key) := by
  unfold addTarget
  split_ifs
  · exact .refl m
  · exact ⟨_, _, rfl⟩
  · exact ⟨_, _, rfl⟩

theorem addTarget_states (m : WeightManager) (key k : ExpertKey) :
    (m.addTarget key).states[k]?
      = if key = k ∧ k ∉ m.readyKeys then none else m.states[k]? := by
  unfold addTarget
  by_cases hr : key ∈ m.readyKeys
  · rw [if_pos hr, if_neg]
    rintro ⟨rfl, h⟩
    exact h hr
  · rw [if_neg hr]
    show (m.states.erase key)[k]? = _
    rw [Maps.getElem?_erase_eq]
    by_cases hk : key = k
    · subst hk
      rw [if_pos rfl, if_pos ⟨rfl, hr⟩]
    · rw [if_neg hk, if_neg (fun h => hk h.1)]

theorem foldl_addTarget_core (m : WeightManager) (l : List ExpertKey) :
    m.SameCore (l.foldl addTarget m) := by
  induction l generalizing m with
  | nil => exact .refl m
  | cons key l ih => exact (addTarget_core m key).trans (ih _)

theorem foldl_addTarget_states (m : WeightManager) (l : List ExpertKey) (k : ExpertKey) :
    (l.foldl addTarget m).states[k]?
      = if k ∈ l ∧ k ∉ m.readyKeys then none else m.states[k]? := by
  induction l generalizing m with
  | nil => simp
  | cons key l ih =>
    have hmem : k ∈ key :: l ↔ key = k ∨ k ∈ l := by rw [List.mem_cons, eq_comm]
    rw [List.foldl_cons, ih, (addTarget_core m key).readyKeys, addTarget_states]
    simp only [hmem]
    by_cases h1 : k ∈ l <;> by_cases h2 : key = k <;> by_cases h3 : k ∈ m.readyKeys <;>
      simp [h1, h2, h3]

/-- the placement is in force, with the loads and states of the old one -/
def placed (m : WeightManager) (generation : Nat) (resolved : ExtTreeMap ExpertKey TargetExpert) :
    WeightManager :=
  { m with placementGeneration := generation, targets := resolved }

/-- the Manager after a new list: dropped experts that are not ready are REMOVED, and assigned
experts that are not ready have no state -/
theorem install_spec (m : WeightManager) (generation : Nat)
    (resolved : ExtTreeMap ExpertKey TargetExpert) :
    (m.placed generation resolved).SameCore (m.install generation resolved).1 ∧
    ∀ k : ExpertKey, (m.install generation resolved).1.states[k]?
      = if k ∈ m.readyKeys then m.states[k]?
        else if k ∈ resolved then none
        else if k ∈ m.targets then some .removed else m.states[k]? := by
  have hdrop := dropTargets_core (m.placed generation resolved)
    (m.targets.keys.filter (· ∉ resolved))
  refine ⟨hdrop.trans (foldl_addTarget_core _ _), ?_⟩
  intro k
  show (resolved.keys.foldl addTarget ((m.placed generation resolved).dropTargets
    (m.targets.keys.filter (· ∉ resolved))).1).states[k]? = _
  have hdropped : k ∈ m.targets.keys.filter (· ∉ resolved) ↔ k ∈ m.targets ∧ k ∉ resolved := by
    simp [List.mem_filter]
  rw [foldl_addTarget_states, hdrop.readyKeys, dropTargets_states]
  simp only [hdropped, ExtTreeMap.mem_keys]
  show (if k ∈ resolved ∧ k ∉ m.readyKeys then none
    else if (k ∈ m.targets ∧ k ∉ resolved) ∧ k ∉ m.readyKeys then some LocalState.removed
    else m.states[k]?) = _
  by_cases h1 : k ∈ m.readyKeys
  · simp [h1]
  · by_cases h2 : k ∈ resolved <;> by_cases h3 : k ∈ m.targets <;> simp [h1, h2, h3]

theorem resolveTargets_spec {m : WeightManager} {targets : List TargetExpert}
    {acc resolved : ExtTreeMap ExpertKey TargetExpert}
    (h : m.resolveTargets targets acc = .ok resolved)
    (hacc : ∀ key ∈ acc, m.config.inShape key = true) :
    ∀ key ∈ resolved, m.config.inShape key = true := by
  induction targets generalizing acc with
  | nil =>
    cases h
    exact hacc
  | cons target rest ih =>
    unfold resolveTargets at h
    split_ifs at h with h1 h2 h3
    refine ih h ?_
    intro key hkey
    rcases ExtTreeMap.mem_insert.mp hkey with hk | hk
    · rw [← Std.compare_eq_iff_eq.mp hk]
      simpa using h1
    · exact hacc key hk

theorem resolveTargets_keys {m : WeightManager} {targets : List TargetExpert}
    {acc resolved : ExtTreeMap ExpertKey TargetExpert}
    (h : m.resolveTargets targets acc = .ok resolved) (k : ExpertKey) :
    k ∈ resolved ↔ k ∈ acc ∨ k ∈ targets.map TargetExpert.key := by
  induction targets generalizing acc with
  | nil =>
    cases h
    simp
  | cons target rest ih =>
    unfold resolveTargets at h
    split_ifs at h with h1 h2 h3
    rw [ih h, ExtTreeMap.mem_insert, Std.compare_eq_iff_eq, List.map_cons, List.mem_cons,
      eq_comm (a := k)]
    tauto

theorem validateTargets_keys {m : WeightManager} {targets : List TargetExpert}
    {resolved : ExtTreeMap ExpertKey TargetExpert} (h : m.validateTargets targets = .ok resolved)
    (k : ExpertKey) : k ∈ resolved ↔ k ∈ targets.map TargetExpert.key := by
  unfold validateTargets at h
  split at h
  · cases h
  · rename_i resolved' hr
    split_ifs at h
    cases h
    rw [resolveTargets_keys hr]
    simp

theorem validateTargets_spec {m : WeightManager} {targets : List TargetExpert}
    {resolved : ExtTreeMap ExpertKey TargetExpert} (h : m.validateTargets targets = .ok resolved) :
    (∀ key ∈ resolved, m.config.inShape key = true) ∧ resolved.size ≤ m.config.maxExperts := by
  unfold validateTargets at h
  split at h
  · cases h
  · rename_i resolved' hr
    split_ifs at h with hsize
    cases h
    exact ⟨resolveTargets_spec hr (by simp), by omega⟩

/-- the list was applied, or it was the current one or an older one -/
theorem applyTargets_cases {m : WeightManager} {generation : Nat} {targets : List TargetExpert}
    {applied : Bool} {m' : WeightManager} {changes : List ExpertStateChange}
    (h : m.applyTargets generation targets = .ok (applied, m', changes)) :
    ∃ resolved, m.validateTargets targets = .ok resolved ∧ 0 < generation ∧
      ((applied = false ∧ m' = m ∧ changes = [] ∧
          (generation < m.placementGeneration ∨
            generation = m.placementGeneration ∧ resolved = m.targets)) ∨
        (applied = true ∧ m.placementGeneration < generation ∧
          (m.shuttingDown = true → ∀ key ∈ resolved, key ∈ m.targets) ∧
          (m', changes) = m.install generation resolved)) := by
  unfold applyTargets at h
  cases hv : m.validateTargets targets with
  | error e =>
    rw [hv] at h
    split_ifs at h
  | ok resolved =>
    rw [hv] at h
    simp only at h
    split_ifs at h with hzero h1 h2 h3 h4
    all_goals refine ⟨resolved, rfl, by omega, ?_⟩
    · cases h
      exact .inl ⟨rfl, rfl, rfl, .inl h1⟩
    · cases h
      exact .inl ⟨rfl, rfl, rfl, .inr ⟨h2, not_ne_iff.mp h3⟩⟩
    · simp only [Except.ok.injEq, Prod.mk.injEq] at h
      refine .inr ⟨h.1.symm, by omega, ?_, h.2.symm⟩
      intro hs key hkey
      by_contra hnew
      exact h4 ⟨hs, key, ExtTreeMap.mem_keys.mpr hkey, hnew⟩

theorem finishReady_cases (m : WeightManager) (key : ExpertKey) :
    (m.finishReady key = (m, []) ∧ (key ∉ m.targets ∨ key ∈ m.readyKeys)) ∨
    (key ∈ m.targets ∧ key ∉ m.readyKeys ∧
      (m.finishReady key = m.setState key (.failed capacityFailure) ∨
        ∃ bytes, m.finishReady key = { m with
          readyKeys := m.readyKeys.insert key
          loadedDeviceBytes := bytes }.setState key .ready)) := by
  unfold finishReady
  by_cases h : key ∉ m.targets ∨ key ∈ m.readyKeys
  · rw [if_pos h]
    exact .inl ⟨rfl, h⟩
  · rw [if_neg h]
    rw [not_or, not_not] at h
    refine .inr ⟨h.1, h.2, ?_⟩
    split_ifs
    · exact .inl rfl
    · exact .inr ⟨_, rfl⟩

theorem finishFailure_cases (m : WeightManager) (key : ExpertKey) (failure : LoadFailure) :
    m.finishFailure key failure = (m, []) ∨
    (key ∈ m.targets ∧ key ∉ m.readyKeys ∧
      m.finishFailure key failure = m.setState key (.failed failure)) := by
  unfold finishFailure
  by_cases h : key ∉ m.targets ∨ key ∈ m.readyKeys
  · rw [if_pos h]
    exact .inl rfl
  · rw [if_neg h]
    rw [not_or, not_not] at h
    exact .inr ⟨h.1, h.2, rfl⟩

theorem loadEnded_cases (m : WeightManager) (key : ExpertKey) (cancelled : Bool) :
    (∃ loads, m.loadEnded key cancelled = { m with loadTasks := loads }) ∨
    (key ∉ m.readyKeys ∧ ∃ loads, m.loadEnded key cancelled
      = { m with loadTasks := loads, states := m.states.erase key }) := by
  unfold loadEnded
  split_ifs with h
  · exact .inr ⟨h.2.2.2, _, rfl⟩
  · exact .inl ⟨_, rfl⟩

/-- the objects are released: only the ready keys and the byte count change -/
theorem foldl_releaseReady (m : WeightManager) (l : List ExpertKey) :
    ∃ bytes ready, l.foldl releaseReady m
      = { m with readyKeys := ready, loadedDeviceBytes := bytes } ∧
      ∀ k : ExpertKey, k ∈ ready ↔ k ∈ m.readyKeys ∧ k ∉ l := by
  induction l generalizing m with
  | nil => exact ⟨m.loadedDeviceBytes, m.readyKeys, rfl, by simp⟩
  | cons key l ih =>
    obtain ⟨bytes, ready, heq, hmem⟩ := ih (m.releaseReady key)
    refine ⟨bytes, ready, heq, ?_⟩
    intro k
    rw [hmem, List.mem_cons, not_or]
    show k ∈ m.readyKeys.erase key ∧ k ∉ l ↔ _
    rw [ExtTreeSet.mem_erase]
    have hne : compare key k ≠ .eq ↔ k ≠ key := by
      rw [ne_eq, Std.compare_eq_iff_eq, eq_comm]
    rw [hne]
    tauto

theorem setRemoved_core (m : WeightManager) (l : List ExpertKey) :
    m.SameCore (m.setRemoved l).1 := by
  induction l generalizing m with
  | nil => exact .refl m
  | cons key l ih => exact (setState_core m key .removed).trans (ih _)

theorem setRemoved_states (m : WeightManager) (l : List ExpertKey) (k : ExpertKey) :
    (m.setRemoved l).1.states[k]? = if k ∈ l then some .removed else m.states[k]? := by
  induction l generalizing m with
  | nil => simp [setRemoved]
  | cons key l ih =>
    show ((m.setState key .removed).1.setRemoved l).1.states[k]? = _
    have hmem : k ∈ key :: l ↔ key = k ∨ k ∈ l := by rw [List.mem_cons, eq_comm]
    rw [ih, setState_states]
    simp only [hmem]
    by_cases h1 : k ∈ l <;> by_cases h2 : key = k <;> simp [h1, h2]

/-- after a removal no key of the request is ready and all of them are REMOVED -/
theorem finishRemoval_spec (m : WeightManager) (request : RemovalRequest) :
    (∃ bytes ready states, (m.finishRemoval request).1
      = { m with readyKeys := ready, loadedDeviceBytes := bytes, states := states }) ∧
    (∀ k : ExpertKey, k ∈ (m.finishRemoval request).1.readyKeys ↔
      k ∈ m.readyKeys ∧ k ∉ request.keys) ∧
    ∀ k : ExpertKey, (m.finishRemoval request).1.states[k]?
      = if k ∈ request.keys then some .removed else m.states[k]? := by
  obtain ⟨bytes, ready, heq, hmem⟩ := foldl_releaseReady m (m.withdrawn request)
  have hcore := setRemoved_core ((m.withdrawn request).foldl releaseReady m) request.keys
  refine ⟨?_, ?_, ?_⟩
  · obtain ⟨loads, states, hres⟩ := hcore
    refine ⟨bytes, ready, states, ?_⟩
    show (setRemoved _ _).1 = _
    have hloads : (setRemoved ((m.withdrawn request).foldl releaseReady m)
        request.keys).1.loadTasks = m.loadTasks := by
      have hset : ∀ (l : List ExpertKey) (m : WeightManager),
          (m.setRemoved l).1.loadTasks = m.loadTasks := by
        intro l
        induction l with
        | nil => intro m; rfl
        | cons key l ih =>
          intro m
          show ((m.setState key .removed).1.setRemoved l).1.loadTasks = _
          rw [ih]
          unfold setState
          split_ifs <;> rfl
      rw [hset, heq]
    rw [hres] at hloads ⊢
    rw [show loads = m.loadTasks from hloads, heq]
  · intro k
    show k ∈ (setRemoved _ _).1.readyKeys ↔ _
    rw [hcore.readyKeys, heq]
    show k ∈ ready ↔ _
    rw [hmem]
    unfold withdrawn
    simp only [List.mem_filter, decide_eq_true_eq]
    tauto
  · intro k
    show (setRemoved _ _).1.states[k]? = _
    rw [setRemoved_states, heq]

end WeightManager

/-! ## what holds after every history -/

/-- recorded experts lie in the model shape, and READY is recorded for exactly the ready objects -/
structure ManagerOk (m : WeightManager) : Prop where
  targets_shape : ∀ k ∈ m.targets, m.config.inShape k = true
  states_shape : ∀ k ∈ m.states, m.config.inShape k = true
  ready_iff : ∀ k : ExpertKey, k ∈ m.readyKeys ↔ m.states[k]? = some .ready

theorem mem_iff_getElem? {β : Type} {t : ExtTreeMap ExpertKey β} {k : ExpertKey} :
    k ∈ t ↔ ∃ b, t[k]? = some b := by
  rw [← ExtTreeMap.isSome_getElem?_iff_mem, Option.isSome_iff_exists]

theorem ManagerOk.setState {m : WeightManager} (h : ManagerOk m) {key : ExpertKey}
    {state : LocalState} (hshape : m.config.inShape key = true) (hnew : state ≠ .ready)
    (hnot : key ∉ m.readyKeys) : ManagerOk (m.setState key state).1 := by
  have hstates := m.setState_states key state
  obtain ⟨loads, states, hcore⟩ := m.setState_core key state
  rw [hcore] at hstates ⊢
  refine ⟨h.targets_shape, ?_, ?_⟩
  · intro k hk
    obtain ⟨b, hb⟩ := mem_iff_getElem?.mp hk
    rw [hstates] at hb
    split_ifs at hb with he
    · exact he ▸ hshape
    · exact h.states_shape k (mem_iff_getElem?.mpr ⟨b, hb⟩)
  · intro k
    show k ∈ m.readyKeys ↔ states[k]? = some .ready
    rw [show states[k]? = _ from hstates k]
    split_ifs with he
    · subst he
      simp [hnot, hnew]
    · exact h.ready_iff k

theorem ManagerOk.install {m : WeightManager} (h : ManagerOk m) (generation : Nat)
    {resolved : ExtTreeMap ExpertKey TargetExpert}
    (hshape : ∀ k ∈ resolved, m.config.inShape k = true) :
    ManagerOk (m.install generation resolved).1 := by
  obtain ⟨⟨loads, states, hcore⟩, hstates⟩ := m.install_spec generation resolved
  rw [hcore] at hstates ⊢
  refine ⟨hshape, ?_, ?_⟩
  · intro k hk
    obtain ⟨b, hb⟩ := mem_iff_getElem?.mp hk
    rw [hstates] at hb
    split_ifs at hb with h1 h2 h3
    · exact h.states_shape k (mem_iff_getElem?.mpr ⟨b, hb⟩)
    · exact h.targets_shape k h3
    · exact h.states_shape k (mem_iff_getElem?.mpr ⟨b, hb⟩)
  · intro k
    show k ∈ m.readyKeys ↔ states[k]? = some .ready
    rw [show states[k]? = _ from hstates k]
    have hiff := h.ready_iff k
    split_ifs with h1 h2 h3
    · exact hiff
    · simp [h1]
    · simp [h1]
    · exact hiff

theorem ManagerOk.finishReady {m : WeightManager} (h : ManagerOk m) (key : ExpertKey) :
    ManagerOk (m.finishReady key).1 := by
  rcases m.finishReady_cases key with ⟨heq, _⟩ | ⟨ht, hr, heq | ⟨bytes, heq⟩⟩
  · rw [heq]
    exact h
  · rw [heq]
    exact h.setState (h.targets_shape key ht) (by simp) hr
  · rw [heq]
    have hstates := WeightManager.setState_states
      { m with readyKeys := m.readyKeys.insert key, loadedDeviceBytes := bytes } key .ready
    obtain ⟨loads, states, hcore⟩ := WeightManager.setState_core
      { m with readyKeys := m.readyKeys.insert key, loadedDeviceBytes := bytes } key .ready
    rw [hcore] at hstates ⊢
    refine ⟨h.targets_shape, ?_, ?_⟩
    · intro k hk
      obtain ⟨b, hb⟩ := mem_iff_getElem?.mp hk
      rw [hstates] at hb
      split_ifs at hb with he
      · exact he ▸ h.targets_shape key ht
      · exact h.states_shape k (mem_iff_getElem?.mpr ⟨b, hb⟩)
    · intro k
      show k ∈ m.readyKeys.insert key ↔ states[k]? = some .ready
      rw [show states[k]? = _ from hstates k, ExtTreeSet.mem_insert, Std.compare_eq_iff_eq]
      split_ifs with he
      · simp [he]
      · simp only [he, false_or]
        exact h.ready_iff k

theorem ManagerOk.finishRemoval {m : WeightManager} (h : ManagerOk m) {request : RemovalRequest}
    (hshape : ∀ k ∈ request.keys, m.config.inShape k = true) :
    ManagerOk (m.finishRemoval request).1 := by
  obtain ⟨⟨bytes, ready, states, hcore⟩, hready, hstates⟩ := m.finishRemoval_spec request
  rw [hcore] at hready hstates ⊢
  refine ⟨h.targets_shape, ?_, ?_⟩
  · intro k hk
    obtain ⟨b, hb⟩ := mem_iff_getElem?.mp hk
    rw [hstates] at hb
    split_ifs at hb with he
    · exact hshape k he
    · exact h.states_shape k (mem_iff_getElem?.mpr ⟨b, hb⟩)
  · intro k
    rw [hready k, hstates k]
    split_ifs with he
    · simp [he]
    · simp only [he, not_false_eq_true, and_true]
      exact h.ready_iff k

theorem ManagerOk.loadEnded {m : WeightManager} (h : ManagerOk m) (key : ExpertKey)
    (cancelled : Bool) : ManagerOk (m.loadEnded key cancelled) := by
  rcases m.loadEnded_cases key cancelled with ⟨loads, heq⟩ | ⟨hr, loads, heq⟩
  · rw [heq]
    exact ⟨h.targets_shape, h.states_shape, h.ready_iff⟩
  · rw [heq]
    refine ⟨h.targets_shape, ?_, ?_⟩
    · intro k hk
      exact h.states_shape k (ExtTreeMap.mem_of_mem_erase hk)
    · intro k
      show k ∈ m.readyKeys ↔ (m.states.erase key)[k]? = some .ready
      rw [Maps.getElem?_erase_eq]
      split_ifs with he
      · subst he
        simp [hr]
      · exact h.ready_iff k

theorem removalRequest_spec {m : WeightManager} {generation : Nat} {keys : List ExpertKey}
    {whole : Bool} {request : RemovalRequest}
    (h : m.removalRequest generation keys whole = .ok request) :
    request.placementGeneration = generation ∧ request.wholeWorkerShutdown = whole ∧
      0 < generation ∧ keys.Nodup ∧ (∀ k ∈ keys, m.config.inShape k = true) ∧
      ∀ k, k ∈ request.keys ↔ k ∈ keys := by
  unfold WeightManager.removalRequest at h
  split_ifs at h with h1 h2 h3
  cases h
  refine ⟨rfl, rfl, by omega, h2, by simpa using h3, ?_⟩
  intro k
  show k ∈ (ExtTreeSet.ofList keys).toList ↔ k ∈ keys
  rw [ExtTreeSet.mem_toList, ExtTreeSet.mem_ofList, List.contains_iff_mem]

theorem ManagerOp.run_ok {m : WeightManager} (h : ManagerOk m) (op : ManagerOp) :
    ManagerOk (op.run m).1 ∧ (op.run m).1.config = m.config := by
  cases op with
  | applyTargets generation targets =>
    unfold ManagerOp.run
    simp only
    split
    · exact ⟨h, rfl⟩
    · rename_i applied result heq
      obtain ⟨m', changes⟩ := result
      obtain ⟨resolved, hv, _, ⟨_, rfl, _, _⟩ | ⟨_, _, _, hinst⟩⟩ :=
        WeightManager.applyTargets_cases heq
      · exact ⟨h, rfl⟩
      · have hm : m' = (m.install generation resolved).1 := congrArg Prod.fst hinst
        obtain ⟨loads, states, hcore⟩ := (m.install_spec generation resolved).1
        refine ⟨hm ▸ h.install generation (WeightManager.validateTargets_spec hv).1, ?_⟩
        show m'.config = m.config
        rw [hm, hcore]
        rfl
  | beginShutdown =>
    show ManagerOk m.beginShutdown ∧ m.beginShutdown.config = m.config
    unfold WeightManager.beginShutdown
    split_ifs
    · exact ⟨h, rfl⟩
    · exact ⟨⟨h.targets_shape, h.states_shape, h.ready_iff⟩, rfl⟩
  | finishReady key =>
    refine ⟨h.finishReady key, ?_⟩
    show (m.finishReady key).1.config = m.config
    rcases m.finishReady_cases key with ⟨heq, _⟩ | ⟨_, _, heq | ⟨bytes, heq⟩⟩
    · rw [heq]
    · rw [heq]
      obtain ⟨_, _, hcore⟩ := m.setState_core key (.failed WeightManager.capacityFailure)
      rw [hcore]
    · rw [heq]
      obtain ⟨_, _, hcore⟩ := WeightManager.setState_core
        { m with readyKeys := m.readyKeys.insert key, loadedDeviceBytes := bytes } key .ready
      rw [hcore]
  | finishFailure key failure =>
    show ManagerOk (m.finishFailure key failure).1 ∧ (m.finishFailure key failure).1.config = _
    rcases m.finishFailure_cases key failure with heq | ⟨ht, hr, heq⟩
    · rw [heq]
      exact ⟨h, rfl⟩
    · rw [heq]
      obtain ⟨_, _, hcore⟩ := m.setState_core key (.failed failure)
      refine ⟨h.setState (h.targets_shape key ht) (by simp) hr, ?_⟩
      rw [hcore]
  | loadEnded key cancelled =>
    refine ⟨h.loadEnded key cancelled, ?_⟩
    show (m.loadEnded key cancelled).config = m.config
    rcases m.loadEnded_cases key cancelled with ⟨loads, heq⟩ | ⟨_, loads, heq⟩ <;> rw [heq]
  | removeAfterDrain generation keys whole =>
    unfold ManagerOp.run
    simp only
    split
    · exact ⟨h, rfl⟩
    · rename_i request hreq
      split
      · obtain ⟨_, _, _, _, hshape, hmem⟩ := removalRequest_spec hreq
        refine ⟨h.finishRemoval fun k hk => hshape k ((hmem k).mp hk), ?_⟩
        obtain ⟨_, _, _, hcore⟩ := (m.finishRemoval_spec request).1
        rw [hcore]
      · exact ⟨h, rfl⟩

theorem managerOk_new (config : ManagerConfig) : ManagerOk (.new config) :=
  ⟨by simp [WeightManager.new], by simp [WeightManager.new], by simp [WeightManager.new]⟩

theorem runManager_ok (config : ManagerConfig) (ops : List ManagerOp) :
    ManagerOk (runManager (.new config) ops) ∧ (runManager (.new config) ops).config = config := by
  induction ops using List.reverseRecOn with
  | nil => exact ⟨managerOk_new config, rfl⟩
  | append_singleton ops op ih =>
    obtain ⟨hok, hconfig⟩ := op.run_ok ih.1
    unfold runManager at hok hconfig ih ⊢
    rw [List.foldl_append]
    exact ⟨hok, hconfig.trans ih.2⟩

end ExpertKit.Worker

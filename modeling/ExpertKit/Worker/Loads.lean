import ExpertKit.Worker.Manager
import ExpertKit.Lib.Steps

/-!
# Worker: the load tasks of the Weight Manager

`_load_one` of `ek-worker/src/expertkit_worker/weights/manager.py` as a task that is suspended at
its awaits, beside the operations of `WeightManager`, the `ReadyWeightTable` of `weights/ready.py`
and the slots of `FusedWeightStorage`.  A task runs from one await to the next in one step, and a cancelled
task is resumed with `CancelledError` at the await where it is suspended.  Only a removal is
suspended while it holds the Manager lock.

* `ReadyTable`          publication, leases and withdrawal of the ready objects;
* `LoadPhase`           the await at which a load task is suspended;
* `LiveManager`         the Manager, its tasks and its table;
* `LoadLabel`, `LiveManager.step`   what can happen next;
* `TaskStep`, `taskStep_of_step`     everything a load task can do in one step.

A key has one load task at a time: only the task itself takes its entry out of `_load_tasks`, in the
step that ends it.
-/

set_option linter.unusedSectionVars false

namespace ExpertKit.Worker
open Std

/-! ## the ready table -/

inductive ReadyError where
  | value (message : String)
  | runtime (message : String)
  | notReady (expertIds : List Nat)
deriving DecidableEq, Repr

/-- `_ReadyEntry`, without the Backend object -/
structure ReadyEntry where
  accepting : Bool
  useCount : Nat
deriving DecidableEq, Repr

/-- the occupied positions -/
abbrev ReadyTable := ExtTreeMap ExpertKey ReadyEntry

namespace ReadyTable

def publish (t : ReadyTable) (key : ExpertKey) : Except ReadyError ReadyTable :=
  if key ∈ t then .error (.runtime "ready weight position is already occupied")
  else .ok (t.insert key ⟨true, 0⟩)

/-- the positions that cannot accept a new computation -/
def unavailable (t : ReadyTable) (layerId : Nat) (expertIds : List Nat) : List Nat :=
  expertIds.filter fun expertId => !(t[(⟨layerId, expertId⟩ : ExpertKey)]?.any (·.accepting))

def addUses (t : ReadyTable) (layerId : Nat) (expertIds : List Nat) : ReadyTable :=
  expertIds.foldl (fun t expertId =>
    t.alter ⟨layerId, expertId⟩ (Option.map fun e => { e with useCount := e.useCount + 1 })) t

/-- the loop of `_validate_expert_list`; `least` is one more than the previous number -/
def validateExperts (config : ManagerConfig) : Nat → List Nat → Except ReadyError Unit
  | _, [] => .ok ()
  | least, expertId :: rest =>
    if config.expertsPerLayer ≤ expertId then
      .error (.value "expert_id exceeds the ready weight table")
    else if expertId < least then
      .error (.value "distinct_expert_ids must be sorted with no duplicates")
    else validateExperts config (expertId + 1) rest

def validateExpertList (config : ManagerConfig) (layerId : Nat) (expertIds : List Nat) :
    Except ReadyError Unit :=
  if config.numLayers ≤ layerId then .error (.value "layer_id exceeds the ready weight table")
  else validateExperts config 0 expertIds

def acquireMany (t : ReadyTable) (config : ManagerConfig) (layerId : Nat) (expertIds : List Nat) :
    Except ReadyError ReadyTable := do
  validateExpertList config layerId expertIds
  if t.unavailable layerId expertIds ≠ [] then
    throw (.notReady (t.unavailable layerId expertIds))
  return t.addUses layerId expertIds

/-- `_release` -/
def release (t : ReadyTable) (layerId : Nat) (expertIds : List Nat) :
    Except ReadyError ReadyTable :=
  if ∃ expertId ∈ expertIds, (⟨layerId, expertId⟩ : ExpertKey) ∉ t then
    .error (.runtime "retained ready weight changed before release")
  else if expertIds.any fun expertId =>
      t[(⟨layerId, expertId⟩ : ExpertKey)]?.any (·.useCount = 0) then
    .error (.runtime "ready weight usage count underflow")
  else .ok (expertIds.foldl (fun t expertId =>
    t.alter ⟨layerId, expertId⟩ (Option.map fun e => { e with useCount := e.useCount - 1 })) t)

/-- `begin_withdrawal` of each key; it stops at the first empty position -/
def beginWithdrawals (t : ReadyTable) : List ExpertKey → ReadyTable × Option ReadyError
  | [] => (t, none)
  | key :: rest =>
    match t[key]? with
    | none => (t, some (.notReady [key.expertId]))
    | some e => beginWithdrawals (t.insert key { e with accepting := false }) rest

end ReadyTable

/-! ## load tasks -/

/-- what `CpuWeightLoader.acquire` gives: a lease, its `WeightLoadFailed`, or any other exception (of
`disk_cache.remove`, say), which no handler of `_load_one` takes -/
inductive AcquireResult where
  | leased (source : WeightSource)
  | failed (failure : LoadFailure)
  | raised
deriving DecidableEq

/-- what `make_ready_weight` gives: a ready object, or the kind of its exception -/
inductive ConvertResult where
  | ready
  | unsupported (diagnostic : String)
  | internal (diagnostic : String)
  | fatal
deriving DecidableEq

/-- the work of the conversion executor -/
inductive Conversion where
  | queued
  | running
  | done (result : ConvertResult)
deriving DecidableEq

/-- the await at which a started load task is suspended; `cancelled` is the variable of `_load_one`
and of the two loops that outlive a cancellation -/
inductive LoadPhase where
  | waitingLimit
  | readingTarget
  | acquiring
  | converting (source : WeightSource) (work : Conversion) (cancelled : Bool)
  | recordingFailure (failure : LoadFailure) (leased : Bool)
  | settingFatal
  | publishing (done cancelled : Bool)
  | closing (cancelled : Bool)
  | ending (cancelled : Bool)
  | finished
deriving DecidableEq

namespace LoadPhase

/-- the task is inside `async with self._load_limit` -/
def holdsPermit : LoadPhase → Bool
  | .waitingLimit | .ending _ | .finished => false
  | _ => true

/-- where a task goes that is resumed with `CancelledError`; one that has not started ends at once,
without its `finally` -/
def interrupted : Option LoadPhase → LoadPhase
  | none => .finished
  | some .waitingLimit | some .readingTarget | some .acquiring => .ending true
  | some (.converting source work _) => .converting source work true
  | some (.recordingFailure _ leased) => if leased then .closing true else .ending true
  | some .settingFatal => .closing true
  | some (.publishing done _) => .publishing done true
  | some (.closing _) => .ending true
  | some (.ending _) => .finished
  | some .finished => .finished

end LoadPhase

theorem internal_specified : WeightLoadErrorCode.internal ≠ .unspecified := by decide

def conversionFailure (source : WeightSource) (code : WeightLoadErrorCode) (diagnostic : String)
    (h : code ≠ .unspecified) : LoadFailure :=
  ⟨source, .convert, code, false, diagnostic, by decide, h⟩

/-- a started Manager; `fused` chooses the adapter with a fixed slot for each ready expert -/
structure LiveManager where
  manager : WeightManager
  fused : Bool
  maxConcurrentLoads : Nat
  limit_pos : 0 < maxConcurrentLoads
  /-- the started load tasks; one of `manager.loadTasks` without a phase has not run yet, and the
  flag there is a cancellation that is not delivered yet -/
  phases : ExtTreeMap ExpertKey LoadPhase
  table : ReadyTable
  leases : List (Nat × List Nat)
  /-- the positions that own a fused slot -/
  owners : ExtTreeSet ExpertKey
  /-- the removal that holds the lock, with the objects it still waits for -/
  removal : Option (RemovalRequest × List ExpertKey)
  fatal : Bool

namespace LiveManager

def new (config : ManagerConfig) (fused : Bool) (maxConcurrentLoads : Nat)
    (h : 0 < maxConcurrentLoads) : LiveManager :=
  ⟨.new config, fused, maxConcurrentLoads, h, ∅, ∅, [], ∅, none, false⟩

def setPhase (s : LiveManager) (key : ExpertKey) (phase : LoadPhase) : LiveManager :=
  { s with phases := s.phases.insert key phase }

def permits (s : LiveManager) : Nat := (s.phases.toList.filter (·.2.holdsPermit)).length

/-! ## a load task -/

/-- `CancelledError` reaches the task -/
def deliver (s : LiveManager) (key : ExpertKey) : Option LiveManager :=
  if s.manager.loadTasks[key]? = some true ∧ s.phases[key]? ≠ some .finished then
    some { s with
      manager := { s.manager with loadTasks := s.manager.loadTasks.insert key false }
      phases := s.phases.insert key (LoadPhase.interrupted s.phases[key]?) }
  else none

/-- a task that needs the lock runs on while no removal holds it -/
def whenFree (s : LiveManager) (s' : LiveManager) : Option LiveManager :=
  if s.removal.isNone then some s' else none

/-- `_load_one` after `_make_ready_weight`; the object of a cancelled load is given back -/
def convertedTo (s : LiveManager) (key : ExpertKey) (source : WeightSource) (cancelled : Bool) :
    ConvertResult → LiveManager
  | .ready =>
    if cancelled then { s with owners := s.owners.erase key }.setPhase key (.closing true)
    else s.setPhase key (.publishing false false)
  | .unsupported diagnostic =>
    s.setPhase key
      (.recordingFailure (conversionFailure source .unsupported diagnostic (by decide)) true)
  | .internal diagnostic =>
    s.setPhase key
      (.recordingFailure (conversionFailure source .internal diagnostic internal_specified) true)
  | .fatal => s.setPhase key .settingFatal

/-- the task runs to its next await; the results of the loader, of the executor and of
`_finish_ready` are labels of their own -/
def resume (s : LiveManager) (key : ExpertKey) : Option LiveManager :=
  if s.manager.loadTasks[key]? ≠ some false then none
  else
    match s.phases[key]? with
    | none => some (s.setPhase key .waitingLimit)
    | some .waitingLimit =>
      if s.permits < s.maxConcurrentLoads then some (s.setPhase key .readingTarget) else none
    | some .readingTarget =>
      s.whenFree (s.setPhase key (if key ∈ s.manager.targets then .acquiring else .ending false))
    | some (.recordingFailure failure leased) =>
      s.whenFree ({ s with manager := (s.manager.finishFailure key failure).1 }.setPhase key
        (if leased then .closing false else .ending false))
    | some (.converting source (.done result) cancelled) =>
      some (s.convertedTo key source cancelled result)
    | some .settingFatal => s.whenFree ({ s with fatal := true }.setPhase key (.closing false))
    | some (.publishing true cancelled) => some (s.setPhase key (.closing cancelled))
    | some (.closing cancelled) => some (s.setPhase key (.ending cancelled))
    | some (.ending cancelled) =>
      s.whenFree { s with
        manager := s.manager.loadEnded key cancelled, phases := s.phases.erase key }
    | _ => none

def acquired (s : LiveManager) (key : ExpertKey) (result : AcquireResult) : Option LiveManager :=
  if s.manager.loadTasks[key]? = some false ∧ s.phases[key]? = some .acquiring then
    some (s.setPhase key
      (match result with
        | .leased source => .converting source .queued false
        | .failed failure => .recordingFailure failure false
        | .raised => .ending false))
  else none

/-- `FusedWeightStorage.claim` -/
def claimSlot (s : LiveManager) (key : ExpertKey) : Except String (ExtTreeSet ExpertKey) :=
  if key ∈ s.owners then .error "fused expert position already owns a slot"
  else if s.manager.config.maxExperts ≤ s.owners.size then .error "no free fused weight slot"
  else .ok (s.owners.insert key)

/-- the executor starts the conversion; only the fused adapter claims a slot for it -/
def claim (s : LiveManager) (key : ExpertKey) : Option LiveManager :=
  match s.phases[key]? with
  | some (.converting source .queued cancelled) =>
    if s.fused then
      match s.claimSlot key with
      | .ok owners =>
        some ({ s with owners := owners }.setPhase key (.converting source .running cancelled))
      | .error message =>
        some (s.setPhase key (.converting source (.done (.internal message)) cancelled))
    else some (s.setPhase key (.converting source .running cancelled))
  | _ => none

/-- the executor ends the conversion; the CPU weight may be refused before a slot is claimed, and a
slot is kept only for a ready object -/
def converted (s : LiveManager) (key : ExpertKey) (result : ConvertResult) : Option LiveManager :=
  match s.phases[key]? with
  | some (.converting source .queued cancelled) =>
    if result = ConvertResult.ready then none
    else some (s.setPhase key (.converting source (.done result) cancelled))
  | some (.converting source .running cancelled) =>
    some ({ s with
      owners := if result = ConvertResult.ready then s.owners else s.owners.erase key }.setPhase key
        (.converting source (.done result) cancelled))
  | _ => none

/-- one more object fits the device -/
def hasRoom (s : LiveManager) : Bool :=
  decide (s.manager.loadedDeviceBytes + s.manager.config.readyWeightBytes
    ≤ s.manager.config.deviceWeightCapacityBytes)

/-- `_finish_ready` under the lock -/
def finishReady (s : LiveManager) (key : ExpertKey) : LiveManager :=
  if key ∈ s.manager.targets ∧ key ∉ s.manager.readyKeys ∧ s.hasRoom = true then
    match s.table.publish key with
    | .error _ => { s with owners := s.owners.erase key }
    | .ok table => { s with manager := (s.manager.finishReady key).1, table := table }
  else { s with manager := (s.manager.finishReady key).1, owners := s.owners.erase key }

/-- the task of `_finish_ready` runs; it is shielded from the cancellation of its load -/
def publish (s : LiveManager) (key : ExpertKey) : Option LiveManager :=
  match s.phases[key]? with
  | some (.publishing false cancelled) =>
    s.whenFree ((s.finishReady key).setPhase key (.publishing true cancelled))
  | _ => none

/-! ## the operations -/

def applyTargets (s : LiveManager) (generation : Nat) (targets : List TargetExpert) :
    Option LiveManager :=
  match s.manager.applyTargets generation targets with
  | .error _ => s.whenFree s
  | .ok (_, manager, _) => s.whenFree { s with manager := manager }

def beginShutdown (s : LiveManager) : Option LiveManager :=
  s.whenFree { s with manager := s.manager.beginShutdown }

/-- somebody else cancels a load task -/
def cancel (s : LiveManager) (key : ExpertKey) : Option LiveManager :=
  if key ∈ s.manager.loadTasks ∧ s.phases[key]? ≠ some .finished then
    some { s with manager := s.manager.cancelLoad key }
  else none

/-- a removal has the lock: it withdraws the ready objects of its request -/
def beginRemoval (s : LiveManager) (generation : Nat) (keys : List ExpertKey) (whole : Bool) :
    Option LiveManager :=
  match s.manager.removalRequest generation keys whole with
  | .error _ => some s
  | .ok request =>
    match s.manager.checkRemoval request with
    | .error _ => s.whenFree s
    | .ok false => s.whenFree s
    | .ok true =>
      let withdrawal := s.table.beginWithdrawals (s.manager.withdrawn request)
      s.whenFree { s with
        table := withdrawal.1
        removal := if withdrawal.2.isNone then some (request, s.manager.withdrawn request)
          else none }

/-- the next object has no users left and is released; an error frees the lock -/
def withdraw (s : LiveManager) : Option LiveManager :=
  match s.removal with
  | some (request, key :: rest) =>
    match s.table[key]? with
    | none => some { s with removal := none }
    | some e =>
      if e.accepting then some { s with removal := none }
      else if e.useCount = 0 then
        some { s with
          manager := s.manager.releaseReady key
          table := s.table.erase key
          owners := s.owners.erase key
          removal := some (request, rest) }
      else none
  | _ => none

def finishRemoval (s : LiveManager) : Option LiveManager :=
  match s.removal with
  | some (request, []) =>
    some { s with manager := (s.manager.setRemoved request.keys).1, removal := none }
  | _ => none

def acquireMany (s : LiveManager) (layerId : Nat) (expertIds : List Nat) : Option LiveManager :=
  match s.table.acquireMany s.manager.config layerId expertIds with
  | .error _ => some s
  | .ok table => some { s with table := table, leases := s.leases ++ [(layerId, expertIds)] }

def closeLease (s : LiveManager) (i : Nat) : Option LiveManager :=
  match s.leases[i]? with
  | none => none
  | some (layerId, expertIds) =>
    match s.table.release layerId expertIds with
    | .error _ => some s
    | .ok table => some { s with table := table, leases := s.leases.eraseIdx i }

end LiveManager

/-! ## steps -/

inductive LoadLabel where
  | applyTargets (generation : Nat) (targets : List TargetExpert)
  | beginShutdown
  | cancel (key : ExpertKey)
  | beginRemoval (generation : Nat) (keys : List ExpertKey) (wholeWorkerShutdown : Bool)
  | withdraw
  | finishRemoval
  | deliver (key : ExpertKey)
  | resume (key : ExpertKey)
  | acquired (key : ExpertKey) (result : AcquireResult)
  | claim (key : ExpertKey)
  | converted (key : ExpertKey) (result : ConvertResult)
  | publish (key : ExpertKey)
  | acquireMany (layerId : Nat) (expertIds : List Nat)
  | closeLease (i : Nat)
deriving DecidableEq

def LiveManager.step (s : LiveManager) : LoadLabel → Option LiveManager
  | .applyTargets generation targets => s.applyTargets generation targets
  | .beginShutdown => s.beginShutdown
  | .cancel key => s.cancel key
  | .beginRemoval generation keys whole => s.beginRemoval generation keys whole
  | .withdraw => s.withdraw
  | .finishRemoval => s.finishRemoval
  | .deliver key => s.deliver key
  | .resume key => s.resume key
  | .acquired key result => s.acquired key result
  | .claim key => s.claim key
  | .converted key result => s.converted key result
  | .publish key => s.publish key
  | .acquireMany layerId expertIds => s.acquireMany layerId expertIds
  | .closeLease i => s.closeLease i

/-- the load task that takes the step, or for which the executor or `_finish_ready` does -/
def LoadLabel.task : LoadLabel → Option ExpertKey
  | .deliver key | .resume key | .acquired key _ | .claim key | .converted key _ | .publish key =>
    some key
  | _ => none

/-! ## what a load task can do -/

def Conversion.left : Conversion → Nat
  | .queued => 2
  | .running => 1
  | .done _ => 0

/-- one step of the load of `key`, with the label and the state it is taken in -/
inductive TaskStep (s : LiveManager) (key : ExpertKey) : LoadLabel → LiveManager → Prop where
  | delivered (hflag : s.manager.loadTasks[key]? = some true)
      (hp : s.phases[key]? ≠ some .finished) :
      TaskStep s key (.deliver key) { s with
        manager := { s.manager with loadTasks := s.manager.loadTasks.insert key false }
        phases := s.phases.insert key (LoadPhase.interrupted s.phases[key]?) }
  | started (hflag : s.manager.loadTasks[key]? = some false) (hp : s.phases[key]? = none) :
      TaskStep s key (.resume key) (s.setPhase key .waitingLimit)
  | admitted (hflag : s.manager.loadTasks[key]? = some false)
      (hp : s.phases[key]? = some .waitingLimit) :
      TaskStep s key (.resume key) (s.setPhase key .readingTarget)
  | assigned (hflag : s.manager.loadTasks[key]? = some false)
      (hp : s.phases[key]? = some .readingTarget) (hfree : s.removal = none)
      (ht : key ∈ s.manager.targets) : TaskStep s key (.resume key) (s.setPhase key .acquiring)
  | unassigned (hflag : s.manager.loadTasks[key]? = some false)
      (hp : s.phases[key]? = some .readingTarget) (hfree : s.removal = none)
      (ht : key ∉ s.manager.targets) :
      TaskStep s key (.resume key) (s.setPhase key (.ending false))
  | leased (source : WeightSource) (hflag : s.manager.loadTasks[key]? = some false)
      (hp : s.phases[key]? = some .acquiring) :
      TaskStep s key (.acquired key (.leased source))
        (s.setPhase key (.converting source .queued false))
  | refused (failure : LoadFailure) (hflag : s.manager.loadTasks[key]? = some false)
      (hp : s.phases[key]? = some .acquiring) :
      TaskStep s key (.acquired key (.failed failure))
        (s.setPhase key (.recordingFailure failure false))
  | raised (hflag : s.manager.loadTasks[key]? = some false)
      (hp : s.phases[key]? = some .acquiring) :
      TaskStep s key (.acquired key .raised) (s.setPhase key (.ending false))
  | claimed (source : WeightSource) (cancelled : Bool) (owners : ExtTreeSet ExpertKey)
      (hp : s.phases[key]? = some (.converting source .queued cancelled))
      (hc : s.fused = false ∧ owners = s.owners ∨ s.claimSlot key = .ok owners) :
      TaskStep s key (.claim key)
        ({ s with owners := owners }.setPhase key (.converting source .running cancelled))
  | unclaimed (source : WeightSource) (cancelled : Bool) (message : String)
      (hp : s.phases[key]? = some (.converting source .queued cancelled)) (hfused : s.fused = true)
      (hc : s.claimSlot key = .error message) :
      TaskStep s key (.claim key)
        (s.setPhase key (.converting source (.done (.internal message)) cancelled))
  | executed (source : WeightSource) (work : Conversion) (result : ConvertResult)
      (cancelled : Bool) (owners : ExtTreeSet ExpertKey)
      (hp : s.phases[key]? = some (.converting source work cancelled)) (hleft : 0 < work.left)
      (hready : result = .ready → work = .running ∧ owners = s.owners)
      (howners : owners = s.owners ∨ owners = s.owners.erase key) :
      TaskStep s key (.converted key result)
        ({ s with owners := owners }.setPhase key (.converting source (.done result) cancelled))
  | converted (source : WeightSource) (result : ConvertResult) (cancelled : Bool)
      (hflag : s.manager.loadTasks[key]? = some false)
      (hp : s.phases[key]? = some (.converting source (.done result) cancelled)) :
      TaskStep s key (.resume key) (s.convertedTo key source cancelled result)
  | failed (failure : LoadFailure) (leased : Bool)
      (hflag : s.manager.loadTasks[key]? = some false)
      (hp : s.phases[key]? = some (.recordingFailure failure leased)) (hfree : s.removal = none) :
      TaskStep s key (.resume key)
        ({ s with manager := (s.manager.finishFailure key failure).1 }.setPhase key
          (if leased then .closing false else .ending false))
  | died (hflag : s.manager.loadTasks[key]? = some false)
      (hp : s.phases[key]? = some .settingFatal) (hfree : s.removal = none) :
      TaskStep s key (.resume key) ({ s with fatal := true }.setPhase key (.closing false))
  | finished (cancelled : Bool) (hp : s.phases[key]? = some (.publishing false cancelled))
      (hfree : s.removal = none) :
      TaskStep s key (.publish key)
        ((s.finishReady key).setPhase key (.publishing true cancelled))
  | published (cancelled : Bool) (hflag : s.manager.loadTasks[key]? = some false)
      (hp : s.phases[key]? = some (.publishing true cancelled)) :
      TaskStep s key (.resume key) (s.setPhase key (.closing cancelled))
  | closed (cancelled : Bool) (hflag : s.manager.loadTasks[key]? = some false)
      (hp : s.phases[key]? = some (.closing cancelled)) :
      TaskStep s key (.resume key) (s.setPhase key (.ending cancelled))
  | ended (cancelled : Bool) (hflag : s.manager.loadTasks[key]? = some false)
      (hp : s.phases[key]? = some (.ending cancelled)) (hfree : s.removal = none) :
      TaskStep s key (.resume key) { s with
        manager := s.manager.loadEnded key cancelled, phases := s.phases.erase key }

namespace LiveManager

theorem whenFree_eq_some {s t s' : LiveManager} (h : s.whenFree t = some s') :
    s.removal = none ∧ s' = t := by
  unfold whenFree at h
  split_ifs at h with hf
  cases h
  exact ⟨Option.isNone_iff_eq_none.mp hf, rfl⟩

theorem taskStep_of_resume {s s' : LiveManager} {key : ExpertKey} (h : s.resume key = some s') :
    TaskStep s key (.resume key) s' := by
  unfold resume at h
  by_cases hflag : s.manager.loadTasks[key]? = some false
  swap
  · rw [if_pos hflag] at h
    cases h
  rw [if_neg (not_not.mpr hflag)] at h
  split at h
  · rename_i hp
    cases h
    exact .started hflag hp
  · rename_i hp
    split_ifs at h
    cases h
    exact .admitted hflag hp
  · rename_i hp
    obtain ⟨hfree, rfl⟩ := whenFree_eq_some h
    split_ifs with ht
    · exact .assigned hflag hp hfree ht
    · exact .unassigned hflag hp hfree ht
  · rename_i failure leased hp
    obtain ⟨hfree, rfl⟩ := whenFree_eq_some h
    exact .failed failure leased hflag hp hfree
  · rename_i source result cancelled hp
    cases h
    exact .converted source result cancelled hflag hp
  · rename_i hp
    obtain ⟨hfree, rfl⟩ := whenFree_eq_some h
    exact .died hflag hp hfree
  · rename_i cancelled hp
    cases h
    exact .published cancelled hflag hp
  · rename_i cancelled hp
    cases h
    exact .closed cancelled hflag hp
  · rename_i cancelled hp
    obtain ⟨hfree, rfl⟩ := whenFree_eq_some h
    exact .ended cancelled hflag hp hfree
  · cases h

theorem taskStep_of_claim {s s' : LiveManager} {key : ExpertKey} (h : s.claim key = some s') :
    TaskStep s key (.claim key) s' := by
  unfold claim at h
  split at h
  · rename_i source cancelled hp
    split_ifs at h with hfused
    · split at h
      · rename_i owners hc
        cases h
        exact .claimed source cancelled owners hp (.inr hc)
      · rename_i message hc
        cases h
        exact .unclaimed source cancelled message hp hfused hc
    · cases h
      exact .claimed source cancelled s.owners hp (.inl ⟨by simpa using hfused, rfl⟩)
  · cases h

theorem taskStep_of_converted {s s' : LiveManager} {key : ExpertKey} {result : ConvertResult}
    (h : s.converted key result = some s') : TaskStep s key (.converted key result) s' := by
  unfold converted at h
  split at h
  · rename_i source cancelled hp
    split_ifs at h with hr
    cases h
    exact .executed source .queued result cancelled s.owners hp (by decide)
      (fun hready => absurd hready hr) (.inl rfl)
  · rename_i source cancelled hp
    cases h
    refine .executed source .running result cancelled _ hp (by decide) ?_ ?_
    · intro hready
      rw [if_pos hready]
      exact ⟨rfl, rfl⟩
    · split_ifs
      · exact .inl rfl
      · exact .inr rfl
  · cases h

theorem taskStep_of_step {s s' : LiveManager} {l : LoadLabel} {key : ExpertKey}
    (h : s.step l = some s') (hl : l.task = some key) : TaskStep s key l s' := by
  cases l with
  | deliver k =>
    cases hl
    change s.deliver key = some s' at h
    unfold deliver at h
    split_ifs at h with hc
    cases h
    exact .delivered hc.1 hc.2
  | resume k =>
    cases hl
    exact taskStep_of_resume h
  | acquired k result =>
    cases hl
    change s.acquired key result = some s' at h
    unfold acquired at h
    split_ifs at h with hc
    cases h
    cases result with
    | leased source => exact .leased source hc.1 hc.2
    | failed failure => exact .refused failure hc.1 hc.2
    | raised => exact .raised hc.1 hc.2
  | claim k =>
    cases hl
    exact taskStep_of_claim h
  | converted k result =>
    cases hl
    exact taskStep_of_converted h
  | publish k =>
    cases hl
    change s.publish key = some s' at h
    unfold publish at h
    split at h
    · rename_i cancelled hp
      obtain ⟨hfree, rfl⟩ := whenFree_eq_some h
      exact .finished cancelled hp hfree
    · cases h
  | _ => cases hl

end LiveManager

end ExpertKit.Worker

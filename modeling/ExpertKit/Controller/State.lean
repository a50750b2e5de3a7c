import ExpertKit.Controller.Store
import ExpertKit.Lib.Lease

/-!
# Controller: the runtime state and its operations

`ControllerRuntimeState` of `ek-computation/src/controller/runtime_state.rs`.  One operation holds
the write lock from its first read to its last write, so it is one function

    `Inner p → σ → arguments → Except ControllerStateError α × Inner p × σ`

of the memory `Inner` and the store state.  An operation that returns an error still returns the
memory it leaves behind.

* `WorkerRecord`, `DrainRecord`, `InstanceTopology`, `TopologyRevision`, `Inner`   the data;
* `publishRoutes`        recomputes the routes of the affected keys and commits the changes under
                         a new topology version;
* `register`, `openHeartbeat`, `heartbeat`, `closeHeartbeat`, `setTargets`, `applyStateReport`,
  `drainAuthorizations`, `completeDrain`   the operations;
* `topologyMessages`     what a Frontend at a given version is sent;
* `fromSnapshot`, `restore`   the two ways a Controller starts.

Counters are `Nat`s with the wrap-around of `wrapping_add` written out.
-/

namespace ExpertKit.Controller
open Std

/-! ## data -/

structure StoredReport where
  sequence : Nat
  full : Bool
  states : List ExpertState
deriving DecidableEq

structure DrainRecord where
  drainId : Nat
  placementGeneration : Nat
  minTopologyVersion : Nat
  stopAll : Bool
  experts : ExtTreeSet ExpertKey
  completed : Bool
deriving DecidableEq

structure WorkerRecord (p : EndpointParsers) where
  registration : ValidRegistration p
  live : Bool
  includedInTopology : Bool
  heartbeatLease : Nat
  heartbeatOpen : Bool
  lastHeartbeatSequence : Option Nat
  runState : WorkerRunState
  placementGeneration : Nat
  targets : ExtTreeMap ExpertKey TargetExpert
  expertStates : ExtTreeMap ExpertKey ExpertState
  lastReport : Option StoredReport
  drains : List DrainRecord
deriving DecidableEq

structure TopologyRevision where
  previousVersion : Nat
  topologyVersion : Nat
  changes : List RouteEntry
deriving DecidableEq

abbrev RouteTable := ExtTreeMap ExpertKey (List WorkerRoute)

instance : DecidableEq RouteTable := inferInstance

structure InstanceTopology where
  version : Nat
  routes : RouteTable
  history : List TopologyRevision
deriving DecidableEq

def InstanceTopology.default : InstanceTopology := ⟨0, ∅, []⟩

structure Inner (p : EndpointParsers) where
  workers : ExtTreeMap String (WorkerRecord p)
  topologies : ExtTreeMap Nat InstanceTopology
  persistedPlacements : ExtTreeMap String PersistedPlacement
  nextHeartbeatLease : Nat
  nextDrainId : Nat
  notificationSequence : Nat
  historyLimit : Nat
  historyLimit_pos : 0 < historyLimit

abbrev Outcome (p : EndpointParsers) (σ α : Type) := Except ControllerStateError α × Inner p × σ

structure RegistrationResult where
  currentTopologyVersion : Nat
  currentPlacementGeneration : Nat
  replacedStartId : Option String
deriving DecidableEq, Repr

structure Placement where
  generation : Nat
  changed : Bool
  parts : List TargetExpertListPart
deriving DecidableEq, Repr

structure DrainAuthorization where
  drainId : Nat
  parts : List DrainAuthorizationPart
deriving DecidableEq, Repr

inductive HeartbeatResult where
  | applied
  | duplicate
deriving DecidableEq, Repr

inductive StateReportResult where
  | applied
  | duplicate
deriving DecidableEq, Repr

/-- `n.wrapping_add(1).max(1)` on a `u64` -/
def wrappingNext (n : Nat) : Nat := max ((n + 1) % 2 ^ 64) 1

theorem wrappingNext_number (n : Nat) :
    wrappingNext (Lease.number (2 ^ 64) n) = Lease.number (2 ^ 64) (n + 1) :=
  Lease.next_number (by norm_num) n

/-- `n.checked_add(1)` on a `u64` -/
def checkedNext (n : Nat) : Option Nat := if n + 1 < 2 ^ 64 then some (n + 1) else none

section
variable {p : EndpointParsers} {σ : Type}

/-! ## small functions -/

def readyKeys (worker : WorkerRecord p) : ExtTreeSet ExpertKey :=
  ExtTreeSet.ofList
    (worker.expertStates.toList.filterMap fun e => if e.2.isReady then some e.1 else none)

def reportsReady (worker : WorkerRecord p) (key : ExpertKey) : Bool :=
  worker.expertStates[key]?.any ExpertState.isReady

def workerRoute (worker : WorkerRecord p) : WorkerRoute where
  workerId := worker.registration.request.workerId
  startId := worker.registration.request.startId
  computationEndpoint := worker.registration.request.computationEndpoint
  device := worker.registration.device.device
  maxActiveBatches := worker.registration.request.maxActiveBatchesPerDevice
  maxPendingBatches := worker.registration.request.maxPendingBatchesPerDevice
  maxBatchTokens := worker.registration.request.maxBatchTokens
  transportType := worker.registration.request.transportType

/-- the version of the instance, `0` before its first publication -/
def Inner.topologyVersion (inner : Inner p) (instanceId : Nat) : Nat :=
  (inner.topologies[instanceId]?).elim 0 InstanceTopology.version

def Inner.setWorker (inner : Inner p) (workerId : String) (worker : WorkerRecord p) : Inner p :=
  { inner with workers := inner.workers.insert workerId worker }

def notify (inner : Inner p) : Inner p :=
  { inner with notificationSequence := wrappingNext inner.notificationSequence }

def notifyIf (b : Bool) (inner : Inner p) : Inner p := if b then notify inner else inner

/-- the record that the validated `worker_id` and `start_id` name -/
def ensureCurrentStart (inner : Inner p) (workerId startId : String) :
    Except ControllerStateError (WorkerRecord p) :=
  match inner.workers[workerId]? with
  | none => .error .unknownWorker
  | some worker =>
    if worker.registration.request.startId ≠ startId then .error .replacedWorker else .ok worker

def normalizeTarget (target : TargetExpert) : TargetExpert :=
  { target with
    peerWeightEndpoints := (target.peerWeightEndpoints.insertionSort (· ≤ ·)).eraseReps }

def normalizeTargets (targets : List TargetExpert) : ExtTreeMap ExpertKey TargetExpert :=
  targets.foldl (fun m target => m.insert target.key (normalizeTarget target)) ∅

def maxWeightDiagnosticBytes : Nat := 1024

def checkState (state : ExpertState) : Except ControllerStateError Unit :=
  match (ExpertStateKind.tryFrom state.state).filter (· ≠ .unspecified) with
  | none => .error .invalidExpertState
  | some kind =>
    match kind, state.failure with
    | .failed, some failure =>
      if (WeightLoadStage.tryFrom failure.stage).all (· == .unspecified) ||
          (WeightLoadErrorCode.tryFrom failure.code).all (· == .unspecified) ||
          decide (maxWeightDiagnosticBytes < failure.diagnostic.utf8ByteSize) then
        .error .invalidExpertState
      else .ok ()
    | .failed, none => .error .invalidExpertState
    | _, some _ => .error .invalidExpertState
    | _, none => .ok ()

def insertStates (m : ExtTreeMap ExpertKey ExpertState) (states : List ExpertState) :
    ExtTreeMap ExpertKey ExpertState :=
  states.foldl (fun m state => m.insert state.key state) m

def normalizeStates (states : List ExpertState) : Except ControllerStateError (List ExpertState) :=
  match states.findSome? fun state => match checkState state with
    | .error e => some e
    | .ok () => none with
  | some e => .error e
  | none => .ok (Maps.values (insertStates ∅ states))

/-! ## publication -/

/-- the worker answers for `key` in the topology of the instance -/
def serves (instanceId : Nat) (key : ExpertKey) (worker : WorkerRecord p) : Bool :=
  (worker.registration.request.instanceId == instanceId && worker.live &&
    worker.includedInTopology) && worker.targets.contains key && reportsReady worker key

/-- `(&left.worker_id, &left.start_id).cmp(..)` -/
def routeOrder (left right : WorkerRoute) : Bool :=
  ((compare left.workerId right.workerId).then (compare left.startId right.startId)).isLE

def currentReplicas (inner : Inner p) (instanceId : Nat) (key : ExpertKey) : List WorkerRoute :=
  (((Maps.values inner.workers).filter (serves instanceId key)).map workerRoute).insertionSort
    fun a b => routeOrder a b

def publishedReplicas (inner : Inner p) (instanceId : Nat) (key : ExpertKey) : List WorkerRoute :=
  ((inner.topologies[instanceId]?).bind fun t => t.routes[key]?).getD []

def routeChanges (inner : Inner p) (instanceId : Nat) (affected : ExtTreeSet ExpertKey) :
    List RouteEntry :=
  affected.toList.filterMap fun key =>
    if publishedReplicas inner instanceId key = currentReplicas inner instanceId key then none
    else some ⟨key.layerId, key.expertId, currentReplicas inner instanceId key⟩

def applyChange (routes : RouteTable) (change : RouteEntry) : RouteTable :=
  if change.replicas.isEmpty then routes.erase change.key
  else routes.insert change.key change.replicas

/-- `while history.len() > limit { history.pop_front() }` -/
def trimHistory (limit : Nat) (history : List TopologyRevision) : List TopologyRevision :=
  history.drop (history.length - limit)

def InstanceTopology.commit (t : InstanceTopology) (limit previousVersion topologyVersion : Nat)
    (changes : List RouteEntry) : InstanceTopology where
  version := topologyVersion
  routes := changes.foldl applyChange t.routes
  history := trimHistory limit (t.history ++ [⟨previousVersion, topologyVersion, changes⟩])

def publishRoutes (store : ControllerStateStore σ) (inner : Inner p) (s : σ) (instanceId : Nat)
    (affected : ExtTreeSet ExpertKey) : Outcome p σ Bool :=
  if affected.isEmpty then (.ok false, inner, s)
  else
    let changes := routeChanges inner instanceId affected
    if changes.isEmpty then (.ok false, inner, s)
    else
      let previousVersion := inner.topologyVersion instanceId
      match store.advanceTopologyVersion s instanceId previousVersion with
      | (.error e, s') => (.error (.persistence e.message), inner, s')
      | (.ok topologyVersion, s') =>
        let t := (inner.topologies[instanceId]?).getD .default
        let t' := t.commit inner.historyLimit previousVersion topologyVersion changes
        (.ok true, { inner with topologies := inner.topologies.insert instanceId t' }, s')

/-- publish, and put the previous record of the worker back when the store fails -/
def publishOrRestore (store : ControllerStateStore σ) (inner : Inner p) (s : σ) (workerId : String)
    (previous : WorkerRecord p) (instanceId : Nat) (affected : ExtTreeSet ExpertKey) :
    Outcome p σ Bool :=
  match publishRoutes store inner s instanceId affected with
  | (.error e, inner', s') => (.error e, inner'.setWorker workerId previous, s')
  | (.ok changed, inner', s') => (.ok changed, inner', s')

/-! ## registration and heartbeats -/

/-- generation and targets that a new process of the worker inherits -/
def carriedPlacement (inner : Inner p) (workerId : String) (instanceId : Nat) :
    Nat × ExtTreeMap ExpertKey TargetExpert :=
  let replaced := (inner.workers[workerId]?).filter
    fun worker => worker.registration.request.instanceId = instanceId
  let persisted := (inner.persistedPlacements[workerId]?).filter
    fun placement => placement.instanceId = instanceId
  match replaced, persisted with
  | some worker, _ => (worker.placementGeneration, worker.targets)
  | none, some placement => (placement.generation, normalizeTargets placement.targets)
  | none, none => (0, ∅)

def WorkerRecord.fresh (registration : ValidRegistration p) (placementGeneration : Nat)
    (targets : ExtTreeMap ExpertKey TargetExpert) : WorkerRecord p where
  registration := registration
  live := false
  includedInTopology := true
  heartbeatLease := 0
  heartbeatOpen := false
  lastHeartbeatSequence := none
  runState := .running
  placementGeneration := placementGeneration
  targets := targets
  expertStates := ∅
  lastReport := none
  drains := []

/-- the part of `register` after validation, for a process that is not already current -/
def registerProcess (store : ControllerStateStore σ) (inner : Inner p) (s : σ)
    (registration : ValidRegistration p) : Outcome p σ RegistrationResult :=
  let workerId := registration.request.workerId
  let instanceId := registration.request.instanceId
  let replaced := inner.workers[workerId]?
  let carried := carriedPlacement inner workerId instanceId
  let inner1 := inner.setWorker workerId (.fresh registration carried.1 carried.2)
  match replaced with
  | none => (.ok ⟨inner1.topologyVersion instanceId, carried.1, none⟩, inner1, s)
  | some old =>
    match publishRoutes store inner1 s old.registration.request.instanceId (readyKeys old) with
    | (.error e, inner2, s') => (.error e, inner2.setWorker workerId old, s')
    | (.ok changed, inner2, s') =>
      let inner3 := notifyIf changed inner2
      (.ok ⟨inner3.topologyVersion instanceId, carried.1, some old.registration.request.startId⟩,
        inner3, s')

def register (store : ControllerStateStore σ) (inner : Inner p) (s : σ)
    (registration : RegisterWorkerRequest) : Outcome p σ RegistrationResult :=
  match h : validateRegistration p registration with
  | .error e => (.error e, inner, s)
  | .ok () =>
    let current := (inner.workers[registration.workerId]?).filter
      fun worker => worker.registration.request.startId = registration.startId
    match current with
    | some existing =>
      if existing.registration.request ≠ registration then
        (.error (.invalidRegistration "static fields changed for an existing start_id"), inner, s)
      else
        (.ok ⟨inner.topologyVersion registration.instanceId, existing.placementGeneration, none⟩,
          inner, s)
    | none => registerProcess store inner s ⟨registration, h⟩

def openHeartbeat (inner : Inner p) (s : σ) (workerId startId : String) : Outcome p σ Nat :=
  match ensureCurrentStart inner workerId startId with
  | .error e => (.error e, inner, s)
  | .ok worker =>
    let lease := wrappingNext inner.nextHeartbeatLease
    let inner1 := { inner with nextHeartbeatLease := lease }
    (.ok lease,
      inner1.setWorker workerId { worker with heartbeatLease := lease, heartbeatOpen := true }, s)

/-- the checks of a heartbeat against the record; `none` means the heartbeat is applied -/
def checkHeartbeat (worker : WorkerRecord p) (lease sequence : Nat) (runState : WorkerRunState) :
    Option (Except ControllerStateError HeartbeatResult) :=
  if worker.heartbeatLease ≠ lease then some (.error .staleHeartbeatStream)
  else
    let repeated : Option (Except ControllerStateError HeartbeatResult) :=
      match worker.lastHeartbeatSequence with
      | none => none
      | some last =>
        if sequence < last then some (.error (.heartbeatSequenceRollback last sequence))
        else if sequence = last then
          if worker.runState ≠ runState then some (.error .invalidHeartbeatState)
          else some (.ok .duplicate)
        else none
    match repeated with
    | some r => some r
    | none =>
      if worker.runState = .shuttingDown ∧ runState ≠ .shuttingDown then
        some (.error .invalidHeartbeatState)
      else none

def heartbeat (store : ControllerStateStore σ) (inner : Inner p) (s : σ)
    (workerId startId : String) (lease sequence : Nat) (state : Int) :
    Outcome p σ HeartbeatResult :=
  match (WorkerRunState.tryFrom state).filter (· ≠ .unspecified) with
  | none => (.error .invalidHeartbeatState, inner, s)
  | some runState =>
    match ensureCurrentStart inner workerId startId with
    | .error e => (.error e, inner, s)
    | .ok previous =>
      match checkHeartbeat previous lease sequence runState with
      | some (.error e) => (.error e, inner, s)
      | some (.ok r) => (.ok r, inner, s)
      | none =>
        let becameLive := !previous.live
        let stateChanged := previous.runState ≠ runState
        let worker := { previous with
          live := true, lastHeartbeatSequence := some sequence, runState := runState }
        let inner1 := inner.setWorker workerId worker
        if becameLive then
          match publishOrRestore store inner1 s workerId previous
              worker.registration.request.instanceId (readyKeys worker) with
          | (.error e, inner2, s') => (.error e, inner2, s')
          | (.ok changed, inner2, s') =>
            (.ok .applied, notifyIf (changed || stateChanged) inner2, s')
        else (.ok .applied, notifyIf stateChanged inner1, s)

def closeHeartbeat (store : ControllerStateStore σ) (inner : Inner p) (s : σ)
    (workerId startId : String) (lease : Nat) : Outcome p σ Bool :=
  match ensureCurrentStart inner workerId startId with
  | .error e => (.error e, inner, s)
  | .ok previous =>
    if previous.heartbeatLease ≠ lease then (.ok false, inner, s)
    else if !previous.heartbeatOpen then (.ok false, inner, s)
    else
      let worker := { previous with heartbeatOpen := false, live := false }
      let inner1 := inner.setWorker workerId worker
      match publishOrRestore store inner1 s workerId previous
          worker.registration.request.instanceId (readyKeys worker) with
      | (.error e, inner2, s') => (.error e, inner2, s')
      | (.ok changed, inner2, s') => (.ok true, notifyIf changed inner2, s')

/-! ## placement -/

def targetParts (generation : Nat) (targets : List TargetExpert) : List TargetExpertListPart :=
  Parts.multipart maxControlEntriesPerPart targets fun partIndex partCount experts =>
    ⟨generation, partIndex, partCount, experts⟩

/-- keys that leave the targets while the worker reports them READY -/
def removedReady (worker : WorkerRecord p) (normalized : ExtTreeMap ExpertKey TargetExpert) :
    List ExpertKey :=
  (worker.targets.keys.filter fun key => !normalized.contains key).filter (reportsReady worker)

/-- keys of incomplete expert drains that are still READY and stay out of the targets -/
def carriedDrains (worker : WorkerRecord p) (normalized : ExtTreeMap ExpertKey TargetExpert) :
    List ExpertKey :=
  (((worker.drains.filter fun drain => !drain.completed && !drain.stopAll).flatMap
    fun drain => drain.experts.toList).filter fun key => !normalized.contains key).filter
      (reportsReady worker)

def supersedeDrains (drains : List DrainRecord) : List DrainRecord :=
  drains.map fun drain =>
    if !drain.completed && !drain.stopAll then { drain with completed := true } else drain

def persistedMatches (inner : Inner p) (workerId : String) (worker : WorkerRecord p) : Bool :=
  ((inner.persistedPlacements[workerId]?).filter fun placement =>
    placement.instanceId = worker.registration.request.instanceId).any fun placement =>
      placement.generation == worker.placementGeneration &&
        normalizeTargets placement.targets == worker.targets

/-- the placement of the worker as it was before a failed publication -/
def restorePlacement (placements : ExtTreeMap String PersistedPlacement) (workerId : String) :
    Option PersistedPlacement → ExtTreeMap String PersistedPlacement
  | some previous => placements.insert workerId previous
  | none => placements.erase workerId

/-- the part of `set_targets` after both store calls succeeded -/
def recordDrains (inner : Inner p) (workerId : String) (worker : WorkerRecord p)
    (instanceId generation : Nat) (experts : ExtTreeSet ExpertKey) : Inner p × Bool :=
  let superseded := supersedeDrains worker.drains
  if experts.isEmpty then
    (inner.setWorker workerId { worker with drains := superseded }, false)
  else
    let drainId := wrappingNext inner.nextDrainId
    let drain : DrainRecord :=
      ⟨drainId, generation, inner.topologyVersion instanceId, false, experts, false⟩
    let inner1 := { inner with nextDrainId := drainId }
    (inner1.setWorker workerId { worker with drains := superseded ++ [drain] }, true)

def setTargets (store : ControllerStateStore σ) (inner : Inner p) (s : σ)
    (workerId startId : String) (targets : List TargetExpert) : Outcome p σ Placement :=
  let normalized := normalizeTargets targets
  match ensureCurrentStart inner workerId startId with
  | .error e => (.error e, inner, s)
  | .ok worker =>
    let instanceId := worker.registration.request.instanceId
    let maximum := worker.registration.device.maxExperts
    let affected := ExtTreeSet.ofList (worker.targets.keys ++ normalized.keys)
    let drainExperts :=
      ExtTreeSet.ofList (removedReady worker normalized ++ carriedDrains worker normalized)
    let values := Maps.values normalized
    if maximum < normalized.size then
      (.error (.placementTooLarge maximum normalized.size), inner, s)
    else if worker.targets = normalized ∧ persistedMatches inner workerId worker then
      (.ok ⟨worker.placementGeneration, false, targetParts worker.placementGeneration values⟩,
        inner, s)
    else
      match checkedNext worker.placementGeneration with
      | none => (.error (.persistence "placement generation is exhausted"), inner, s)
      | some next =>
        let generation := max next 1
        match store.savePlacement s workerId instanceId generation values with
        | (.error e, s') => (.error (.persistence e.message), inner, s')
        | (.ok (), s') =>
          let placed := { worker with placementGeneration := generation, targets := normalized }
          let inner1 := { inner.setWorker workerId placed with
            persistedPlacements := inner.persistedPlacements.insert workerId
              ⟨workerId, instanceId, generation, values⟩ }
          match publishRoutes store inner1 s' instanceId affected with
          | (.error e, inner2, s'') =>
            -- only the two changed fields and the mirror are put back
            let restored := { placed with
              placementGeneration := worker.placementGeneration, targets := worker.targets }
            (.error e, { inner2.setWorker workerId restored with
              persistedPlacements := restorePlacement inner2.persistedPlacements workerId
                inner.persistedPlacements[workerId]? }, s'')
          | (.ok changed, inner2, s'') =>
            let r := recordDrains inner2 workerId placed instanceId generation drainExperts
            (.ok ⟨generation, true, targetParts generation values⟩, notifyIf (changed || r.2) r.1,
              s'')

/-! ## state reports -/

/-- the checks of a report against the record; `none` means the report is applied -/
def checkReport (worker : WorkerRecord p) (placementGeneration reportSequence : Nat) (full : Bool)
    (normalized : List ExpertState) : Option (Except ControllerStateError StateReportResult) :=
  if placementGeneration ≠ worker.placementGeneration then
    some (.error (.placementGenerationMismatch worker.placementGeneration placementGeneration))
  else
    match worker.lastReport with
    | none => none
    | some last =>
      if reportSequence < last.sequence then
        some (.error (.reportSequenceRollback last.sequence reportSequence))
      else if reportSequence = last.sequence then
        if last.full = full ∧ last.states = normalized then some (.ok .duplicate)
        else some (.error (.conflictingReportSequence reportSequence))
      else none

def applyStateReport (store : ControllerStateStore σ) (inner : Inner p) (s : σ)
    (workerId startId : String) (placementGeneration reportSequence : Nat) (full : Bool)
    (states : List ExpertState) : Outcome p σ StateReportResult :=
  match normalizeStates states with
  | .error e => (.error e, inner, s)
  | .ok normalized =>
    match ensureCurrentStart inner workerId startId with
    | .error e => (.error e, inner, s)
    | .ok previous =>
      match checkReport previous placementGeneration reportSequence full normalized with
      | some (.error e) => (.error e, inner, s)
      | some (.ok r) => (.ok r, inner, s)
      | none =>
        let affected := ExtTreeSet.ofList
          ((if full then previous.expertStates.keys else []) ++ normalized.map ExpertState.key)
        let worker := { previous with
          expertStates := insertStates (if full then ∅ else previous.expertStates) normalized
          lastReport := some ⟨reportSequence, full, normalized⟩ }
        match publishOrRestore store (inner.setWorker workerId worker) s workerId previous
            worker.registration.request.instanceId affected with
        | (.error e, inner2, s') => (.error e, inner2, s')
        | (.ok changed, inner2, s') => (.ok .applied, notifyIf changed inner2, s')

/-! ## drains -/

def drainAuthorization (drain : DrainRecord) : DrainAuthorization where
  drainId := drain.drainId
  parts := Parts.multipart maxControlEntriesPerPart drain.experts.toList
    fun partIndex partCount experts =>
      ⟨drain.drainId, drain.placementGeneration, drain.minTopologyVersion, drain.stopAll,
        partIndex, partCount, experts⟩

/-- every READY expert of the worker has a route to another process -/
def shutdownReplacementsReady (inner : Inner p) (worker : WorkerRecord p) : Bool :=
  (readyKeys worker).toList.all fun key =>
    ((inner.topologies[worker.registration.request.instanceId]?).bind
      fun t => t.routes[key]?).any fun replicas =>
        replicas.any fun replica =>
          replica.workerId != worker.registration.request.workerId ||
            replica.startId != worker.registration.request.startId

def incompleteDrains (worker : WorkerRecord p) : List DrainAuthorization :=
  (worker.drains.filter fun drain => !drain.completed).map drainAuthorization

def shouldCreateShutdown (inner : Inner p) (worker : WorkerRecord p) : Bool :=
  worker.runState == .shuttingDown && !(worker.drains.any DrainRecord.stopAll) &&
    shutdownReplacementsReady inner worker

def drainAuthorizations (store : ControllerStateStore σ) (inner : Inner p) (s : σ)
    (workerId startId : String) : Outcome p σ (List DrainAuthorization) :=
  match ensureCurrentStart inner workerId startId with
  | .error e => (.error e, inner, s)
  | .ok previous =>
    if shouldCreateShutdown inner previous then
      let instanceId := previous.registration.request.instanceId
      let experts := readyKeys previous
      let excluded := { previous with includedInTopology := false }
      match publishOrRestore store (inner.setWorker workerId excluded) s workerId previous
          instanceId experts with
      | (.error e, inner2, s') => (.error e, inner2, s')
      | (.ok changed, inner2, s') =>
        let drainId := wrappingNext inner2.nextDrainId
        let drain : DrainRecord :=
          ⟨drainId, previous.placementGeneration, inner2.topologyVersion instanceId, true, experts,
            false⟩
        let worker := { excluded with drains := excluded.drains ++ [drain] }
        let inner3 := { inner2 with nextDrainId := drainId }
        (.ok (incompleteDrains worker), notifyIf changed (inner3.setWorker workerId worker), s')
    else (.ok (incompleteDrains previous), inner, s)

/-- `iter_mut().find(..)` followed by `completed = true` -/
def markCompleted (drainId : Nat) : List DrainRecord → List DrainRecord
  | [] => []
  | drain :: rest =>
    if drain.drainId = drainId then { drain with completed := true } :: rest
    else drain :: markCompleted drainId rest

def completeDrain (store : ControllerStateStore σ) (inner : Inner p) (s : σ)
    (workerId startId : String) (drainId : Nat) : Outcome p σ Bool :=
  match ensureCurrentStart inner workerId startId with
  | .error e => (.error e, inner, s)
  | .ok previous =>
    match previous.drains.find? fun drain => drain.drainId = drainId with
    | none => (.error (.unknownDrain drainId), inner, s)
    | some drain =>
      if drain.completed then (.ok false, inner, s)
      else
        let completed := { previous with drains := markCompleted drainId previous.drains }
        if drain.stopAll then
          let worker := { completed with live := false }
          match publishOrRestore store (inner.setWorker workerId worker) s workerId previous
              worker.registration.request.instanceId (readyKeys worker) with
          | (.error e, inner2, s') => (.error e, inner2, s')
          | (.ok changed, inner2, s') => (.ok true, notifyIf changed inner2, s')
        else (.ok true, inner.setWorker workerId completed, s)

/-! ## topology messages -/

def snapshotMessages (instanceId : Nat) (t : InstanceTopology) : List TopologyMessage :=
  Parts.multipart maxControlEntriesPerPart
    (t.routes.toList.map fun e => (⟨e.1.layerId, e.1.expertId, e.2⟩ : RouteEntry))
    fun partIndex partCount routes =>
      .snapshot ⟨instanceId, t.version, partIndex, partCount, routes⟩

def updateMessages (instanceId : Nat) (revision : TopologyRevision) : List TopologyMessage :=
  Parts.multipart maxControlEntriesPerPart revision.changes fun partIndex partCount changes =>
    .update ⟨instanceId, revision.previousVersion, revision.topologyVersion, partIndex, partCount,
      changes⟩

/-- the loop over the history: the revisions that join `cursor`, and where they end -/
def joinRevisions : Nat → List TopologyRevision → List TopologyRevision × Nat
  | cursor, [] => ([], cursor)
  | cursor, revision :: rest =>
    if revision.previousVersion = cursor then
      let r := joinRevisions revision.topologyVersion rest
      (revision :: r.1, r.2)
    else joinRevisions cursor rest

def topologyMessages (inner : Inner p) (instanceId currentVersion : Nat) :
    Except ControllerStateError (List TopologyMessage) :=
  match inner.topologies[instanceId]? with
  | none =>
    if 0 < currentVersion then .error (.futureTopologyVersion 0 currentVersion)
    else .ok (snapshotMessages instanceId .default)
  | some t =>
    if t.version < currentVersion then .error (.futureTopologyVersion t.version currentVersion)
    else if currentVersion = t.version then .ok []
    else
      let r := joinRevisions currentVersion t.history
      if r.2 = t.version then .ok (r.1.flatMap (updateMessages instanceId))
      else .ok (snapshotMessages instanceId t)

/-! ## start and restart -/

def fromSnapshot (p : EndpointParsers) (historyLimit : Nat) (h : 0 < historyLimit)
    (snapshot : ControllerStoreSnapshot) (topologies : ExtTreeMap Nat InstanceTopology) :
    Inner p where
  workers := ∅
  topologies := topologies
  persistedPlacements :=
    snapshot.placements.foldl (fun m placement => m.insert placement.workerId placement) ∅
  nextHeartbeatLease := 0
  nextDrainId := 0
  notificationSequence := 0
  historyLimit := historyLimit
  historyLimit_pos := h

/-- `ControllerRuntimeState::new` -/
def newState (p : EndpointParsers) (historyLimit : Nat) (h : 0 < historyLimit) : Inner p :=
  fromSnapshot p historyLimit h .empty ∅

/-- every instance of the list advances its version and starts with no route -/
def restoreTopologies (store : ControllerStateStore σ) :
    List (Nat × Nat) → ExtTreeMap Nat InstanceTopology → σ →
      Except ControllerStateError (ExtTreeMap Nat InstanceTopology) × σ
  | [], topologies, s => (.ok topologies, s)
  | (instanceId, currentVersion) :: rest, topologies, s =>
    match store.advanceTopologyVersion s instanceId currentVersion with
    | (.error e, s') => (.error (.persistence e.message), s')
    | (.ok version, s') =>
      restoreTopologies store rest (topologies.insert instanceId ⟨version, ∅, []⟩) s'

def instanceVersions (snapshot : ControllerStoreSnapshot) : ExtTreeMap Nat Nat :=
  snapshot.placements.foldl
    (fun m placement => if m.contains placement.instanceId then m
      else m.insert placement.instanceId 0)
    snapshot.topologyVersions

def restore (p : EndpointParsers) (store : ControllerStateStore σ) (historyLimit : Nat)
    (h : 0 < historyLimit) (s : σ) : Except ControllerStateError (Inner p) × σ :=
  match store.load s with
  | (.error e, s') => (.error (.persistence e.message), s')
  | (.ok snapshot, s') =>
    match restoreTopologies store (instanceVersions snapshot).toList ∅ s' with
    | (.error e, s'') => (.error e, s'')
    | (.ok topologies, s'') => (.ok (fromSnapshot p historyLimit h snapshot topologies), s'')

end

end ExpertKit.Controller

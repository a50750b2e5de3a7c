import ExpertKit.Transport.Queue
import ExpertKit.Worker.Reporter
import ExpertKit.Worker.Targets

/-!
# Worker: the weight control session

`WeightControlSession` of `ek-worker/src/expertkit_worker/control/weight_stream.py`, with the Weight
Manager, the reporter and the receiver queue it drives.  The tasks of the session run on one event
loop: a task is suspended only where it waits, so the session is a state and every label is what one
task does between two waits.  Which task runs next is free, and a wait may also end later than it
could; a reconnect may cancel the tasks of the stream at any wait.  The clock, `close` and the
messages in the buffers of the transport are left out.

* `Consumer`      where `_consume_responses` stands: it waits for a message, for the transition lock,
                  for the Manager or for room in the queue of the stream;
* `DrainPhase`    where `_run_drain` stands;
* `Completions`   where `_pump_completions` stands;
* `Session`       the state;
* `Label`, `step` one step; `none` where the task cannot run.
-/

set_option linter.unusedSectionVars false

namespace ExpertKit.Worker
open Std Transport

def outboundGroups : Nat := 4
def completedDrainHistory : Nat := 64

/-! ## data -/

abbrev Group := List WorkerWeightMessage

inductive Consumer where
  | idle
  /-- waits for the transition lock -/
  | acquiring (placement : PlacementTargets)
  /-- holds the lock; older drains are superseded -/
  | applying (placement : PlacementTargets)
  /-- holds the lock; the list is applied, the snapshot is not read -/
  | observing (placement : PlacementTargets) (boundary : Nat)
  /-- released the lock; superseded drains may still end -/
  | reporting (generation : Nat) (states : List (ExpertKey × LocalState)) (boundary : Nat)
  | enqueueing (group : Group)
  | failed (message : String)
deriving DecidableEq

def Consumer.holds : Consumer → Bool
  | .applying _ => true
  | .observing _ _ => true
  | _ => false

inductive DrainPhase where
  | created
  /-- the gates are closed -/
  | gated
  /-- the admitted work was seen to be done -/
  | idle
  /-- holds the transition lock; `_remove_after_drain` has not run -/
  | removing (request : RemovalRequest)
  /-- holds the transition lock and the Manager lock; the withdrawal of the ready objects began -/
  | withdrawing (request : RemovalRequest)
  | removed
  | flushed (sequence : Nat)
  | cancelled
deriving DecidableEq

def DrainPhase.holds : DrainPhase → Bool
  | .removing _ => true
  | .withdrawing _ => true
  | _ => false

def DrainPhase.withdraws : DrainPhase → Bool
  | .withdrawing _ => true
  | _ => false

structure ActiveDrain where
  authorization : DrainAuthorization
  phase : DrainPhase
deriving DecidableEq

inductive Completions where
  | waiting
  | flushing (drainIds : List Nat)
  | awaiting (drainIds : List Nat) (sequence : Nat)
  | putting (drainIds : List Nat)
deriving DecidableEq

structure Session where
  manager : WeightManager
  reporter : ExpertStateReporter
  receiver : ReceiverQueue
  targets : TargetListAssembler
  drains : DrainAuthorizationAssembler
  currentPlacementGeneration : Nat
  currentTargetKeys : List ExpertKey
  lastEnqueuedReportSequence : Nat
  activeDrains : ExtTreeMap Nat ActiveDrain
  /-- oldest first -/
  completedDrains : List DrainAuthorization
  supersededDrains : List DrainAuthorization
  drainError : Option String
  shutdownDrained : Bool
  shutdownCompletionSent : Bool
  -- one stream attempt
  consumer : Consumer
  outbound : List Group
  snapshotReady : Bool
  /-- the report that `_pump_updates` has taken and not yet queued -/
  updates : Option ExpertStateUpdates
  completions : Completions
  sentCompletions : List Nat
  /-- the rest of the group that `_requests` is sending -/
  sending : Group
  /-- sent and not yet read by the Controller -/
  stream : List WorkerWeightMessage

def Session.new (config : ManagerConfig) (maxUpdates : Nat) (hu : 0 < maxUpdates)
    (hu' : maxUpdates ≤ maxExpertsPerControlPart) (receiver : ReceiverQueue) : Session where
  manager := .new config
  reporter := .new config.numLayers config.expertsPerLayer maxUpdates hu hu'
  receiver := receiver
  targets := .new config.maxExperts
  drains := ⟨config.maxExperts, ∅⟩
  currentPlacementGeneration := 0
  currentTargetKeys := []
  lastEnqueuedReportSequence := 0
  activeDrains := ∅
  completedDrains := []
  supersededDrains := []
  drainError := none
  shutdownDrained := false
  shutdownCompletionSent := false
  consumer := .idle
  outbound := []
  snapshotReady := false
  updates := none
  completions := .waiting
  sentCompletions := []
  sending := []
  stream := []

namespace Session

/-! ## locks -/

/-- no task holds the transition lock -/
def transitionFree (s : Session) : Bool :=
  !s.consumer.holds && (Maps.values s.activeDrains).all fun drain => !drain.phase.holds

/-- no removal holds the Manager lock -/
def managerFree (s : Session) : Bool :=
  (Maps.values s.activeDrains).all fun drain => !drain.phase.withdraws

/-! ## remembered drains -/

def findDrain (drains : List DrainAuthorization) (drainId : Nat) : Option DrainAuthorization :=
  drains.find? fun drain => drain.drainId = drainId

/-- `drains[drain_id] = authorization` of an ordered dict -/
def putDrain (drains : List DrainAuthorization) (authorization : DrainAuthorization) :
    List DrainAuthorization :=
  if (findDrain drains authorization.drainId).isSome then
    drains.map fun drain => if drain.drainId = authorization.drainId then authorization else drain
  else drains ++ [authorization]

def makeRoom (drains : List DrainAuthorization) : List DrainAuthorization :=
  if completedDrainHistory ≤ drains.length then drains.tail else drains

def rememberSuperseded (s : Session) (authorization : DrainAuthorization) :
    Except ValueError Session :=
  match findDrain s.supersededDrains authorization.drainId with
  | some previous =>
    if previous ≠ authorization then
      .error ⟨"superseded drain ID was repeated with different content"⟩
    else .ok s
  | none =>
    .ok { s with supersededDrains := putDrain (makeRoom s.supersededDrains) authorization }

def rememberCompleted (s : Session) (authorization : DrainAuthorization) : Session :=
  { s with completedDrains := putDrain (makeRoom s.completedDrains) authorization }

def isSuperseded (s : Session) (authorization : DrainAuthorization) : Bool :=
  !authorization.stopAcceptingAllComputation &&
    decide (authorization.placementGeneration < s.currentPlacementGeneration)

def setPhase (s : Session) (drain : ActiveDrain) (phase : DrainPhase) : Session :=
  { s with activeDrains :=
      s.activeDrains.insert drain.authorization.drainId { drain with phase := phase } }

/-- the `finally` of `_run_drain` -/
def dropDrain (s : Session) (drain : ActiveDrain) : Session :=
  { s with activeDrains := s.activeDrains.erase drain.authorization.drainId }

/-- an exception in `_run_drain`; the first one is kept -/
def failDrain (s : Session) (drain : ActiveDrain) (message : String) : Session :=
  { s with
    activeDrains := s.activeDrains.erase drain.authorization.drainId
    drainError := some (s.drainError.getD message) }

/-- a superseded drain ends without an error, unless its id stands for another one -/
def endSuperseded (s : Session) (drain : ActiveDrain) : Session :=
  match s.rememberSuperseded drain.authorization with
  | .error e => s.failDrain drain e.message
  | .ok s => s.dropDrain drain

/-! ## messages of the Controller -/

def fail (s : Session) (message : String) : Session := { s with consumer := .failed message }

def startDrain (s : Session) (authorization : DrainAuthorization) : Except ValueError Session :=
  match findDrain s.supersededDrains authorization.drainId with
  | some superseded =>
    if superseded ≠ authorization then
      .error ⟨"superseded drain ID was repeated with different content"⟩
    else .ok s
  | none =>
    match findDrain s.completedDrains authorization.drainId with
    | some completed =>
      if completed ≠ authorization then
        .error ⟨"completed drain ID was repeated with different content"⟩
      else .ok s
    | none =>
      match s.activeDrains[authorization.drainId]? with
      | some active =>
        if active.authorization ≠ authorization then
          .error ⟨"active drain ID was repeated with different content"⟩
        else .ok s
      | none =>
        if s.isSuperseded authorization then s.rememberSuperseded authorization
        else .ok (s.setPhase ⟨authorization, .created⟩ .created)

def receive (s : Session) (message : ControllerWeightMessage) : Option Session :=
  if s.consumer ≠ .idle then none
  else
    match message with
    | .targets part =>
      match s.targets.add part with
      | (.error e, a) => some ({ s with targets := a }.fail e.message)
      | (.ok none, a) => some { s with targets := a }
      | (.ok (some placement), a) =>
        some { s with targets := a, consumer := .acquiring placement }
    | .stateAck reportSequence =>
      match s.reporter.acknowledge reportSequence with
      | .error e => some (s.fail e.message)
      | .ok (_, r) => some { s with reporter := r }
    | .drain part =>
      match s.drains.add part with
      | (.error e, a) => some ({ s with drains := a }.fail e.message)
      | (.ok none, a) => some { s with drains := a }
      | (.ok (some authorization), a) =>
        match { s with drains := a }.startDrain authorization with
        | .error e => some ({ s with drains := a }.fail e.message)
        | .ok s' => some s'
    | .unset => some (s.fail "Controller weight message has no supported payload")

/-! ## target lists -/

/-- the loop that cancels the expert drains of older generations, in id order -/
def supersedeAll (generation : Nat) : List ActiveDrain → Session → Option ValueError × Session
  | [], s => (none, s)
  | drain :: rest, s =>
    if drain.authorization.stopAcceptingAllComputation = false ∧
        drain.authorization.placementGeneration < generation then
      match s.rememberSuperseded drain.authorization with
      | .error e => (some e, s)
      | .ok s => supersedeAll generation rest (s.setPhase drain .cancelled)
    else supersedeAll generation rest s

def lockTransition (s : Session) : Option Session :=
  match s.consumer with
  | .acquiring placement =>
    if s.transitionFree = false then none
    else if s.currentPlacementGeneration < placement.placementGeneration then
      match supersedeAll placement.placementGeneration (Maps.values s.activeDrains) s with
      | (some e, s) => some (s.fail e.message)
      | (none, s) => some { s with consumer := .applying placement }
    else some { s with consumer := .applying placement }
  | _ => none

def applyTargets (s : Session) : Option Session :=
  match s.consumer with
  | .applying placement =>
    match s.manager.applyTargets placement.placementGeneration placement.experts with
    | .error e => some (s.fail e.message)
    | .ok (applied, m, changes) =>
      let r := s.reporter.emit changes
      let s := { s with
        manager := m
        reporter := r
        currentPlacementGeneration := placement.placementGeneration
        currentTargetKeys := placement.experts.map TargetExpert.key }
      if applied = false ∧ s.snapshotReady = true then some { s with consumer := .idle }
      else some { s with consumer := .observing placement r.changeIndex }
  | _ => none

/-- the READY experts of the snapshot that are current targets -/
def readyTargets (s : Session) (states : List (ExpertKey × LocalState)) : List ExpertKey :=
  (states.filter fun state =>
    decide (state.2 = .ready) && decide (state.1 ∈ s.currentTargetKeys)).map Prod.fst

def observe (s : Session) : Option Session :=
  match s.consumer with
  | .observing placement boundary =>
    let (generation, states) := s.manager.snapshot
    if generation ≠ placement.placementGeneration then
      some (s.fail "Weight Manager snapshot generation does not match targets")
    else
      some { s with
        receiver := s.receiver.clearExpertDrains (s.readyTargets states)
        consumer := if s.snapshotReady then .idle else .reporting generation states boundary }
  | _ => none

def report (s : Session) : Option Session :=
  match s.consumer with
  | .reporting generation states boundary =>
    match s.reporter.fullStateParts generation states boundary with
    | .error e => some (s.fail e.message)
    | .ok (parts, r) =>
      some { s with reporter := r, consumer := .enqueueing (parts.map .fullState) }
  | _ => none

/-! ## the queue of the stream -/

def reportSequence : WorkerWeightMessage → Nat
  | .fullState part => part.reportSequence
  | .stateUpdates updates => updates.reportSequence
  | _ => 0

/-- `_enqueue_reports`, once there is room -/
def enqueueReports (s : Session) (group : Group) : Session :=
  { s with
    outbound := s.outbound ++ [group]
    lastEnqueuedReportSequence :=
      max s.lastEnqueuedReportSequence ((group.map reportSequence).foldl max 0) }

def enqueueFull (s : Session) : Option Session :=
  match s.consumer with
  | .enqueueing group =>
    if outboundGroups ≤ s.outbound.length then none
    else some { s.enqueueReports group with consumer := .idle, snapshotReady := true }
  | _ => none

def takeUpdates (s : Session) : Option Session :=
  if s.snapshotReady = false ∨ s.updates ≠ none then none
  else
    match s.reporter.takeUpdates with
    | none => none
    | some (updates, r) => some { s with reporter := r, updates := some updates }

def enqueueUpdates (s : Session) : Option Session :=
  match s.updates with
  | none => none
  | some updates =>
    if outboundGroups ≤ s.outbound.length then none
    else some { s.enqueueReports [.stateUpdates updates] with updates := none }

def pendingCompletions (s : Session) : List Nat :=
  (s.completedDrains.map DrainAuthorization.drainId).filter (· ∉ s.sentCompletions)

def collectCompletions (s : Session) : Option Session :=
  if s.snapshotReady = false ∨ s.completions ≠ .waiting ∨ s.pendingCompletions = [] then none
  else some { s with completions := .flushing s.pendingCompletions }

def flushCompletions (s : Session) : Option Session :=
  match s.completions with
  | .flushing drainIds =>
    if s.reporter.pending.isEmpty then
      some { s with completions := .awaiting drainIds s.reporter.lastReportSequence }
    else none
  | _ => none

def awaitCompletions (s : Session) : Option Session :=
  match s.completions with
  | .awaiting drainIds sequence =>
    if s.lastEnqueuedReportSequence < sequence then none
    else some { s with completions := .putting drainIds }
  | _ => none

def putCompletions (s : Session) : Option Session :=
  match s.completions with
  | .putting drainIds =>
    if outboundGroups ≤ s.outbound.length then none
    else some { s with
      outbound := s.outbound ++ [drainIds.map .drainComplete]
      sentCompletions := s.sentCompletions ++ drainIds
      completions := .waiting }
  | _ => none

/-! ## sending -/

def reportedStates : WorkerWeightMessage → List ExpertState
  | .fullState part => part.experts
  | .stateUpdates updates => updates.experts
  | _ => []

/-- the experts that the group reports READY and that are current targets -/
def readyReported (s : Session) (group : Group) : List ExpertKey :=
  (((group.flatMap reportedStates).filter ExpertState.isReady).map ExpertState.key).filter
    (· ∈ s.currentTargetKeys)

/-- `_requests` takes the next group, and `_clear_ready_expert_drains` opens the gates -/
def dequeue (s : Session) : Option Session :=
  match s.sending, s.outbound with
  | [], group :: rest =>
    some { s with
      outbound := rest
      sending := group
      receiver := s.receiver.clearExpertDrains (s.readyReported group) }
  | _, _ => none

def completesShutdown (s : Session) : WorkerWeightMessage → Bool
  | .drainComplete drainId =>
    (findDrain s.completedDrains drainId).any DrainAuthorization.stopAcceptingAllComputation
  | _ => false

def send (s : Session) : Option Session :=
  match s.sending with
  | [] => none
  | message :: rest =>
    some { s with
      sending := rest
      stream := s.stream ++ [message]
      shutdownCompletionSent := s.shutdownCompletionSent || s.completesShutdown message }

/-- a new stream attempt: the tasks of the last one are cancelled where they wait -/
def reconnect (s : Session) : Session :=
  { s with
    consumer := .idle
    outbound := []
    snapshotReady := false
    updates := none
    completions := .waiting
    sentCompletions := []
    sending := []
    stream := [] }

/-! ## drains -/

/-- the first part of `_run_drain`: the gates are closed under the transition lock -/
def beginDrain (s : Session) (drainId : Nat) : Option Session :=
  match s.activeDrains[drainId]? with
  | some ⟨authorization, .created⟩ =>
    if s.transitionFree = false then none
    else if s.isSuperseded authorization then
      some (s.endSuperseded ⟨authorization, .created⟩)
    else
      match s.receiver.beginDrain authorization.experts authorization.minTopologyVersion
          authorization.stopAcceptingAllComputation with
      | .error e => some (s.failDrain ⟨authorization, .created⟩ e.message)
      | .ok q => some ({ s with receiver := q }.setPhase ⟨authorization, .created⟩ .gated)
  | _ => none

/-- what the drain waits for in the receiver -/
def drained (s : Session) (authorization : DrainAuthorization) : Bool :=
  if authorization.stopAcceptingAllComputation then s.receiver.allIdle
  else s.receiver.expertsIdle authorization.experts

def waitIdle (s : Session) (drainId : Nat) : Option Session :=
  match s.activeDrains[drainId]? with
  | some ⟨authorization, .gated⟩ =>
    if s.drained authorization then some (s.setPhase ⟨authorization, .gated⟩ .idle) else none
  | _ => none

/-- the deadline of a whole-Worker drain has passed -/
def expire (s : Session) (drainId : Nat) : Option Session :=
  match s.activeDrains[drainId]? with
  | some ⟨authorization, .gated⟩ =>
    if authorization.stopAcceptingAllComputation && !s.drained authorization then
      some (s.failDrain ⟨authorization, .gated⟩
        "deadline expired while waiting for all admitted work")
    else none
  | _ => none

/-- the second part of `_run_drain` takes the transition lock and starts the removal -/
def startRemoval (s : Session) (drainId : Nat) : Option Session :=
  match s.activeDrains[drainId]? with
  | some ⟨authorization, .idle⟩ =>
    if s.transitionFree = false then none
    else if s.isSuperseded authorization then some (s.endSuperseded ⟨authorization, .idle⟩)
    else
      match s.manager.removalRequest authorization.placementGeneration authorization.experts
          authorization.stopAcceptingAllComputation with
      | .error e => some (s.failDrain ⟨authorization, .idle⟩ e.message)
      | .ok request => some (s.setPhase ⟨authorization, .idle⟩ (.removing request))
  | _ => none

/-- `_remove_after_drain` takes the Manager lock and begins the withdrawals -/
def beginWithdrawal (s : Session) (drainId : Nat) : Option Session :=
  match s.activeDrains[drainId]? with
  | some ⟨authorization, .removing request⟩ =>
    match s.manager.checkRemoval request with
    | .error e => some (s.failDrain ⟨authorization, .removing request⟩ e.message)
    | .ok false =>
      if s.isSuperseded authorization then
        some (s.endSuperseded ⟨authorization, .removing request⟩)
      else
        some (s.failDrain ⟨authorization, .removing request⟩
          "Controller drain uses an obsolete placement generation")
    | .ok true => some (s.setPhase ⟨authorization, .removing request⟩ (.withdrawing request))
  | _ => none

/-- the withdrawn objects are released and both locks are free again -/
def finishRemoval (s : Session) (drainId : Nat) : Option Session :=
  match s.activeDrains[drainId]? with
  | some ⟨authorization, .withdrawing request⟩ =>
    let (m, changes) := s.manager.finishRemoval request
    some ({ s with manager := m, reporter := s.reporter.emit changes }.setPhase
      ⟨authorization, .withdrawing request⟩ .removed)
  | _ => none

def flushDrain (s : Session) (drainId : Nat) : Option Session :=
  match s.activeDrains[drainId]? with
  | some ⟨authorization, .removed⟩ =>
    if s.reporter.pending.isEmpty then
      some (s.setPhase ⟨authorization, .removed⟩ (.flushed s.reporter.lastReportSequence))
    else none
  | _ => none

def completeDrain (s : Session) (drainId : Nat) : Option Session :=
  match s.activeDrains[drainId]? with
  | some ⟨authorization, .flushed sequence⟩ =>
    if s.lastEnqueuedReportSequence < sequence then none
    else
      some { (s.rememberCompleted authorization).dropDrain ⟨authorization, .flushed sequence⟩ with
        shutdownDrained :=
          s.shutdownDrained || authorization.stopAcceptingAllComputation }
  | _ => none

/-- a cancelled drain task ends -/
def reap (s : Session) (drainId : Nat) : Option Session :=
  match s.activeDrains[drainId]? with
  | some ⟨authorization, .cancelled⟩ => some (s.dropDrain ⟨authorization, .cancelled⟩)
  | _ => none

/-! ## the Manager and the receiver -/

def load (s : Session) (result : WeightManager × List ExpertStateChange) : Option Session :=
  if s.managerFree then
    some { s with manager := result.1, reporter := s.reporter.emit result.2 }
  else none

def beginShutdown (s : Session) : Option Session :=
  if s.managerFree then some { s with manager := s.manager.beginShutdown } else none

end Session

/-! ## steps -/

inductive Label where
  | receive (message : ControllerWeightMessage)
  | lockTransition
  | applyTargets
  | observe
  | report
  | enqueueFull
  | takeUpdates
  | enqueueUpdates
  | collectCompletions
  | flushCompletions
  | awaitCompletions
  | putCompletions
  | dequeue
  | send
  | reconnect
  | beginDrain (drainId : Nat)
  | waitIdle (drainId : Nat)
  | expire (drainId : Nat)
  | startRemoval (drainId : Nat)
  | beginWithdrawal (drainId : Nat)
  | finishRemoval (drainId : Nat)
  | flushDrain (drainId : Nat)
  | completeDrain (drainId : Nat)
  | reap (drainId : Nat)
  | finishReady (key : ExpertKey)
  | finishFailure (key : ExpertKey) (failure : LoadFailure)
  | loadEnded (key : ExpertKey) (cancelled : Bool)
  | beginShutdown
  | admitBatch (item layerId : Nat) (expertIds : List Nat) (retainedBytes : Nat)
  | take
  | cancelWaiting (item : Nat)
  | finish (item : Nat)

/-- one step of one task -/
def step (s : Session) : Label → Option Session
  | .receive message => s.receive message
  | .lockTransition => s.lockTransition
  | .applyTargets => s.applyTargets
  | .observe => s.observe
  | .report => s.report
  | .enqueueFull => s.enqueueFull
  | .takeUpdates => s.takeUpdates
  | .enqueueUpdates => s.enqueueUpdates
  | .collectCompletions => s.collectCompletions
  | .flushCompletions => s.flushCompletions
  | .awaitCompletions => s.awaitCompletions
  | .putCompletions => s.putCompletions
  | .dequeue => s.dequeue
  | .send => s.send
  | .reconnect => some s.reconnect
  | .beginDrain drainId => s.beginDrain drainId
  | .waitIdle drainId => s.waitIdle drainId
  | .expire drainId => s.expire drainId
  | .startRemoval drainId => s.startRemoval drainId
  | .beginWithdrawal drainId => s.beginWithdrawal drainId
  | .finishRemoval drainId => s.finishRemoval drainId
  | .flushDrain drainId => s.flushDrain drainId
  | .completeDrain drainId => s.completeDrain drainId
  | .reap drainId => s.reap drainId
  | .finishReady key => s.load (s.manager.finishReady key)
  | .finishFailure key failure => s.load (s.manager.finishFailure key failure)
  | .loadEnded key cancelled => s.load (s.manager.loadEnded key cancelled, [])
  | .beginShutdown => s.beginShutdown
  | .admitBatch item layerId expertIds retainedBytes =>
    some { s with receiver := (QueueOp.admitBatch item layerId expertIds retainedBytes).run s.receiver }
  | .take => some { s with receiver := QueueOp.take.run s.receiver }
  | .cancelWaiting item => some { s with receiver := (QueueOp.cancelWaiting item).run s.receiver }
  | .finish item => some { s with receiver := (QueueOp.finish item).run s.receiver }

end ExpertKit.Worker

import ExpertKit.Controller.Published
import ExpertKit.Lib.Ledger
import ExpertKit.Lib.Steps

/-!
# Controller: heartbeat streams and their leases

`run_heartbeat` and `HeartbeatLeaseGuard` of `ek-computation/src/controller/service/worker_lifecycle.rs`
over `open_heartbeat`, `heartbeat` and `close_heartbeat`.  Any number of streams of any processes run
at once; a stream leaves its loop by itself, or its future is dropped, and then `drop` spawns a task
that closes the lease and runs the hook `unavailable`.

* `HeartbeatStream`, `Heartbeats.step`   the streams, their guards and every step;
* `Upkeep`                   the other operations of the Controller leave the heartbeats alone;
* `Leased`                   a record holds the lease of the newest stream of its process;
* `heartbeat_leases`         stale streams change nothing, a closed worker stays quiet, the hook
                             succeeds once, sequences increase.
-/

set_option linter.unusedSectionVars false

namespace ExpertKit.Controller
open Std

/-! ## streams -/

structure HeartbeatLeaseGuard where
  workerId : String
  startId : String
  lease : Nat
  graceful : Bool
  stateClosed : Bool
  hookCompleted : Bool
deriving DecidableEq, Repr

inductive StreamTask where
  /-- the loop over the messages -/
  | looping
  /-- `lease_guard.close()` -/
  | closing
  /-- the task that `drop` spawned -/
  | dropped
  /-- that task runs the hook -/
  | dropHook
  | finished
deriving DecidableEq, Repr

structure HeartbeatStream where
  guard : HeartbeatLeaseGuard
  task : StreamTask
  lastSequence : Nat
  /-- what `close_heartbeat` returned to this stream -/
  closes : List (Except ControllerStateError Bool)
  /-- how often the hook `unavailable` succeeded -/
  hooks : Nat

/-- an applied heartbeat; `registration` counts the processes of the worker up to this one -/
structure Beat where
  workerId : String
  startId : String
  registration : Nat
  sequence : Nat
  runState : WorkerRunState
deriving DecidableEq, Repr

structure Heartbeats (p : EndpointParsers) (σ : Type) where
  world : World p σ
  /-- in the order of their opening -/
  streams : List HeartbeatStream
  /-- the worker of every registration that made a new record -/
  joined : List String
  applied : List Beat

inductive StreamStep where
  | register (registration : RegisterWorkerRequest)
  | openHeartbeat (workerId startId : String)
  /-- one message; the hooks `heartbeat` and `shutting_down` may fail -/
  | heartbeat (i sequence : Nat) (state : Int) (heartbeatOk shuttingDownOk : Bool)
  /-- the messages end, time out or fail -/
  | leave (i : Nat)
  /-- the future of the call is dropped -/
  | cancel (i : Nat)
  /-- the guard's `close_heartbeat` -/
  | close (i : Nat)
  /-- the guard's hook -/
  | unavailable (i : Nat) (ok : Bool)
  /-- the `close_heartbeat` of the spawned task, if it still has to call it -/
  | dropClose (i : Nat)
  | dropUnavailable (i : Nat) (ok : Bool)
  /-- `set_targets`, `apply_state_report`, `drain_authorizations` or `complete_drain` -/
  | other (op : Op)
deriving DecidableEq, Repr

/-- the operations that no heartbeat stream calls -/
def Op.isUpkeep : Op → Bool
  | .setTargets .. | .applyStateReport .. | .drainAuthorizations .. | .completeDrain .. => true
  | _ => false

section
variable {p : EndpointParsers} {σ : Type}

/-- the stream after an accepted message: the hook `heartbeat` follows an applied one, and the first
shutting-down message makes the guard graceful -/
def HeartbeatStream.accepted (stream : HeartbeatStream) (result : HeartbeatResult) (sequence : Nat)
    (state : Int) (heartbeatOk shuttingDownOk : Bool) : HeartbeatStream :=
  if result = .applied ∧ !heartbeatOk then { stream with task := .closing }
  else
    let noted := { stream with lastSequence := sequence }
    if WorkerRunState.tryFrom state = some .shuttingDown ∧ !noted.guard.graceful then
      { noted with
        guard := { noted.guard with graceful := true }
        task := if shuttingDownOk then .looping else .closing }
    else noted

/-- the guard after its own `close_heartbeat` -/
def HeartbeatStream.closed (stream : HeartbeatStream) (result : Except ControllerStateError Bool) :
    HeartbeatStream :=
  match result with
  | .error e => { stream with task := .dropped, closes := stream.closes ++ [.error e] }
  | .ok unavailable =>
    { stream with
      guard := { stream.guard with stateClosed := true, hookCompleted := !unavailable }
      task := if unavailable then .closing else .finished
      closes := stream.closes ++ [.ok unavailable] }

/-- the spawned task after its `close_heartbeat` -/
def HeartbeatStream.dropClosed (stream : HeartbeatStream)
    (result : Except ControllerStateError Bool) : HeartbeatStream :=
  match result with
  | .error e => { stream with task := .finished, closes := stream.closes ++ [.error e] }
  | .ok unavailable =>
    { stream with
      task := if unavailable then .dropHook else .finished
      closes := stream.closes ++ [.ok unavailable] }

def HeartbeatLeaseGuard.new (workerId startId : String) (lease : Nat) : HeartbeatLeaseGuard :=
  ⟨workerId, startId, lease, false, false, false⟩

/-- a registration replaces the record of another process, or makes the first one -/
def joins (inner : Inner p) (registration : RegisterWorkerRequest)
    (result : Except ControllerStateError RegistrationResult) : Bool :=
  result.isOk && !(inner.workers[registration.workerId]?).any fun worker =>
    worker.registration.request.startId = registration.startId

namespace Heartbeats

def setStream (x : Heartbeats p σ) (i : Nat) (stream : HeartbeatStream) : Heartbeats p σ :=
  { x with streams := x.streams.set i stream }

/-- the stream `i`, if its task is the given one -/
def at? (x : Heartbeats p σ) (i : Nat) (task : StreamTask) : Option HeartbeatStream :=
  (x.streams[i]?).filter fun stream => stream.task = task

def start (w : World p σ) : Heartbeats p σ := ⟨w, [], [], []⟩

/-- the log after the heartbeat of a guard -/
def logged (x : Heartbeats p σ) (guard : HeartbeatLeaseGuard) (result : HeartbeatResult)
    (sequence : Nat) (state : Int) : List Beat :=
  match result with
  | .duplicate => x.applied
  | .applied => x.applied ++ [⟨guard.workerId, guard.startId, x.joined.count guard.workerId, sequence,
      (WorkerRunState.tryFrom state).getD .unspecified⟩]

def step (store : ControllerStateStore σ) (x : Heartbeats p σ) : StreamStep → Option (Heartbeats p σ)
  | .register registration =>
    let (result, inner, s) := Controller.register store x.world.inner x.world.stored registration
    some { x with
      world := ⟨inner, s⟩
      joined := if joins x.world.inner registration result then
        x.joined ++ [registration.workerId] else x.joined }
  | .openHeartbeat workerId startId =>
    match Controller.openHeartbeat x.world.inner x.world.stored workerId startId with
    | (.error _, inner, s) => some { x with world := ⟨inner, s⟩ }
    | (.ok lease, inner, s) =>
      some { x with
        world := ⟨inner, s⟩
        streams := x.streams ++ [⟨.new workerId startId lease, .looping, 0, [], 0⟩] }
  | .heartbeat i sequence state heartbeatOk shuttingDownOk =>
    (x.at? i .looping).map fun stream =>
      match Controller.heartbeat store x.world.inner x.world.stored stream.guard.workerId
          stream.guard.startId stream.guard.lease sequence state with
      | (.error _, inner, s) =>
        { x with world := ⟨inner, s⟩ }.setStream i { stream with task := .closing }
      | (.ok result, inner, s) =>
        { x with
          world := ⟨inner, s⟩
          applied := x.logged stream.guard result sequence state }.setStream i
            (stream.accepted result sequence state heartbeatOk shuttingDownOk)
  | .leave i => (x.at? i .looping).map fun stream => x.setStream i { stream with task := .closing }
  | .cancel i =>
    ((x.at? i .looping).or (x.at? i .closing)).map fun stream =>
      x.setStream i { stream with task := .dropped }
  | .close i =>
    ((x.at? i .closing).filter fun stream => !stream.guard.stateClosed).map fun stream =>
      let (result, inner, s) := Controller.closeHeartbeat store x.world.inner x.world.stored
        stream.guard.workerId stream.guard.startId stream.guard.lease
      { x with world := ⟨inner, s⟩ }.setStream i (stream.closed result)
  | .unavailable i ok =>
    ((x.at? i .closing).filter fun stream => stream.guard.stateClosed).map fun stream =>
      x.setStream i (if ok then
        { stream with
          guard := { stream.guard with hookCompleted := true }
          task := .finished
          hooks := stream.hooks + 1 }
        else { stream with task := .dropped })
  | .dropClose i =>
    (x.at? i .dropped).map fun stream =>
      if stream.guard.stateClosed then x.setStream i { stream with task := .dropHook }
      else
        let (result, inner, s) := Controller.closeHeartbeat store x.world.inner x.world.stored
          stream.guard.workerId stream.guard.startId stream.guard.lease
        { x with world := ⟨inner, s⟩ }.setStream i (stream.dropClosed result)
  | .dropUnavailable i ok =>
    (x.at? i .dropHook).map fun stream =>
      x.setStream i { stream with
        task := .finished, hooks := stream.hooks + if ok then 1 else 0 }
  | .other op =>
    if op.isUpkeep then some { x with world := op.run store x.world } else none

end Heartbeats

/-! ## operations beside the heartbeats -/

/-- the same process with the same heartbeats; the worker may have gone, and never comes back -/
structure SameHeartbeats (w w' : WorkerRecord p) : Prop where
  registration : w'.registration = w.registration
  lease : w'.heartbeatLease = w.heartbeatLease
  isOpen : w'.heartbeatOpen = w.heartbeatOpen
  sequence : w'.lastHeartbeatSequence = w.lastHeartbeatSequence
  runState : w'.runState = w.runState
  live : w'.live = true → w.live = true

theorem SameHeartbeats.refl (w : WorkerRecord p) : SameHeartbeats w w :=
  ⟨rfl, rfl, rfl, rfl, rfl, id⟩

structure Upkeep (inner inner' : Inner p) : Prop where
  next : inner'.nextHeartbeatLease = inner.nextHeartbeatLease
  records : ∀ (id : String) w', inner'.workers[id]? = some w' →
    ∃ w, inner.workers[id]? = some w ∧ SameHeartbeats w w'

theorem Upkeep.of_eq {inner inner' : Inner p} (h : inner' = inner) : Upkeep inner inner' := by
  subst h
  exact ⟨rfl, fun _ w' hw => ⟨w', hw, .refl w'⟩⟩

theorem Upkeep.of_insert {inner inner' : Inner p} {id : String} {w : WorkerRecord p}
    (v : WorkerRecord p) (hw : inner.workers[id]? = some w) (hsame : SameHeartbeats w v)
    (hi : inner'.workers = inner.workers.insert id v)
    (hn : inner'.nextHeartbeatLease = inner.nextHeartbeatLease) : Upkeep inner inner' := by
  refine ⟨hn, ?_⟩
  intro a w' hw'
  rw [hi, Maps.getElem?_insert_eq] at hw'
  split_ifs at hw' with e
  · cases hw'
    subst e
    exact ⟨w, hw, hsame⟩
  · exact ⟨w', hw', .refl w'⟩

theorem notifyIf_nextHeartbeatLease (b : Bool) (inner : Inner p) :
    (notifyIf b inner).nextHeartbeatLease = inner.nextHeartbeatLease := by
  cases b <;> rfl

theorem publishRoutes_nextHeartbeatLease {store : ControllerStateStore σ} {inner inner' : Inner p}
    {s s' : σ} {i : Nat} {affected : ExtTreeSet ExpertKey} {r : Except ControllerStateError Bool}
    (h : publishRoutes store inner s i affected = (r, inner', s')) :
    inner'.nextHeartbeatLease = inner.nextHeartbeatLease := by
  rw [publishRoutes_frame h]

theorem recordDrains_nextHeartbeatLease (inner : Inner p) (id : String) (w : WorkerRecord p)
    (i g : Nat) (experts : ExtTreeSet ExpertKey) :
    (recordDrains inner id w i g experts).1.nextHeartbeatLease = inner.nextHeartbeatLease := by
  unfold recordDrains
  dsimp only
  split_ifs <;> rfl

theorem setTargets_upkeep {store : ControllerStateStore σ} {inner inner' : Inner p} {s s' : σ}
    {workerId startId : String} {targets : List TargetExpert}
    {r : Except ControllerStateError Placement}
    (h : setTargets store inner s workerId startId targets = (r, inner', s')) :
    Upkeep inner inner' := by
  rcases setTargets_cases h with ⟨_, _, hi, _⟩ | ⟨_, _, _, _, _, _, hi, _⟩ |
    ⟨w, next, s1, c, i2, hw, _, _, _, _, hp, _, hi⟩
  · exact .of_eq hi
  · exact .of_eq hi
  · obtain ⟨drains, hd⟩ := recordDrains_workers i2 workerId
      (w.placed (max next 1) (normalizeTargets targets)) w.registration.request.instanceId
      (max next 1) (targetsDrained w (normalizeTargets targets))
    refine .of_insert ({ w.placed (max next 1) (normalizeTargets targets) with
      drains := drains }) hw ⟨rfl, rfl, rfl, rfl, rfl, id⟩ ?_ ?_
    · rw [hi, notifyIf_workers, hd, publishRoutes_workers hp]
      exact insert_insert_same _ _ _ _
    · rw [hi, notifyIf_nextHeartbeatLease, recordDrains_nextHeartbeatLease,
        publishRoutes_nextHeartbeatLease hp]
      rfl

theorem applyStateReport_upkeep {store : ControllerStateStore σ} {inner inner' : Inner p}
    {s s' : σ} {workerId startId : String} {placementGeneration reportSequence : Nat}
    {full : Bool} {states : List ExpertState} {r : Except ControllerStateError StateReportResult}
    (h : applyStateReport store inner s workerId startId placementGeneration reportSequence full
      states = (r, inner', s')) : Upkeep inner inner' := by
  rcases applyStateReport_cases h with ⟨_, _, hi, _⟩ | ⟨_, hi, _⟩ |
    ⟨w, normalized, c, i2, hw, _, _, _, hp, _, hi⟩
  · exact .of_eq hi
  · exact .of_eq hi
  · refine .of_insert (w.reported reportSequence full normalized) hw
      ⟨rfl, rfl, rfl, rfl, rfl, id⟩ ?_ ?_
    · rw [hi, notifyIf_workers, publishRoutes_workers hp]
      rfl
    · rw [hi, notifyIf_nextHeartbeatLease, publishRoutes_nextHeartbeatLease hp]
      rfl

theorem drainAuthorizations_upkeep {store : ControllerStateStore σ} {inner inner' : Inner p}
    {s s' : σ} {workerId startId : String}
    {r : Except ControllerStateError (List DrainAuthorization)}
    (h : drainAuthorizations store inner s workerId startId = (r, inner', s')) :
    Upkeep inner inner' := by
  rcases drainAuthorizations_cases h with ⟨_, _, hi, _⟩ | ⟨_, _, _, _, _, hi, _⟩ |
    ⟨w, c, i2, hw, _, _, hp, _, hi⟩
  · exact .of_eq hi
  · exact .of_eq hi
  · refine .of_insert ({ w with
      includedInTopology := false, drains := w.drains ++ [shutdownDrain i2 w] }) hw
      ⟨rfl, rfl, rfl, rfl, rfl, id⟩ ?_ ?_
    · rw [hi, notifyIf_workers]
      show i2.workers.insert workerId _ = _
      rw [publishRoutes_workers hp]
      exact insert_insert_same _ _ _ _
    · rw [hi, notifyIf_nextHeartbeatLease]
      show i2.nextHeartbeatLease = _
      rw [publishRoutes_nextHeartbeatLease hp]
      rfl

theorem completeDrain_upkeep {store : ControllerStateStore σ} {inner inner' : Inner p}
    {s s' : σ} {workerId startId : String} {drainId : Nat} {r : Except ControllerStateError Bool}
    (h : completeDrain store inner s workerId startId drainId = (r, inner', s')) :
    Upkeep inner inner' := by
  rcases completeDrain_cases h with ⟨_, _, hi, _⟩ | ⟨_, hi, _⟩ |
    ⟨w, drain, hw, _, _, _, _, ⟨_, _, hi⟩ | ⟨_, c, i2, hp, hi⟩⟩
  · exact .of_eq hi
  · exact .of_eq hi
  · exact .of_insert (w.completed drainId) hw ⟨rfl, rfl, rfl, rfl, rfl, id⟩
      (by rw [hi]; rfl) (by rw [hi]; rfl)
  · refine .of_insert ({ w.completed drainId with live := false }) hw
      ⟨rfl, rfl, rfl, rfl, rfl, fun hl => (by cases hl)⟩ ?_ ?_
    · rw [hi, notifyIf_workers, publishRoutes_workers hp]
      rfl
    · rw [hi, notifyIf_nextHeartbeatLease, publishRoutes_nextHeartbeatLease hp]
      rfl

theorem Op.run_upkeep (store : ControllerStateStore σ) (w : World p σ) (op : Op)
    (h : op.isUpkeep = true) : Upkeep w.inner (op.run store w).inner := by
  cases op with
  | register _ => cases h
  | openHeartbeat _ _ => cases h
  | heartbeat _ _ _ _ _ => cases h
  | closeHeartbeat _ _ _ => cases h
  | setTargets _ _ _ => exact setTargets_upkeep rfl
  | applyStateReport _ _ _ _ _ _ => exact applyStateReport_upkeep rfl
  | drainAuthorizations _ _ => exact drainAuthorizations_upkeep rfl
  | completeDrain _ _ _ => exact completeDrain_upkeep rfl

/-! ## what a step does -/

/-- a stream keeps its lease, and neither returns to its loop nor starts again -/
structure Evolves (s s' : HeartbeatStream) : Prop where
  workerId : s'.guard.workerId = s.guard.workerId
  startId : s'.guard.startId = s.guard.startId
  lease : s'.guard.lease = s.guard.lease
  looping : s'.task = .looping → s.task = .looping
  unfinished : s'.task ≠ .finished → s.task ≠ .finished

theorem Evolves.refl (s : HeartbeatStream) : Evolves s s := ⟨rfl, rfl, rfl, id, id⟩

structure StreamsEvolve (l l' : List HeartbeatStream) : Prop where
  length : l'.length = l.length
  streams : ∀ (i : Nat) s', l'[i]? = some s' → ∃ s, l[i]? = some s ∧ Evolves s s'

theorem StreamsEvolve.refl (l : List HeartbeatStream) : StreamsEvolve l l :=
  ⟨rfl, fun _ s hs => ⟨s, hs, .refl s⟩⟩

theorem StreamsEvolve.set {l : List HeartbeatStream} {i : Nat} {s s' : HeartbeatStream}
    (hs : l[i]? = some s) (h : Evolves s s') : StreamsEvolve l (l.set i s') := by
  refine ⟨List.length_set, ?_⟩
  intro j t ht
  rw [List.getElem?_set] at ht
  split_ifs at ht with hij hlen
  · cases ht
    subst hij
    exact ⟨s, hs, h⟩
  · exact ⟨t, ht, .refl t⟩

theorem StreamsEvolve.forward {l l' : List HeartbeatStream} (h : StreamsEvolve l l') {i : Nat}
    {s : HeartbeatStream} (hi : l[i]? = some s) : ∃ s', l'[i]? = some s' ∧ Evolves s s' := by
  have hlt : i < l'.length := by
    rw [h.length]
    exact (List.getElem?_eq_some_iff.mp hi).1
  obtain ⟨t, ht, he⟩ := h.streams i l'[i] (List.getElem?_eq_getElem hlt)
  rw [hi] at ht
  cases ht
  exact ⟨l'[i], List.getElem?_eq_getElem hlt, he⟩

namespace Heartbeats

theorem at?_eq_some {x : Heartbeats p σ} {i : Nat} {task : StreamTask} {stream : HeartbeatStream} :
    x.at? i task = some stream ↔ x.streams[i]? = some stream ∧ stream.task = task := by
  unfold at?
  rw [Option.filter_eq_some_iff, decide_eq_true_eq]

/-- the effects of a step on the records and the streams -/
inductive Effect (x x' : Heartbeats p σ) (l : StreamStep) : Prop where
  | kept (hworkers : x'.world.inner.workers = x.world.inner.workers)
      (hnext : x'.world.inner.nextHeartbeatLease = x.world.inner.nextHeartbeatLease)
      (hs : StreamsEvolve x.streams x'.streams) (hj : x'.joined = x.joined)
      (ha : x'.applied = x.applied)
  | upkeep (h : Upkeep x.world.inner x'.world.inner) (hs : x'.streams = x.streams)
      (hj : x'.joined = x.joined) (ha : x'.applied = x.applied)
  | joined (reg : ValidRegistration p) (g : Nat) (t : ExtTreeMap ExpertKey TargetExpert)
      (hworkers : x'.world.inner.workers =
        x.world.inner.workers.insert reg.request.workerId (.fresh reg g t))
      (hnext : x'.world.inner.nextHeartbeatLease = x.world.inner.nextHeartbeatLease)
      (hs : x'.streams = x.streams) (hj : x'.joined = x.joined ++ [reg.request.workerId])
      (ha : x'.applied = x.applied)
  | opened (workerId startId : String) (w : WorkerRecord p)
      (hl : l = .openHeartbeat workerId startId)
      (hw : x.world.inner.workers[workerId]? = some w)
      (hstart : w.registration.request.startId = startId)
      (hworkers : x'.world.inner.workers = x.world.inner.workers.insert workerId { w with
        heartbeatLease := wrappingNext x.world.inner.nextHeartbeatLease, heartbeatOpen := true })
      (hnext : x'.world.inner.nextHeartbeatLease = wrappingNext x.world.inner.nextHeartbeatLease)
      (hs : x'.streams = x.streams ++ [⟨.new workerId startId
        (wrappingNext x.world.inner.nextHeartbeatLease), .looping, 0, [], 0⟩])
      (hj : x'.joined = x.joined) (ha : x'.applied = x.applied)
  | beat (i : Nat) (stream : HeartbeatStream) (w : WorkerRecord p) (sequence : Nat)
      (runState : WorkerRunState) (hl : ∃ state a b, l = .heartbeat i sequence state a b)
      (hi : x.streams[i]? = some stream) (htask : stream.task = .looping)
      (hw : x.world.inner.workers[stream.guard.workerId]? = some w)
      (hstart : w.registration.request.startId = stream.guard.startId)
      (hcheck : checkHeartbeat w stream.guard.lease sequence runState = none)
      (hworkers : x'.world.inner.workers =
        x.world.inner.workers.insert stream.guard.workerId (w.beat sequence runState))
      (hnext : x'.world.inner.nextHeartbeatLease = x.world.inner.nextHeartbeatLease)
      (hs : StreamsEvolve x.streams x'.streams) (hj : x'.joined = x.joined)
      (ha : x'.applied = x.applied ++ [⟨stream.guard.workerId, stream.guard.startId,
        x.joined.count stream.guard.workerId, sequence, runState⟩])
  | closed (i : Nat) (stream : HeartbeatStream) (w : WorkerRecord p)
      (hi : x.streams[i]? = some stream)
      (hw : x.world.inner.workers[stream.guard.workerId]? = some w)
      (hworkers : x'.world.inner.workers = x.world.inner.workers.insert stream.guard.workerId
        { w with heartbeatOpen := false, live := false })
      (hlease : w.heartbeatLease = stream.guard.lease)
      (hstart : w.registration.request.startId = stream.guard.startId)
      (htask : stream.task = .closing ∨ stream.task = .dropped)
      (hnext : x'.world.inner.nextHeartbeatLease = x.world.inner.nextHeartbeatLease)
      (hs : StreamsEvolve x.streams x'.streams) (hj : x'.joined = x.joined)
      (ha : x'.applied = x.applied)

/-- a registration of a process that is not the current one goes through `registerProcess` -/
theorem register_of_new {store : ControllerStateStore σ} {inner inner' : Inner p} {s s' : σ}
    {request : RegisterWorkerRequest} {r : Except ControllerStateError RegistrationResult}
    (h : register store inner s request = (r, inner', s')) (hok : r.isOk = true)
    (hnew : ∀ w, inner.workers[request.workerId]? = some w →
      w.registration.request.startId ≠ request.startId) :
    ∃ reg : ValidRegistration p, reg.request = request ∧
      registerProcess store inner s reg = (r, inner', s') := by
  have hcurrent : (inner.workers[request.workerId]?).filter
      (fun worker => worker.registration.request.startId = request.startId) = none := by
    rw [Option.filter_eq_none_iff]
    intro w hw
    simpa using hnew w hw
  unfold register at h
  split at h
  · cases h
    cases hok
  · rename_i hv
    rw [hcurrent] at h
    exact ⟨⟨request, hv⟩, rfl, h⟩

theorem joins_iff (inner : Inner p) (registration : RegisterWorkerRequest)
    (result : Except ControllerStateError RegistrationResult) :
    joins inner registration result = true ↔
      result.isOk = true ∧ ∀ w, inner.workers[registration.workerId]? = some w →
        w.registration.request.startId ≠ registration.startId := by
  unfold joins
  cases inner.workers[registration.workerId]? <;> simp

theorem effect_register {store : ControllerStateStore σ} {x x' : Heartbeats p σ}
    {registration : RegisterWorkerRequest} (h : x.step store (.register registration) = some x') :
    Effect x x' (.register registration) := by
  cases hr : Controller.register store x.world.inner x.world.stored registration with
  | mk result rest =>
    obtain ⟨inner, s⟩ := rest
    simp only [step, hr, Option.some.injEq] at h
    subst h
    by_cases hj : joins x.world.inner registration result = true
    · obtain ⟨hok, hnew⟩ := (joins_iff _ _ _).mp hj
      obtain ⟨reg, hreg, hproc⟩ := register_of_new hr hok hnew
      rcases registerProcess_cases hproc with ⟨e, he, -, -⟩ |
        ⟨g, t, version, replaced, -, -, ⟨-, -, hi⟩ | ⟨old, changed, inner2, -, hp, hi⟩⟩
      · subst he
        cases hok
      · refine .joined reg g t (by rw [hi]; rfl) (by rw [hi]; rfl) rfl ?_ rfl
        rw [if_pos hj, hreg]
      · refine .joined reg g t ?_ ?_ rfl ?_ rfl
        · show inner.workers = _
          rw [hi, notifyIf_workers, publishRoutes_workers hp]
          rfl
        · show inner.nextHeartbeatLease = _
          rw [hi, notifyIf_nextHeartbeatLease, publishRoutes_nextHeartbeatLease hp]
          rfl
        · rw [if_pos hj, hreg]
    · -- refused, failed at the store, or the current process again
      have hsame : inner = x.world.inner := by
        rcases register_cases hr with ⟨hi, -⟩ | ⟨reg, hreg, hnew, hproc⟩
        · exact hi
        · rcases registerProcess_cases hproc with ⟨e, he, hi, -⟩ | ⟨g, t, v, old, -, hok, -⟩
          · exact hi
          · exact absurd ((joins_iff _ _ _).mpr ⟨by rw [hok]; rfl, hnew⟩) hj
      subst hsame
      exact .kept rfl rfl (.refl _) (by rw [if_neg hj]) rfl

theorem effect_open {store : ControllerStateStore σ} {x x' : Heartbeats p σ}
    {workerId startId : String} (h : x.step store (.openHeartbeat workerId startId) = some x') :
    Effect x x' (.openHeartbeat workerId startId) := by
  unfold step Controller.openHeartbeat at h
  cases hc : ensureCurrentStart x.world.inner workerId startId with
  | error e =>
    simp only [hc, Option.some.injEq] at h
    subst h
    exact .kept rfl rfl (.refl _) rfl rfl
  | ok w =>
    obtain ⟨hw, hstart⟩ := ensureCurrentStart_ok hc
    simp only [hc, Option.some.injEq] at h
    subst h
    exact .opened workerId startId w rfl hw hstart rfl rfl rfl rfl rfl

theorem checkHeartbeat_ne_applied (w : WorkerRecord p) (lease sequence : Nat)
    (runState : WorkerRunState) : checkHeartbeat w lease sequence runState ≠ some (.ok .applied) := by
  unfold checkHeartbeat
  dsimp only
  cases w.lastHeartbeatSequence with
  | none =>
    dsimp only
    split_ifs <;> simp
  | some last =>
    dsimp only
    split_ifs <;> simp

theorem checkHeartbeat_eq_none {w : WorkerRecord p} {lease sequence : Nat}
    {runState : WorkerRunState} (h : checkHeartbeat w lease sequence runState = none) :
    w.heartbeatLease = lease ∧ (∀ last, w.lastHeartbeatSequence = some last → last < sequence) ∧
      (w.runState = .shuttingDown → runState = .shuttingDown) := by
  unfold checkHeartbeat at h
  dsimp only at h
  cases hlast : w.lastHeartbeatSequence with
  | none =>
    rw [hlast] at h
    dsimp only at h
    split_ifs at h with h1 h2
    refine ⟨by simpa using h1, fun last hl => (by cases hl), ?_⟩
    intro hdown
    by_contra hne
    exact h2 ⟨hdown, hne⟩
  | some last =>
    rw [hlast] at h
    dsimp only at h
    split_ifs at h with h1 h2 h3 h4 h5
    refine ⟨by simpa using h1, ?_, ?_⟩
    · intro last' hl
      cases hl
      omega
    · intro hdown
      by_contra hne
      exact h5 ⟨hdown, hne⟩

/-- a heartbeat is applied to the record, or leaves the memory as it is -/
theorem heartbeat_applied_cases {store : ControllerStateStore σ} {inner inner' : Inner p} {s s' : σ}
    {workerId startId : String} {lease sequence : Nat} {state : Int}
    {r : Except ControllerStateError HeartbeatResult}
    (h : heartbeat store inner s workerId startId lease sequence state = (r, inner', s')) :
    (inner' = inner ∧ r ≠ .ok .applied) ∨
    (r = .ok .applied ∧ ∃ w runState, WorkerRunState.tryFrom state = some runState ∧
      inner.workers[workerId]? = some w ∧ w.registration.request.startId = startId ∧
      checkHeartbeat w lease sequence runState = none ∧
      inner'.workers = inner.workers.insert workerId (w.beat sequence runState) ∧
      inner'.nextHeartbeatLease = inner.nextHeartbeatLease) := by
  unfold heartbeat at h
  split at h
  · cases h
    exact .inl ⟨rfl, by simp⟩
  · rename_i runState hstate
    have htry : WorkerRunState.tryFrom state = some runState :=
      (Option.filter_eq_some_iff.mp hstate).1
    cases hc : ensureCurrentStart inner workerId startId with
    | error e =>
      simp only [hc, Prod.mk.injEq] at h
      exact .inl ⟨h.2.1.symm, by rw [← h.1]; simp⟩
    | ok w =>
      obtain ⟨hw, hstart⟩ := ensureCurrentStart_ok hc
      simp only [hc] at h
      cases hk : checkHeartbeat w lease sequence runState with
      | some o =>
        cases o with
        | error e =>
          simp only [hk, Prod.mk.injEq] at h
          exact .inl ⟨h.2.1.symm, by rw [← h.1]; simp⟩
        | ok result =>
          simp only [hk, Prod.mk.injEq] at h
          refine .inl ⟨h.2.1.symm, ?_⟩
          rw [← h.1]
          intro hr
          cases hr
          exact checkHeartbeat_ne_applied w lease sequence runState hk
      | none =>
        simp only [hk] at h
        cases hl : w.live with
        | true =>
          simp only [hl, Bool.not_true, Bool.false_eq_true, ↓reduceIte, Prod.mk.injEq] at h
          refine .inr ⟨h.1.symm, w, runState, htry, hw, hstart, hk, ?_, ?_⟩
          · rw [← h.2.1, notifyIf_workers]
            rfl
          · rw [← h.2.1, notifyIf_nextHeartbeatLease]
            rfl
        | false =>
          simp only [hl, Bool.not_false, ↓reduceIte] at h
          split at h
          · rename_i e inner2 s2 hq
            rcases publishOrRestore_cases hw hq with ⟨e', he, hi, -⟩ | ⟨changed, he, hp⟩
            · simp only [Prod.mk.injEq] at h
              exact .inl ⟨by rw [← h.2.1, hi], by rw [← h.1]; simp⟩
            · cases he
          · rename_i changed inner2 s2 hq
            rcases publishOrRestore_cases hw hq with ⟨e, he, hi, -⟩ | ⟨changed', he, hp⟩
            · cases he
            · cases he
              simp only [Prod.mk.injEq] at h
              refine .inr ⟨h.1.symm, w, runState, htry, hw, hstart, hk, ?_, ?_⟩
              · rw [← h.2.1, notifyIf_workers, publishRoutes_workers hp]
                rfl
              · rw [← h.2.1, notifyIf_nextHeartbeatLease, publishRoutes_nextHeartbeatLease hp]
                rfl

theorem evolves_accepted {stream : HeartbeatStream} (h : stream.task = .looping)
    (result : HeartbeatResult) (sequence : Nat) (state : Int) (a b : Bool) :
    Evolves stream (stream.accepted result sequence state a b) := by
  have hne : stream.task ≠ .finished := by
    rw [h]
    simp
  unfold HeartbeatStream.accepted
  dsimp only
  split_ifs <;> exact ⟨rfl, rfl, rfl, fun _ => h, fun _ => hne⟩

theorem effect_heartbeat {store : ControllerStateStore σ} {x x' : Heartbeats p σ}
    {i sequence : Nat} {state : Int} {a b : Bool}
    (h : x.step store (.heartbeat i sequence state a b) = some x') :
    Effect x x' (.heartbeat i sequence state a b) := by
  unfold step at h
  obtain ⟨stream, hat, h⟩ := Option.map_eq_some_iff.mp h
  obtain ⟨hi, htask⟩ := at?_eq_some.mp hat
  cases hq : Controller.heartbeat store x.world.inner x.world.stored stream.guard.workerId
      stream.guard.startId stream.guard.lease sequence state with
  | mk r rest =>
    obtain ⟨inner, s⟩ := rest
    rw [hq] at h
    have hclosing : Evolves stream { stream with task := .closing } :=
      ⟨rfl, rfl, rfl, fun h => (by cases h), fun _ => (by rw [htask]; simp)⟩
    rcases heartbeat_applied_cases hq with ⟨hsame, hr⟩ |
      ⟨rfl, w, runState, htry, hw, hstart, hcheck, hworkers, hnext⟩
    · subst hsame
      cases r with
      | error e =>
        subst h
        exact .kept rfl rfl (.set hi hclosing) rfl rfl
      | ok result =>
        subst h
        refine .kept rfl rfl (.set hi (evolves_accepted htask _ _ _ _ _)) rfl ?_
        cases result with
        | applied => exact absurd rfl hr
        | duplicate => rfl
    · subst h
      refine .beat i stream w sequence runState ⟨state, a, b, rfl⟩ hi htask hw hstart hcheck
        hworkers hnext (.set hi (evolves_accepted htask _ _ _ _ _)) rfl ?_
      show x.logged stream.guard .applied sequence state = _
      unfold logged
      rw [htry]
      rfl

/-- the effect of a `close_heartbeat` by a stream that leaves its loop -/
theorem effect_closeHeartbeat {store : ControllerStateStore σ} {x : Heartbeats p σ} {i : Nat}
    {stream stream' : HeartbeatStream} {r : Except ControllerStateError Bool} {inner : Inner p}
    {s : σ} {l : StreamStep} (hi : x.streams[i]? = some stream)
    (htask : stream.task = .closing ∨ stream.task = .dropped) (he : Evolves stream stream')
    (hq : Controller.closeHeartbeat store x.world.inner x.world.stored stream.guard.workerId
      stream.guard.startId stream.guard.lease = (r, inner, s)) :
    Effect x ({ x with world := ⟨inner, s⟩ }.setStream i stream') l := by
  rcases closeHeartbeat_cases hq with ⟨hsame, -⟩ |
    ⟨w, changed, inner2, hw, hstart, hlease, -, -, hp, hinner⟩
  · subst hsame
    exact .kept rfl rfl (.set hi he) rfl rfl
  · refine .closed i stream w hi hw ?_ hlease hstart htask ?_ (.set hi he) rfl rfl
    · show inner.workers = _
      rw [hinner, notifyIf_workers, publishRoutes_workers hp]
      rfl
    · show inner.nextHeartbeatLease = _
      rw [hinner, notifyIf_nextHeartbeatLease, publishRoutes_nextHeartbeatLease hp]
      rfl

theorem evolves_closed {stream : HeartbeatStream} (h : stream.task = .closing)
    (r : Except ControllerStateError Bool) : Evolves stream (stream.closed r) := by
  have hne : stream.task ≠ .finished := by
    rw [h]
    simp
  cases r with
  | error e => exact ⟨rfl, rfl, rfl, fun h => (by cases h), fun _ => hne⟩
  | ok unavailable =>
    refine ⟨rfl, rfl, rfl, ?_, fun _ => hne⟩
    intro hl
    change (if unavailable = true then StreamTask.closing else .finished) = .looping at hl
    split_ifs at hl

theorem evolves_dropClosed {stream : HeartbeatStream} (h : stream.task = .dropped)
    (r : Except ControllerStateError Bool) : Evolves stream (stream.dropClosed r) := by
  have hne : stream.task ≠ .finished := by
    rw [h]
    simp
  cases r with
  | error e => exact ⟨rfl, rfl, rfl, fun h => (by cases h), fun _ => hne⟩
  | ok unavailable =>
    refine ⟨rfl, rfl, rfl, ?_, fun _ => hne⟩
    intro hl
    change (if unavailable = true then StreamTask.dropHook else .finished) = .looping at hl
    split_ifs at hl

/-- every step has one of the six effects -/
theorem step_effect {store : ControllerStateStore σ} {x x' : Heartbeats p σ} {l : StreamStep}
    (h : x.step store l = some x') : Effect x x' l := by
  cases l with
  | register registration => exact effect_register h
  | openHeartbeat workerId startId => exact effect_open h
  | heartbeat i sequence state a b => exact effect_heartbeat h
  | leave i =>
    obtain ⟨stream, hat, rfl⟩ := Option.map_eq_some_iff.mp h
    obtain ⟨hi, htask⟩ := at?_eq_some.mp hat
    refine .kept rfl rfl (.set hi ⟨rfl, rfl, rfl, fun h => (by cases h), ?_⟩) rfl rfl
    intro _
    rw [htask]
    simp
  | cancel i =>
    obtain ⟨stream, hat, rfl⟩ := Option.map_eq_some_iff.mp h
    have hstream : x.streams[i]? = some stream ∧ stream.task ≠ .finished := by
      rcases Option.or_eq_some_iff.mp hat with hat | ⟨-, hat⟩
      · obtain ⟨hi, htask⟩ := at?_eq_some.mp hat
        exact ⟨hi, by rw [htask]; simp⟩
      · obtain ⟨hi, htask⟩ := at?_eq_some.mp hat
        exact ⟨hi, by rw [htask]; simp⟩
    exact .kept rfl rfl
      (.set hstream.1 ⟨rfl, rfl, rfl, fun h => (by cases h), fun _ => hstream.2⟩) rfl rfl
  | close i =>
    obtain ⟨stream, hat, rfl⟩ := Option.map_eq_some_iff.mp h
    obtain ⟨hi, htask⟩ := at?_eq_some.mp (Option.filter_eq_some_iff.mp hat).1
    exact effect_closeHeartbeat hi (.inl htask) (evolves_closed htask _) rfl
  | unavailable i ok =>
    obtain ⟨stream, hat, rfl⟩ := Option.map_eq_some_iff.mp h
    obtain ⟨hi, htask⟩ := at?_eq_some.mp (Option.filter_eq_some_iff.mp hat).1
    have hne : stream.task ≠ .finished := by
      rw [htask]
      simp
    refine .kept rfl rfl (.set hi ?_) rfl rfl
    cases ok
    · exact ⟨rfl, rfl, rfl, fun h => (by cases h), fun _ => hne⟩
    · exact ⟨rfl, rfl, rfl, fun h => (by cases h), fun _ => hne⟩
  | dropClose i =>
    obtain ⟨stream, hat, rfl⟩ := Option.map_eq_some_iff.mp h
    obtain ⟨hi, htask⟩ := at?_eq_some.mp hat
    have hne : stream.task ≠ .finished := by
      rw [htask]
      simp
    by_cases hc : stream.guard.stateClosed = true
    · rw [if_pos hc]
      exact .kept rfl rfl (.set hi ⟨rfl, rfl, rfl, fun h => (by cases h), fun _ => hne⟩) rfl rfl
    · rw [if_neg hc]
      exact effect_closeHeartbeat hi (.inr htask) (evolves_dropClosed htask _) rfl
  | dropUnavailable i ok =>
    obtain ⟨stream, hat, rfl⟩ := Option.map_eq_some_iff.mp h
    obtain ⟨hi, htask⟩ := at?_eq_some.mp hat
    refine .kept rfl rfl (.set hi ⟨rfl, rfl, rfl, fun h => (by cases h), ?_⟩) rfl rfl
    intro _
    rw [htask]
    simp
  | other op =>
    change (if op.isUpkeep then some { x with world := op.run store x.world } else none) = some x' at h
    split_ifs at h with hop
    cases h
    exact .upkeep (Op.run_upkeep store x.world op hop) rfl rfl rfl

/-! ## the leases of the records -/

def Holds (stream : HeartbeatStream) (id startId : String) : Prop :=
  stream.guard.workerId = id ∧ stream.guard.startId = startId

/-- stream `i` is the newest that the process opened -/
def NewestOf (x : Heartbeats p σ) (id startId : String) (i : Nat) (stream : HeartbeatStream) :
    Prop :=
  x.streams[i]? = some stream ∧ Holds stream id startId ∧
    ∀ (j : Nat) other, i < j → x.streams[j]? = some other → ¬ Holds other id startId

/-- the n-th stream of a run has the n-th lease -/
structure Numbered (x : Heartbeats p σ) : Prop where
  next : x.world.inner.nextHeartbeatLease = Lease.number (2 ^ 64) x.streams.length
  lease : ∀ (i : Nat) stream, x.streams[i]? = some stream →
    stream.guard.lease = Lease.number (2 ^ 64) (i + 1)

theorem numbered_evolve {x x' : Heartbeats p σ} (h : Numbered x)
    (hnext : x'.world.inner.nextHeartbeatLease = x.world.inner.nextHeartbeatLease)
    (hs : StreamsEvolve x.streams x'.streams) : Numbered x' := by
  refine ⟨?_, ?_⟩
  · rw [hnext, hs.length]
    exact h.next
  · intro i s' hi
    obtain ⟨s, hsi, he⟩ := hs.streams i s' hi
    rw [he.lease]
    exact h.lease i s hsi

theorem Numbered.step {store : ControllerStateStore σ} {x x' : Heartbeats p σ} {l : StreamStep}
    (hx : Numbered x) (h : x.step store l = some x') : Numbered x' := by
  cases step_effect h with
  | kept _ hnext hs _ _ => exact numbered_evolve hx hnext hs
  | upkeep hu hs _ _ => exact numbered_evolve hx hu.next (hs ▸ .refl _)
  | joined _ _ _ _ hnext hs _ _ => exact numbered_evolve hx hnext (hs ▸ .refl _)
  | opened workerId startId w _ _ _ _ hnext hs _ _ =>
    refine ⟨?_, ?_⟩
    · rw [hnext, hs, hx.next, wrappingNext_number, List.length_append]
      rfl
    · intro i stream hi
      rw [hs] at hi
      rcases (Ledger.getElem?_concat_cases hi).symm with ⟨-, hi⟩ | ⟨rfl, rfl⟩
      · exact hx.lease i stream hi
      · show wrappingNext x.world.inner.nextHeartbeatLease = _
        rw [hx.next, wrappingNext_number]
  | beat _ _ _ _ _ _ _ _ _ _ _ _ hnext hs _ _ => exact numbered_evolve hx hnext hs
  | closed _ _ _ _ _ _ _ _ _ hnext hs _ _ => exact numbered_evolve hx hnext hs

/-- fewer than `2 ^ 64 - 1` streams are opened after a stream that has not finished -/
def Spaced (x : Heartbeats p σ) : Prop :=
  ∀ (i : Nat) stream, x.streams[i]? = some stream → stream.task ≠ .finished →
    x.streams.length - i ≤ 2 ^ 64 - 1

/-- an opening does not reach the number of a stream that has not finished -/
def Fresh (x : Heartbeats p σ) : StreamStep → Prop
  | .openHeartbeat _ _ => ∀ (i : Nat) stream, x.streams[i]? = some stream →
      stream.task ≠ .finished → x.streams.length - i < 2 ^ 64 - 1
  | _ => True

theorem spaced_evolve {x x' : Heartbeats p σ} (h : Spaced x)
    (hs : StreamsEvolve x.streams x'.streams) : Spaced x' := by
  intro i s' hi hne
  obtain ⟨s, hsi, he⟩ := hs.streams i s' hi
  rw [hs.length]
  exact h i s hsi (he.unfinished hne)

theorem Spaced.step {store : ControllerStateStore σ} {x x' : Heartbeats p σ} {l : StreamStep}
    (hx : Spaced x) (hok : Fresh x l) (h : x.step store l = some x') : Spaced x' := by
  cases step_effect h with
  | kept _ _ hs _ _ => exact spaced_evolve hx hs
  | upkeep _ hs _ _ => exact spaced_evolve hx (hs ▸ .refl _)
  | joined _ _ _ _ _ hs _ _ => exact spaced_evolve hx (hs ▸ .refl _)
  | opened workerId startId w hl _ _ _ _ hs _ _ =>
    subst hl
    intro i stream hi hne
    rw [hs] at hi ⊢
    rw [List.length_append, List.length_singleton]
    rcases (Ledger.getElem?_concat_cases hi).symm with ⟨-, hi⟩ | ⟨rfl, -⟩
    · have hlt := hok i stream hi hne
      omega
    · omega
  | beat _ _ _ _ _ _ _ _ _ _ _ _ _ hs _ _ => exact spaced_evolve hx hs
  | closed _ _ _ _ _ _ _ _ _ _ hs _ _ => exact spaced_evolve hx hs

/-- a stream that has not finished shares its lease with no later stream -/
theorem lease_ne_later {x : Heartbeats p σ} (hn : Numbered x) (hsp : Spaced x) {i j : Nat}
    {s t : HeartbeatStream} (hi : x.streams[i]? = some s) (hj : x.streams[j]? = some t)
    (hne : s.task ≠ .finished) (hij : i < j) : s.guard.lease ≠ t.guard.lease := by
  have hlen : j < x.streams.length := (List.getElem?_eq_some_iff.mp hj).1
  have hgap := hsp i s hi hne
  rw [hn.lease i s hi, hn.lease j t hj]
  exact Lease.number_ne_of_lt hij (by omega)

theorem lease_pos {x : Heartbeats p σ} (hn : Numbered x) {i : Nat} {s : HeartbeatStream}
    (hi : x.streams[i]? = some s) : s.guard.lease ≠ 0 := by
  rw [hn.lease i s hi]
  exact Nat.ne_of_gt (Lease.number_succ_pos i)

/-- a record holds the lease of the newest stream of its process; once it is closed, that stream has
left its loop -/
def Leased (x : Heartbeats p σ) : Prop :=
  ∀ (id : String) w, x.world.inner.workers[id]? = some w →
    (w.heartbeatLease = 0 ∧ w.live = false) ∨
    ∃ i stream, NewestOf x id w.registration.request.startId i stream ∧
      w.heartbeatLease = stream.guard.lease ∧
      (w.heartbeatOpen = false → w.live = false ∧ stream.task ≠ .looping)

theorem NewestOf.unique {x : Heartbeats p σ} {id startId : String} {i k : Nat}
    {s t : HeartbeatStream} (hi : NewestOf x id startId i s) (hk : NewestOf x id startId k t) :
    i = k ∧ s = t := by
  have hik : i = k := by
    rcases Nat.lt_trichotomy i k with hlt | heq | hgt
    · exact absurd hk.2.1 (hi.2.2 k t hlt hk.1)
    · exact heq
    · exact absurd hi.2.1 (hk.2.2 i s hgt hi.1)
  subst hik
  exact ⟨rfl, Option.some.inj (hi.1.symm.trans hk.1)⟩

theorem NewestOf.evolve {x x' : Heartbeats p σ} {id startId : String} {i : Nat}
    {stream : HeartbeatStream} (h : NewestOf x id startId i stream)
    (hs : StreamsEvolve x.streams x'.streams) :
    ∃ stream', NewestOf x' id startId i stream' ∧ Evolves stream stream' := by
  obtain ⟨hi, hholds, hlater⟩ := h
  obtain ⟨stream', hi', he⟩ := hs.forward hi
  refine ⟨stream', ⟨hi', ⟨he.workerId.trans hholds.1, he.startId.trans hholds.2⟩, ?_⟩, he⟩
  intro j other' hij hj hbad
  obtain ⟨other, hother, heo⟩ := hs.streams j other' hj
  exact hlater j other hij hother ⟨heo.workerId.symm.trans hbad.1, heo.startId.symm.trans hbad.2⟩

/-- the lease of one record stays in order when its heartbeats stay and the streams go on -/
theorem leased_same {x x' : Heartbeats p σ} {id : String} {w w' : WorkerRecord p}
    (hw : (w.heartbeatLease = 0 ∧ w.live = false) ∨
      ∃ i stream, NewestOf x id w.registration.request.startId i stream ∧
        w.heartbeatLease = stream.guard.lease ∧
        (w.heartbeatOpen = false → w.live = false ∧ stream.task ≠ .looping))
    (hsame : SameHeartbeats w w') (hs : StreamsEvolve x.streams x'.streams) :
    (w'.heartbeatLease = 0 ∧ w'.live = false) ∨
      ∃ i stream, NewestOf x' id w'.registration.request.startId i stream ∧
        w'.heartbeatLease = stream.guard.lease ∧
        (w'.heartbeatOpen = false → w'.live = false ∧ stream.task ≠ .looping) := by
  have hdead : w.live = false → w'.live = false := by
    intro hl
    cases hl' : w'.live with
    | false => rfl
    | true => rw [hsame.live hl'] at hl; cases hl
  rcases hw with ⟨hz, hl⟩ | ⟨i, stream, hnew, hlease, hopen⟩
  · exact .inl ⟨hsame.lease.trans hz, hdead hl⟩
  · obtain ⟨stream', hnew', he⟩ := hnew.evolve hs
    refine .inr ⟨i, stream', ?_, ?_, ?_⟩
    · rw [hsame.registration]
      exact hnew'
    · rw [hsame.lease, hlease, he.lease]
    · intro ho
      obtain ⟨hl, htask⟩ := hopen (hsame.isOpen ▸ ho)
      exact ⟨hdead hl, fun hloop => htask (he.looping hloop)⟩

/-- the stream that beats or closes under the lease of the record is the newest of its process -/
theorem newest_of_lease {x : Heartbeats p σ} (hn : Numbered x) (hsp : Spaced x) {i k : Nat}
    {s t : HeartbeatStream} {id startId : String} (hi : x.streams[i]? = some s)
    (hholds : Holds s id startId) (hne : s.task ≠ .finished) (hk : NewestOf x id startId k t)
    (hlease : s.guard.lease = t.guard.lease) : i = k := by
  rcases Nat.lt_trichotomy i k with hlt | heq | hgt
  · exact absurd hlease (lease_ne_later hn hsp hi hk.1 hne hlt)
  · exact heq
  · exact absurd hholds (hk.2.2 i s hgt hi)

theorem Leased.step {store : ControllerStateStore σ} {x x' : Heartbeats p σ} {l : StreamStep}
    (hx : Leased x) (hn : Numbered x) (hsp : Spaced x) (h : x.step store l = some x') :
    Leased x' := by
  intro id w' hw'
  cases step_effect h with
  | kept hworkers _ hs _ _ =>
    rw [hworkers] at hw'
    exact leased_same (hx id w' hw') (.refl w') hs
  | upkeep hu hs _ _ =>
    obtain ⟨w, hw, hsame⟩ := hu.records id w' hw'
    exact leased_same (hx id w hw) hsame (hs ▸ .refl _)
  | joined reg g t hworkers _ hs _ _ =>
    rw [hworkers, Maps.getElem?_insert_eq] at hw'
    split_ifs at hw' with hid
    · cases hw'
      exact .inl ⟨rfl, rfl⟩
    · exact leased_same (hx id w' hw') (.refl w') (hs ▸ .refl _)
  | opened workerId startId w _ hw hstart hworkers _ hs _ _ =>
    rw [hworkers, Maps.getElem?_insert_eq] at hw'
    split_ifs at hw' with hid
    · cases hw'
      subst hid
      refine .inr ⟨x.streams.length, ⟨.new workerId startId
        (wrappingNext x.world.inner.nextHeartbeatLease), .looping, 0, [], 0⟩,
        ⟨?_, ⟨rfl, hstart.symm⟩, ?_⟩, rfl, fun ho => (by cases ho)⟩
      · rw [hs, List.getElem?_concat_length]
      · intro j other hlt hj
        rw [hs] at hj
        have hlen := (List.getElem?_eq_some_iff.mp hj).1
        rw [List.length_append, List.length_singleton] at hlen
        omega
    · -- the new stream belongs to another worker
      rcases hx id w' hw' with hz | ⟨i, stream, ⟨hi, hholds, hlater⟩, hlease, hopen⟩
      · exact .inl hz
      · refine .inr ⟨i, stream, ⟨?_, hholds, ?_⟩, hlease, hopen⟩
        · rw [hs, List.getElem?_append_left (List.getElem?_eq_some_iff.mp hi).1]
          exact hi
        · intro j other hij hj hbad
          rw [hs] at hj
          rcases (Ledger.getElem?_concat_cases hj).symm with ⟨-, hj⟩ | ⟨-, rfl⟩
          · exact hlater j other hij hj hbad
          · exact hid hbad.1
  | beat i stream w sequence runState _ hi htask hw hstart hcheck hworkers _ hs _ _ =>
    rw [hworkers, Maps.getElem?_insert_eq] at hw'
    split_ifs at hw' with hid
    · cases hw'
      subst hid
      have hlease := (checkHeartbeat_eq_none hcheck).1
      rcases hx _ w hw with ⟨hz, -⟩ | ⟨k, holder, hnew, hk, hopen⟩
      · exact absurd (hlease.symm.trans hz) (lease_pos hn hi)
      · have hik : i = k := newest_of_lease hn hsp hi ⟨rfl, hstart.symm⟩ (by rw [htask]; simp) hnew
          (hlease.symm.trans hk)
        subst hik
        obtain ⟨holder', hnew', he⟩ := hnew.evolve hs
        refine .inr ⟨i, holder', hnew', hk.trans he.lease.symm, ?_⟩
        intro ho
        have hsame : holder = stream := Option.some.inj (hnew.1.symm.trans hi)
        exact absurd (hsame ▸ htask) (hopen ho).2
    · exact leased_same (hx id w' hw') (.refl w') hs
  | closed i stream w hi hw hworkers hlease hstart htask _ hs _ _ =>
    rw [hworkers, Maps.getElem?_insert_eq] at hw'
    split_ifs at hw' with hid
    · cases hw'
      subst hid
      have hne : stream.task ≠ .finished := by
        rcases htask with h | h <;> rw [h] <;> simp
      have hloop : stream.task ≠ .looping := by
        rcases htask with h | h <;> rw [h] <;> simp
      rcases hx _ w hw with ⟨hz, -⟩ | ⟨k, holder, hnew, hk, -⟩
      · exact absurd (hlease.symm.trans hz) (lease_pos hn hi)
      · have hik : i = k := newest_of_lease hn hsp hi ⟨rfl, hstart.symm⟩ hne hnew
          (hlease.symm.trans hk)
        subst hik
        have hsame : holder = stream := Option.some.inj (hnew.1.symm.trans hi)
        obtain ⟨holder', hnew', he⟩ := hnew.evolve hs
        refine .inr ⟨i, holder', hnew', hk.trans he.lease.symm, ?_⟩
        intro _
        exact ⟨rfl, fun hl => hloop (hsame ▸ he.looping hl)⟩
    · exact leased_same (hx id w' hw') (.refl w') hs

/-! ## the guard of a stream -/

/-- the hook has not succeeded before the stream is finished, and needs a close that returned true -/
structure Guarded (stream : HeartbeatStream) : Prop where
  pending : stream.task ≠ .finished → stream.hooks = 0
  running : stream.task = .looping → stream.guard.stateClosed = false
  stateClosed : stream.guard.stateClosed = true → stream.task ≠ .finished →
    .ok true ∈ stream.closes
  dropHook : stream.task = .dropHook → .ok true ∈ stream.closes
  once : stream.hooks ≤ 1 ∧ (stream.hooks = 1 → .ok true ∈ stream.closes)

theorem guarded_accepted {stream : HeartbeatStream} (hg : Guarded stream)
    (htask : stream.task = .looping) (result : HeartbeatResult) (sequence : Nat) (state : Int)
    (a b : Bool) : Guarded (stream.accepted result sequence state a b) := by
  have hzero : stream.hooks = 0 := hg.pending (by rw [htask]; simp)
  have hopen := hg.running htask
  unfold HeartbeatStream.accepted
  dsimp only
  split_ifs <;>
    exact ⟨fun _ => hzero, fun _ => hopen, fun h => (by rw [hopen] at h; cases h),
      fun h => (by first | cases h | (rw [htask] at h; cases h)), hg.once⟩

theorem guarded_closed {stream : HeartbeatStream} (hg : Guarded stream)
    (htask : stream.task = .closing) (hopen : stream.guard.stateClosed = false)
    (r : Except ControllerStateError Bool) : Guarded (stream.closed r) := by
  have hzero : stream.hooks = 0 := hg.pending (by rw [htask]; simp)
  have honce : stream.hooks ≤ 1 := by omega
  cases r with
  | error e =>
    refine ⟨fun _ => hzero, fun h => (by cases h), ?_, fun h => (by cases h), honce, ?_⟩
    · intro h
      change stream.guard.stateClosed = true at h
      rw [hopen] at h
      cases h
    · intro h
      change stream.hooks = 1 at h
      omega
  | ok unavailable =>
    have hmem : unavailable = true → .ok true ∈ (stream.closed (.ok unavailable)).closes := by
      rintro rfl
      exact List.mem_append_right _ List.mem_cons_self
    refine ⟨fun _ => hzero, ?_, ?_, ?_, honce, ?_⟩
    · intro h
      change (if unavailable = true then StreamTask.closing else .finished) = .looping at h
      split_ifs at h
    · intro _ hne
      change (if unavailable = true then StreamTask.closing else .finished) ≠ .finished at hne
      split_ifs at hne with hu
      · exact hmem hu
      · exact absurd rfl hne
    · intro h
      change (if unavailable = true then StreamTask.closing else .finished) = .dropHook at h
      split_ifs at h
    · intro h
      change stream.hooks = 1 at h
      omega

theorem guarded_dropClosed {stream : HeartbeatStream} (hg : Guarded stream)
    (htask : stream.task = .dropped) (hopen : stream.guard.stateClosed = false)
    (r : Except ControllerStateError Bool) : Guarded (stream.dropClosed r) := by
  have hzero : stream.hooks = 0 := hg.pending (by rw [htask]; simp)
  have honce : stream.hooks ≤ 1 := by omega
  cases r with
  | error e =>
    refine ⟨fun _ => hzero, fun h => (by cases h), fun _ hne => absurd rfl hne,
      fun h => (by cases h), honce, ?_⟩
    intro h
    change stream.hooks = 1 at h
    omega
  | ok unavailable =>
    have hmem : unavailable = true → .ok true ∈ (stream.dropClosed (.ok unavailable)).closes := by
      rintro rfl
      exact List.mem_append_right _ List.mem_cons_self
    refine ⟨fun _ => hzero, ?_, ?_, ?_, honce, ?_⟩
    · intro h
      change (if unavailable = true then StreamTask.dropHook else .finished) = .looping at h
      split_ifs at h
    · intro h
      change stream.guard.stateClosed = true at h
      rw [hopen] at h
      cases h
    · intro h
      change (if unavailable = true then StreamTask.dropHook else .finished) = .dropHook at h
      split_ifs at h with hu
      exact hmem hu
    · intro h
      change stream.hooks = 1 at h
      omega

/-- leaving the loop or the call for a later task -/
theorem guarded_task {stream : HeartbeatStream} (hg : Guarded stream)
    (hne : stream.task ≠ .finished) {task : StreamTask} (hloop : task ≠ .looping)
    (hhook : task = .dropHook → .ok true ∈ stream.closes) : Guarded { stream with task := task } :=
  ⟨fun _ => hg.pending hne, fun h => absurd h hloop, fun h _ => hg.stateClosed h hne, hhook, hg.once⟩

theorem guarded_set {l : List HeartbeatStream} (h : ∀ s ∈ l, Guarded s) {s : HeartbeatStream}
    (hs : Guarded s) (i : Nat) : ∀ t ∈ l.set i s, Guarded t := by
  intro t ht
  rcases List.mem_or_eq_of_mem_set ht with ht | rfl
  · exact h t ht
  · exact hs

theorem guarded_step {store : ControllerStateStore σ} {x x' : Heartbeats p σ} {l : StreamStep}
    (hx : ∀ s ∈ x.streams, Guarded s) (h : x.step store l = some x') :
    ∀ s ∈ x'.streams, Guarded s := by
  have hmem : ∀ {i task stream}, x.at? i task = some stream →
      Guarded stream ∧ stream.task = task := by
    intro i task stream hat
    obtain ⟨hi, htask⟩ := at?_eq_some.mp hat
    exact ⟨hx stream (List.mem_of_getElem? hi), htask⟩
  cases l with
  | register registration =>
    cases h
    exact hx
  | openHeartbeat workerId startId =>
    unfold step at h
    dsimp only at h
    split at h
    · cases h
      exact hx
    · cases h
      intro s hs
      rcases List.mem_append.mp hs with hs | hs
      · exact hx s hs
      · cases List.mem_singleton.mp hs
        exact ⟨fun _ => rfl, fun _ => rfl, fun h => (by cases h), fun h => (by cases h),
          Nat.zero_le _, fun h => (by cases h)⟩
  | heartbeat i sequence state a b =>
    obtain ⟨stream, hat, hx'⟩ := Option.map_eq_some_iff.mp h
    obtain ⟨hg, htask⟩ := hmem hat
    split at hx'
    · subst hx'
      exact guarded_set hx (guarded_task hg (by rw [htask]; simp) (by simp) (by simp)) i
    · subst hx'
      exact guarded_set hx (guarded_accepted hg htask _ _ _ _ _) i
  | leave i =>
    obtain ⟨stream, hat, rfl⟩ := Option.map_eq_some_iff.mp h
    obtain ⟨hg, htask⟩ := hmem hat
    exact guarded_set hx (guarded_task hg (by rw [htask]; simp) (by simp) (by simp)) i
  | cancel i =>
    obtain ⟨stream, hat, rfl⟩ := Option.map_eq_some_iff.mp h
    have hstream : Guarded stream ∧ stream.task ≠ .finished := by
      rcases Option.or_eq_some_iff.mp hat with hat | ⟨-, hat⟩
      · exact ⟨(hmem hat).1, by rw [(hmem hat).2]; simp⟩
      · exact ⟨(hmem hat).1, by rw [(hmem hat).2]; simp⟩
    exact guarded_set hx (guarded_task hstream.1 hstream.2 (by simp) (by simp)) i
  | close i =>
    obtain ⟨stream, hat, rfl⟩ := Option.map_eq_some_iff.mp h
    obtain ⟨hat, hopen⟩ := Option.filter_eq_some_iff.mp hat
    obtain ⟨hg, htask⟩ := hmem hat
    exact guarded_set hx (guarded_closed hg htask (by simpa using hopen) _) i
  | unavailable i ok =>
    obtain ⟨stream, hat, rfl⟩ := Option.map_eq_some_iff.mp h
    obtain ⟨hat, hclosed⟩ := Option.filter_eq_some_iff.mp hat
    obtain ⟨hg, htask⟩ := hmem hat
    have hne : stream.task ≠ .finished := by
      rw [htask]
      simp
    have htrue := hg.stateClosed hclosed hne
    have hzero := hg.pending hne
    refine guarded_set hx ?_ i
    cases ok with
    | false => exact guarded_task hg hne (by simp) (by simp)
    | true =>
      refine Guarded.mk (fun h => absurd rfl h) (fun h => (by cases h)) (fun _ h => absurd rfl h)
        (fun h => (by cases h)) ⟨?_, fun _ => htrue⟩
      show stream.hooks + 1 ≤ 1
      omega
  | dropClose i =>
    obtain ⟨stream, hat, rfl⟩ := Option.map_eq_some_iff.mp h
    obtain ⟨hg, htask⟩ := hmem hat
    have hne : stream.task ≠ .finished := by
      rw [htask]
      simp
    by_cases hc : stream.guard.stateClosed = true
    · rw [if_pos hc]
      exact guarded_set hx (guarded_task hg hne (by simp) fun _ => hg.stateClosed hc hne) i
    · rw [if_neg hc]
      exact guarded_set hx (guarded_dropClosed hg htask (by simpa using hc) _) i
  | dropUnavailable i ok =>
    obtain ⟨stream, hat, rfl⟩ := Option.map_eq_some_iff.mp h
    obtain ⟨hg, htask⟩ := hmem hat
    have hzero := hg.pending (by rw [htask]; simp)
    have hdone : Guarded { stream with
        task := .finished, hooks := stream.hooks + if ok then 1 else 0 } := by
      refine ⟨fun h => absurd rfl h, fun h => (by cases h), fun _ h => absurd rfl h,
        fun h => (by cases h), ?_, fun _ => hg.dropHook htask⟩
      show stream.hooks + (if ok = true then 1 else 0) ≤ 1
      split_ifs <;> omega
    exact guarded_set hx hdone i
  | other op =>
    change (if op.isUpkeep then some { x with world := op.run store x.world } else none) = some x' at h
    split_ifs at h
    cases h
    exact hx

/-! ## the applied heartbeats -/

/-- heartbeats of one process, the later one after the earlier one -/
def InOrder (a b : Beat) : Prop :=
  a.workerId = b.workerId → a.registration = b.registration →
    a.sequence < b.sequence ∧ (a.runState = .shuttingDown → b.runState = .shuttingDown)

/-- the record stands for the last heartbeat of its process -/
structure Logged (x : Heartbeats p σ) : Prop where
  inOrder : x.applied.Pairwise InOrder
  registered : ∀ b ∈ x.applied, b.registration ≤ x.joined.count b.workerId
  current : ∀ b ∈ x.applied, b.registration = x.joined.count b.workerId →
    ∀ w, x.world.inner.workers[b.workerId]? = some w →
      (∃ last, w.lastHeartbeatSequence = some last ∧ b.sequence ≤ last) ∧
      (b.runState = .shuttingDown → w.runState = .shuttingDown)

theorem logged_same {x x' : Heartbeats p σ} (hx : Logged x) (hj : x'.joined = x.joined)
    (ha : x'.applied = x.applied)
    (hrecords : ∀ (id : String) w', x'.world.inner.workers[id]? = some w' →
      ∃ w, x.world.inner.workers[id]? = some w ∧
        w'.lastHeartbeatSequence = w.lastHeartbeatSequence ∧ w'.runState = w.runState) :
    Logged x' := by
  refine ⟨?_, ?_, ?_⟩
  · rw [ha]
    exact hx.inOrder
  · rw [ha, hj]
    exact hx.registered
  · intro b hb hreg w' hw'
    rw [ha] at hb
    rw [hj] at hreg
    obtain ⟨w, hw, hseq, hstate⟩ := hrecords b.workerId w' hw'
    rw [hseq, hstate]
    exact hx.current b hb hreg w hw

/-- a record that replaces one with the same sequence and run state -/
theorem records_of_insert {x x' : Heartbeats p σ} {id : String} {w : WorkerRecord p}
    (v : WorkerRecord p) (hw : x.world.inner.workers[id]? = some w)
    (hworkers : x'.world.inner.workers = x.world.inner.workers.insert id v)
    (hseq : v.lastHeartbeatSequence = w.lastHeartbeatSequence) (hstate : v.runState = w.runState) :
    ∀ (a : String) w', x'.world.inner.workers[a]? = some w' →
      ∃ w, x.world.inner.workers[a]? = some w ∧
        w'.lastHeartbeatSequence = w.lastHeartbeatSequence ∧ w'.runState = w.runState := by
  intro a w' hw'
  rw [hworkers, Maps.getElem?_insert_eq] at hw'
  split_ifs at hw' with hid
  · cases hw'
    subst hid
    exact ⟨w, hw, hseq, hstate⟩
  · exact ⟨w', hw', rfl, rfl⟩

theorem Logged.step {store : ControllerStateStore σ} {x x' : Heartbeats p σ} {l : StreamStep}
    (hx : Logged x) (h : x.step store l = some x') : Logged x' := by
  cases step_effect h with
  | kept hworkers _ _ hj ha =>
    refine logged_same hx hj ha ?_
    intro id w' hw'
    rw [hworkers] at hw'
    exact ⟨w', hw', rfl, rfl⟩
  | upkeep hu _ hj ha =>
    refine logged_same hx hj ha ?_
    intro id w' hw'
    obtain ⟨w, hw, hsame⟩ := hu.records id w' hw'
    exact ⟨w, hw, hsame.sequence, hsame.runState⟩
  | joined reg g t hworkers _ _ hj ha =>
    have hcount : ∀ id : String, x.joined.count id ≤ x'.joined.count id := by
      intro id
      rw [hj, List.count_append]
      exact Nat.le_add_right _ _
    refine ⟨by rw [ha]; exact hx.inOrder, ?_, ?_⟩
    · intro b hb
      rw [ha] at hb
      exact (hx.registered b hb).trans (hcount _)
    · intro b hb hreg w' hw'
      rw [ha] at hb
      rw [hworkers, Maps.getElem?_insert_eq] at hw'
      split_ifs at hw' with hid
      · -- the new process has no heartbeat yet
        have hle := hx.registered b hb
        rw [hreg, hj, List.count_append, hid, List.count_singleton_self] at hle
        omega
      · rw [hj, List.count_append, List.count_singleton, if_neg (by simpa using hid)] at hreg
        exact hx.current b hb hreg w' hw'
  | opened workerId startId w _ hw _ hworkers _ _ hj ha =>
    exact logged_same hx hj ha (records_of_insert _ hw hworkers rfl rfl)
  | closed i stream w _ hw hworkers _ _ _ _ _ hj ha =>
    exact logged_same hx hj ha (records_of_insert _ hw hworkers rfl rfl)
  | beat i stream w sequence runState _ hi _ hw _ hcheck hworkers _ _ hj ha =>
    obtain ⟨-, hseq, hdown⟩ := checkHeartbeat_eq_none hcheck
    have hbefore : ∀ b ∈ x.applied, b.workerId = stream.guard.workerId →
        b.registration = x.joined.count stream.guard.workerId →
        b.sequence < sequence ∧ (b.runState = .shuttingDown → runState = .shuttingDown) := by
      intro b hb hid hreg
      obtain ⟨⟨last, hlast, hle⟩, hstate⟩ := hx.current b hb (hid ▸ hreg) w (hid ▸ hw)
      have hlt := hseq last hlast
      exact ⟨by omega, fun h => hdown (hstate h)⟩
    refine ⟨?_, ?_, ?_⟩
    · rw [ha, List.pairwise_append]
      refine ⟨hx.inOrder, List.pairwise_singleton _ _, ?_⟩
      intro b hb c hc hid hreg
      cases List.mem_singleton.mp hc
      exact hbefore b hb hid hreg
    · intro b hb
      rw [ha] at hb
      rw [hj]
      rcases List.mem_append.mp hb with hb | hb
      · exact hx.registered b hb
      · cases List.mem_singleton.mp hb
        exact Nat.le_refl _
    · intro b hb hreg w' hw'
      rw [ha] at hb
      rw [hj] at hreg
      rw [hworkers, Maps.getElem?_insert_eq] at hw'
      rcases List.mem_append.mp hb with hb | hb
      · split_ifs at hw' with hid
        · cases hw'
          obtain ⟨hlt, hstate⟩ := hbefore b hb hid.symm (hid ▸ hreg)
          exact ⟨⟨sequence, rfl, Nat.le_of_lt hlt⟩, hstate⟩
        · exact hx.current b hb hreg w' hw'
      · cases List.mem_singleton.mp hb
        rw [if_pos rfl] at hw'
        cases hw'
        exact ⟨⟨sequence, rfl, Nat.le_refl _⟩, id⟩

/-! ## quiet workers -/

/-- no topology has a route to the worker -/
def Unrouted (inner : Inner p) (id : String) : Prop :=
  ∀ (instanceId : Nat) (key : ExpertKey) (routes : List WorkerRoute),
    ((inner.topologies[instanceId]?).bind fun t => t.routes[key]?) = some routes →
      ∀ route ∈ routes, route.workerId ≠ id

def Dead (x : Heartbeats p σ) (id : String) : Prop :=
  ∀ w, x.world.inner.workers[id]? = some w → w.live = false

theorem unrouted_of_dead {store : ControllerStateStore σ} {x : Heartbeats p σ} {id : String}
    (hr : Reachable store x.world) (hd : Dead x id) : Unrouted x.world.inner id := by
  intro instanceId key routes hroutes route hroute hid
  obtain ⟨-, hserving⟩ := ((published_routes_spec hr instanceId key).1 routes).mp hroutes
  obtain ⟨a, w, hw, hserves, rfl⟩ := (hserving.exact route).mp hroute
  have hkey : a = id := (reachable_keyed hr a w hw).symm.trans hid
  subst hkey
  have hdead := hd w hw
  rw [hserves.live] at hdead
  cases hdead

theorem reachable_step {store : ControllerStateStore σ} {x x' : Heartbeats p σ} {l : StreamStep}
    (hr : Reachable store x.world) (h : x.step store l = some x') : Reachable store x'.world := by
  cases l with
  | register registration =>
    have hs := Reachable.step x.world (.register registration) hr
    cases hq : Controller.register store x.world.inner x.world.stored registration with
    | mk result rest =>
      simp only [step, hq, Option.some.injEq] at h
      subst h
      simpa only [Op.run, World.after, hq] using hs
  | openHeartbeat workerId startId =>
    have hs := Reachable.step x.world (.openHeartbeat workerId startId) hr
    unfold step at h
    dsimp only at h
    split at h <;> rename_i heq <;> cases h
    · simpa only [Op.run, World.after, heq] using hs
    · simpa only [Op.run, World.after, heq] using hs
  | heartbeat i sequence state a b =>
    obtain ⟨stream, -, hx'⟩ := Option.map_eq_some_iff.mp h
    have hs := Reachable.step x.world (.heartbeat stream.guard.workerId stream.guard.startId
      stream.guard.lease sequence state) hr
    split at hx' <;> rename_i heq <;> subst hx'
    · simpa only [Op.run, World.after, heq, setStream] using hs
    · simpa only [Op.run, World.after, heq, setStream] using hs
  | leave i =>
    obtain ⟨stream, -, rfl⟩ := Option.map_eq_some_iff.mp h
    exact hr
  | cancel i =>
    obtain ⟨stream, -, rfl⟩ := Option.map_eq_some_iff.mp h
    exact hr
  | close i =>
    obtain ⟨stream, -, rfl⟩ := Option.map_eq_some_iff.mp h
    exact .step x.world (.closeHeartbeat stream.guard.workerId stream.guard.startId
      stream.guard.lease) hr
  | unavailable i ok =>
    obtain ⟨stream, -, rfl⟩ := Option.map_eq_some_iff.mp h
    exact hr
  | dropClose i =>
    obtain ⟨stream, -, rfl⟩ := Option.map_eq_some_iff.mp h
    split_ifs
    · exact hr
    · exact .step x.world (.closeHeartbeat stream.guard.workerId stream.guard.startId
        stream.guard.lease) hr
  | dropUnavailable i ok =>
    obtain ⟨stream, -, rfl⟩ := Option.map_eq_some_iff.mp h
    exact hr
  | other op =>
    change (if op.isUpkeep then some { x with world := op.run store x.world } else none) = some x' at h
    split_ifs at h
    cases h
    exact .step x.world op hr

/-- a heartbeat of a stream opened after the first `n` -/
def NewBeat (n : Nat) : StreamStep → Prop
  | .heartbeat i _ _ _ _ => n ≤ i
  | _ => False

/-- the worker is not live, and no stream of the first `n` can make it live -/
structure Silent (n : Nat) (id : String) (x : Heartbeats p σ) : Prop where
  dead : Dead x id
  old : ∀ w, x.world.inner.workers[id]? = some w → ∀ (j : Nat) stream, j < n →
    x.streams[j]? = some stream → stream.task = .looping →
    Holds stream id w.registration.request.startId → stream.guard.lease ≠ w.heartbeatLease
  length : n ≤ x.streams.length

theorem silent_same {n : Nat} {id : String} {x x' : Heartbeats p σ} (hx : Silent n id x)
    (hs : StreamsEvolve x.streams x'.streams)
    (hrecord : ∀ w', x'.world.inner.workers[id]? = some w' →
      ∃ w, x.world.inner.workers[id]? = some w ∧ w'.registration = w.registration ∧
        w'.heartbeatLease = w.heartbeatLease ∧ (w.live = false → w'.live = false)) :
    Silent n id x' := by
  refine ⟨?_, ?_, ?_⟩
  · intro w' hw'
    obtain ⟨w, hw, -, -, hlive⟩ := hrecord w' hw'
    exact hlive (hx.dead w hw)
  · intro w' hw' j s' hj hs' htask hholds
    obtain ⟨w, hw, hreg, hlease, -⟩ := hrecord w' hw'
    obtain ⟨s, hsj, he⟩ := hs.streams j s' hs'
    rw [he.lease, hlease]
    refine hx.old w hw j s hj hsj (he.looping htask) ?_
    exact ⟨he.workerId.symm.trans hholds.1, he.startId.symm.trans (hreg ▸ hholds.2)⟩
  · rw [hs.length]
    exact hx.length

theorem Silent.step {store : ControllerStateStore σ} {n : Nat} {id : String} {x x' : Heartbeats p σ}
    {l : StreamStep} (hx : Silent n id x) (hn : Numbered x) (hok : Fresh x l)
    (hold : ¬ NewBeat n l) (h : x.step store l = some x') : Silent n id x' := by
  cases step_effect h with
  | kept hworkers _ hs _ _ =>
    refine silent_same hx hs ?_
    intro w' hw'
    rw [hworkers] at hw'
    exact ⟨w', hw', rfl, rfl, fun hl => hl⟩
  | upkeep hu hs _ _ =>
    refine silent_same hx (hs ▸ .refl _) ?_
    intro w' hw'
    obtain ⟨w, hw, hsame⟩ := hu.records id w' hw'
    refine ⟨w, hw, hsame.registration, hsame.lease, ?_⟩
    intro hl
    cases hl' : w'.live with
    | false => rfl
    | true => rw [hsame.live hl'] at hl; cases hl
  | joined reg g t hworkers _ hs _ _ =>
    by_cases hid : reg.request.workerId = id
    · refine ⟨?_, ?_, by rw [hs]; exact hx.length⟩
      · intro w' hw'
        rw [hworkers, Maps.getElem?_insert_eq, if_pos hid] at hw'
        cases hw'
        rfl
      · intro w' hw' j s hj hsj _ _
        rw [hworkers, Maps.getElem?_insert_eq, if_pos hid] at hw'
        cases hw'
        rw [hs] at hsj
        exact lease_pos hn hsj
    · refine silent_same hx (hs ▸ .refl _) ?_
      intro w' hw'
      rw [hworkers, Maps.getElem?_insert_eq, if_neg hid] at hw'
      exact ⟨w', hw', rfl, rfl, fun hl => hl⟩
  | opened workerId startId w hl hw _ hworkers _ hs _ _ =>
    subst hl
    refine ⟨?_, ?_, ?_⟩
    · intro w' hw'
      rw [hworkers, Maps.getElem?_insert_eq] at hw'
      split_ifs at hw' with hid
      · cases hw'
        exact hx.dead w (hid ▸ hw)
      · exact hx.dead w' hw'
    · intro w' hw' j s hj hsj htask hholds
      rw [hs] at hsj
      have hlen := hx.length
      have hsj' : x.streams[j]? = some s := by
        rcases (Ledger.getElem?_concat_cases hsj).symm with ⟨-, hsj⟩ | ⟨hlast, -⟩
        · exact hsj
        · omega
      rw [hworkers, Maps.getElem?_insert_eq] at hw'
      split_ifs at hw' with hid
      · -- the new lease is none of an older stream in its loop
        cases hw'
        show s.guard.lease ≠ wrappingNext x.world.inner.nextHeartbeatLease
        have hgap := hok j s hsj' (by rw [htask]; simp)
        rw [hn.next, wrappingNext_number, hn.lease j s hsj']
        exact Lease.number_ne_of_lt (by omega) hgap
      · exact hx.old w' hw' j s hj hsj' htask hholds
    · rw [hs, List.length_append]
      exact hx.length.trans (Nat.le_add_right _ _)
  | beat i stream w sequence runState hl hi htask hw hstart hcheck hworkers _ hs _ _ =>
    have hin : i < n := by
      obtain ⟨state, a, b, rfl⟩ := hl
      exact Nat.lt_of_not_le hold
    by_cases hid : stream.guard.workerId = id
    · have hne := hx.old w (hid ▸ hw) i stream hin hi htask ⟨hid, hstart.symm⟩
      exact absurd (checkHeartbeat_eq_none hcheck).1.symm hne
    · refine silent_same hx hs ?_
      intro w' hw'
      rw [hworkers, Maps.getElem?_insert_eq, if_neg hid] at hw'
      exact ⟨w', hw', rfl, rfl, fun hl => hl⟩
  | closed i stream w hi hw hworkers _ _ _ _ hs _ _ =>
    refine silent_same hx hs ?_
    intro w' hw'
    rw [hworkers, Maps.getElem?_insert_eq] at hw'
    split_ifs at hw' with hid
    · cases hw'
      exact ⟨w, hid ▸ hw, rfl, rfl, fun _ => rfl⟩
    · exact ⟨w', hw', rfl, rfl, fun hl => hl⟩

/-! ## the leases -/

/-- the streams and records of every run from a started Controller -/
structure Inv (store : ControllerStateStore σ) (x : Heartbeats p σ) : Prop where
  reachable : Reachable store x.world
  numbered : Numbered x
  spaced : Spaced x
  leased : Leased x
  guarded : ∀ s ∈ x.streams, Guarded s
  logged : Logged x

theorem Inv.step {store : ControllerStateStore σ} {x x' : Heartbeats p σ} {l : StreamStep}
    (hx : Inv store x) (hok : Fresh x l) (h : x.step store l = some x') : Inv store x' :=
  ⟨reachable_step hx.reachable h, hx.numbered.step h, hx.spaced.step hok h,
    hx.leased.step hx.numbered hx.spaced h, guarded_step hx.guarded h, hx.logged.step h⟩

/-- a Controller before its first operation -/
structure Started (store : ControllerStateStore σ) (w : World p σ) : Prop where
  reachable : Reachable store w
  workers : w.inner.workers = ∅
  next : w.inner.nextHeartbeatLease = 0

theorem Inv.initial {store : ControllerStateStore σ} {w : World p σ} (h : Started store w) :
    Inv store (start w) := by
  refine ⟨h.reachable, ⟨h.next, fun i s hi => ?_⟩, fun i s hi => ?_, fun id v hv => ?_,
    fun s hs => ?_, ⟨.nil, fun b hb => ?_, fun b hb => ?_⟩⟩
  · simp [start] at hi
  · simp [start] at hi
  · rw [show (start w).world.inner.workers = ∅ from h.workers] at hv
    simp at hv
  · simp [start] at hs
  · simp [start] at hb
  · simp [start] at hb

/-- the current process of the worker opened stream `i` last -/
def Newest (x : Heartbeats p σ) (i : Nat) (stream : HeartbeatStream) : Prop :=
  ∃ w, x.world.inner.workers[stream.guard.workerId]? = some w ∧
    NewestOf x stream.guard.workerId w.registration.request.startId i stream

/-- the step is a `heartbeat` or a `close_heartbeat` call of stream `i` -/
def CallsOf (i : Nat) : StreamStep → Prop
  | .heartbeat j _ _ _ _ => j = i
  | .close j => j = i
  | .dropClose j => j = i
  | _ => False

/-- a stale stream finds another process or another lease in the record -/
theorem stale_of_not_newest {store : ControllerStateStore σ} {x : Heartbeats p σ}
    (hx : Inv store x) {i : Nat} {stream : HeartbeatStream} (hi : x.streams[i]? = some stream)
    (hne : stream.task ≠ .finished) (hstale : ¬ Newest x i stream) {w : WorkerRecord p}
    (hw : x.world.inner.workers[stream.guard.workerId]? = some w)
    (hstart : w.registration.request.startId = stream.guard.startId) :
    w.heartbeatLease ≠ stream.guard.lease := by
  intro hlease
  rcases hx.leased _ w hw with ⟨hz, -⟩ | ⟨k, holder, hnew, hk, -⟩
  · exact lease_pos hx.numbered hi (hlease.symm.trans hz)
  · have hik : i = k := newest_of_lease hx.numbered hx.spaced hi ⟨rfl, hstart.symm⟩ hne hnew
      (hlease.symm.trans hk)
    subst hik
    have hsame : holder = stream := Option.some.inj (hnew.1.symm.trans hi)
    exact hstale ⟨w, hw, hsame ▸ hnew⟩

theorem closeHeartbeat_stale {store : ControllerStateStore σ} {x : Heartbeats p σ}
    (hx : Inv store x) {i : Nat} {stream : HeartbeatStream} (hi : x.streams[i]? = some stream)
    (hne : stream.task ≠ .finished) (hstale : ¬ Newest x i stream) :
    (Controller.closeHeartbeat store x.world.inner x.world.stored stream.guard.workerId
      stream.guard.startId stream.guard.lease).2.1 = x.world.inner := by
  rcases closeHeartbeat_cases rfl with ⟨hsame, -⟩ | ⟨w, _, _, hw, hstart, hlease, _⟩
  · exact hsame
  · exact absurd hlease (stale_of_not_newest hx hi hne hstale hw hstart)

/-- a call of a stream that is not the newest of the current process changes nothing -/
theorem stale_call {store : ControllerStateStore σ} {x x' : Heartbeats p σ} (hx : Inv store x)
    {i : Nat} {stream : HeartbeatStream} {l : StreamStep} (hi : x.streams[i]? = some stream)
    (hstale : ¬ Newest x i stream) (hl : CallsOf i l) (h : x.step store l = some x') :
    x'.world.inner = x.world.inner := by
  cases l with
  | heartbeat j sequence state a b =>
    cases hl
    obtain ⟨s, hat, hx'⟩ := Option.map_eq_some_iff.mp h
    obtain ⟨hs, htask⟩ := at?_eq_some.mp hat
    cases hs.symm.trans hi
    have hsame : (Controller.heartbeat store x.world.inner x.world.stored stream.guard.workerId
        stream.guard.startId stream.guard.lease sequence state).2.1 = x.world.inner := by
      rcases heartbeat_applied_cases rfl with ⟨hsame, -⟩ | ⟨-, w, rs, -, hw, hstart, hcheck, -⟩
      · exact hsame
      · exact absurd (checkHeartbeat_eq_none hcheck).1
          (stale_of_not_newest hx hs (by rw [htask]; simp) hstale hw hstart)
    split at hx' <;> rename_i heq <;> rw [heq] at hsame <;> subst hx' <;> exact hsame
  | close j =>
    cases hl
    obtain ⟨s, hat, rfl⟩ := Option.map_eq_some_iff.mp h
    obtain ⟨hs, htask⟩ := at?_eq_some.mp (Option.filter_eq_some_iff.mp hat).1
    cases hs.symm.trans hi
    exact closeHeartbeat_stale hx hs (by rw [htask]; simp) hstale
  | dropClose j =>
    cases hl
    obtain ⟨s, hat, rfl⟩ := Option.map_eq_some_iff.mp h
    obtain ⟨hs, htask⟩ := at?_eq_some.mp hat
    cases hs.symm.trans hi
    by_cases hc : stream.guard.stateClosed = true
    · rw [if_pos hc]
      rfl
    · rw [if_neg hc]
      exact closeHeartbeat_stale hx hs (by rw [htask]; simp) hstale
  | register _ => exact hl.elim
  | openHeartbeat _ _ => exact hl.elim
  | leave _ => exact hl.elim
  | cancel _ => exact hl.elim
  | unavailable _ _ => exact hl.elim
  | dropUnavailable _ _ => exact hl.elim
  | other _ => exact hl.elim

/-- a `close_heartbeat` that returns `Ok` closed the record, or found nothing to close -/
theorem closeHeartbeat_ok {store : ControllerStateStore σ} {inner inner' : Inner p} {s s' : σ}
    {workerId startId : String} {lease : Nat} {u : Bool}
    (h : closeHeartbeat store inner s workerId startId lease = (.ok u, inner', s')) :
    ∃ w, inner.workers[workerId]? = some w ∧ w.registration.request.startId = startId ∧
      ((inner' = inner ∧ (w.heartbeatLease ≠ lease ∨ w.heartbeatOpen = false)) ∨
        inner'.workers = inner.workers.insert workerId
          { w with heartbeatOpen := false, live := false }) := by
  have h0 := h
  unfold closeHeartbeat at h
  cases hc : ensureCurrentStart inner workerId startId with
  | error e =>
    simp only [hc, Prod.mk.injEq] at h
    cases h.1
  | ok w =>
    obtain ⟨hw, hstart⟩ := ensureCurrentStart_ok hc
    refine ⟨w, hw, hstart, ?_⟩
    simp only [hc] at h
    split_ifs at h with hlease hopen
    · simp only [Prod.mk.injEq] at h
      exact .inl ⟨h.2.1.symm, .inl hlease⟩
    · simp only [Prod.mk.injEq] at h
      exact .inl ⟨h.2.1.symm, .inr (by simpa using hopen)⟩
    · rcases closeHeartbeat_cases h0 with ⟨-, -⟩ | ⟨v, changed, inner2, hv, -, -, -, -, hp, hi⟩
      · -- a store failure is not `Ok`
        cases hq : publishOrRestore store (inner.setWorker workerId
            { w with heartbeatOpen := false, live := false }) s workerId w
            w.registration.request.instanceId
            (readyKeys { w with heartbeatOpen := false, live := false }) with
        | mk a rest =>
          obtain ⟨inner2, s2⟩ := rest
          simp only [hq] at h
          rcases publishOrRestore_cases hw hq with ⟨e, he, -, -⟩ | ⟨changed, he, hp⟩
          · subst he
            simp only [Prod.mk.injEq] at h
            cases h.1
          · subst he
            simp only [Prod.mk.injEq] at h
            rw [← h.2.1, notifyIf_workers, publishRoutes_workers hp]
            exact .inr rfl
      · cases hw.symm.trans hv
        rw [hi, notifyIf_workers, publishRoutes_workers hp]
        exact .inr rfl

/-- the newest stream of the current process has closed its lease: the worker is silent -/
theorem silent_of_closed {store : ControllerStateStore σ} {x : Heartbeats p σ} (hx : Inv store x)
    {i : Nat} {stream stream' : HeartbeatStream} (hnew : Newest x i stream)
    (htask : stream.task = .closing ∨ stream.task = .dropped) (he : Evolves stream stream')
    {u : Bool} {inner : Inner p} {s : σ}
    (hq : Controller.closeHeartbeat store x.world.inner x.world.stored stream.guard.workerId
      stream.guard.startId stream.guard.lease = (.ok u, inner, s)) :
    Silent x.streams.length stream.guard.workerId
      ({ x with world := ⟨inner, s⟩ }.setStream i stream') := by
  obtain ⟨w, hw, hstart, hcases⟩ := closeHeartbeat_ok hq
  obtain ⟨w0, hw0, hnewest⟩ := hnew
  cases hw.symm.trans hw0
  have hne : stream.task ≠ .finished := by
    rcases htask with h | h <;> rw [h] <;> simp
  have hloop : stream.task ≠ .looping := by
    rcases htask with h | h <;> rw [h] <;> simp
  -- the record afterwards: not live, under the same lease
  have hrecord : ∀ w', inner.workers[stream.guard.workerId]? = some w' → w'.live = false ∧
      w'.registration = w.registration ∧ w'.heartbeatLease = w.heartbeatLease := by
    intro w' hw'
    rcases hcases with ⟨hsame, hno⟩ | hclosed
    · rw [hsame] at hw'
      cases hw.symm.trans hw'
      refine ⟨?_, rfl, rfl⟩
      rcases hx.leased _ w hw with ⟨-, hdead⟩ | ⟨k, holder, hk, hlease, hopen⟩
      · exact hdead
      · rcases hno with hno | hno
        · -- the holder is the newest stream, so its lease is this one
          obtain ⟨rfl, rfl⟩ := hk.unique hnewest
          exact absurd hlease hno
        · exact (hopen hno).1
    · rw [hclosed, Maps.getElem?_insert_eq, if_pos rfl] at hw'
      cases hw'
      exact ⟨rfl, rfl, rfl⟩
  refine ⟨fun w' hw' => (hrecord w' hw').1, ?_, Nat.le_of_eq List.length_set.symm⟩
  intro w' hw' j t' _ ht' hlooping hholds hlease
  obtain ⟨-, hreg, hsame⟩ := hrecord w' hw'
  obtain ⟨t, ht, het⟩ := (StreamsEvolve.set hnewest.1 he).streams j t' ht'
  have htl : t.task = .looping := het.looping hlooping
  have hth : Holds t stream.guard.workerId w.registration.request.startId :=
    ⟨het.workerId.symm.trans hholds.1, het.startId.symm.trans (hreg ▸ hholds.2)⟩
  have htlease : t.guard.lease = w.heartbeatLease := (het.lease.symm.trans hlease).trans hsame
  rcases hx.leased _ w hw with ⟨hz, -⟩ | ⟨k, holder, hk, hklease, -⟩
  · exact lease_pos hx.numbered ht (htlease.trans hz)
  · have hjk : j = k := newest_of_lease hx.numbered hx.spaced ht hth (by rw [htl]; simp) hk
      (htlease.trans hklease)
    obtain ⟨rfl, rfl⟩ := hk.unique hnewest
    subst hjk
    cases ht.symm.trans hk.1
    exact hloop htl

/-- the step is a `close_heartbeat` of stream `i` that returned `Ok` -/
def ClosesOk (x' : Heartbeats p σ) (i : Nat) (stream : HeartbeatStream) (l : StreamStep) : Prop :=
  (l = .close i ∨ l = .dropClose i) ∧
    ∃ stream' u, x'.streams[i]? = some stream' ∧ stream'.closes = stream.closes ++ [.ok u]

theorem silent_of_step {store : ControllerStateStore σ} {x x' : Heartbeats p σ} (hx : Inv store x)
    {i : Nat} {stream : HeartbeatStream} {l : StreamStep} (hnew : Newest x i stream)
    (h : x.step store l = some x') (hl : ClosesOk x' i stream l) :
    Silent x'.streams.length stream.guard.workerId x' := by
  obtain ⟨_, _, hnewest⟩ := id hnew
  obtain ⟨rfl | rfl, stream', u, hi', hcloses⟩ := hl
  · obtain ⟨s, hat, rfl⟩ := Option.map_eq_some_iff.mp h
    obtain ⟨hs, htask⟩ := at?_eq_some.mp (Option.filter_eq_some_iff.mp hat).1
    cases hs.symm.trans hnewest.1
    cases hq : Controller.closeHeartbeat store x.world.inner x.world.stored stream.guard.workerId
        stream.guard.startId stream.guard.lease with
    | mk r rest =>
      obtain ⟨inner, st⟩ := rest
      rw [hq] at hi'
      have hset : stream' = stream.closed r := by
        change (x.streams.set i (stream.closed r))[i]? = some stream' at hi'
        rw [List.getElem?_set_self (List.getElem?_eq_some_iff.mp hs).1] at hi'
        exact (Option.some.inj hi').symm
      have hr : r = .ok u := by
        rw [hset] at hcloses
        cases r <;> simp_all [HeartbeatStream.closed]
      subst hr
      have hsilent := silent_of_closed hx hnew (.inl htask) (evolves_closed htask (.ok u)) hq
      have hlen : (x.streams.set i (stream.closed (.ok u))).length = x.streams.length :=
        List.length_set
      show Silent (x.streams.set i (stream.closed (.ok u))).length _ _
      rw [hlen]
      exact hsilent
  · obtain ⟨s, hat, rfl⟩ := Option.map_eq_some_iff.mp h
    obtain ⟨hs, htask⟩ := at?_eq_some.mp hat
    cases hs.symm.trans hnewest.1
    have hget : ∀ t, (x.streams.set i t)[i]? = some stream' → stream' = t := by
      intro t ht
      rw [List.getElem?_set_self (List.getElem?_eq_some_iff.mp hs).1] at ht
      exact (Option.some.inj ht).symm
    by_cases hc : stream.guard.stateClosed = true
    · rw [if_pos hc] at hi'
      rw [hget _ hi'] at hcloses
      simp at hcloses
    · rw [if_neg hc] at hi' ⊢
      cases hq : Controller.closeHeartbeat store x.world.inner x.world.stored
          stream.guard.workerId stream.guard.startId stream.guard.lease with
      | mk r rest =>
        obtain ⟨inner, st⟩ := rest
        rw [hq] at hi'
        have hr : r = .ok u := by
          rw [hget _ hi'] at hcloses
          cases r <;> simp_all [HeartbeatStream.dropClosed]
        subst hr
        have hsilent := silent_of_closed hx hnew (.inr htask) (evolves_dropClosed htask (.ok u)) hq
        have hlen : (x.streams.set i (stream.dropClosed (.ok u))).length = x.streams.length :=
          List.length_set
        show Silent (x.streams.set i (stream.dropClosed (.ok u))).length _ _
        rw [hlen]
        exact hsilent

/-- the runs in which no stream outlives the counter -/
abbrev Runs (store : ControllerStateStore σ) (w : World p σ) : Heartbeats p σ → Prop :=
  Steps.Reach (step store) Fresh (start w)

theorem Inv.of_run {store : ControllerStateStore σ} {w : World p σ} (hw : Started store w)
    {x : Heartbeats p σ} (hx : Runs store w x) : Inv store x :=
  hx.invariant (Inv.initial hw) fun _ _ _ hs hok h => hs.step hok h

/-- after the newest stream of the process closed, the worker stays dead and unrouted until a stream
opened later sends a heartbeat -/
theorem dead_until_new_beat {store : ControllerStateStore σ} {x x' : Heartbeats p σ}
    (hx : Inv store x) {i : Nat} {stream : HeartbeatStream} {l : StreamStep}
    (hnew : Newest x i stream) (h : x.step store l = some x') (hok : Fresh x l)
    (hl : ClosesOk x' i stream l) {y : Heartbeats p σ}
    (hy : Steps.Reach (step store) (fun z l => Fresh z l ∧ ¬ NewBeat x'.streams.length l) x' y) :
    Dead y stream.guard.workerId ∧ Unrouted y.world.inner stream.guard.workerId := by
  have hboth : Inv store y ∧ Silent x'.streams.length stream.guard.workerId y := by
    refine hy.invariant (P := fun z => Inv store z ∧ Silent x'.streams.length _ z)
      ⟨hx.step hok h, silent_of_step hx hnew h hl⟩ ?_
    intro z l z' hz hzok hstep
    exact ⟨hz.1.step hzok.1 hstep, hz.2.step hz.1.numbered hzok.1 hzok.2 hstep⟩
  exact ⟨hboth.2.dead, unrouted_of_dead hboth.1.reachable hboth.2.dead⟩

theorem Started.new {store : ControllerStateStore σ} (historyLimit : Nat) (h : 0 < historyLimit)
    (s : σ) : Started store (⟨newState p historyLimit h, s⟩ : World p σ) :=
  ⟨.new historyLimit h s, rfl, rfl⟩

theorem Started.restored {store : ControllerStateStore σ} {historyLimit : Nat}
    {h : 0 < historyLimit} {s s' : σ} {inner : Inner p}
    (hr : restore p store historyLimit h s = (.ok inner, s')) :
    Started store (⟨inner, s'⟩ : World p σ) := by
  obtain ⟨snapshot, s1, topologies, -, -, rfl⟩ := restore_cases hr
  exact ⟨.restored historyLimit h s s' _ hr, rfl, rfl⟩

/-- fewer streams than the counter has numbers -/
def short (x : Heartbeats p σ) : StreamStep → Bool
  | .openHeartbeat _ _ => x.streams.length < 2 ^ 64 - 1
  | _ => true

theorem fresh_of_short {x : Heartbeats p σ} {l : StreamStep} (h : short x l = true) : Fresh x l := by
  cases l with
  | openHeartbeat workerId startId =>
    intro i stream _ _
    have hlt : x.streams.length < 2 ^ 64 - 1 := of_decide_eq_true h
    omega
  | _ => trivial

/-- in every run in which no stream outlives the lease counter -/
theorem heartbeat_leases {store : ControllerStateStore σ} {w : World p σ} (hw : Started store w)
    {x : Heartbeats p σ} (hx : Runs store w x) :
    -- calls of streams that are not the newest of the current process change nothing
    (∀ i stream l x', x.streams[i]? = some stream → ¬ Newest x i stream → CallsOf i l →
      x.step store l = some x' → x'.world.inner = x.world.inner) ∧
    -- a worker whose newest stream closed is dead until a new stream sends a heartbeat
    (∀ i stream l x' y, Newest x i stream → Fresh x l → x.step store l = some x' →
      ClosesOk x' i stream l →
      Steps.Reach (step store) (fun z l => Fresh z l ∧ ¬ NewBeat x'.streams.length l) x' y →
      Dead y stream.guard.workerId ∧ Unrouted y.world.inner stream.guard.workerId) ∧
    -- the hook succeeds at most once for a lease, and only when its close returned true
    (∀ stream ∈ x.streams, stream.hooks ≤ 1 ∧ (stream.hooks = 1 → .ok true ∈ stream.closes)) ∧
    -- the heartbeats of one process, while it is registered
    x.applied.Pairwise InOrder ∧
    ∀ b ∈ x.applied, b.registration = x.joined.count b.workerId → b.runState = .shuttingDown →
      ∀ r, x.world.inner.workers[b.workerId]? = some r → r.runState = .shuttingDown := by
  have hinv := Inv.of_run hw hx
  refine ⟨?_, ?_, ?_, hinv.logged.inOrder, ?_⟩
  · intro i stream l x' hi hstale hl h
    exact stale_call hinv hi hstale hl h
  · intro i stream l x' y hnew hok h hl hy
    exact dead_until_new_beat hinv hnew h hok hl hy
  · intro stream hs
    exact (hinv.guarded stream hs).once
  · intro b hb hreg hdown r hr
    exact (hinv.logged.current b hb hreg r hr).2 hdown

/-- a second stream of the process opens before the first one closes -/
theorem heartbeat_leases_overlap :
    ∃ x, Started TransientControllerStateStore Fixture.start ∧
      Runs TransientControllerStateStore Fixture.start x ∧
      x.applied.map (·.sequence) = [1, 2] ∧ x.applied.Pairwise InOrder ∧
      x.streams.map (·.hooks) = [0, 1] := by
  have hstart : Started TransientControllerStateStore Fixture.start :=
    .new 8 (by decide) _
  obtain ⟨x, hx, hseen⟩ := (Option.any_eq_true
    (fun x : Heartbeats Fixture.parsers ControllerStoreSnapshot =>
      decide (x.applied.map (·.sequence) = [1, 2] ∧ x.streams.map (·.hooks) = [0, 1]))
    (Steps.run (step TransientControllerStateStore) short (start Fixture.start)
      [.register (Fixture.registration "worker-0" "start-0"),
        .openHeartbeat "worker-0" "start-0", .heartbeat 0 1 1 true true,
        .openHeartbeat "worker-0" "start-0", .heartbeat 1 2 1 true true, .leave 0, .close 0,
        .leave 1, .close 1, .unavailable 1 true])).mp (by decide +kernel)
  have hrun : Runs TransientControllerStateStore Fixture.start x :=
    (Steps.Reach.of_run .refl hx).mono fun _ _ h => fresh_of_short h
  have hboth := of_decide_eq_true hseen
  exact ⟨x, hstart, hrun, hboth.1, (heartbeat_leases hstart hrun).2.2.2.1, hboth.2⟩

/-! ## where leases run out -/

/-- the records and streams after a process opened `n` streams and sent nothing -/
structure Opened (n : Nat) (x : Heartbeats Fixture.parsers ControllerStoreSnapshot) : Prop where
  reach : Steps.Reach (step TransientControllerStateStore) (fun _ _ => True)
    (start Fixture.start) x
  length : x.streams.length = n
  streams : ∀ (i : Nat) stream, x.streams[i]? = some stream →
    stream.task = .looping ∧ stream.guard.stateClosed = false ∧ stream.closes = [] ∧
      Holds stream "worker-0" "start-0"
  record : ∃ w, x.world.inner.workers["worker-0"]? = some w ∧
    w.registration.request.startId = "start-0" ∧ w.lastHeartbeatSequence = none ∧
    w.runState = .running ∧ w.expertStates = ∅ ∧
    (0 < n → w.heartbeatLease = Lease.number (2 ^ 64) n ∧ w.heartbeatOpen = true)

theorem numbered_of_reach {x : Heartbeats Fixture.parsers ControllerStoreSnapshot}
    (h : Steps.Reach (step TransientControllerStateStore) (fun _ _ => True)
      (start Fixture.start) x) : Numbered x := by
  have hinv : Inv TransientControllerStateStore (start Fixture.start) :=
    Inv.initial (.new 8 (by decide) _)
  exact h.invariant hinv.numbered fun _ _ _ hs _ hstep => hs.step hstep

theorem opened_zero : ∃ x, Opened 0 x := by
  obtain ⟨x, hx, hseen⟩ := (Option.any_eq_true
    (fun x : Heartbeats Fixture.parsers ControllerStoreSnapshot =>
      decide (x.streams.length = 0) && (x.world.inner.workers["worker-0"]?).any
        fun w : WorkerRecord Fixture.parsers =>
          decide (w.registration.request.startId = "start-0" ∧ w.lastHeartbeatSequence = none ∧
            w.runState = .running) && w.expertStates.isEmpty)
    (Steps.run (step TransientControllerStateStore) (fun _ _ => true) (start Fixture.start)
      [.register (Fixture.registration "worker-0" "start-0")])).mp (by decide +kernel)
  rw [Bool.and_eq_true, Option.any_eq_true] at hseen
  obtain ⟨hlen, w, hw, hrecord⟩ := hseen
  rw [Bool.and_eq_true] at hrecord
  obtain ⟨hstart, hseq, hstate⟩ := of_decide_eq_true hrecord.1
  have hempty : x.streams = [] := List.length_eq_zero_iff.mp (of_decide_eq_true hlen)
  refine ⟨x, ⟨(Steps.Reach.of_run .refl hx).mono fun _ _ _ => trivial, of_decide_eq_true hlen, ?_,
    w, hw, hstart, hseq, hstate, ExtTreeMap.isEmpty_iff.mp hrecord.2, fun h => absurd h (by simp)⟩⟩
  intro i stream hi
  rw [hempty] at hi
  simp at hi

theorem Opened.succ {n : Nat} {x : Heartbeats Fixture.parsers ControllerStoreSnapshot}
    (h : Opened n x) : ∃ x', Opened (n + 1) x' := by
  obtain ⟨w, hw, hstart, hseq, hstate, hempty, -⟩ := h.record
  have hc : ensureCurrentStart x.world.inner "worker-0" "start-0" = .ok w := by
    simp [ensureCurrentStart, hw, hstart]
  set lease := wrappingNext x.world.inner.nextHeartbeatLease with hlease
  have hnumber : lease = Lease.number (2 ^ 64) (n + 1) := by
    rw [hlease, (numbered_of_reach h.reach).next, h.length, wrappingNext_number]
  set x' : Heartbeats Fixture.parsers ControllerStoreSnapshot := { x with
    world := ⟨({ x.world.inner with nextHeartbeatLease := lease } : Inner _).setWorker "worker-0"
      { w with heartbeatLease := lease, heartbeatOpen := true }, x.world.stored⟩
    streams := x.streams ++ [⟨.new "worker-0" "start-0" lease, .looping, 0, [], 0⟩] } with hx'
  have hstep : x.step TransientControllerStateStore (.openHeartbeat "worker-0" "start-0") =
      some x' := by
    simp only [step, Controller.openHeartbeat, hc]
    rfl
  refine ⟨x', .step _ h.reach trivial hstep, ?_, ?_, ?_⟩
  · show (x.streams ++ [_]).length = n + 1
    rw [List.length_append, h.length]
    rfl
  · intro i stream hi
    rcases (Ledger.getElem?_concat_cases hi).symm with ⟨-, hi⟩ | ⟨-, rfl⟩
    · exact h.streams i stream hi
    · exact ⟨rfl, rfl, rfl, rfl, rfl⟩
  · refine ⟨{ w with heartbeatLease := lease, heartbeatOpen := true }, ?_, hstart, hseq, hstate,
      hempty, fun _ => ⟨hnumber, rfl⟩⟩
    show (x.world.inner.workers.insert "worker-0" _)["worker-0"]? = _
    rw [Maps.getElem?_insert_eq, if_pos rfl]

theorem exists_opened (n : Nat) : ∃ x, Opened n x := by
  induction n with
  | zero => exact opened_zero
  | succ n ih =>
    obtain ⟨x, hx⟩ := ih
    exact hx.succ

theorem readyKeys_isEmpty {w : WorkerRecord p} (h : w.expertStates = ∅) :
    (readyKeys w).isEmpty = true := by
  unfold readyKeys
  rw [h]
  rfl

theorem publishRoutes_isEmpty (store : ControllerStateStore σ) (inner : Inner p) (s : σ) (i : Nat)
    {affected : ExtTreeSet ExpertKey} (h : affected.isEmpty = true) :
    publishRoutes store inner s i affected = (.ok false, inner, s) := by
  unfold publishRoutes
  rw [if_pos h]

theorem closeHeartbeat_idle (store : ControllerStateStore σ) {inner : Inner p} (s : σ) {id : String}
    {w : WorkerRecord p} (hw : inner.workers[id]? = some w) (hopen : w.heartbeatOpen = true)
    (hempty : w.expertStates = ∅) :
    closeHeartbeat store inner s id w.registration.request.startId w.heartbeatLease =
      (.ok true, inner.setWorker id { w with heartbeatOpen := false, live := false }, s) := by
  have hc : ensureCurrentStart inner id w.registration.request.startId = .ok w := by
    simp [ensureCurrentStart, hw]
  have hready : (readyKeys { w with heartbeatOpen := false, live := false }).isEmpty = true :=
    readyKeys_isEmpty hempty
  unfold closeHeartbeat
  simp only [hc, hopen, ne_eq, not_true_eq_false, if_false, Bool.not_true, Bool.false_eq_true]
  unfold publishOrRestore
  rw [publishRoutes_isEmpty store _ s _ hready]
  rfl

theorem heartbeat_idle (store : ControllerStateStore σ) {inner : Inner p} (s : σ) {id : String}
    {w : WorkerRecord p} (hw : inner.workers[id]? = some w) (hlive : w.live = false)
    (hseq : w.lastHeartbeatSequence = none) (hstate : w.runState = .running)
    (hempty : w.expertStates = ∅) :
    heartbeat store inner s id w.registration.request.startId w.heartbeatLease 1 1 =
      (.ok .applied, inner.setWorker id (w.beat 1 .running), s) := by
  have hc : ensureCurrentStart inner id w.registration.request.startId = .ok w := by
    simp [ensureCurrentStart, hw]
  have hcheck : checkHeartbeat w w.heartbeatLease 1 .running = none := by
    simp [checkHeartbeat, hseq, hstate]
  have hready : (readyKeys (w.beat 1 .running)).isEmpty = true := readyKeys_isEmpty hempty
  unfold heartbeat
  rw [show (WorkerRunState.tryFrom 1).filter (· ≠ .unspecified) = some .running by decide]
  simp only [hc, hcheck, hlive, Bool.not_false, if_true]
  have hcall : publishOrRestore store (inner.setWorker id (w.beat 1 .running)) s id w
      w.registration.request.instanceId (readyKeys (w.beat 1 .running)) =
        (.ok false, inner.setWorker id (w.beat 1 .running), s) := by
    unfold publishOrRestore
    rw [publishRoutes_isEmpty store _ s _ hready]
  unfold WorkerRecord.beat at hcall
  rw [hcall, hstate]
  rfl

/-- the stream 2^64 - 1 places after another has its lease: when the later one has closed, the
earlier one revives the worker -/
theorem old_stream_revives :
    ∃ x x' y i stream, Steps.Reach (step TransientControllerStateStore) (fun _ _ => True)
        (start Fixture.start) x ∧
      Newest x i stream ∧ x.step TransientControllerStateStore (.close i) = some x' ∧
      ClosesOk x' i stream (.close i) ∧
      Steps.Reach (step TransientControllerStateStore)
        (fun _ l => ¬ NewBeat x'.streams.length l) x' y ∧
      ¬ Dead y stream.guard.workerId := by
  obtain ⟨x, hx⟩ := exists_opened (2 ^ 64)
  obtain ⟨w, hw, hstart, hseq, hstate, hempty, hleased⟩ := hx.record
  obtain ⟨hlease, hopen⟩ := hleased (by norm_num)
  have hn := numbered_of_reach hx.reach
  have hlen := hx.length
  -- the last stream and the first one
  obtain ⟨last, hlast⟩ : ∃ last, last + 1 = 2 ^ 64 := ⟨2 ^ 64 - 1, by norm_num⟩
  have hpos : 0 < last := by omega
  obtain ⟨s, hs⟩ : ∃ s, x.streams[last]? = some s :=
    ⟨_, List.getElem?_eq_getElem (by omega)⟩
  obtain ⟨s0, hs0⟩ : ∃ s0, x.streams[0]? = some s0 :=
    ⟨_, List.getElem?_eq_getElem (by omega)⟩
  obtain ⟨htask, hclosed, hcloses, hid, hsid⟩ := hx.streams last s hs
  obtain ⟨htask0, -, -, hid0, hsid0⟩ := hx.streams 0 s0 hs0
  have hsl : s.guard.lease = w.heartbeatLease := by
    rw [hn.lease last s hs, hlease, hlast]
  have hs0l : s0.guard.lease = w.heartbeatLease := by
    rw [hn.lease 0 s0 hs0, hlease]
    norm_num [Lease.number]
  -- it leaves its loop and closes
  set s1 : HeartbeatStream := { s with task := .closing } with hs1
  set x1 := x.setStream last s1 with hx1
  have hleave : x.step TransientControllerStateStore (.leave last) = some x1 := by
    show (x.at? last .looping).map _ = _
    rw [at?_eq_some.mpr ⟨hs, htask⟩]
    rfl
  have hget1 : x1.streams[last]? = some s1 := by
    show (x.streams.set last s1)[last]? = _
    rw [List.getElem?_set_self (by omega)]
  have hnew : Newest x1 last s1 := by
    refine ⟨w, hid ▸ hw, hget1, ⟨rfl, ?_⟩, ?_⟩
    · exact hsid.trans hstart.symm
    · intro j other hj hother
      have hlt := (List.getElem?_eq_some_iff.mp hother).1
      rw [show x1.streams.length = 2 ^ 64 from List.length_set.trans hlen] at hlt
      omega
  set w1 : WorkerRecord Fixture.parsers := { w with heartbeatOpen := false, live := false } with hw1
  set x2 : Heartbeats Fixture.parsers ControllerStoreSnapshot :=
    { x1 with world := ⟨x.world.inner.setWorker "worker-0" w1, x.world.stored⟩ }.setStream last
      (s1.closed (.ok true)) with hx2
  have hclose : x1.step TransientControllerStateStore (.close last) = some x2 := by
    show ((x1.at? last .closing).filter _).map _ = _
    rw [at?_eq_some.mpr ⟨hget1, rfl⟩, Option.filter_some, if_pos (by simp [hs1, hclosed])]
    have hcall : Controller.closeHeartbeat TransientControllerStateStore x.world.inner
        x.world.stored s.guard.workerId s.guard.startId s.guard.lease =
          (.ok true, x.world.inner.setWorker "worker-0" w1, x.world.stored) := by
      rw [hid, hsid, hsl, ← hstart]
      exact closeHeartbeat_idle _ _ hw hopen hempty
    simp only [Option.map_some, Option.some.injEq]
    change (match Controller.closeHeartbeat TransientControllerStateStore x.world.inner
      x.world.stored s.guard.workerId s.guard.startId s.guard.lease with
      | (result, inner, st) =>
        ({ x1 with world := ⟨inner, st⟩ } : Heartbeats _ _).setStream last (s1.closed result)) = x2
    rw [hcall]
  have hlen2 : x2.streams.length = 2 ^ 64 := by
    show ((x.streams.set last s1).set last _).length = _
    rw [List.length_set, List.length_set, hlen]
  have hget2 : x2.streams[last]? = some (s1.closed (.ok true)) := by
    show ((x.streams.set last s1).set last _)[last]? = _
    rw [List.getElem?_set_self (by rw [List.length_set]; omega)]
  -- then the first stream sends a heartbeat under the same number
  have hget0 : x2.streams[0]? = some s0 := by
    show ((x.streams.set last s1).set last _)[0]? = _
    rw [List.getElem?_set_ne (by omega), List.getElem?_set_ne (by omega)]
    exact hs0
  have hrec2 : x2.world.inner.workers["worker-0"]? = some w1 := by
    show (x.world.inner.workers.insert "worker-0" w1)["worker-0"]? = _
    rw [Maps.getElem?_insert_eq, if_pos rfl]
  obtain ⟨y, hy, hlive⟩ : ∃ y, x2.step TransientControllerStateStore (.heartbeat 0 1 1 true true) =
      some y ∧ y.world.inner.workers["worker-0"]? = some (w1.beat 1 .running) := by
    have hcall : Controller.heartbeat TransientControllerStateStore x2.world.inner x2.world.stored
        s0.guard.workerId s0.guard.startId s0.guard.lease 1 1 =
          (.ok .applied, x2.world.inner.setWorker "worker-0" (w1.beat 1 .running),
            x2.world.stored) := by
      rw [hid0, hsid0, hs0l, ← hstart]
      exact heartbeat_idle _ _ hrec2 rfl hseq hstate hempty
    refine ⟨({ x2 with
      world := ⟨x2.world.inner.setWorker "worker-0" (w1.beat 1 .running), x2.world.stored⟩
      applied := x2.logged s0.guard .applied 1 1 } : Heartbeats _ _).setStream 0
        (s0.accepted .applied 1 1 true true), ?_, ?_⟩
    · show (x2.at? 0 .looping).map _ = _
      rw [at?_eq_some.mpr ⟨hget0, htask0⟩, Option.map_some, hcall]
    · show (x2.world.inner.workers.insert "worker-0" _)["worker-0"]? = _
      rw [Maps.getElem?_insert_eq, if_pos rfl]
  refine ⟨x1, x2, y, last, s1, .step _ hx.reach trivial hleave, hnew, hclose, ⟨.inl rfl,
    s1.closed (.ok true), true, hget2, rfl⟩, .step (.heartbeat 0 1 1 true true) .refl ?_ hy, ?_⟩
  · show ¬ x2.streams.length ≤ 0
    omega
  · intro hdead
    have hfalse := hdead (w1.beat 1 .running) (by rw [← hlive]; exact congrArg _ hid)
    cases hfalse

/-- a process registers again after another one, and its sequences start again -/
theorem restarted_sequence :
    ∃ x, Steps.Reach (step TransientControllerStateStore) (fun _ _ => True)
        (start Fixture.start) x ∧
      ¬ x.applied.Pairwise fun a b => a.workerId = b.workerId → a.startId = b.startId →
        a.sequence < b.sequence := by
  obtain ⟨x, hx, hseen⟩ := (Option.any_eq_true
    (fun x : Heartbeats Fixture.parsers ControllerStoreSnapshot =>
      decide (¬ x.applied.Pairwise fun a b : Beat => a.workerId = b.workerId → a.startId = b.startId →
        a.sequence < b.sequence))
    (Steps.run (step TransientControllerStateStore) (fun _ _ => true) (start Fixture.start)
      [.register (Fixture.registration "worker-0" "start-0"),
        .openHeartbeat "worker-0" "start-0", .heartbeat 0 5 1 true true,
        .register (Fixture.registration "worker-0" "start-1"),
        .register (Fixture.registration "worker-0" "start-0"),
        .openHeartbeat "worker-0" "start-0", .heartbeat 1 1 1 true true])).mp (by decide +kernel)
  exact ⟨x, (Steps.Reach.of_run .refl hx).mono fun _ _ _ => trivial, of_decide_eq_true hseen⟩

/-- an old stream with a repeated lease revives a closed worker, and a process that registers again
starts its sequences again -/
theorem heartbeat_leases_fail :
    (∃ x x' y i stream, Steps.Reach (step TransientControllerStateStore) (fun _ _ => True)
        (start Fixture.start) x ∧
      Newest x i stream ∧ x.step TransientControllerStateStore (.close i) = some x' ∧
      ClosesOk x' i stream (.close i) ∧
      Steps.Reach (step TransientControllerStateStore)
        (fun _ l => ¬ NewBeat x'.streams.length l) x' y ∧
      ¬ Dead y stream.guard.workerId) ∧
    ∃ x, Steps.Reach (step TransientControllerStateStore) (fun _ _ => True)
        (start Fixture.start) x ∧
      ¬ x.applied.Pairwise fun a b => a.workerId = b.workerId → a.startId = b.startId →
        a.sequence < b.sequence :=
  ⟨old_stream_revives, restarted_sequence⟩

end Heartbeats

end

end ExpertKit.Controller

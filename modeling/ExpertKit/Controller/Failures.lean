import ExpertKit.Controller.Runs

/-!
# Controller: failed operations

An operation changes the record of a worker before it awaits the store, and undoes the change by
hand when the store fails.  Each undo is exact: whatever an operation returns as an error, and at
whichever store call, the memory is the one it started from.  (The store may have changed.)

* `Op.failure`               the error an operation returns, if any;
* `register_failed`, ..., `completeDrain_failed`   one lemma per operation;
* `failed_operation_atomic`  the operations together, from every world.
-/

set_option linter.unusedSectionVars false

namespace ExpertKit.Controller
open Std

section
variable {p : EndpointParsers} {σ : Type}

/-! ## the error of an operation -/

def failureOf {α : Type} (o : Outcome p σ α) : Option ControllerStateError :=
  match o.1 with
  | .error e => some e
  | .ok _ => none

def Op.failure (store : ControllerStateStore σ) (w : World p σ) : Op → Option ControllerStateError
  | .register registration => failureOf (Controller.register store w.inner w.stored registration)
  | .openHeartbeat workerId startId =>
    failureOf (Controller.openHeartbeat w.inner w.stored workerId startId)
  | .heartbeat workerId startId lease sequence state =>
    failureOf (Controller.heartbeat store w.inner w.stored workerId startId lease sequence state)
  | .closeHeartbeat workerId startId lease =>
    failureOf (Controller.closeHeartbeat store w.inner w.stored workerId startId lease)
  | .setTargets workerId startId targets =>
    failureOf (Controller.setTargets store w.inner w.stored workerId startId targets)
  | .applyStateReport workerId startId placementGeneration reportSequence full states =>
    failureOf (Controller.applyStateReport store w.inner w.stored workerId startId
      placementGeneration reportSequence full states)
  | .drainAuthorizations workerId startId =>
    failureOf (Controller.drainAuthorizations store w.inner w.stored workerId startId)
  | .completeDrain workerId startId drainId =>
    failureOf (Controller.completeDrain store w.inner w.stored workerId startId drainId)

theorem failureOf_eq_some {α : Type} {o : Outcome p σ α} {e : ControllerStateError}
    (h : failureOf o = some e) : o = (.error e, o.2.1, o.2.2) := by
  obtain ⟨r, inner', s'⟩ := o
  cases r with
  | ok a => cases h
  | error e' =>
    have he : e' = e := Option.some.inj h
    rw [he]

/-! ## one lemma per operation -/

theorem register_failed {store : ControllerStateStore σ} {inner inner' : Inner p} {s s' : σ}
    {request : RegisterWorkerRequest} {e : ControllerStateError}
    (h : register store inner s request = (.error e, inner', s')) : inner' = inner := by
  rcases register_cases h with ⟨hi, _⟩ | ⟨reg, _, _, hproc⟩
  · exact hi
  · rcases registerProcess_cases hproc with ⟨_, _, hi, _⟩ | ⟨_, _, _, _, _, hr, _⟩
    · exact hi
    · cases hr

theorem openHeartbeat_failed {inner inner' : Inner p} {s s' : σ} {workerId startId : String}
    {e : ControllerStateError}
    (h : openHeartbeat inner s workerId startId = (.error e, inner', s')) : inner' = inner := by
  obtain ⟨_, hi | ⟨_, _, _, hr, _⟩⟩ := openHeartbeat_cases h
  · exact hi
  · cases hr

theorem heartbeat_failed {store : ControllerStateStore σ} {inner inner' : Inner p} {s s' : σ}
    {workerId startId : String} {lease sequence : Nat} {state : Int} {e : ControllerStateError}
    (h : heartbeat store inner s workerId startId lease sequence state = (.error e, inner', s')) :
    inner' = inner := by
  rcases heartbeat_cases h with ⟨hi, _⟩ | ⟨_, _, _, _, _, _, hr, _⟩
  · exact hi
  · cases hr

theorem closeHeartbeat_failed {store : ControllerStateStore σ} {inner inner' : Inner p} {s s' : σ}
    {workerId startId : String} {lease : Nat} {e : ControllerStateError}
    (h : closeHeartbeat store inner s workerId startId lease = (.error e, inner', s')) :
    inner' = inner := by
  rcases closeHeartbeat_cases h with ⟨hi, _⟩ | ⟨_, _, _, _, _, _, _, hr, _⟩
  · exact hi
  · cases hr

theorem setTargets_failed {store : ControllerStateStore σ} {inner inner' : Inner p} {s s' : σ}
    {workerId startId : String} {targets : List TargetExpert} {e : ControllerStateError}
    (h : setTargets store inner s workerId startId targets = (.error e, inner', s')) :
    inner' = inner := by
  rcases setTargets_cases h with ⟨_, _, hi, _⟩ | ⟨_, _, _, _, _, hr, _⟩ |
    ⟨_, _, _, _, _, _, _, _, _, _, _, hr, _⟩
  · exact hi
  · cases hr
  · cases hr

theorem applyStateReport_failed {store : ControllerStateStore σ} {inner inner' : Inner p}
    {s s' : σ} {workerId startId : String} {placementGeneration reportSequence : Nat}
    {full : Bool} {states : List ExpertState} {e : ControllerStateError}
    (h : applyStateReport store inner s workerId startId placementGeneration reportSequence full
      states = (.error e, inner', s')) : inner' = inner := by
  rcases applyStateReport_cases h with ⟨_, _, hi, _⟩ | ⟨hr, _⟩ |
    ⟨_, _, _, _, _, _, _, _, _, hr, _⟩
  · exact hi
  · cases hr
  · cases hr

theorem drainAuthorizations_failed {store : ControllerStateStore σ} {inner inner' : Inner p}
    {s s' : σ} {workerId startId : String} {e : ControllerStateError}
    (h : drainAuthorizations store inner s workerId startId = (.error e, inner', s')) :
    inner' = inner := by
  rcases drainAuthorizations_cases h with ⟨_, _, hi, _⟩ | ⟨_, _, _, _, hr, _⟩ |
    ⟨_, _, _, _, _, _, _, hr, _⟩
  · exact hi
  · cases hr
  · cases hr

theorem completeDrain_failed {store : ControllerStateStore σ} {inner inner' : Inner p} {s s' : σ}
    {workerId startId : String} {drainId : Nat} {e : ControllerStateError}
    (h : completeDrain store inner s workerId startId drainId = (.error e, inner', s')) :
    inner' = inner := by
  rcases completeDrain_cases h with ⟨_, _, hi, _⟩ | ⟨hr, _⟩ | ⟨_, _, _, _, _, _, hr, _⟩
  · exact hi
  · cases hr
  · cases hr

/-! ## all operations -/

theorem failed_operation_atomic (store : ControllerStateStore σ) (w : World p σ) (op : Op)
    (e : ControllerStateError) (h : op.failure store w = some e) :
    (op.run store w).inner = w.inner := by
  cases op with
  | register registration => exact register_failed (failureOf_eq_some h)
  | openHeartbeat workerId startId => exact openHeartbeat_failed (failureOf_eq_some h)
  | heartbeat workerId startId lease sequence state =>
    exact heartbeat_failed (failureOf_eq_some h)
  | closeHeartbeat workerId startId lease => exact closeHeartbeat_failed (failureOf_eq_some h)
  | setTargets workerId startId targets => exact setTargets_failed (failureOf_eq_some h)
  | applyStateReport workerId startId placementGeneration reportSequence full states =>
    exact applyStateReport_failed (failureOf_eq_some h)
  | drainAuthorizations workerId startId =>
    exact drainAuthorizations_failed (failureOf_eq_some h)
  | completeDrain workerId startId drainId => exact completeDrain_failed (failureOf_eq_some h)

end

/-- one live worker serves expert (1, 2); the second `advance` from now on will fail -/
def Fixture.failingAdvance : World Fixture.parsers (ControllerStoreSnapshot × List Bool) :=
  runOps FailingTopologyStore ⟨newState Fixture.parsers 8 Fixture.eight_pos, .empty, [false, true]⟩
    (Fixture.registerLive "worker-0" "start-0" 1 ++
      [.setTargets "worker-0" "start-0" [Fixture.target 1 2],
        .applyStateReport "worker-0" "start-0" 1 1 true [Fixture.ready 1 2]])

theorem failed_operation_atomic_setTargets :
    (Op.setTargets "worker-0" "start-0" []).failure FailingTopologyStore Fixture.failingAdvance
        = some (.persistence "injected topology failure") ∧
      ((Op.setTargets "worker-0" "start-0" []).run FailingTopologyStore
        Fixture.failingAdvance).inner = Fixture.failingAdvance.inner :=
  ⟨by decide +kernel, failed_operation_atomic _ _ _ (.persistence "injected topology failure")
    (by decide +kernel)⟩

end ExpertKit.Controller

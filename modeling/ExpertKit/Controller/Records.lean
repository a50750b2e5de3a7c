import ExpertKit.Controller.Runs
import ExpertKit.Lib.Steps

/-!
# Controller: what an operation does to one record

`RecordChange op inner inner' id r'` lists everything that can have happened to the record of `id` in one
operation that turned `inner` into `inner'`: it is the old record, a new process, the same process with
another heartbeat or report, a new placement, an exclusion at shutdown, or a completed drain.  The
invariants about placements and drains are case analyses over these six.

* `Op.run_recordChange`     every record after an operation is one of the six;
* `Op.run_drainCount`       the drain counter stays or is advanced once;
* `Op.run_unplaced`         only `set_targets` touches placements, in the mirror and in the store;
* `opStep`, `Started`       the operations as a step function, and the two ways a Controller starts.
-/

set_option linter.unusedSectionVars false

namespace ExpertKit.Controller
open Std

section
variable {p : EndpointParsers} {σ : Type}

/-- the drain that `set_targets` records for the experts it withdraws -/
def expertDrain (inner inner' : Inner p) (r : WorkerRecord p) (generation : Nat)
    (targets : ExtTreeMap ExpertKey TargetExpert) : DrainRecord :=
  ⟨wrappingNext inner.nextDrainId, generation,
    inner'.topologyVersion r.registration.request.instanceId, false, targetsDrained r targets,
    false⟩

/-- the same process with the same placement and drains -/
structure SameDuties (r r' : WorkerRecord p) : Prop where
  registration : r'.registration = r.registration
  generation : r'.placementGeneration = r.placementGeneration
  targets : r'.targets = r.targets
  drains : r'.drains = r.drains
  included : r'.includedInTopology = r.includedInTopology

inductive RecordChange (op : Op) (inner inner' : Inner p) (id : String) (r' : WorkerRecord p) :
    Prop where
  | kept (h : inner.workers[id]? = some r')
  | fresh (g : Nat) (t : ExtTreeMap ExpertKey TargetExpert)
      (hop : op = .register r'.registration.request) (hfresh : r' = .fresh r'.registration g t)
      (hid : r'.registration.request.workerId = id)
      (hc : carriedPlacement inner id r'.registration.request.instanceId = (g, t))
      (hnew : ∀ r, inner.workers[id]? = some r →
        r.registration.request.startId ≠ r'.registration.request.startId)
  | quiet (r : WorkerRecord p) (hr : inner.workers[id]? = some r) (h : SameDuties r r')
  | placed (r : WorkerRecord p) (next : Nat) (startId : String) (targets : List TargetExpert)
      (drains : List DrainRecord) (hop : op = .setTargets id startId targets)
      (hr : inner.workers[id]? = some r)
      (hn : checkedNext r.placementGeneration = some next)
      (h : r' = { r.placed (max next 1) (normalizeTargets targets) with drains := drains })
      (hd : drains = supersedeDrains r.drains ∨
        (targetsDrained r (normalizeTargets targets)).isEmpty = false ∧
          inner'.nextDrainId = wrappingNext inner.nextDrainId ∧
          drains = supersedeDrains r.drains ++
            [expertDrain inner inner' r (max next 1) (normalizeTargets targets)])
  | excluded (r : WorkerRecord p) (hr : inner.workers[id]? = some r)
      (hs : shouldCreateShutdown inner r = true)
      (hn : inner'.nextDrainId = wrappingNext inner.nextDrainId)
      (h : r' = { r with
        includedInTopology := false
        drains := r.drains ++ [⟨wrappingNext inner.nextDrainId, r.placementGeneration,
          inner'.topologyVersion r.registration.request.instanceId, true, readyKeys r, false⟩] })
  | completed (r : WorkerRecord p) (drainId : Nat) (live : Bool) (hr : inner.workers[id]? = some r)
      (h : r' = { r.completed drainId with live := live })

/-! ## small facts -/

theorem notifyIf_nextDrainId (b : Bool) (inner : Inner p) :
    (notifyIf b inner).nextDrainId = inner.nextDrainId := by
  cases b <;> rfl

theorem notifyIf_topologyVersion (b : Bool) (inner : Inner p) (i : Nat) :
    (notifyIf b inner).topologyVersion i = inner.topologyVersion i := by
  cases b <;> rfl

theorem publishRoutes_nextDrainId {store : ControllerStateStore σ} {inner inner' : Inner p}
    {s s' : σ} {i : Nat} {affected : ExtTreeSet ExpertKey} {r : Except ControllerStateError Bool}
    (h : publishRoutes store inner s i affected = (r, inner', s')) :
    inner'.nextDrainId = inner.nextDrainId := by
  rw [publishRoutes_frame h]

/-- the record of `id` after one record was replaced -/
theorem RecordChange.of_insert {op : Op} {inner inner' : Inner p} {id id0 : String}
    {w : WorkerRecord p}
    (hw : inner'.workers = inner.workers.insert id0 w)
    (h0 : RecordChange op inner inner' id0 w) {r' : WorkerRecord p}
    (hr : inner'.workers[id]? = some r') : RecordChange op inner inner' id r' := by
  rw [hw, Maps.getElem?_insert_eq] at hr
  split_ifs at hr with e
  · cases hr
    rw [← e]
    exact h0
  · exact .kept hr

theorem RecordChange.of_eq {op : Op} {inner inner' : Inner p} (hw : inner' = inner)
    {id : String} {r' : WorkerRecord p} (hr : inner'.workers[id]? = some r') :
    RecordChange op inner inner' id r' :=
  .kept (hw ▸ hr)

/-! ## the operations -/

theorem register_recordChange {store : ControllerStateStore σ} {inner inner' : Inner p} {s s' : σ}
    {request : RegisterWorkerRequest} {res : Except ControllerStateError RegistrationResult}
    (h : register store inner s request = (res, inner', s')) {id : String} {r' : WorkerRecord p}
    (hr : inner'.workers[id]? = some r') : RecordChange (.register request) inner inner' id r' := by
  rcases register_cases h with ⟨hi, _⟩ | ⟨reg, hreq, hstart, hproc⟩
  · exact .of_eq hi hr
  · have hnew : ∀ r, inner.workers[reg.request.workerId]? = some r →
        r.registration.request.startId ≠ reg.request.startId := by
      rw [hreq]
      exact hstart
    rcases registerProcess_cases hproc with ⟨_, _, hi, _⟩ |
      ⟨g, t, _, _, hc, _, ⟨_, _, hi⟩ | ⟨old, changed, inner2, _, hp, hi⟩⟩
    · exact .of_eq hi hr
    · refine .of_insert (w := .fresh reg g t) ?_ (.fresh g t (by rw [← hreq]; rfl) rfl rfl hc hnew) hr
      rw [hi]
      rfl
    · refine .of_insert (w := .fresh reg g t) ?_ (.fresh g t (by rw [← hreq]; rfl) rfl rfl hc hnew) hr
      rw [hi, notifyIf_workers, publishRoutes_workers hp]
      rfl

theorem openHeartbeat_recordChange {inner inner' : Inner p} {s s' : σ} {workerId startId : String}
    {res : Except ControllerStateError Nat}
    (h : openHeartbeat inner s workerId startId = (res, inner', s')) {id : String}
    {r' : WorkerRecord p} (hr : inner'.workers[id]? = some r') :
    RecordChange (.openHeartbeat workerId startId) inner inner' id r' := by
  obtain ⟨_, hi | ⟨w, hw, _, _, hi⟩⟩ := openHeartbeat_cases h
  · exact .of_eq hi hr
  · refine .of_insert (by rw [hi]; rfl) (.quiet w hw ?_) hr
    exact ⟨rfl, rfl, rfl, rfl, rfl⟩

theorem heartbeat_recordChange {store : ControllerStateStore σ} {inner inner' : Inner p} {s s' : σ}
    {workerId startId : String} {lease sequence : Nat} {state : Int}
    {res : Except ControllerStateError HeartbeatResult}
    (h : heartbeat store inner s workerId startId lease sequence state = (res, inner', s'))
    {id : String} {r' : WorkerRecord p} (hr : inner'.workers[id]? = some r') :
    RecordChange (.heartbeat workerId startId lease sequence state) inner inner' id r' := by
  rcases heartbeat_cases h with ⟨hi, _⟩ |
    ⟨w, runState, b, hw, _, _, _, ⟨_, _, hi⟩ | ⟨_, c, i2, hp, hi⟩⟩
  · exact .of_eq hi hr
  · refine .of_insert (w := w.beat sequence runState) ?_
      (.quiet w hw ⟨rfl, rfl, rfl, rfl, rfl⟩) hr
    rw [hi, notifyIf_workers]
    rfl
  · refine .of_insert (w := w.beat sequence runState) ?_
      (.quiet w hw ⟨rfl, rfl, rfl, rfl, rfl⟩) hr
    rw [hi, notifyIf_workers, publishRoutes_workers hp]
    rfl

theorem closeHeartbeat_recordChange {store : ControllerStateStore σ} {inner inner' : Inner p}
    {s s' : σ} {workerId startId : String} {lease : Nat} {res : Except ControllerStateError Bool}
    (h : closeHeartbeat store inner s workerId startId lease = (res, inner', s'))
    {id : String} {r' : WorkerRecord p} (hr : inner'.workers[id]? = some r') :
    RecordChange (.closeHeartbeat workerId startId lease) inner inner' id r' := by
  rcases closeHeartbeat_cases h with ⟨hi, _⟩ | ⟨w, c, i2, hw, _, _, _, _, hp, hi⟩
  · exact .of_eq hi hr
  · refine .of_insert (w := { w with heartbeatOpen := false, live := false }) ?_
      (.quiet w hw ⟨rfl, rfl, rfl, rfl, rfl⟩) hr
    rw [hi, notifyIf_workers, publishRoutes_workers hp]
    rfl

theorem applyStateReport_recordChange {store : ControllerStateStore σ} {inner inner' : Inner p}
    {s s' : σ} {workerId startId : String} {placementGeneration reportSequence : Nat}
    {full : Bool} {states : List ExpertState}
    {res : Except ControllerStateError StateReportResult}
    (h : applyStateReport store inner s workerId startId placementGeneration reportSequence full
      states = (res, inner', s')) {id : String} {r' : WorkerRecord p}
    (hr : inner'.workers[id]? = some r') :
    RecordChange (.applyStateReport workerId startId placementGeneration reportSequence full states)
      inner inner' id r' := by
  rcases applyStateReport_cases h with ⟨_, _, hi, _⟩ | ⟨_, hi, _⟩ |
    ⟨w, normalized, c, i2, hw, _, _, _, hp, _, hi⟩
  · exact .of_eq hi hr
  · exact .of_eq hi hr
  · refine .of_insert (w := w.reported reportSequence full normalized) ?_
      (.quiet w hw ⟨rfl, rfl, rfl, rfl, rfl⟩) hr
    rw [hi, notifyIf_workers, publishRoutes_workers hp]
    rfl

/-- the two outcomes of `recordDrains`, with the numbers it uses -/
theorem recordDrains_cases (inner : Inner p) (id : String) (w : WorkerRecord p)
    (i g : Nat) (experts : ExtTreeSet ExpertKey) :
    (experts.isEmpty = true ∧ (recordDrains inner id w i g experts).1
      = inner.setWorker id { w with drains := supersedeDrains w.drains }) ∨
    (experts.isEmpty = false ∧ (recordDrains inner id w i g experts).1
      = ({ inner with nextDrainId := wrappingNext inner.nextDrainId } : Inner p).setWorker id
        { w with drains := supersedeDrains w.drains ++ [⟨wrappingNext inner.nextDrainId, g,
          inner.topologyVersion i, false, experts, false⟩] }) := by
  unfold recordDrains
  cases he : experts.isEmpty with
  | true => exact .inl ⟨rfl, rfl⟩
  | false => exact .inr ⟨rfl, rfl⟩

theorem setTargets_recordChange {store : ControllerStateStore σ} {inner inner' : Inner p}
    {s s' : σ} {workerId startId : String} {targets : List TargetExpert}
    {res : Except ControllerStateError Placement}
    (h : setTargets store inner s workerId startId targets = (res, inner', s')) {id : String}
    {r' : WorkerRecord p} (hr : inner'.workers[id]? = some r') :
    RecordChange (.setTargets workerId startId targets) inner inner' id r' := by
  rcases setTargets_cases h with ⟨_, _, hi, _⟩ | ⟨_, _, _, _, _, _, hi, _⟩ |
    ⟨w, next, s1, c, i2, hw, _, _, hn, _, hp, _, hi⟩
  · exact .of_eq hi hr
  · exact .of_eq hi hr
  · have hnd : i2.nextDrainId = inner.nextDrainId := (publishRoutes_nextDrainId hp).trans rfl
    have hws : i2.workers = inner.workers.insert workerId
        (w.placed (max next 1) (normalizeTargets targets)) := publishRoutes_workers hp
    rcases recordDrains_cases i2 workerId (w.placed (max next 1) (normalizeTargets targets))
      w.registration.request.instanceId (max next 1) (targetsDrained w (normalizeTargets targets))
      with ⟨_, hrec⟩ | ⟨he, hrec⟩
    · refine .of_insert (w := { w.placed (max next 1) (normalizeTargets targets) with
        drains := supersedeDrains w.drains }) ?_
        (.placed w next startId targets _ rfl hw hn rfl (.inl rfl)) hr
      rw [hi, notifyIf_workers, hrec]
      show i2.workers.insert workerId _ = _
      rw [hws]
      exact insert_insert_same _ _ _ _
    · have hver : inner'.topologyVersion w.registration.request.instanceId
          = i2.topologyVersion w.registration.request.instanceId := by
        rw [hi, notifyIf_topologyVersion, hrec]
        rfl
      have hcount : inner'.nextDrainId = wrappingNext inner.nextDrainId := by
        rw [hi, notifyIf_nextDrainId, hrec]
        show wrappingNext i2.nextDrainId = _
        rw [hnd]
      have hdrain : (⟨wrappingNext i2.nextDrainId, max next 1,
          i2.topologyVersion w.registration.request.instanceId, false,
          targetsDrained w (normalizeTargets targets), false⟩ : DrainRecord)
          = expertDrain inner inner' w (max next 1) (normalizeTargets targets) := by
        rw [expertDrain, hver, hnd]
      refine .of_insert (w := { w.placed (max next 1) (normalizeTargets targets) with
        drains := supersedeDrains w.drains ++
          [expertDrain inner inner' w (max next 1) (normalizeTargets targets)] }) ?_
        (.placed w next startId targets _ rfl hw hn rfl (.inr ⟨he, hcount, rfl⟩)) hr
      rw [← hdrain, hi, notifyIf_workers, hrec]
      show i2.workers.insert workerId _ = _
      rw [hws]
      exact insert_insert_same _ _ _ _

theorem drainAuthorizations_recordChange {store : ControllerStateStore σ} {inner inner' : Inner p}
    {s s' : σ} {workerId startId : String}
    {res : Except ControllerStateError (List DrainAuthorization)}
    (h : drainAuthorizations store inner s workerId startId = (res, inner', s')) {id : String}
    {r' : WorkerRecord p} (hr : inner'.workers[id]? = some r') :
    RecordChange (.drainAuthorizations workerId startId) inner inner' id r' := by
  rcases drainAuthorizations_cases h with ⟨_, _, hi, _⟩ | ⟨_, _, _, _, _, hi, _⟩ |
    ⟨w, c, i2, hw, _, hs, hp, _, hi⟩
  · exact .of_eq hi hr
  · exact .of_eq hi hr
  · have hnd : i2.nextDrainId = inner.nextDrainId := (publishRoutes_nextDrainId hp).trans rfl
    have hver : inner'.topologyVersion w.registration.request.instanceId
        = i2.topologyVersion w.registration.request.instanceId := by
      rw [hi, notifyIf_topologyVersion]
      rfl
    have hcount : inner'.nextDrainId = wrappingNext inner.nextDrainId := by
      rw [hi, notifyIf_nextDrainId]
      show wrappingNext i2.nextDrainId = _
      rw [hnd]
    have hdrain : shutdownDrain i2 w = ⟨wrappingNext inner.nextDrainId, w.placementGeneration,
        inner'.topologyVersion w.registration.request.instanceId, true, readyKeys w, false⟩ := by
      rw [shutdownDrain, hver, hnd]
    refine .of_insert (w := { w with
      includedInTopology := false, drains := w.drains ++ [shutdownDrain i2 w] }) ?_
      (.excluded w hw hs hcount (by rw [hdrain])) hr
    rw [hi, notifyIf_workers]
    show i2.workers.insert workerId _ = _
    rw [publishRoutes_workers hp]
    exact insert_insert_same _ _ _ _

theorem completeDrain_recordChange {store : ControllerStateStore σ} {inner inner' : Inner p}
    {s s' : σ} {workerId startId : String} {drainId : Nat}
    {res : Except ControllerStateError Bool}
    (h : completeDrain store inner s workerId startId drainId = (res, inner', s')) {id : String}
    {r' : WorkerRecord p} (hr : inner'.workers[id]? = some r') :
    RecordChange (.completeDrain workerId startId drainId) inner inner' id r' := by
  rcases completeDrain_cases h with ⟨_, _, hi, _⟩ | ⟨_, hi, _⟩ |
    ⟨w, drain, hw, _, _, _, _, ⟨_, _, hi⟩ | ⟨_, c, i2, hp, hi⟩⟩
  · exact .of_eq hi hr
  · exact .of_eq hi hr
  · exact .of_insert (by rw [hi]; rfl) (.completed w drainId w.live hw rfl) hr
  · refine .of_insert (w := { w.completed drainId with live := false }) ?_
      (.completed w drainId false hw rfl) hr
    rw [hi, notifyIf_workers, publishRoutes_workers hp]
    rfl

/-- the operation is a `set_targets` of the worker -/
def Op.sets (id : String) : Op → Prop
  | .setTargets workerId _ _ => id = workerId
  | _ => False

theorem Op.run_recordChange (store : ControllerStateStore σ) (w : World p σ) (op : Op)
    {id : String} {r' : WorkerRecord p}
    (hr : (op.run store w).inner.workers[id]? = some r') :
    RecordChange op w.inner (op.run store w).inner id r' := by
  revert hr
  cases op <;>
    apply World.after_of (fun w' => w'.inner.workers[id]? = some r' →
      RecordChange _ w.inner w'.inner id r') <;> intro r inner' s' h hr
  · exact register_recordChange h hr
  · exact openHeartbeat_recordChange h hr
  · exact heartbeat_recordChange h hr
  · exact closeHeartbeat_recordChange h hr
  · exact setTargets_recordChange h hr
  · exact applyStateReport_recordChange h hr
  · exact drainAuthorizations_recordChange h hr
  · exact completeDrain_recordChange h hr

/-! ## the drain counter -/

/-- the counter after an operation -/
def DrainCount (inner inner' : Inner p) : Prop :=
  inner'.nextDrainId = inner.nextDrainId ∨ inner'.nextDrainId = wrappingNext inner.nextDrainId

theorem DrainCount.of_eq {inner inner' : Inner p} (h : inner' = inner) : DrainCount inner inner' :=
  .inl (by rw [h])

/-- a publication of a memory with the old counter -/
theorem DrainCount.publish {store : ControllerStateStore σ} {inner mid inner2 inner' : Inner p}
    {s s' : σ} {i : Nat} {affected : ExtTreeSet ExpertKey} {b : Bool}
    {r : Except ControllerStateError Bool}
    (hp : publishRoutes store mid s i affected = (r, inner2, s'))
    (hi : inner' = notifyIf b inner2) (hm : mid.nextDrainId = inner.nextDrainId) :
    DrainCount inner inner' := by
  left
  rw [hi, notifyIf_nextDrainId, publishRoutes_nextDrainId hp, hm]

theorem register_drainCount {store : ControllerStateStore σ} {inner inner' : Inner p} {s s' : σ}
    {request : RegisterWorkerRequest} {res : Except ControllerStateError RegistrationResult}
    (h : register store inner s request = (res, inner', s')) : DrainCount inner inner' := by
  rcases register_cases h with ⟨hi, _⟩ | ⟨reg, _, _, hproc⟩
  · exact .of_eq hi
  · rcases registerProcess_cases hproc with ⟨_, _, hi, _⟩ |
      ⟨g, t, _, _, _, _, ⟨_, _, hi⟩ | ⟨old, changed, inner2, _, hp, hi⟩⟩
    · exact .of_eq hi
    · rw [hi]
      exact .inl rfl
    · exact .publish hp hi rfl

theorem heartbeat_drainCount {store : ControllerStateStore σ} {inner inner' : Inner p} {s s' : σ}
    {workerId startId : String} {lease sequence : Nat} {state : Int}
    {res : Except ControllerStateError HeartbeatResult}
    (h : heartbeat store inner s workerId startId lease sequence state = (res, inner', s')) :
    DrainCount inner inner' := by
  rcases heartbeat_cases h with ⟨hi, _⟩ |
    ⟨w, runState, b, hw, _, _, _, ⟨_, _, hi⟩ | ⟨_, c, i2, hp, hi⟩⟩
  · exact .of_eq hi
  · left
    rw [hi, notifyIf_nextDrainId]
    rfl
  · exact .publish hp hi rfl

theorem setTargets_drainCount {store : ControllerStateStore σ} {inner inner' : Inner p} {s s' : σ}
    {workerId startId : String} {targets : List TargetExpert}
    {res : Except ControllerStateError Placement}
    (h : setTargets store inner s workerId startId targets = (res, inner', s')) :
    DrainCount inner inner' := by
  rcases setTargets_cases h with ⟨_, _, hi, _⟩ | ⟨_, _, _, _, _, _, hi, _⟩ |
    ⟨w, next, s1, c, i2, hw, _, _, hn, _, hp, _, hi⟩
  · exact .of_eq hi
  · exact .of_eq hi
  · have hnd : i2.nextDrainId = inner.nextDrainId := (publishRoutes_nextDrainId hp).trans rfl
    unfold DrainCount
    rw [hi, notifyIf_nextDrainId, ← hnd]
    rcases recordDrains_cases i2 workerId (w.placed (max next 1) (normalizeTargets targets))
      w.registration.request.instanceId (max next 1) (targetsDrained w (normalizeTargets targets))
      with ⟨_, hrec⟩ | ⟨_, hrec⟩
    · rw [hrec]
      exact .inl rfl
    · rw [hrec]
      exact .inr rfl

theorem drainAuthorizations_drainCount {store : ControllerStateStore σ} {inner inner' : Inner p}
    {s s' : σ} {workerId startId : String}
    {res : Except ControllerStateError (List DrainAuthorization)}
    (h : drainAuthorizations store inner s workerId startId = (res, inner', s')) :
    DrainCount inner inner' := by
  rcases drainAuthorizations_cases h with ⟨_, _, hi, _⟩ | ⟨_, _, _, _, _, hi, _⟩ |
    ⟨w, c, i2, hw, _, hs, hp, _, hi⟩
  · exact .of_eq hi
  · exact .of_eq hi
  · have hnd : i2.nextDrainId = inner.nextDrainId := (publishRoutes_nextDrainId hp).trans rfl
    right
    rw [hi, notifyIf_nextDrainId, ← hnd]
    rfl

theorem completeDrain_drainCount {store : ControllerStateStore σ} {inner inner' : Inner p}
    {s s' : σ} {workerId startId : String} {drainId : Nat}
    {res : Except ControllerStateError Bool}
    (h : completeDrain store inner s workerId startId drainId = (res, inner', s')) :
    DrainCount inner inner' := by
  rcases completeDrain_cases h with ⟨_, _, hi, _⟩ | ⟨_, hi, _⟩ |
    ⟨w, drain, hw, _, _, _, _, ⟨_, _, hi⟩ | ⟨_, c, i2, hp, hi⟩⟩
  · exact .of_eq hi
  · exact .of_eq hi
  · rw [hi]
    exact .inl rfl
  · exact .publish hp hi rfl

theorem Op.run_drainCount (store : ControllerStateStore σ) (w : World p σ) (op : Op) :
    DrainCount w.inner (op.run store w).inner := by
  cases op <;> apply World.after_of (fun w' => DrainCount w.inner w'.inner) <;> intro r inner' s' h
  · exact register_drainCount h
  · obtain ⟨_, hi | ⟨_, _, _, _, hi⟩⟩ := openHeartbeat_cases h
    · exact .of_eq hi
    · rw [hi]
      exact .inl rfl
  · exact heartbeat_drainCount h
  · rcases closeHeartbeat_cases h with ⟨hi, _⟩ | ⟨w, c, i2, hw, _, _, _, _, hp, hi⟩
    · exact .of_eq hi
    · exact .publish hp hi rfl
  · exact setTargets_drainCount h
  · rcases applyStateReport_cases h with ⟨_, _, hi, _⟩ | ⟨_, hi, _⟩ |
      ⟨w, normalized, c, i2, hw, _, _, _, hp, _, hi⟩
    · exact .of_eq hi
    · exact .of_eq hi
    · exact .publish hp hi rfl
  · exact drainAuthorizations_drainCount h
  · exact completeDrain_drainCount h

/-! ## the mirror of the stored placements -/

theorem notifyIf_persisted (b : Bool) (inner : Inner p) :
    (notifyIf b inner).persistedPlacements = inner.persistedPlacements := by
  cases b <;> rfl

theorem publishRoutes_persisted {store : ControllerStateStore σ} {inner inner' : Inner p}
    {s s' : σ} {i : Nat} {affected : ExtTreeSet ExpertKey} {r : Except ControllerStateError Bool}
    (h : publishRoutes store inner s i affected = (r, inner', s')) :
    inner'.persistedPlacements = inner.persistedPlacements := by
  rw [publishRoutes_frame h]

/-- a `set_targets` that writes replaces the entry of its own worker -/
theorem written_persisted {store : ControllerStateStore σ} {inner inner2 : Inner p} {s s' : σ}
    {workerId : String} {r : WorkerRecord p} {g i : Nat} {t : ExtTreeMap ExpertKey TargetExpert}
    {affected : ExtTreeSet ExpertKey} {changed : Bool}
    (hp : publishRoutes store (inner.placed workerId r g t) s i affected
      = (.ok changed, inner2, s')) (w : WorkerRecord p) (b : Bool) (experts : ExtTreeSet ExpertKey) :
    (notifyIf b (recordDrains inner2 workerId w i g experts).1).persistedPlacements
      = inner.persistedPlacements.insert workerId
        ⟨workerId, r.registration.request.instanceId, g, Maps.values t⟩ := by
  have h2 : inner2.persistedPlacements = _ := publishRoutes_persisted hp
  rw [notifyIf_persisted]
  rcases recordDrains_cases inner2 workerId w i g experts with ⟨_, hrec⟩ | ⟨_, hrec⟩
  · rw [hrec]
    exact h2
  · rw [hrec]
    exact h2

/-- an operation other than `set_targets`: mirror unchanged, only versions asked of the store -/
def Unplaced (store : ControllerStateStore σ) (inner : Inner p) (s : σ) (w' : World p σ) : Prop :=
  w'.inner.persistedPlacements = inner.persistedPlacements ∧ AdvanceCalls store s w'.stored

theorem Unplaced.of_eq {store : ControllerStateStore σ} {inner inner' : Inner p} {s s' : σ}
    (hi : inner' = inner) (hs : AdvanceCalls store s s') : Unplaced store inner s ⟨inner', s'⟩ :=
  ⟨by rw [hi], hs⟩

theorem Unplaced.publish {store : ControllerStateStore σ} {inner mid inner2 inner' : Inner p}
    {s s' : σ} {i : Nat} {affected : ExtTreeSet ExpertKey} {b : Bool}
    {r : Except ControllerStateError Bool}
    (hp : publishRoutes store mid s i affected = (r, inner2, s'))
    (hi : inner' = notifyIf b inner2) (hm : mid.persistedPlacements = inner.persistedPlacements) :
    Unplaced store inner s ⟨inner', s'⟩ := by
  refine ⟨?_, publishRoutes_calls hp⟩
  show inner'.persistedPlacements = _
  rw [hi, notifyIf_persisted, publishRoutes_persisted hp, hm]

def Op.isSetTargets : Op → Bool
  | .setTargets _ _ _ => true
  | _ => false

theorem Op.run_unplaced (store : ControllerStateStore σ) (w : World p σ) (op : Op)
    (hop : op.isSetTargets = false) : Unplaced store w.inner w.stored (op.run store w) := by
  cases op <;> apply World.after_of (Unplaced store w.inner w.stored) <;> intro r inner' s' h
  · rcases register_cases h with ⟨hi, hs⟩ | ⟨reg, _, _, hproc⟩
    · exact .of_eq hi (.of_eq hs.symm)
    · rcases registerProcess_cases hproc with ⟨_, _, hi, hs⟩ |
        ⟨g, t, _, _, _, _, ⟨_, hs, hi⟩ | ⟨old, changed, inner2, _, hp, hi⟩⟩
      · exact .of_eq hi hs
      · exact ⟨by rw [hi]; rfl, .of_eq hs.symm⟩
      · exact .publish hp hi rfl
  · obtain ⟨hs, hi | ⟨_, _, _, _, hi⟩⟩ := openHeartbeat_cases h
    · exact .of_eq hi (.of_eq hs.symm)
    · exact ⟨by rw [hi]; rfl, .of_eq hs.symm⟩
  · rcases heartbeat_cases h with ⟨hi, hs⟩ |
      ⟨w, runState, b, hw, _, _, _, ⟨_, hs, hi⟩ | ⟨_, c, i2, hp, hi⟩⟩
    · exact .of_eq hi hs
    · exact ⟨by rw [hi, notifyIf_persisted]; rfl, .of_eq hs.symm⟩
    · exact .publish hp hi rfl
  · rcases closeHeartbeat_cases h with ⟨hi, hs⟩ | ⟨w, c, i2, hw, _, _, _, _, hp, hi⟩
    · exact .of_eq hi hs
    · exact .publish hp hi rfl
  · cases hop
  · rcases applyStateReport_cases h with ⟨_, _, hi, hs⟩ | ⟨_, hi, hs⟩ |
      ⟨w, normalized, c, i2, hw, _, _, _, hp, _, hi⟩
    · exact .of_eq hi hs
    · exact .of_eq hi (.of_eq hs.symm)
    · exact .publish hp hi rfl
  · rcases drainAuthorizations_cases h with ⟨_, _, hi, hs⟩ | ⟨_, _, _, _, _, hi, hs⟩ |
      ⟨w, c, i2, hw, _, _, hp, _, hi⟩
    · exact .of_eq hi hs
    · exact .of_eq hi (.of_eq hs.symm)
    · refine ⟨?_, publishRoutes_calls hp⟩
      show inner'.persistedPlacements = _
      rw [hi, notifyIf_persisted]
      show i2.persistedPlacements = _
      rw [publishRoutes_persisted hp]
      rfl
  · rcases completeDrain_cases h with ⟨_, _, hi, hs⟩ | ⟨_, hi, hs⟩ |
      ⟨w, drain, hw, _, _, _, _, ⟨_, hs, hi⟩ | ⟨_, c, i2, hp, hi⟩⟩
    · exact .of_eq hi hs
    · exact .of_eq hi (.of_eq hs.symm)
    · exact ⟨by rw [hi]; rfl, .of_eq hs.symm⟩
    · exact .publish hp hi rfl

/-- only a `set_targets` of the worker changes its entry -/
theorem Op.run_persisted (store : ControllerStateStore σ) (w : World p σ) (op : Op) {id : String}
    (hop : ¬ op.sets id) :
    (op.run store w).inner.persistedPlacements[id]? = w.inner.persistedPlacements[id]? := by
  cases hset : op.isSetTargets with
  | false => rw [(Op.run_unplaced store w op hset).1]
  | true =>
    cases op with
    | setTargets workerId startId targets =>
      apply World.after_of (fun w' => w'.inner.persistedPlacements[id]? = _)
      intro r inner' s' h
      rcases setTargets_cases h with ⟨_, _, hi, _⟩ | ⟨_, _, _, _, _, _, hi, _⟩ |
        ⟨r, next, s1, c, i2, hr, _, _, _, _, hp, _, hi⟩
      · rw [hi]
      · rw [hi]
      · show inner'.persistedPlacements[id]? = _
        rw [hi, written_persisted hp, Maps.getElem?_insert_eq, if_neg (Ne.symm hop)]
    | _ => cases hset

/-! ## runs -/

/-- the operations as a step function -/
def opStep (store : ControllerStateStore σ) (w : World p σ) (op : Op) : Option (World p σ) :=
  some (op.run store w)

/-- a Controller that was just started -/
inductive Started (store : ControllerStateStore σ) : World p σ → Prop where
  | new (historyLimit : Nat) (h : 0 < historyLimit) (s : σ) :
      Started store ⟨newState p historyLimit h, s⟩
  | restored (historyLimit : Nat) (h : 0 < historyLimit) (s s' : σ) (inner : Inner p)
      (hr : restore p store historyLimit h s = (.ok inner, s')) : Started store ⟨inner, s'⟩

theorem Started.reachable {store : ControllerStateStore σ} {w : World p σ}
    (h : Started store w) : Reachable store w := by
  cases h with
  | new historyLimit h s => exact .new historyLimit h s
  | restored historyLimit h s s' inner hr => exact .restored historyLimit h s s' inner hr

theorem Started.workers {store : ControllerStateStore σ} {w : World p σ}
    (h : Started store w) : w.inner.workers = ∅ := by
  cases h with
  | new historyLimit h s => rfl
  | restored historyLimit h s s' inner hr =>
    obtain ⟨_, _, _, _, _, hi⟩ := restore_cases hr
    rw [hi]
    exact fromSnapshot_workers _ _ _ _

theorem Reachable.reach {store : ControllerStateStore σ} {ok : World p σ → Op → Prop}
    {w w' : World p σ} (hw : Reachable store w) (h : Steps.Reach (opStep store) ok w w') :
    Reachable store w' := by
  refine h.invariant hw ?_
  intro s l s' hs _ hstep
  cases hstep
  exact .step s l hs

end

end ExpertKit.Controller

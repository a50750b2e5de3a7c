import ExpertKit.Controller.Cases

/-!
# Controller: runs

A `World` is the memory of one Controller together with its store.  `Op` lists the eight operations
that write the memory; `Reachable` is every world a Controller can be in, started by `new` or by
`restore` over any store state, with the store free to fail at any call.

* `Op`, `Op.run`        the operations on worlds;
* `Reachable.invariant` a property that both starts have and every operation keeps holds always;
* `Keyed`               a worker record lies under its own id, in every reachable world.
-/

set_option linter.unusedSectionVars false

namespace ExpertKit.Controller
open Std

structure World (p : EndpointParsers) (σ : Type) where
  inner : Inner p
  stored : σ

inductive Op where
  | register (registration : RegisterWorkerRequest)
  | openHeartbeat (workerId startId : String)
  | heartbeat (workerId startId : String) (lease sequence : Nat) (state : Int)
  | closeHeartbeat (workerId startId : String) (lease : Nat)
  | setTargets (workerId startId : String) (targets : List TargetExpert)
  | applyStateReport (workerId startId : String) (placementGeneration reportSequence : Nat)
      (full : Bool) (states : List ExpertState)
  | drainAuthorizations (workerId startId : String)
  | completeDrain (workerId startId : String) (drainId : Nat)
deriving DecidableEq, Repr

section
variable {p : EndpointParsers} {σ : Type}

def World.after {α : Type} (o : Outcome p σ α) : World p σ := ⟨o.2.1, o.2.2⟩

/-- the world that an operation leaves behind, whatever it returns -/
def Op.run (store : ControllerStateStore σ) (w : World p σ) : Op → World p σ
  | .register registration => .after (Controller.register store w.inner w.stored registration)
  | .openHeartbeat workerId startId =>
    .after (Controller.openHeartbeat w.inner w.stored workerId startId)
  | .heartbeat workerId startId lease sequence state =>
    .after (Controller.heartbeat store w.inner w.stored workerId startId lease sequence state)
  | .closeHeartbeat workerId startId lease =>
    .after (Controller.closeHeartbeat store w.inner w.stored workerId startId lease)
  | .setTargets workerId startId targets =>
    .after (Controller.setTargets store w.inner w.stored workerId startId targets)
  | .applyStateReport workerId startId placementGeneration reportSequence full states =>
    .after (Controller.applyStateReport store w.inner w.stored workerId startId
      placementGeneration reportSequence full states)
  | .drainAuthorizations workerId startId =>
    .after (Controller.drainAuthorizations store w.inner w.stored workerId startId)
  | .completeDrain workerId startId drainId =>
    .after (Controller.completeDrain store w.inner w.stored workerId startId drainId)

def runOps (store : ControllerStateStore σ) (w : World p σ) (ops : List Op) : World p σ :=
  ops.foldl (fun w op => op.run store w) w

inductive Reachable (store : ControllerStateStore σ) : World p σ → Prop where
  | new (historyLimit : Nat) (h : 0 < historyLimit) (s : σ) :
      Reachable store ⟨newState p historyLimit h, s⟩
  | restored (historyLimit : Nat) (h : 0 < historyLimit) (s s' : σ) (inner : Inner p)
      (hr : restore p store historyLimit h s = (.ok inner, s')) : Reachable store ⟨inner, s'⟩
  | step (w : World p σ) (op : Op) (hw : Reachable store w) : Reachable store (op.run store w)

theorem Reachable.runOps {store : ControllerStateStore σ} {w : World p σ}
    (h : Reachable store w) (ops : List Op) : Reachable store (runOps store w ops) := by
  induction ops generalizing w with
  | nil => exact h
  | cons op ops ih => exact ih (.step w op h)

/-- a started Controller has no worker record -/
theorem restore_cases {store : ControllerStateStore σ} {historyLimit : Nat}
    {h : 0 < historyLimit} {s s' : σ} {inner : Inner p}
    (hr : restore p store historyLimit h s = (.ok inner, s')) :
    ∃ snapshot s1 topologies, store.load s = (.ok snapshot, s1) ∧
      restoreTopologies store (instanceVersions snapshot).toList ∅ s1 = (.ok topologies, s') ∧
      inner = fromSnapshot p historyLimit h snapshot topologies := by
  unfold restore at hr
  cases hl : store.load s with
  | mk a s1 =>
    rw [hl] at hr
    cases a with
    | error e => simp at hr
    | ok snapshot =>
      simp only at hr
      cases ht : restoreTopologies store (instanceVersions snapshot).toList ∅ s1 with
      | mk b s2 =>
        rw [ht] at hr
        cases b with
        | error e => simp at hr
        | ok topologies =>
          simp only [Prod.mk.injEq, Except.ok.injEq] at hr
          exact ⟨snapshot, s1, topologies, rfl, by rw [ht, hr.2], hr.1.symm⟩

theorem restoreTopologies_routes {store : ControllerStateStore σ} (l : List (Nat × Nat))
    {m topologies : ExtTreeMap Nat InstanceTopology} {s s' : σ}
    (h : restoreTopologies store l m s = (.ok topologies, s'))
    (hm : ∀ (i : Nat) (t : InstanceTopology), m[i]? = some t → t.routes = ∅ ∧ t.history = []) :
    ∀ (i : Nat) (t : InstanceTopology), topologies[i]? = some t → t.routes = ∅ ∧ t.history = [] := by
  induction l generalizing m s with
  | nil =>
    simp only [restoreTopologies, Prod.mk.injEq, Except.ok.injEq] at h
    rw [← h.1]
    exact hm
  | cons e l ih =>
    obtain ⟨i, c⟩ := e
    simp only [restoreTopologies] at h
    cases ha : store.advanceTopologyVersion s i c with
    | mk a s1 =>
      rw [ha] at h
      cases a with
      | error e => simp at h
      | ok v =>
        refine ih h ?_
        intro j t ht
        rw [Maps.getElem?_insert_eq] at ht
        split_ifs at ht with e
        · simp only [Option.some.injEq] at ht
          rw [← ht]
          exact ⟨rfl, rfl⟩
        · exact hm j t ht

/-! ## one operation changes at most one record -/

/-- the record `w'` of `id` replaces the one of `inner`: a new process, or the same process -/
def Replaces (inner : Inner p) (id : String) (w' : WorkerRecord p) : Prop :=
  (∃ g t, w' = .fresh w'.registration g t ∧ w'.registration.request.workerId = id) ∨
  (∃ w, inner.workers[id]? = some w ∧ w'.registration = w.registration)

/-- the workers after an operation: unchanged, or one record replaced -/
def OneRecord (inner inner' : Inner p) : Prop :=
  inner'.workers = inner.workers ∨
  ∃ id w', Replaces inner id w' ∧ inner'.workers = inner.workers.insert id w'

theorem publishRoutes_workers {store : ControllerStateStore σ} {inner inner' : Inner p} {s s' : σ}
    {i : Nat} {affected : ExtTreeSet ExpertKey} {r : Except ControllerStateError Bool}
    (h : publishRoutes store inner s i affected = (r, inner', s')) :
    inner'.workers = inner.workers := by
  rw [publishRoutes_frame h]

theorem insert_insert_same (m : ExtTreeMap String (WorkerRecord p)) (id : String)
    (w w' : WorkerRecord p) : (m.insert id w).insert id w' = m.insert id w' := by
  apply ExtTreeMap.ext_getElem?
  intro a
  rw [Maps.getElem?_insert_eq, Maps.getElem?_insert_eq, Maps.getElem?_insert_eq]
  split_ifs <;> rfl

theorem recordDrains_workers (inner : Inner p) (id : String) (w : WorkerRecord p)
    (i g : Nat) (experts : ExtTreeSet ExpertKey) :
    ∃ drains, (recordDrains inner id w i g experts).1.workers
      = inner.workers.insert id { w with drains := drains } := by
  unfold recordDrains
  by_cases he : experts.isEmpty
  · simp only [he, ↓reduceIte]
    exact ⟨_, rfl⟩
  · simp only [he, Bool.false_eq_true, ↓reduceIte]
    exact ⟨_, rfl⟩

theorem OneRecord.insert {inner inner' : Inner p} {id : String} {w : WorkerRecord p}
    (w' : WorkerRecord p) (hw : inner.workers[id]? = some w) (hr : w'.registration = w.registration)
    (hi : inner'.workers = inner.workers.insert id w') : OneRecord inner inner' :=
  .inr ⟨id, w', .inr ⟨w, hw, hr⟩, hi⟩

theorem registerProcess_oneRecord {store : ControllerStateStore σ} {inner inner' : Inner p}
    {s s' : σ} {reg : ValidRegistration p} {r : Except ControllerStateError RegistrationResult}
    (h : registerProcess store inner s reg = (r, inner', s')) : OneRecord inner inner' := by
  rcases registerProcess_cases h with ⟨_, _, hi, _⟩ |
    ⟨g, t, _, _, _, _, ⟨_, _, hi⟩ | ⟨old, changed, inner2, _, hp, hi⟩⟩
  · rw [hi]
    exact .inl rfl
  · rw [hi]
    exact .inr ⟨_, .fresh reg g t, .inl ⟨g, t, rfl, rfl⟩, rfl⟩
  · rw [hi]
    refine .inr ⟨_, .fresh reg g t, .inl ⟨g, t, rfl, rfl⟩, ?_⟩
    rw [notifyIf_workers, publishRoutes_workers hp]
    rfl

theorem register_oneRecord {store : ControllerStateStore σ} {inner inner' : Inner p} {s s' : σ}
    {request : RegisterWorkerRequest} {r : Except ControllerStateError RegistrationResult}
    (h : register store inner s request = (r, inner', s')) : OneRecord inner inner' := by
  rcases register_cases h with ⟨hi, _⟩ | ⟨reg, _, _, hr⟩
  · rw [hi]
    exact .inl rfl
  · exact registerProcess_oneRecord hr

theorem openHeartbeat_oneRecord {inner inner' : Inner p} {s s' : σ} {workerId startId : String}
    {r : Except ControllerStateError Nat}
    (h : openHeartbeat inner s workerId startId = (r, inner', s')) : OneRecord inner inner' := by
  obtain ⟨_, hi | ⟨w, hw, _, _, hi⟩⟩ := openHeartbeat_cases h
  · rw [hi]
    exact .inl rfl
  · rw [hi]
    exact .insert { w with
      heartbeatLease := wrappingNext inner.nextHeartbeatLease, heartbeatOpen := true } hw rfl rfl

theorem heartbeat_oneRecord {store : ControllerStateStore σ} {inner inner' : Inner p} {s s' : σ}
    {workerId startId : String} {lease sequence : Nat} {state : Int}
    {r : Except ControllerStateError HeartbeatResult}
    (h : heartbeat store inner s workerId startId lease sequence state = (r, inner', s')) :
    OneRecord inner inner' := by
  rcases heartbeat_cases h with ⟨hi, _⟩ | ⟨w, runState, b, hw, _, _, _, ⟨_, _, hi⟩ | ⟨_, c, i2, hp, hi⟩⟩
  · rw [hi]
    exact .inl rfl
  · refine .insert (w.beat sequence runState) hw rfl ?_
    rw [hi, notifyIf_workers]
    rfl
  · refine .insert (w.beat sequence runState) hw rfl ?_
    rw [hi, notifyIf_workers, publishRoutes_workers hp]
    rfl

theorem closeHeartbeat_oneRecord {store : ControllerStateStore σ} {inner inner' : Inner p}
    {s s' : σ} {workerId startId : String} {lease : Nat} {r : Except ControllerStateError Bool}
    (h : closeHeartbeat store inner s workerId startId lease = (r, inner', s')) :
    OneRecord inner inner' := by
  rcases closeHeartbeat_cases h with ⟨hi, _⟩ | ⟨w, c, i2, hw, _, _, _, _, hp, hi⟩
  · rw [hi]
    exact .inl rfl
  · refine .insert { w with heartbeatOpen := false, live := false } hw rfl ?_
    rw [hi, notifyIf_workers, publishRoutes_workers hp]
    rfl

theorem setTargets_oneRecord {store : ControllerStateStore σ} {inner inner' : Inner p} {s s' : σ}
    {workerId startId : String} {targets : List TargetExpert}
    {r : Except ControllerStateError Placement}
    (h : setTargets store inner s workerId startId targets = (r, inner', s')) :
    OneRecord inner inner' := by
  rcases setTargets_cases h with ⟨_, _, hi, _⟩ | ⟨_, _, _, _, _, _, hi, _⟩ |
    ⟨w, next, s1, c, i2, hw, _, _, _, _, hp, _, hi⟩
  · rw [hi]
    exact .inl rfl
  · rw [hi]
    exact .inl rfl
  · obtain ⟨drains, hd⟩ := recordDrains_workers i2 workerId
      (w.placed (max next 1) (normalizeTargets targets)) w.registration.request.instanceId
      (max next 1) (targetsDrained w (normalizeTargets targets))
    refine .insert { w.placed (max next 1) (normalizeTargets targets) with
      drains := drains } hw rfl ?_
    rw [hi, notifyIf_workers, hd, publishRoutes_workers hp]
    exact insert_insert_same _ _ _ _

theorem applyStateReport_oneRecord {store : ControllerStateStore σ} {inner inner' : Inner p}
    {s s' : σ} {workerId startId : String} {placementGeneration reportSequence : Nat}
    {full : Bool} {states : List ExpertState} {r : Except ControllerStateError StateReportResult}
    (h : applyStateReport store inner s workerId startId placementGeneration reportSequence full
      states = (r, inner', s')) : OneRecord inner inner' := by
  rcases applyStateReport_cases h with ⟨_, _, hi, _⟩ | ⟨_, hi, _⟩ |
    ⟨w, normalized, c, i2, hw, _, _, _, hp, _, hi⟩
  · rw [hi]
    exact .inl rfl
  · rw [hi]
    exact .inl rfl
  · refine .insert (w.reported reportSequence full normalized) hw rfl ?_
    rw [hi, notifyIf_workers, publishRoutes_workers hp]
    rfl

theorem drainAuthorizations_oneRecord {store : ControllerStateStore σ} {inner inner' : Inner p}
    {s s' : σ} {workerId startId : String}
    {r : Except ControllerStateError (List DrainAuthorization)}
    (h : drainAuthorizations store inner s workerId startId = (r, inner', s')) :
    OneRecord inner inner' := by
  rcases drainAuthorizations_cases h with ⟨_, _, hi, _⟩ | ⟨_, _, _, _, _, hi, _⟩ |
    ⟨w, c, i2, hw, _, _, hp, _, hi⟩
  · rw [hi]
    exact .inl rfl
  · rw [hi]
    exact .inl rfl
  · refine .insert { w with
      includedInTopology := false, drains := w.drains ++ [shutdownDrain i2 w] } hw rfl ?_
    rw [hi, notifyIf_workers]
    show i2.workers.insert workerId _ = _
    rw [publishRoutes_workers hp]
    exact insert_insert_same _ _ _ _

theorem completeDrain_oneRecord {store : ControllerStateStore σ} {inner inner' : Inner p}
    {s s' : σ} {workerId startId : String} {drainId : Nat} {r : Except ControllerStateError Bool}
    (h : completeDrain store inner s workerId startId drainId = (r, inner', s')) :
    OneRecord inner inner' := by
  rcases completeDrain_cases h with ⟨_, _, hi, _⟩ | ⟨_, hi, _⟩ |
    ⟨w, drain, hw, _, _, _, _, ⟨_, _, hi⟩ | ⟨_, c, i2, hp, hi⟩⟩
  · rw [hi]
    exact .inl rfl
  · rw [hi]
    exact .inl rfl
  · rw [hi]
    exact .insert (w.completed drainId) hw rfl rfl
  · refine .insert { w.completed drainId with live := false } hw rfl ?_
    rw [hi, notifyIf_workers, publishRoutes_workers hp]
    rfl

/-- what holds of every possible outcome holds of the world after the operation -/
theorem World.after_of {α : Type} (P : World p σ → Prop) (o : Outcome p σ α)
    (h : ∀ r inner' s', o = (r, inner', s') → P ⟨inner', s'⟩) : P (.after o) :=
  h o.1 o.2.1 o.2.2 rfl

theorem Op.run_oneRecord (store : ControllerStateStore σ) (w : World p σ) (op : Op) :
    OneRecord w.inner (op.run store w).inner := by
  cases op <;> apply World.after_of (fun w' => OneRecord w.inner w'.inner) <;> intro r inner' s' h
  · exact register_oneRecord h
  · exact openHeartbeat_oneRecord h
  · exact heartbeat_oneRecord h
  · exact closeHeartbeat_oneRecord h
  · exact setTargets_oneRecord h
  · exact applyStateReport_oneRecord h
  · exact drainAuthorizations_oneRecord h
  · exact completeDrain_oneRecord h

/-! ## records lie under their own id -/

def Keyed (inner : Inner p) : Prop :=
  ∀ (id : String) (w : WorkerRecord p), inner.workers[id]? = some w →
    w.registration.request.workerId = id

theorem OneRecord.keyed {inner inner' : Inner p} (h : OneRecord inner inner')
    (hk : Keyed inner) : Keyed inner' := by
  intro id w hw
  rcases h with he | ⟨id', w', hr, he⟩
  · rw [he] at hw
    exact hk id w hw
  · rw [he, Maps.getElem?_insert_eq] at hw
    split_ifs at hw with e
    · simp only [Option.some.injEq] at hw
      subst hw e
      rcases hr with ⟨_, _, _, hid⟩ | ⟨old, hold, hreg⟩
      · exact hid
      · rw [hreg]
        exact hk id' old hold
    · exact hk id w hw

theorem fromSnapshot_workers (historyLimit : Nat) (h : 0 < historyLimit)
    (snapshot : ControllerStoreSnapshot) (topologies : ExtTreeMap Nat InstanceTopology) :
    (fromSnapshot p historyLimit h snapshot topologies).workers = ∅ := rfl

theorem keyed_of_empty {inner : Inner p} (h : inner.workers = ∅) : Keyed inner := by
  intro id w hw
  rw [h] at hw
  simp at hw

theorem reachable_keyed {store : ControllerStateStore σ} {w : World p σ}
    (h : Reachable store w) : Keyed w.inner := by
  induction h with
  | new hl hp s => exact keyed_of_empty rfl
  | restored hl hp s s' inner hr =>
    obtain ⟨_, _, _, _, _, hi⟩ := restore_cases hr
    rw [hi]
    exact keyed_of_empty (fromSnapshot_workers _ _ _ _)
  | step w op _ ih => exact (Op.run_oneRecord store w op).keyed ih

end

/-! ## the fixtures of the Controller tests -/

namespace Fixture

/-- the two endpoints of the fixtures, parsed as the libraries parse them -/
def parsers : EndpointParsers where
  httpUri s := if s = "http://127.0.0.1:50051" then some ⟨some "127.0.0.1", some 50051⟩ else none
  url s :=
    if s = "http://127.0.0.1:50052" then some ⟨"http", some "127.0.0.1", some 50052⟩ else none

theorem parsers_needsHost : parsers.NeedsHost := by
  intro uri h
  rw [show parsers.httpUri "http://" = none by decide] at h
  cases h

def registration (workerId startId : String) : RegisterWorkerRequest where
  workerId := workerId
  startId := startId
  instanceId := 7
  computationEndpoint := "127.0.0.1:50051"
  peerWeightEndpoint := "http://127.0.0.1:50052"
  backend := "torch"
  activationDtype := 2
  device := some ⟨"cuda:0", 256⟩
  maxBatchTokens := 4096
  maxActiveBatchesPerDevice := 2
  maxPendingBatchesPerDevice := 2
  transportType := 1

def target (layerId expertId : Nat) : TargetExpert :=
  ⟨layerId, expertId, "cuda:0", ["http://peer:8000"]⟩

def ready (layerId expertId : Nat) : ExpertState :=
  ⟨layerId, expertId, ExpertStateKind.ready.toInt, none⟩

/-- `register_live_named`, for the heartbeat lease that the Controller will return -/
def registerLive (workerId startId : String) (lease : Nat) : List Op :=
  [.register (registration workerId startId), .openHeartbeat workerId startId,
    .heartbeat workerId startId lease 1 1]

theorem eight_pos : 0 < 8 := by decide

def start : World parsers ControllerStoreSnapshot := ⟨newState parsers 8 eight_pos, .empty⟩

theorem start_reachable : Reachable TransientControllerStateStore start := .new 8 (by decide) _

end Fixture

end ExpertKit.Controller

import ExpertKit.Controller.Incarnations

/-!
# Controller: operations whose future is dropped

A client that disconnects drops the future of its call.  The call then ends at the `await` it was
suspended at: before the write lock or in `save_placement` the memory has not changed yet; in
`advance_topology_version` the record has changed and the routes have not, and no rollback runs.

* `Op.publishing`              the arguments of the `publish_routes` call of an operation;
* `Op.run_publishing`          they are what the operation publishes;
* `Call`, `Call.step`          calls that return and calls that are dropped;
* `dropped_calls_spec`         the routes stay right exactly while no call is dropped during the
                               advance of the topology version.
-/

set_option linter.unusedSectionVars false

namespace ExpertKit.Controller
open Std

section
variable {p : EndpointParsers} {σ : Type}

/-! ## the publication of an operation -/

/-- memory, store and arguments at a call of `publish_routes` -/
structure Publishing (p : EndpointParsers) (σ : Type) where
  inner : Inner p
  stored : σ
  instanceId : Nat
  affected : ExtTreeSet ExpertKey

def registerPublishing (w : World p σ) (registration : RegisterWorkerRequest) :
    Option (Publishing p σ) :=
  if h : validateRegistration p registration = .ok () then
    match w.inner.workers[registration.workerId]? with
    | none => none
    | some old =>
      if old.registration.request.startId = registration.startId then none
      else
        let carried := carriedPlacement w.inner registration.workerId registration.instanceId
        some ⟨w.inner.setWorker registration.workerId
            (.fresh ⟨registration, h⟩ carried.1 carried.2),
          w.stored, old.registration.request.instanceId, readyKeys old⟩
  else none

def heartbeatPublishing (w : World p σ) (workerId startId : String) (lease sequence : Nat)
    (state : Int) : Option (Publishing p σ) :=
  match (WorkerRunState.tryFrom state).filter (· ≠ .unspecified),
      ensureCurrentStart w.inner workerId startId with
  | some runState, .ok previous =>
    if (checkHeartbeat previous lease sequence runState).isNone && !previous.live then
      some ⟨w.inner.setWorker workerId (previous.beat sequence runState), w.stored,
        previous.registration.request.instanceId, readyKeys previous⟩
    else none
  | _, _ => none

def closeHeartbeatPublishing (w : World p σ) (workerId startId : String) (lease : Nat) :
    Option (Publishing p σ) :=
  match ensureCurrentStart w.inner workerId startId with
  | .error _ => none
  | .ok previous =>
    if previous.heartbeatLease = lease ∧ previous.heartbeatOpen then
      some ⟨w.inner.setWorker workerId { previous with heartbeatOpen := false, live := false },
        w.stored, previous.registration.request.instanceId, readyKeys previous⟩
    else none

def setTargetsPublishing (store : ControllerStateStore σ) (w : World p σ)
    (workerId startId : String) (targets : List TargetExpert) : Option (Publishing p σ) :=
  let normalized := normalizeTargets targets
  match ensureCurrentStart w.inner workerId startId with
  | .error _ => none
  | .ok worker =>
    if worker.registration.device.maxExperts < normalized.size then none
    else if worker.targets = normalized ∧ persistedMatches w.inner workerId worker then none
    else
      match checkedNext worker.placementGeneration with
      | none => none
      | some next =>
        match store.savePlacement w.stored workerId worker.registration.request.instanceId
            (max next 1) (Maps.values normalized) with
        | (.error _, _) => none
        | (.ok (), s') =>
          some ⟨w.inner.placed workerId worker (max next 1) normalized, s',
            worker.registration.request.instanceId, targetsAffected worker normalized⟩

def applyStateReportPublishing (w : World p σ) (workerId startId : String)
    (placementGeneration reportSequence : Nat) (full : Bool) (states : List ExpertState) :
    Option (Publishing p σ) :=
  match normalizeStates states, ensureCurrentStart w.inner workerId startId with
  | .ok normalized, .ok previous =>
    if (checkReport previous placementGeneration reportSequence full normalized).isNone then
      some ⟨w.inner.setWorker workerId (previous.reported reportSequence full normalized),
        w.stored, previous.registration.request.instanceId,
        reportAffected previous full normalized⟩
    else none
  | _, _ => none

def drainAuthorizationsPublishing (w : World p σ) (workerId startId : String) :
    Option (Publishing p σ) :=
  match ensureCurrentStart w.inner workerId startId with
  | .error _ => none
  | .ok previous =>
    if shouldCreateShutdown w.inner previous then
      some ⟨w.inner.setWorker workerId { previous with includedInTopology := false }, w.stored,
        previous.registration.request.instanceId, readyKeys previous⟩
    else none

def completeDrainPublishing (w : World p σ) (workerId startId : String) (drainId : Nat) :
    Option (Publishing p σ) :=
  match ensureCurrentStart w.inner workerId startId with
  | .error _ => none
  | .ok previous =>
    match previous.drains.find? fun drain => drain.drainId = drainId with
    | none => none
    | some drain =>
      if !drain.completed && drain.stopAll then
        some ⟨w.inner.setWorker workerId { previous.completed drainId with live := false },
          w.stored, previous.registration.request.instanceId, readyKeys previous⟩
      else none

/-- the call of `publish_routes` that an operation makes, if it comes to one -/
def Op.publishing (store : ControllerStateStore σ) (w : World p σ) : Op → Option (Publishing p σ)
  | .register registration => registerPublishing w registration
  | .openHeartbeat _ _ => none
  | .heartbeat workerId startId lease sequence state =>
    heartbeatPublishing w workerId startId lease sequence state
  | .closeHeartbeat workerId startId lease => closeHeartbeatPublishing w workerId startId lease
  | .setTargets workerId startId targets => setTargetsPublishing store w workerId startId targets
  | .applyStateReport workerId startId placementGeneration reportSequence full states =>
    applyStateReportPublishing w workerId startId placementGeneration reportSequence full states
  | .drainAuthorizations workerId startId => drainAuthorizationsPublishing w workerId startId
  | .completeDrain workerId startId drainId => completeDrainPublishing w workerId startId drainId

/-- the operation ends with the routes and the store of its publication -/
def Publishes (store : ControllerStateStore σ) (w w' : World p σ) : Option (Publishing p σ) → Prop
  | none => w'.inner.topologies = w.inner.topologies
  | some a =>
    w'.inner.topologies =
        (publishRoutes store a.inner a.stored a.instanceId a.affected).2.1.topologies ∧
      w'.stored = (publishRoutes store a.inner a.stored a.instanceId a.affected).2.2

/-- publish, then roll back or go on: both keep the topologies -/
theorem publishes_of_publish {store : ControllerStateStore σ} {w : World p σ} {α : Type}
    {inner1 : Inner p} {s1 : σ} {i : Nat} {affected : ExtTreeSet ExpertKey} {o : Outcome p σ α}
    (restore : Inner p → Inner p) (value : Bool → Inner p → α) (next : Bool → Inner p → Inner p)
    (hrestore : ∀ inner2, (restore inner2).topologies = inner2.topologies)
    (hnext : ∀ changed inner2, (next changed inner2).topologies = inner2.topologies)
    (ho : o = match publishRoutes store inner1 s1 i affected with
      | (.error e, inner2, s') => (.error e, restore inner2, s')
      | (.ok changed, inner2, s') => (.ok (value changed inner2), next changed inner2, s')) :
    Publishes store w (.after o) (some ⟨inner1, s1, i, affected⟩) := by
  subst ho
  simp only [Publishes]
  cases hp : publishRoutes store inner1 s1 i affected with
  | mk a rest =>
    cases a with
    | error e => exact ⟨hrestore rest.1, rfl⟩
    | ok changed => exact ⟨hnext changed rest.1, rfl⟩

theorem publishes_of_restore {store : ControllerStateStore σ} {w : World p σ} {α : Type}
    {inner1 : Inner p} {workerId : String} {previous : WorkerRecord p} {i : Nat}
    {affected : ExtTreeSet ExpertKey} {o : Outcome p σ α} (value : Inner p → α)
    (next : Bool → Inner p → Inner p)
    (hnext : ∀ changed inner2, (next changed inner2).topologies = inner2.topologies)
    (ho : o = match publishOrRestore store inner1 w.stored workerId previous i affected with
      | (.error e, inner2, s') => (.error e, inner2, s')
      | (.ok changed, inner2, s') => (.ok (value inner2), next changed inner2, s')) :
    Publishes store w (.after o) (some ⟨inner1, w.stored, i, affected⟩) := by
  apply publishes_of_publish (fun inner2 => inner2.setWorker workerId previous)
    (fun _ inner2 => value inner2) next (fun _ => rfl) hnext
  rw [ho, publishOrRestore]
  cases hp : publishRoutes store inner1 w.stored i affected with
  | mk a rest => cases a <;> rfl

theorem register_publishes (store : ControllerStateStore σ) (w : World p σ)
    (registration : RegisterWorkerRequest) :
    Publishes store w (.after (register store w.inner w.stored registration))
      (registerPublishing w registration) := by
  unfold register registerPublishing
  split
  · rename_i e hv
    rw [dif_neg (by rw [hv]; simp)]
    rfl
  · rename_i hv
    rw [dif_pos hv]
    cases hw : w.inner.workers[registration.workerId]? with
    | none =>
      simp only [Option.filter_none, registerProcess, hw]
      rfl
    | some old =>
      by_cases hs : old.registration.request.startId = registration.startId
      · simp only [Option.filter_some, hs, decide_true, ↓reduceIte]
        split <;> rfl
      · simp only [Option.filter_some, hs, decide_false, Bool.false_eq_true, ↓reduceIte,
          registerProcess, hw]
        exact publishes_of_publish (fun inner2 => inner2.setWorker registration.workerId old) _ _
          (fun _ => rfl) (fun changed inner2 => notifyIf_topologies changed inner2) rfl

theorem heartbeat_publishes (store : ControllerStateStore σ) (w : World p σ)
    (workerId startId : String) (lease sequence : Nat) (state : Int) :
    Publishes store w
      (.after (heartbeat store w.inner w.stored workerId startId lease sequence state))
      (heartbeatPublishing w workerId startId lease sequence state) := by
  unfold heartbeat heartbeatPublishing
  cases hr : (WorkerRunState.tryFrom state).filter (· ≠ .unspecified) with
  | none => rfl
  | some runState =>
    cases hc : ensureCurrentStart w.inner workerId startId with
    | error e => rfl
    | ok previous =>
      simp only
      cases hk : checkHeartbeat previous lease sequence runState with
      | some o => cases o <;> rfl
      | none =>
        cases hl : previous.live with
        | true => exact notifyIf_topologies _ _
        | false =>
          exact publishes_of_restore (fun _ => .applied) _
            (fun changed inner2 => notifyIf_topologies _ _) rfl

theorem closeHeartbeat_publishes (store : ControllerStateStore σ) (w : World p σ)
    (workerId startId : String) (lease : Nat) :
    Publishes store w (.after (closeHeartbeat store w.inner w.stored workerId startId lease))
      (closeHeartbeatPublishing w workerId startId lease) := by
  unfold closeHeartbeat closeHeartbeatPublishing
  cases hc : ensureCurrentStart w.inner workerId startId with
  | error e => rfl
  | ok previous =>
    by_cases hlease : previous.heartbeatLease = lease
    · cases hopen : previous.heartbeatOpen with
      | false =>
        simp only [hlease, hopen, ne_eq, not_true_eq_false, ↓reduceIte, Bool.not_false,
          Bool.false_eq_true, and_false]
        rfl
      | true =>
        simp only [hlease, hopen, ne_eq, not_true_eq_false, Bool.not_true, Bool.false_eq_true,
          ↓reduceIte, and_self]
        exact publishes_of_restore (fun _ => true) _
          (fun changed inner2 => notifyIf_topologies changed inner2) rfl
    · simp only [hlease, ne_eq, not_false_eq_true, ↓reduceIte, false_and]
      rfl

theorem setTargets_publishes (store : ControllerStateStore σ) (w : World p σ)
    (workerId startId : String) (targets : List TargetExpert) :
    Publishes store w (.after (setTargets store w.inner w.stored workerId startId targets))
      (setTargetsPublishing store w workerId startId targets) := by
  unfold setTargets setTargetsPublishing
  cases hc : ensureCurrentStart w.inner workerId startId with
  | error e => rfl
  | ok worker =>
    simp only
    split_ifs with hmax hsame
    · rfl
    · rfl
    · cases hn : checkedNext worker.placementGeneration with
      | none => rfl
      | some next =>
        simp only
        cases hv : store.savePlacement w.stored workerId worker.registration.request.instanceId
            (max next 1) (Maps.values (normalizeTargets targets)) with
        | mk a s1 =>
          cases a with
          | error e => rfl
          | ok u =>
            cases u
            refine publishes_of_publish _ _ _ ?_ ?_ rfl
            · intro inner2
              rfl
            · intro changed inner2
              rw [notifyIf_topologies]
              exact recordDrains_topologies _ _ _ _ _ _

theorem applyStateReport_publishes (store : ControllerStateStore σ) (w : World p σ)
    (workerId startId : String) (placementGeneration reportSequence : Nat) (full : Bool)
    (states : List ExpertState) :
    Publishes store w (.after (applyStateReport store w.inner w.stored workerId startId
        placementGeneration reportSequence full states))
      (applyStateReportPublishing w workerId startId placementGeneration reportSequence full
        states) := by
  unfold applyStateReport applyStateReportPublishing
  cases hn : normalizeStates states with
  | error e => rfl
  | ok normalized =>
    cases hc : ensureCurrentStart w.inner workerId startId with
    | error e => rfl
    | ok previous =>
      simp only
      cases hk : checkReport previous placementGeneration reportSequence full normalized with
      | some o => cases o <;> rfl
      | none =>
        exact publishes_of_restore (fun _ => .applied) _
          (fun changed inner2 => notifyIf_topologies changed inner2) rfl

theorem drainAuthorizations_publishes (store : ControllerStateStore σ) (w : World p σ)
    (workerId startId : String) :
    Publishes store w (.after (drainAuthorizations store w.inner w.stored workerId startId))
      (drainAuthorizationsPublishing w workerId startId) := by
  unfold drainAuthorizations drainAuthorizationsPublishing
  cases hc : ensureCurrentStart w.inner workerId startId with
  | error e => rfl
  | ok previous =>
    simp only
    split_ifs with hd
    · refine publishes_of_restore _ _ ?_ rfl
      intro changed inner2
      exact notifyIf_topologies changed _
    · rfl

theorem completeDrain_publishes (store : ControllerStateStore σ) (w : World p σ)
    (workerId startId : String) (drainId : Nat) :
    Publishes store w (.after (completeDrain store w.inner w.stored workerId startId drainId))
      (completeDrainPublishing w workerId startId drainId) := by
  unfold completeDrain completeDrainPublishing
  cases hc : ensureCurrentStart w.inner workerId startId with
  | error e => rfl
  | ok previous =>
    simp only
    cases hf : previous.drains.find? fun drain => decide (drain.drainId = drainId) with
    | none => rfl
    | some drain =>
      cases hd : drain.completed with
      | true =>
        simp only [hd]
        rfl
      | false =>
        cases ha : drain.stopAll with
        | false =>
          simp only [hd, ha]
          rfl
        | true =>
          simp only [hd, ha, Bool.false_eq_true, ↓reduceIte, Bool.not_false, Bool.and_self]
          exact publishes_of_restore (fun _ => true) _
            (fun changed inner2 => notifyIf_topologies changed inner2) rfl

/-- every operation ends with the topologies of its `publish_routes` call -/
theorem Op.run_publishing (store : ControllerStateStore σ) (w : World p σ) (op : Op) :
    Publishes store w (op.run store w) (op.publishing store w) := by
  cases op with
  | register registration => exact register_publishes store w registration
  | openHeartbeat workerId startId =>
    apply World.after_of (fun w' => w'.inner.topologies = w.inner.topologies)
    intro r inner' s' h
    obtain ⟨_, hi | ⟨_, _, _, _, hi⟩⟩ := openHeartbeat_cases h
    · rw [hi]
    · rw [hi]
      rfl
  | heartbeat workerId startId lease sequence state =>
    exact heartbeat_publishes store w workerId startId lease sequence state
  | closeHeartbeat workerId startId lease =>
    exact closeHeartbeat_publishes store w workerId startId lease
  | setTargets workerId startId targets =>
    exact setTargets_publishes store w workerId startId targets
  | applyStateReport workerId startId placementGeneration reportSequence full states =>
    exact applyStateReport_publishes store w workerId startId placementGeneration reportSequence
      full states
  | drainAuthorizations workerId startId =>
    exact drainAuthorizations_publishes store w workerId startId
  | completeDrain workerId startId drainId =>
    exact completeDrain_publishes store w workerId startId drainId

/-! ## calls that may be dropped -/

inductive Call where
  /-- the call returns, with an answer or an error -/
  | returned (op : Op)
  /-- dropped before the write lock or in `save_placement`, which may have committed -/
  | droppedBefore (op : Op) (committed : Bool)
  /-- dropped in `advance_topology_version`, which may have committed -/
  | droppedAdvancing (op : Op) (committed : Bool)
deriving DecidableEq

/-- `publish_routes` comes to its `advance_topology_version` call -/
def Publishing.advances (a : Publishing p σ) : Bool :=
  !(routeChanges a.inner a.instanceId a.affected).isEmpty

def Publishing.advanced (store : ControllerStateStore σ) (a : Publishing p σ) : σ :=
  (store.advanceTopologyVersion a.stored a.instanceId (a.inner.topologyVersion a.instanceId)).2

/-- the world once no call is in progress again -/
def Call.step (store : ControllerStateStore σ) (w : World p σ) : Call → Option (World p σ)
  | .returned op => some (op.run store w)
  | .droppedBefore op committed =>
    some ⟨w.inner, if committed then (op.run (noAdvance store) w).stored else w.stored⟩
  | .droppedAdvancing op committed =>
    ((op.publishing store w).filter Publishing.advances).map fun a =>
      ⟨a.inner, if committed then a.advanced store else a.stored⟩

def Call.duringAdvance : Call → Bool
  | .droppedAdvancing _ _ => true
  | _ => false

/-! ## records at the publication -/

theorem registerPublishing_oneRecord {w : World p σ} {registration : RegisterWorkerRequest}
    {a : Publishing p σ} (h : registerPublishing w registration = some a) :
    OneRecord w.inner a.inner := by
  unfold registerPublishing at h
  split_ifs at h with hv
  cases hw : w.inner.workers[registration.workerId]? with
  | none => simp [hw] at h
  | some old =>
    simp only [hw] at h
    split_ifs at h with hs
    cases h
    exact .inr ⟨registration.workerId, .fresh ⟨registration, hv⟩ _ _, .inl ⟨_, _, rfl, rfl⟩, rfl⟩

theorem heartbeatPublishing_oneRecord {w : World p σ} {workerId startId : String}
    {lease sequence : Nat} {state : Int} {a : Publishing p σ}
    (h : heartbeatPublishing w workerId startId lease sequence state = some a) :
    OneRecord w.inner a.inner := by
  unfold heartbeatPublishing at h
  split at h
  · rename_i runState previous _ hc
    split_ifs at h
    cases h
    exact .insert (previous.beat sequence runState) (ensureCurrentStart_ok hc).1 rfl rfl
  · cases h

theorem closeHeartbeatPublishing_oneRecord {w : World p σ} {workerId startId : String}
    {lease : Nat} {a : Publishing p σ}
    (h : closeHeartbeatPublishing w workerId startId lease = some a) :
    OneRecord w.inner a.inner := by
  unfold closeHeartbeatPublishing at h
  split at h
  · cases h
  · rename_i previous hc
    split_ifs at h
    cases h
    exact .insert { previous with heartbeatOpen := false, live := false }
      (ensureCurrentStart_ok hc).1 rfl rfl

theorem setTargetsPublishing_oneRecord {store : ControllerStateStore σ} {w : World p σ}
    {workerId startId : String} {targets : List TargetExpert} {a : Publishing p σ}
    (h : setTargetsPublishing store w workerId startId targets = some a) :
    OneRecord w.inner a.inner := by
  unfold setTargetsPublishing at h
  simp only at h
  split at h
  · cases h
  · rename_i worker hc
    split_ifs at h
    split at h
    · cases h
    · rename_i next _
      split at h
      · cases h
      · cases h
        exact .insert (worker.placed (max next 1) (normalizeTargets targets))
          (ensureCurrentStart_ok hc).1 rfl rfl

theorem applyStateReportPublishing_oneRecord {w : World p σ} {workerId startId : String}
    {placementGeneration reportSequence : Nat} {full : Bool} {states : List ExpertState}
    {a : Publishing p σ}
    (h : applyStateReportPublishing w workerId startId placementGeneration reportSequence full
      states = some a) : OneRecord w.inner a.inner := by
  unfold applyStateReportPublishing at h
  split at h
  · rename_i normalized previous _ hc
    split_ifs at h
    cases h
    exact .insert (previous.reported reportSequence full normalized)
      (ensureCurrentStart_ok hc).1 rfl rfl
  · cases h

theorem drainAuthorizationsPublishing_oneRecord {w : World p σ} {workerId startId : String}
    {a : Publishing p σ} (h : drainAuthorizationsPublishing w workerId startId = some a) :
    OneRecord w.inner a.inner := by
  unfold drainAuthorizationsPublishing at h
  split at h
  · cases h
  · rename_i previous hc
    split_ifs at h
    cases h
    exact .insert { previous with includedInTopology := false } (ensureCurrentStart_ok hc).1 rfl rfl

theorem completeDrainPublishing_oneRecord {w : World p σ} {workerId startId : String}
    {drainId : Nat} {a : Publishing p σ}
    (h : completeDrainPublishing w workerId startId drainId = some a) :
    OneRecord w.inner a.inner := by
  unfold completeDrainPublishing at h
  split at h
  · cases h
  · rename_i previous hc
    split at h
    · cases h
    · split_ifs at h
      cases h
      exact .insert { previous.completed drainId with live := false }
        (ensureCurrentStart_ok hc).1 rfl rfl

theorem Op.publishing_oneRecord {store : ControllerStateStore σ} {w : World p σ} {op : Op}
    {a : Publishing p σ} (h : op.publishing store w = some a) : OneRecord w.inner a.inner := by
  cases op with
  | register registration => exact registerPublishing_oneRecord h
  | openHeartbeat workerId startId => cases h
  | heartbeat workerId startId lease sequence state => exact heartbeatPublishing_oneRecord h
  | closeHeartbeat workerId startId lease => exact closeHeartbeatPublishing_oneRecord h
  | setTargets workerId startId targets => exact setTargetsPublishing_oneRecord h
  | applyStateReport workerId startId placementGeneration reportSequence full states =>
    exact applyStateReportPublishing_oneRecord h
  | drainAuthorizations workerId startId => exact drainAuthorizationsPublishing_oneRecord h
  | completeDrain workerId startId drainId => exact completeDrainPublishing_oneRecord h

/-! ## the specification after a drop -/

theorem PublishedSpec.replicas {inner : Inner p} (h : PublishedSpec inner) (hk : Keyed inner)
    (i : Nat) (k : ExpertKey) : publishedReplicas inner i k = currentReplicas inner i k := by
  obtain ⟨hsome, hnone⟩ := h i k
  have hs := servingRoutes_currentReplicas hk i k
  unfold publishedReplicas
  cases hr : (inner.topologies[i]?).bind fun t => t.routes[k]? with
  | none =>
    have hempty : currentReplicas inner i k = [] := by
      apply List.eq_nil_iff_forall_not_mem.mpr
      intro route hroute
      obtain ⟨id, r, hid, hserving, _⟩ := (hs.exact route).mp hroute
      exact hnone.mp hr id r hid hserving
    rw [hempty]
    rfl
  | some l => exact ((hsome l).mp hr).2.unique hs

/-- dropped in the advance, a call leaves routes that are not those of the records -/
theorem droppedAdvancing_not_spec {store : ControllerStateStore σ} {w w' : World p σ} {op : Op}
    {committed : Bool} (h : (Call.droppedAdvancing op committed).step store w = some w')
    (hk : Keyed w.inner) : ¬ PublishedSpec w'.inner := by
  simp only [Call.step, Option.map_eq_some_iff, Option.filter_eq_some_iff] at h
  obtain ⟨a, ⟨ha, hadv⟩, hw'⟩ := h
  have hka : Keyed a.inner := (Op.publishing_oneRecord ha).keyed hk
  have hchanges : routeChanges a.inner a.instanceId a.affected ≠ [] := by
    simpa [Publishing.advances] using hadv
  obtain ⟨c, hc⟩ := List.exists_mem_of_ne_nil _ hchanges
  intro hspec
  rw [← hw'] at hspec
  unfold routeChanges at hc
  rw [List.mem_filterMap] at hc
  obtain ⟨key, _, hkey⟩ := hc
  split_ifs at hkey with he
  exact he (hspec.replicas hka a.instanceId key)

theorem Call.step_keyed {store : ControllerStateStore σ} {w w' : World p σ} {c : Call}
    (h : c.step store w = some w') (hk : Keyed w.inner) : Keyed w'.inner := by
  cases c with
  | returned op =>
    cases h
    exact (Op.run_oneRecord store w op).keyed hk
  | droppedBefore op committed =>
    cases h
    exact hk
  | droppedAdvancing op committed =>
    simp only [Call.step, Option.map_eq_some_iff, Option.filter_eq_some_iff] at h
    obtain ⟨a, ⟨ha, _⟩, rfl⟩ := h
    exact (Op.publishing_oneRecord ha).keyed hk

/-- every other call keeps the invariant behind the specification -/
theorem Call.step_tight {store : ControllerStateStore σ} {w w' : World p σ} {c : Call}
    (h : c.step store w = some w') (hc : c.duringAdvance = false)
    (ht : Tight w.inner ∧ Keyed w.inner) : Tight w'.inner ∧ Keyed w'.inner := by
  cases c with
  | returned op =>
    refine ⟨?_, Call.step_keyed h ht.2⟩
    cases h
    exact Op.run_tight store w op ht.1
  | droppedBefore op committed =>
    cases h
    exact ht
  | droppedAdvancing op committed => cases hc

theorem dropped_calls_spec {store : ControllerStateStore σ} {w w' : World p σ}
    (hstart : Started store w) {calls : List Call}
    (hrun : Steps.run (fun w (c : Call) => c.step store w) (fun _ _ => true) w calls = some w') :
    (∀ n x, Steps.run (fun w (c : Call) => c.step store w) (fun _ _ => true) w (calls.take n)
        = some x → PublishedSpec x.inner) ↔
      ∀ c ∈ calls, c.duringAdvance = false := by
  have htight : Tight w.inner ∧ Keyed w.inner :=
    ⟨reachable_tight hstart.reachable, reachable_keyed hstart.reachable⟩
  have hrule := Steps.run_prefixes_iff (fun c : Call => c.duringAdvance = false)
    (P := fun x : World p σ => PublishedSpec x.inner) (fun x hx => hx.1.publishedSpec hx.2)
    (fun x c x' hx hc hstep => Call.step_tight hstep hc hx) ?_ htight hrun
  · exact hrule
  · intro x c x' hx hc hstep
    cases c with
    | returned op => exact absurd rfl hc
    | droppedBefore op committed => exact absurd rfl hc
    | droppedAdvancing op committed => exact droppedAdvancing_not_spec hstep hx.2

end

namespace Fixture

/-- worker-0 serves expert (1, 2) -/
def serving : List Call :=
  (registerLive "worker-0" "start-0" 1).map .returned ++
    [.returned (.setTargets "worker-0" "start-0" [target 1 2]),
      .returned (.applyStateReport "worker-0" "start-0" 1 1 true [ready 1 2])]

def callRun (calls : List Call) : Option (World parsers ControllerStoreSnapshot) :=
  Steps.run (fun w (c : Call) => c.step TransientControllerStateStore w) (fun _ _ => true) start
    calls

def newProcess : Op := .register (registration "worker-0" "start-1")

theorem callRun_keyed {calls : List Call} {w : World parsers ControllerStoreSnapshot}
    (h : callRun calls = some w) : Keyed w.inner :=
  (Steps.Reach.of_run .refl h).invariant (keyed_of_empty rfl)
    (fun _ _ _ hk _ hstep => Call.step_keyed hstep hk)

end Fixture

theorem dropped_calls_spec_saved :
    ∃ w, Fixture.callRun (Fixture.serving ++
        [.droppedBefore (.setTargets "worker-0" "start-0" []) true]) = some w ∧
      w.stored.placements.map PersistedPlacement.generation = [2] ∧ PublishedSpec w.inner := by
  obtain ⟨w, hw, hs⟩ := (Option.any_eq_true
    (fun w : World Fixture.parsers ControllerStoreSnapshot =>
      w.stored.placements.map PersistedPlacement.generation == [2])
    (Fixture.callRun (Fixture.serving ++
      [.droppedBefore (.setTargets "worker-0" "start-0" []) true]))).mp (by decide +kernel)
  have hspec := (dropped_calls_spec (.new 8 (by decide) _) hw).mpr (by decide)
  exact ⟨w, hw, by simpa using hs, hspec _ w (by rw [List.take_length]; exact hw)⟩

/-- the route to the replaced process stays, also after the same call again -/
theorem dropped_register_keeps_route :
    ∃ dropped repeated,
      Fixture.callRun (Fixture.serving ++ [.droppedAdvancing Fixture.newProcess false])
        = some dropped ∧
      Fixture.callRun (Fixture.serving ++ [.droppedAdvancing Fixture.newProcess false,
        .returned Fixture.newProcess]) = some repeated ∧
      (repeated.inner.routes 7)[(⟨1, 2⟩ : ExpertKey)]?.map (List.map WorkerRoute.startId)
        = some ["start-0"] ∧
      ¬ PublishedSpec dropped.inner ∧ ¬ PublishedSpec repeated.inner := by
  obtain ⟨dropped, hd, hd'⟩ := (Option.any_eq_true
    (fun w : World Fixture.parsers ControllerStoreSnapshot =>
      publishedReplicas w.inner 7 ⟨1, 2⟩ != currentReplicas w.inner 7 ⟨1, 2⟩)
    (Fixture.callRun (Fixture.serving ++ [.droppedAdvancing Fixture.newProcess false]))).mp
      (by decide +kernel)
  obtain ⟨repeated, hr, hr'⟩ := (Option.any_eq_true
    (fun w : World Fixture.parsers ControllerStoreSnapshot =>
      (publishedReplicas w.inner 7 ⟨1, 2⟩ != currentReplicas w.inner 7 ⟨1, 2⟩) &&
        (w.inner.routes 7)[(⟨1, 2⟩ : ExpertKey)]?.map (List.map WorkerRoute.startId)
          == some ["start-0"])
    (Fixture.callRun (Fixture.serving ++ [.droppedAdvancing Fixture.newProcess false,
      .returned Fixture.newProcess]))).mp (by decide +kernel)
  rw [Bool.and_eq_true, bne_iff_ne, beq_iff_eq] at hr'
  refine ⟨dropped, repeated, hd, hr, hr'.2, ?_, ?_⟩
  · intro h
    exact bne_iff_ne.mp hd' (h.replicas (Fixture.callRun_keyed hd) 7 ⟨1, 2⟩)
  · intro h
    exact hr'.1 (h.replicas (Fixture.callRun_keyed hr) 7 ⟨1, 2⟩)

end ExpertKit.Controller

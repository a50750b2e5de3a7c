import ExpertKit.Frontend.Decode
import ExpertKit.Routing.Dispatch
import ExpertKit.Lib.Steps

/-!
# Frontend: the topology watcher and its Worker connections

`ControllerTopologyWatcher` of `ek-transport/src/expertkit_transport/controller/topology.py`.  One
task reads the Topology stream; a complete message is installed after the connections of its new
Workers have been created, one after another.  Connections that are no longer routed are closed by
tasks of their own, which take the output pool out of the mapping last.

* `Watcher`, `Watcher.step`    the state and one step of one of the tasks;
* `createWorkerResources`      the three calls that can raise, and what is closed then;
* `Watcher.Ok`                 what holds in every state: the installed Workers are connected;
* `Watcher.installs`           a complete message is installed once its connections are made;
* `failed_connection_survived`   which failures of a connection leave the routing in place.

The numbers of the resources stand for object identity (`is`); closing is one step for the
connections of a failed attempt, and three steps for a retired one.
-/

set_option linter.unusedSectionVars false

namespace ExpertKit.Frontend
open Std

/-! ## exceptions -/

def codeValue : Routing.TransportErrorCode → String
  | .busy => "busy"
  | .draining => "draining"
  | .staleTopology => "stale_topology"
  | .expertNotReady => "expert_not_ready"
  | .invalidRequest => "invalid_request"
  | .unsupported => "unsupported"
  | .unavailable => "unavailable"
  | .deadlineExceeded => "deadline_exceeded"
  | .cancelled => "cancelled"
  | .protocol => "protocol"

/-- an exception in the watch task; `rpc` is `grpc.aio.AioRpcError` -/
inductive WatchError where
  | rpc (status : String)
  | transport (error : Routing.TransportError)
  | protocol (error : TopologyProtocolError)
  | other (what : String)
deriving DecidableEq, Repr

def WatchError.text : WatchError → String
  | .rpc status => status
  | .transport error => if error.diagnostic.isEmpty then codeValue error.code else error.diagnostic
  | .protocol error => error.message
  | .other what => what

def WatchError.isRpc : WatchError → Bool
  | .rpc _ => true
  | _ => false

/-! ## the state -/

structure WatcherConfig where
  instanceId : Nat
  numLayers : Nat
  expertsPerLayer : Nat
  hiddenDim : Nat
  dtype : Routing.Dtype
  device : String
deriving DecidableEq

def WorkerRoute.process (route : WorkerRoute) : Routing.WorkerIdentity :=
  ⟨route.identity.workerId, route.identity.startId⟩

/-- `_WorkerConnectionResources` -/
structure Resources where
  serial : Nat
  route : WorkerRoute
  target : Routing.WorkerConnection
  pool : Routing.OutputPool
deriving DecidableEq

/-- the Transport and the pool of one creation -/
inductive Part where
  | transport (serial : Nat)
  | pool (serial : Nat)
deriving DecidableEq, Repr

/-- how far a `_retire_worker_resources` task is -/
inductive RetireStage where
  | created
  | closingTransport
  | closingPool
deriving DecidableEq, Repr

structure Retirement where
  resources : Resources
  stage : RetireStage
  raised : Bool
deriving DecidableEq

/-- where the watch task waits: for a message, for the connection of the first route of `rest`, for
the reconnect delay, or nowhere any more -/
inductive Watching where
  | streaming
  | creating (version : Nat) (descriptions : RouteDescriptions) (required rest : List WorkerRoute)
      (created : List Resources)
  | reconnecting
  | stopped
deriving DecidableEq

structure Watcher where
  config : WatcherConfig
  snapshot : Routing.TopologySnapshot
  routeDescriptions : RouteDescriptions
  resources : ExtTreeMap Routing.WorkerIdentity Resources
  pools : ExtTreeMap Routing.WorkerIdentity Resources
  messages : TopologyMessageAssembler
  firstInstall : Bool
  failure : Option WatchError
  watching : Watching
  cleanup : List Retirement
  nextSerial : Nat
  opened : List Part
  closing : List Part
  closed : List Part

def emptySnapshot (instanceId : Nat) : Routing.TopologySnapshot where
  instanceId := instanceId
  version := 0
  routes := ∅
  nonempty := by simp
  distinct := by simp
  consistent := by simp

def Watcher.start (config : WatcherConfig) : Watcher where
  config := config
  snapshot := emptySnapshot config.instanceId
  routeDescriptions := ∅
  resources := ∅
  pools := ∅
  messages := ⟨config.instanceId, config.numLayers, config.expertsPerLayer, none⟩
  firstInstall := false
  failure := none
  watching := .streaming
  cleanup := []
  nextSerial := 0
  opened := []
  closing := []
  closed := []

namespace Watcher

def transportError (code : Routing.TransportErrorCode) (diagnostic : String) (retryable : Bool) :
    Routing.Raised :=
  .transport ⟨code, retryable, none, none, [], diagnostic⟩

def current (w : Watcher) (instanceId : Nat) : Except Routing.Raised Routing.TopologySnapshot :=
  if instanceId ≠ w.config.instanceId then
    .error (.other "requested instance does not match this topology provider")
  else
    match w.failure with
    | some e => .error (transportError .protocol ("the topology stream failed: " ++ e.text) false)
    | none =>
      if !w.firstInstall then
        .error (transportError .unavailable "the initial topology snapshot is not installed" true)
      else .ok w.snapshot

/-- `refresh` after its `sleep(0)`; the deadline was checked before -/
def refresh (w : Watcher) (instanceId observedVersion : Nat) :
    Except Routing.Raised Routing.TopologySnapshot :=
  match w.current instanceId with
  | .error raised => .error raised
  | .ok snapshot =>
    if snapshot.version < observedVersion then
      .error (transportError .protocol "the installed topology version moved backwards" false)
    else .ok snapshot

/-! ## creating connections -/

def openPart (w : Watcher) (part : Part) : Watcher := { w with opened := part :: w.opened }

def closePart (w : Watcher) (part : Part) : Watcher :=
  { w with closing := part :: w.closing, closed := part :: w.closed }

/-- `_close_worker_resources`, awaited -/
def closeResources (w : Watcher) (r : Resources) : Watcher :=
  (w.closePart (.transport r.serial)).closePart (.pool r.serial)

end Watcher

/-- what `create_worker_transport`, `OutputPool` and `transport.start` raise -/
structure Creation where
  transport : Option WatchError
  pool : Option WatchError
  start : Option WatchError
deriving DecidableEq

/-- the exception of a creation, if it has one -/
def Creation.error (c : Creation) : Option WatchError := c.transport.or (c.pool.or c.start)

def WorkerRoute.positive (route : WorkerRoute) : Prop :=
  0 < route.maxBatchTokens ∧ 0 < route.maxActiveBatches ∧ 0 < route.maxPendingBatches

instance (route : WorkerRoute) : Decidable route.positive :=
  inferInstanceAs (Decidable (0 < route.maxBatchTokens ∧ 0 < route.maxActiveBatches ∧
    0 < route.maxPendingBatches))

def outputPool (config : WatcherConfig) (route : WorkerRoute) : Routing.OutputPool :=
  ⟨route.maxBatchTokens, config.hiddenDim, config.dtype, config.device⟩

/-- `WorkerConnection`, which refuses limits that are not positive -/
def workerConnection (route : WorkerRoute) : Except WatchError Routing.WorkerConnection :=
  if h : route.positive then
    .ok ⟨route.process, route.maxBatchTokens, route.maxActiveBatches, route.maxPendingBatches,
      h.1, h.2.1, h.2.2⟩
  else if route.maxBatchTokens = 0 then .error (.other "max_batch_tokens must be positive")
  else if route.maxActiveBatches = 0 then .error (.other "max_active_batches must be positive")
  else .error (.other "max_pending_batches must be positive")

namespace Watcher

/-- `_create_worker_resources` -/
def createWorkerResources (w : Watcher) (c : Creation) (route : WorkerRoute) :
    Except WatchError Resources × Watcher :=
  let serial := w.nextSerial
  let w := { w with nextSerial := serial + 1 }
  match c.transport with
  | some e => (.error e, w)
  | none =>
    let w := w.openPart (.transport serial)
    match c.pool with
    | some e => (.error e, w.closePart (.transport serial))
    | none =>
      let w := w.openPart (.pool serial)
      match c.start with
      | some e => (.error e, (w.closePart (.pool serial)).closePart (.transport serial))
      | none =>
        match workerConnection route with
        | .error e => (.error e, w)
        | .ok target => (.ok ⟨serial, route, target, outputPool w.config route⟩, w)

end Watcher

/-! ## installing -/

/-- the first loop of `_install`: one route for every Worker process -/
def requiredRoutes : List WorkerRoute → List WorkerRoute →
    Except TopologyProtocolError (List WorkerRoute)
  | [], required => .ok required
  | route :: rest, required =>
    match required.find? fun existing => decide (existing.process = route.process) with
    | none => requiredRoutes rest (required ++ [route])
    | some existing =>
      if existing ≠ route then
        .error ⟨"one Worker process has inconsistent topology metadata"⟩
      else requiredRoutes rest required

/-- `TopologySnapshot` with the checks of its `__post_init__` -/
def topologySnapshot (instanceId version : Nat)
    (routes : ExtTreeMap ExpertKey (List Routing.WorkerConnection)) :
    Except WatchError Routing.TopologySnapshot :=
  if h1 : ∀ e ∈ routes.toList, e.2 ≠ [] then
    if h2 : ∀ e ∈ routes.toList, (e.2.map Routing.WorkerConnection.identity).Nodup then
      if h3 : ∀ e ∈ routes.toList, ∀ e' ∈ routes.toList, ∀ target ∈ e.2, ∀ target' ∈ e'.2,
          target.identity = target'.identity → target = target' then
        .ok {
          instanceId := instanceId
          version := version
          routes := routes
          nonempty := fun key replicas h =>
            h1 (key, replicas) (ExtTreeMap.mem_toList_iff_getElem?_eq_some.mpr h)
          distinct := fun key replicas h =>
            h2 (key, replicas) (ExtTreeMap.mem_toList_iff_getElem?_eq_some.mpr h)
          consistent := fun key key' replicas replicas' h h' =>
            h3 (key, replicas) (ExtTreeMap.mem_toList_iff_getElem?_eq_some.mpr h)
              (key', replicas') (ExtTreeMap.mem_toList_iff_getElem?_eq_some.mpr h') }
      else .error (.other "one Worker process must have consistent route metadata")
    else .error (.other "an expert route must not repeat a Worker process")
  else .error (.other "a published expert route must have at least one replica")

namespace Watcher

/-- the exception handlers of `_watch` -/
def fail (w : Watcher) (e : WatchError) : Watcher :=
  match e with
  | .rpc _ =>
    { w with messages := { w.messages with pending := none }, watching := .reconnecting }
  | e => { w with failure := some e, firstInstall := true, watching := .stopped }

/-- a required route whose connection can be kept -/
def connected (w : Watcher) (route : WorkerRoute) : Bool :=
  (w.resources[route.process]?).any fun r => decide (r.route = route)

/-- `new_resources`: what was created, and the old connections of the other required Workers -/
def newResources (w : Watcher) (required : List WorkerRoute) (created : List Resources) :
    ExtTreeMap Routing.WorkerIdentity Resources :=
  Maps.insertAll (fun r => r.route.process) id ∅
    (required.filterMap fun route =>
      (created.find? fun r => decide (r.route.process = route.process)).or
        w.resources[route.process]?)

/-- the connections of the routes; every required process has one -/
def targetsOf (resources : ExtTreeMap Routing.WorkerIdentity Resources)
    (descriptions : RouteDescriptions) : ExtTreeMap ExpertKey (List Routing.WorkerConnection) :=
  descriptions.map fun _ replicas =>
    replicas.filterMap fun route => (resources[route.process]?).map Resources.target

/-- the second half of `_install`, without a suspension point -/
def commit (w : Watcher) (version : Nat) (descriptions : RouteDescriptions)
    (required : List WorkerRoute) (created : List Resources) : Watcher :=
  let new := w.newResources required created
  match topologySnapshot w.config.instanceId version (targetsOf new descriptions) with
  | .error e => w.fail e
  | .ok snapshot =>
    { w with
      resources := new
      pools := Maps.insertAll Prod.fst Prod.snd w.pools new.toList
      routeDescriptions := descriptions
      snapshot := snapshot
      firstInstall := true
      watching := .streaming
      cleanup := w.cleanup ++ (w.resources.toList.filter fun e => new[e.1]? ≠ some e.2).map
        fun e => ⟨e.2, .created, false⟩ }

/-- the creation loop of `_install`, up to the next route without a connection -/
def continueInstall (w : Watcher) (version : Nat) (descriptions : RouteDescriptions)
    (required rest : List WorkerRoute) (created : List Resources) : Watcher :=
  match rest.dropWhile w.connected with
  | [] => w.commit version descriptions required created
  | rest => { w with watching := .creating version descriptions required rest created }

def install (w : Watcher) (version : Nat) (descriptions : RouteDescriptions) : Watcher :=
  match requiredRoutes (Maps.values descriptions).flatten [] with
  | .error e => w.fail (.protocol e)
  | .ok required => w.continueInstall version descriptions required required []

/-- `_consume` -/
def consume (w : Watcher) (message : TopologyMessage) : Watcher :=
  match Frontend.consume w.messages message w.snapshot.version w.routeDescriptions with
  | .error e => w.fail (.protocol e)
  | .ok (none, messages) => { w with messages := messages }
  | .ok (some (version, descriptions), messages) =>
    { w with messages := messages }.install version descriptions

/-- `_retire_worker_resources` up to its next suspension point -/
def retire (w : Watcher) (task : Retirement) (raised : Bool) : Watcher :=
  let others := w.cleanup.erase task
  let r := task.resources
  match task.stage with
  | .created =>
    { w with
      cleanup := ⟨r, .closingTransport, false⟩ :: others
      closing := .transport r.serial :: w.closing }
  | .closingTransport =>
    { w with
      cleanup := ⟨r, .closingPool, raised⟩ :: others
      closing := .pool r.serial :: w.closing
      closed := .transport r.serial :: w.closed }
  | .closingPool =>
    { w with
      cleanup := others
      closed := .pool r.serial :: w.closed
      pools :=
        -- an exception of either `close` ends the task before this
        if !task.raised && !raised && w.resources[r.route.process]? != some r &&
            w.pools[r.route.process]? == some r then
          w.pools.erase r.route.process
        else w.pools }

end Watcher

inductive WatcherEvent where
  | message (message : TopologyMessage)
  | create (creation : Creation)
  | disconnected
  | reconnect
  | retire (task : Retirement) (raised : Bool)

/-- one step of the watch task or of a cleanup task -/
def Watcher.step (w : Watcher) : WatcherEvent → Option Watcher
  | .message message =>
    if w.watching = .streaming then some (w.consume message) else none
  | .create c =>
    match w.watching with
    | .creating version descriptions required (route :: rest) created =>
      match w.createWorkerResources c route with
      | (.ok r, w) => some (w.continueInstall version descriptions required rest (created ++ [r]))
      | (.error e, w) => some ((created.foldl Watcher.closeResources w).fail e)
    | _ => none
  | .disconnected =>
    if w.watching = .streaming then some (w.fail (.rpc "")) else none
  | .reconnect =>
    if w.watching = .reconnecting then some { w with watching := .streaming } else none
  | .retire task raised => if task ∈ w.cleanup then some (w.retire task raised) else none

/-! ## what the assembler accepts -/

theorem checkReplica_positive {replica : ExpertKit.WorkerRoute}
    (h : checkReplica replica = .ok ()) : (describe replica).positive := by
  have hpos : ∀ name n, validatePositive name n = .ok () → 0 < n := by
    intro name n hn
    unfold validatePositive at hn
    split_ifs at hn with hle
    omega
  unfold checkReplica at h
  cases h1 : validatePositive "max_active_batches" replica.maxActiveBatches with
  | error e =>
    rw [h1] at h
    simp only [bind, Except.bind] at h
    split_ifs at h
  | ok u =>
    cases h2 : validatePositive "max_pending_batches" replica.maxPendingBatches with
    | error e =>
      rw [h1, h2] at h
      simp only [bind, Except.bind] at h
      split_ifs at h
    | ok u =>
      cases h3 : validatePositive "max_batch_tokens" replica.maxBatchTokens with
      | error e =>
        rw [h1, h2, h3] at h
        simp only [bind, Except.bind] at h
        split_ifs at h
      | ok u => exact ⟨hpos _ _ h3, hpos _ _ h1, hpos _ _ h2⟩

/-- the replicas of one route: distinct processes with positive limits -/
structure ReplicasOk (replicas : List WorkerRoute) : Prop where
  distinct : (replicas.map WorkerRoute.identity).Nodup
  positive : ∀ route ∈ replicas, route.positive

theorem decodeReplicas_replicasOk {metadata metadata' : WorkerMetadata}
    {identities : List WorkerIdentity} {replicas : List ExpertKit.WorkerRoute}
    {routes : List WorkerRoute}
    (h : decodeReplicas metadata identities replicas = .ok (routes, metadata')) :
    ReplicasOk routes ∧ ∀ route ∈ routes, route.identity ∉ identities := by
  induction replicas generalizing metadata identities routes with
  | nil =>
    cases h
    exact ⟨⟨List.nodup_nil, by simp⟩, by simp⟩
  | cons replica replicas ih =>
    unfold decodeReplicas at h
    simp only [bind, Except.bind] at h
    cases hc : checkReplica replica with
    | error e => rw [hc] at h; cases h
    | ok u =>
      rw [hc] at h
      simp only at h
      split_ifs at h with h1 h2 h3
      all_goals
        split at h
        · cases h
        · rename_i result hrest
          obtain ⟨more, metadata2⟩ := result
          cases h
          obtain ⟨hok, hnew⟩ := ih hrest
          refine ⟨⟨?_, ?_⟩, ?_⟩
          · rw [List.map_cons, List.nodup_cons]
            refine ⟨?_, hok.distinct⟩
            intro hmem
            obtain ⟨route, hr, hid⟩ := List.mem_map.mp hmem
            exact hnew route hr (by rw [hid]; exact List.mem_cons_self)
          · intro route hr
            rcases List.mem_cons.mp hr with rfl | hr
            · exact checkReplica_positive hc
            · exact hok.positive route hr
          · intro route hr
            rcases List.mem_cons.mp hr with rfl | hr
            · exact h1
            · exact fun hmem => hnew route hr (List.mem_cons_of_mem _ hmem)

theorem decodeLoop_replicasOk {numLayers expertsPerLayer : Nat} {allowEmpty : Bool}
    {decoded decoded' : RouteDescriptions} {metadata : WorkerMetadata} {routes : List RouteEntry}
    (h : decodeLoop numLayers expertsPerLayer allowEmpty decoded metadata routes = .ok decoded')
    (h0 : ∀ (key : ExpertKey) (replicas : List WorkerRoute), decoded[key]? = some replicas →
      ReplicasOk replicas ∧ (allowEmpty = false → replicas ≠ [])) :
    ∀ (key : ExpertKey) (replicas : List WorkerRoute), decoded'[key]? = some replicas →
      ReplicasOk replicas ∧ (allowEmpty = false → replicas ≠ []) := by
  induction routes generalizing decoded metadata with
  | nil =>
    cases h
    exact h0
  | cons route routes ih =>
    unfold decodeLoop at h
    simp only [bind, Except.bind] at h
    split_ifs at h with h1 h2
    split at h
    · cases h
    · rename_i result hreplicas
      obtain ⟨replicas, metadata2⟩ := result
      simp only at h
      split_ifs at h with h3
      refine ih h ?_
      intro key found hf
      rw [Maps.getElem?_insert_eq] at hf
      split_ifs at hf with hk
      · cases hf
        refine ⟨(decodeReplicas_replicasOk hreplicas).1, ?_⟩
        rintro rfl rfl
        exact h3 rfl
      · exact h0 key found hf

/-- the routes of a view: never empty, distinct processes, positive limits -/
def RoutesOk (descriptions : RouteDescriptions) : Prop :=
  ∀ (key : ExpertKey) (replicas : List WorkerRoute), descriptions[key]? = some replicas →
    ReplicasOk replicas ∧ replicas ≠ []

theorem routesOk_empty : RoutesOk ∅ := by
  intro key replicas h
  simp at h

theorem applyChanges_routesOk {decoded descriptions descriptions' : RouteDescriptions}
    {seen : List ExpertKey} {changes : List RouteEntry}
    (h : applyChanges decoded descriptions seen changes = .ok descriptions')
    (hd : ∀ (key : ExpertKey) (replicas : List WorkerRoute), decoded[key]? = some replicas →
      ReplicasOk replicas)
    (h0 : RoutesOk descriptions) : RoutesOk descriptions' := by
  induction changes generalizing descriptions seen with
  | nil =>
    cases h
    exact h0
  | cons change changes ih =>
    unfold applyChanges at h
    split_ifs at h with hseen
    refine ih h ?_
    intro key replicas hk
    unfold applyDecoded at hk
    simp only at hk
    split_ifs at hk with hempty
    · rw [Maps.getElem?_erase_eq] at hk
      split_ifs at hk with he
      exact h0 key replicas hk
    · rw [Maps.getElem?_insert_eq] at hk
      split_ifs at hk with he
      · cases hk
        cases hc : decoded[change.key]? with
        | none => simp [hc] at hempty
        | some found =>
          rw [hc] at hempty
          simp only [Option.getD_some, List.isEmpty_iff] at hempty ⊢
          exact ⟨hd _ _ hc, hempty⟩
      · exact h0 key replicas hk

theorem completeSnapshot_routesOk {a : TopologyMessageAssembler} {version installedVersion : Nat}
    {routes : List RouteEntry} {installedRoutes : RouteDescriptions}
    {view : Nat × RouteDescriptions}
    (h : completeSnapshot a version routes installedVersion installedRoutes = .ok view) :
    RoutesOk view.2 := by
  unfold completeSnapshot at h
  simp only [bind, Except.bind] at h
  split at h
  · cases h
  · rename_i descriptions hdecode
    split_ifs at h
    cases h
    intro key replicas hk
    have hall := decodeLoop_replicasOk hdecode (by simp) key replicas hk
    exact ⟨hall.1, hall.2 rfl⟩

theorem completeUpdate_routesOk {a : TopologyMessageAssembler}
    {previousVersion version installedVersion : Nat} {changes : List RouteEntry}
    {installedRoutes : RouteDescriptions} {view : Nat × RouteDescriptions}
    (h : completeUpdate a previousVersion version changes installedVersion installedRoutes
      = .ok view)
    (h0 : RoutesOk installedRoutes) : RoutesOk view.2 := by
  unfold completeUpdate at h
  simp only [bind, Except.bind] at h
  split_ifs at h
  split at h
  · cases h
  · rename_i decoded hdecode
    split at h
    · cases h
    · rename_i descriptions happly
      cases h
      refine applyChanges_routesOk happly ?_ h0
      intro key replicas hk
      exact (decodeLoop_replicasOk hdecode (by simp) key replicas hk).1

theorem consumePart_routesOk {a a' : TopologyMessageAssembler} {header : PartHeader}
    {entries : List RouteEntry} {installedVersion : Nat} {installedRoutes : RouteDescriptions}
    {view : Nat × RouteDescriptions}
    (h : consumePart a header entries installedVersion installedRoutes = .ok (some view, a'))
    (h0 : RoutesOk installedRoutes) : RoutesOk view.2 := by
  unfold consumePart at h
  simp only [bind, Except.bind] at h
  split at h
  · cases h
  · split at h
    · cases h
    · split_ifs at h with h1 h2
      · cases h
      · split at h
        · split at h
          · cases h
          · rename_i hview
            cases h
            exact completeUpdate_routesOk hview h0
        · split at h
          · cases h
          · rename_i hview
            cases h
            exact completeSnapshot_routesOk hview

/-- a complete message leads to routes that can be installed -/
theorem consume_routesOk {a a' : TopologyMessageAssembler} {message : TopologyMessage}
    {installedVersion : Nat} {installedRoutes : RouteDescriptions}
    {view : Nat × RouteDescriptions}
    (h : consume a message installedVersion installedRoutes = .ok (some view, a'))
    (h0 : RoutesOk installedRoutes) : RoutesOk view.2 := by
  unfold consume at h
  split at h
  · split_ifs at h
    exact consumePart_routesOk h h0
  · split_ifs at h
    exact consumePart_routesOk h h0
  · cases h

/-! ## the required routes -/

theorem requiredRoutes_spec {routes required required' : List WorkerRoute}
    (h : requiredRoutes routes required = .ok required')
    (h0 : required.Pairwise fun a b => a.process ≠ b.process) :
    required'.Pairwise (fun a b => a.process ≠ b.process) ∧
      ∀ route, route ∈ required' ↔ route ∈ required ∨ route ∈ routes := by
  induction routes generalizing required with
  | nil =>
    cases h
    exact ⟨h0, fun route => by simp⟩
  | cons route routes ih =>
    unfold requiredRoutes at h
    split at h
    · rename_i hnone
      have hnew : ∀ existing ∈ required, existing.process ≠ route.process := by
        intro existing he heq
        have hfalse := List.find?_eq_none.mp hnone existing he
        exact hfalse (decide_eq_true heq)
      have hpair : (required ++ [route]).Pairwise fun a b => a.process ≠ b.process := by
        rw [List.pairwise_append]
        refine ⟨h0, List.pairwise_singleton _ _, ?_⟩
        intro a ha b hb
        rw [List.mem_singleton.mp hb]
        exact hnew a ha
      obtain ⟨h1, h2⟩ := ih h hpair
      refine ⟨h1, fun r => ?_⟩
      rw [h2, List.mem_append, List.mem_singleton, List.mem_cons, or_assoc]
    · rename_i existing hsome
      split_ifs at h with hne
      have heq : existing = route := not_not.mp hne
      obtain ⟨h1, h2⟩ := ih h h0
      refine ⟨h1, fun r => ?_⟩
      rw [h2, List.mem_cons]
      constructor
      · rintro (hr | hr)
        · exact .inl hr
        · exact .inr (.inr hr)
      · rintro (hr | rfl | hr)
        · exact .inl hr
        · exact .inl (heq ▸ List.mem_of_find?_eq_some hsome)
        · exact .inr hr

/-- the routes of the Workers that a view names, one for each process -/
structure Required (descriptions : RouteDescriptions) (required : List WorkerRoute) : Prop where
  distinct : required.Pairwise fun a b => a.process ≠ b.process
  mem : ∀ route, route ∈ required ↔
    ∃ (key : ExpertKey) (replicas : List WorkerRoute),
      descriptions[key]? = some replicas ∧ route ∈ replicas

theorem required_of_requiredRoutes {descriptions : RouteDescriptions} {required : List WorkerRoute}
    (h : requiredRoutes (Maps.values descriptions).flatten [] = .ok required) :
    Required descriptions required := by
  obtain ⟨h1, h2⟩ := requiredRoutes_spec h List.Pairwise.nil
  refine ⟨h1, fun route => ?_⟩
  rw [h2, List.mem_flatten]
  constructor
  · rintro (hr | ⟨replicas, hr, hmem⟩)
    · cases hr
    · obtain ⟨key, hk⟩ := Maps.mem_values.mp hr
      exact ⟨key, replicas, hk, hmem⟩
  · rintro ⟨key, replicas, hk, hmem⟩
    exact .inr ⟨replicas, Maps.mem_values.mpr ⟨key, hk⟩, hmem⟩

theorem Required.eq_of_process {descriptions : RouteDescriptions} {required : List WorkerRoute}
    (h : Required descriptions required) {a b : WorkerRoute} (ha : a ∈ required)
    (hb : b ∈ required) (hp : a.process = b.process) : a = b := by
  have : Std.Symm fun a b : WorkerRoute => a.process ≠ b.process := ⟨fun _ _ hne => hne.symm⟩
  by_contra hne
  exact h.distinct.forall ha hb hne hp

/-! ## the invariant -/

def Part.serial : Part → Nat
  | .transport serial => serial
  | .pool serial => serial

/-- the connection and the pool are those of the route -/
structure Resources.Ok (config : WatcherConfig) (r : Resources) : Prop where
  identity : r.target.identity = r.route.process
  tokens : r.target.maxBatchTokens = r.route.maxBatchTokens
  pool : r.pool = outputPool config r.route

/-- neither the Transport nor the pool is closed or being closed -/
def Watcher.IsOpen (w : Watcher) (r : Resources) : Prop :=
  ∀ part ∈ w.closing, part.serial ≠ r.serial

/-- every route of the view is connected, and its pool is in the mapping and open -/
structure Watcher.Core (w : Watcher) : Prop where
  routes : RoutesOk w.routeDescriptions
  own : ∀ (i : Routing.WorkerIdentity) (r : Resources), w.resources[i]? = some r →
    r.route.process = i ∧ r.Ok w.config ∧ r.serial < w.nextSerial ∧ w.IsOpen r ∧
      w.pools[i]? = some r
  pool : ∀ (i : Routing.WorkerIdentity) (r : Resources), w.pools[i]? = some r →
    r.route.process = i ∧ r.Ok w.config
  serials : ∀ (i j : Routing.WorkerIdentity) (r r' : Resources), w.resources[i]? = some r →
    w.resources[j]? = some r' → r.serial = r'.serial → r = r'
  routed : ∀ (key : ExpertKey) (replicas : List WorkerRoute),
    w.routeDescriptions[key]? = some replicas → ∀ route ∈ replicas, w.connected route = true
  instanceId : w.snapshot.instanceId = w.config.instanceId
  snapshot : w.snapshot.routes = Watcher.targetsOf w.resources w.routeDescriptions
  retired : ∀ task ∈ w.cleanup, task.resources.serial < w.nextSerial ∧
    ∀ (i : Routing.WorkerIdentity) (r : Resources), w.resources[i]? = some r →
      r.serial ≠ task.resources.serial
  closing : ∀ part ∈ w.closing, part.serial < w.nextSerial

/-- what an installation has done so far -/
structure Watcher.Installing (w : Watcher) (descriptions : RouteDescriptions)
    (required rest : List WorkerRoute) (created : List Resources) : Prop where
  routes : RoutesOk descriptions
  named : Required descriptions required
  left : ∀ route ∈ rest, route ∈ required
  done : ∀ route ∈ required, route ∈ rest ∨ w.connected route = true ∨
    ∃ r ∈ created, r.route = route
  made : ∀ r ∈ created, r.route ∈ required ∧ r.Ok w.config ∧ r.serial < w.nextSerial ∧
    w.IsOpen r
  fresh : ∀ r ∈ created, (∀ (i : Routing.WorkerIdentity) (r' : Resources),
      w.resources[i]? = some r' → r'.serial ≠ r.serial) ∧
    ∀ task ∈ w.cleanup, task.resources.serial ≠ r.serial
  distinct : created.Pairwise fun r r' => r.serial ≠ r'.serial

structure Watcher.Ok (w : Watcher) : Prop where
  core : w.Core
  installing : ∀ version descriptions required rest created,
    w.watching = .creating version descriptions required rest created →
      w.Installing descriptions required rest created

namespace Watcher

theorem connected_iff {w : Watcher} {route : WorkerRoute} :
    w.connected route = true ↔ ∃ r, w.resources[route.process]? = some r ∧ r.route = route := by
  unfold connected
  rw [Option.any_eq_true]
  simp

/-- serial numbers may be spent, and parts closed that no installed Worker uses -/
theorem Core.grow {w w' : Watcher} (h : w.Core) (h1 : w'.config = w.config)
    (h2 : w'.snapshot = w.snapshot) (h3 : w'.routeDescriptions = w.routeDescriptions)
    (h4 : w'.resources = w.resources) (h5 : w'.pools = w.pools) (h6 : w'.cleanup = w.cleanup)
    (h7 : w.nextSerial ≤ w'.nextSerial)
    (h8 : ∀ part ∈ w'.closing, part ∈ w.closing ∨ (part.serial < w'.nextSerial ∧
      ∀ (i : Routing.WorkerIdentity) (r : Resources), w.resources[i]? = some r →
        r.serial ≠ part.serial)) : w'.Core := by
  have hc : ∀ route, w'.connected route = w.connected route := by
    intro route
    unfold connected
    rw [h4]
  refine ⟨?_, ?_, ?_, ?_, ?_, ?_, ?_, ?_, ?_⟩
  · rw [h3]; exact h.routes
  · intro i r hr
    rw [h4] at hr
    obtain ⟨a, b, c, d, e⟩ := h.own i r hr
    rw [h1, h5]
    refine ⟨a, b, by omega, ?_, e⟩
    intro part hpart
    rcases h8 part hpart with hold | ⟨_, hnew⟩
    · exact d part hold
    · exact (hnew i r hr).symm
  · simp only [h1, h5]; exact h.pool
  · simp only [h4]; exact h.serials
  · simp only [h3, hc]; exact h.routed
  · rw [h2, h1]; exact h.instanceId
  · rw [h2, h3, h4]; exact h.snapshot
  · intro task ht
    rw [h6] at ht
    rw [h4]
    exact ⟨by have := (h.retired task ht).1; omega, (h.retired task ht).2⟩
  · intro part hpart
    rcases h8 part hpart with hold | ⟨hnew, _⟩
    · have := h.closing part hold
      omega
    · exact hnew

/-- the fields that the invariant does not read can change -/
theorem Core.frame {w w' : Watcher} (h : w.Core) (h1 : w'.config = w.config)
    (h2 : w'.snapshot = w.snapshot) (h3 : w'.routeDescriptions = w.routeDescriptions)
    (h4 : w'.resources = w.resources) (h5 : w'.pools = w.pools) (h6 : w'.cleanup = w.cleanup)
    (h7 : w'.nextSerial = w.nextSerial) (h8 : w'.closing = w.closing) : w'.Core :=
  h.grow h1 h2 h3 h4 h5 h6 h7.ge fun _ hpart => .inl (h8 ▸ hpart)

theorem Installing.frame {w w' : Watcher} {descriptions : RouteDescriptions}
    {required rest : List WorkerRoute} {created : List Resources}
    (h : w.Installing descriptions required rest created) (h1 : w'.config = w.config)
    (h2 : w'.resources = w.resources) (h3 : w'.cleanup = w.cleanup)
    (h4 : w'.nextSerial = w.nextSerial) (h5 : w'.closing = w.closing) :
    w'.Installing descriptions required rest created := by
  have hc : ∀ route, w'.connected route = w.connected route := by
    intro route
    unfold connected
    rw [h2]
  have ho : ∀ r, w'.IsOpen r ↔ w.IsOpen r := by
    intro r
    unfold IsOpen
    rw [h5]
  refine ⟨h.routes, h.named, h.left, ?_, ?_, ?_, h.distinct⟩
  · simp only [hc]; exact h.done
  · simp only [h1, h4, ho]; exact h.made
  · simp only [h2, h3]; exact h.fresh

theorem Core.fail {w : Watcher} (h : w.Core) (e : WatchError) : (w.fail e).Core := by
  cases e <;> exact h.frame rfl rfl rfl rfl rfl rfl rfl rfl

theorem fail_watching (w : Watcher) (e : WatchError) :
    (w.fail e).watching = .reconnecting ∨ (w.fail e).watching = .stopped := by
  cases e
  · exact .inl rfl
  all_goals exact .inr rfl

theorem Core.fail_ok {w : Watcher} (h : w.Core) (e : WatchError) : (w.fail e).Ok := by
  refine ⟨h.fail e, ?_⟩
  intro version descriptions required rest created hw
  rcases fail_watching w e with hf | hf
  · rw [hf] at hw
    cases hw
  · rw [hf] at hw
    cases hw

/-! ## what a creation does -/

/-- the watcher after a creation differs in the serial number and the lists of parts -/
theorem createWorkerResources_frame (w : Watcher) (c : Creation) (route : WorkerRoute) :
    (w.createWorkerResources c route).2 = { w with
      nextSerial := w.nextSerial + 1
      opened := (w.createWorkerResources c route).2.opened
      closing := (w.createWorkerResources c route).2.closing
      closed := (w.createWorkerResources c route).2.closed } := by
  unfold createWorkerResources
  simp only
  split
  · rfl
  · split
    · rfl
    · split
      · rfl
      · split <;> rfl

/-- a creation that raises leaves no part of it open -/
theorem createWorkerResources_error {w : Watcher} {c : Creation} {route : WorkerRoute}
    (hp : route.positive) {e : WatchError} (h : (w.createWorkerResources c route).1 = .error e) :
    c.error = some e ∧
      (∀ part ∈ (w.createWorkerResources c route).2.opened, part ∈ w.opened ∨
        part ∈ (w.createWorkerResources c route).2.closed) ∧
      (∀ part ∈ (w.createWorkerResources c route).2.closing, part ∈ w.closing ∨
        part.serial = w.nextSerial) ∧
      ∀ part ∈ w.closed, part ∈ (w.createWorkerResources c route).2.closed := by
  obtain ⟨transport, pool, start⟩ := c
  unfold createWorkerResources at h ⊢
  cases transport with
  | some e1 =>
    cases h
    exact ⟨rfl, fun part hpart => .inl hpart, fun part hpart => .inl hpart, fun _ hpart => hpart⟩
  | none =>
    cases pool with
    | some e2 =>
      cases h
      refine ⟨rfl, ?_, ?_, fun _ hpart => List.mem_cons_of_mem _ hpart⟩
      · intro part hpart
        rcases List.mem_cons.mp hpart with rfl | hpart
        · exact .inr List.mem_cons_self
        · exact .inl hpart
      · intro part hpart
        rcases List.mem_cons.mp hpart with rfl | hpart
        · exact .inr rfl
        · exact .inl hpart
    | none =>
      cases start with
      | some e3 =>
        cases h
        refine ⟨rfl, ?_, ?_, fun _ hpart => List.mem_cons_of_mem _ (List.mem_cons_of_mem _ hpart)⟩
        · intro part hpart
          rcases List.mem_cons.mp hpart with rfl | hpart
          · exact .inr (List.mem_cons_of_mem _ List.mem_cons_self)
          · rcases List.mem_cons.mp hpart with rfl | hpart
            · exact .inr List.mem_cons_self
            · exact .inl hpart
        · intro part hpart
          rcases List.mem_cons.mp hpart with rfl | hpart
          · exact .inr rfl
          · rcases List.mem_cons.mp hpart with rfl | hpart
            · exact .inr rfl
            · exact .inl hpart
      | none =>
        simp only [workerConnection, dif_pos hp] at h
        cases h

theorem createWorkerResources_of_error {w : Watcher} {c : Creation} {route : WorkerRoute}
    {e : WatchError} (hc : c.error = some e) :
    (w.createWorkerResources c route).1 = .error e := by
  obtain ⟨transport, pool, start⟩ := c
  unfold createWorkerResources
  cases transport with
  | some e1 =>
    cases hc
    rfl
  | none =>
    cases pool with
    | some e2 =>
      cases hc
      rfl
    | none =>
      cases start with
      | some e3 =>
        cases hc
        rfl
      | none => cases hc

theorem createWorkerResources_ok {w : Watcher} {c : Creation} {route : WorkerRoute}
    {r : Resources} (h : (w.createWorkerResources c route).1 = .ok r) :
    c.error = none ∧ r.serial = w.nextSerial ∧ r.route = route ∧ r.Ok w.config ∧
      (w.createWorkerResources c route).2.closing = w.closing := by
  obtain ⟨transport, pool, start⟩ := c
  unfold createWorkerResources at h ⊢
  cases transport with
  | some e1 => cases h
  | none =>
    cases pool with
    | some e2 => cases h
    | none =>
      cases start with
      | some e3 => cases h
      | none =>
        unfold workerConnection at h ⊢
        by_cases hp : route.positive
        · simp only [dif_pos hp] at h ⊢
          cases h
          exact ⟨rfl, rfl, rfl, ⟨rfl, rfl, rfl⟩, rfl⟩
        · simp only [dif_neg hp] at h
          split_ifs at h

theorem createWorkerResources_of_none (w : Watcher) {c : Creation} {route : WorkerRoute}
    (hp : route.positive) (hc : c.error = none) :
    ∃ r, (w.createWorkerResources c route).1 = .ok r := by
  cases h : (w.createWorkerResources c route).1 with
  | ok r => exact ⟨r, rfl⟩
  | error e =>
    have he := (createWorkerResources_error hp h).1
    rw [hc] at he
    cases he

/-- closing the connections of a failed attempt -/
theorem foldl_closeResources (w : Watcher) (created : List Resources) :
    created.foldl closeResources w = { w with
      closing := (created.foldl closeResources w).closing
      closed := (created.foldl closeResources w).closed } ∧
    (∀ part ∈ (created.foldl closeResources w).closing, part ∈ w.closing ∨
      ∃ r ∈ created, part.serial = r.serial) ∧
    (∀ part ∈ w.closed, part ∈ (created.foldl closeResources w).closed) ∧
    ∀ r ∈ created, Part.transport r.serial ∈ (created.foldl closeResources w).closed ∧
      Part.pool r.serial ∈ (created.foldl closeResources w).closed := by
  induction created generalizing w with
  | nil => exact ⟨rfl, fun _ h => .inl h, fun _ h => h, by simp⟩
  | cons r created ih =>
    obtain ⟨h1, h2, h3, h4⟩ := ih (w.closeResources r)
    rw [List.foldl_cons]
    refine ⟨?_, ?_, ?_, ?_⟩
    · rw [h1]
      rfl
    · intro part hpart
      rcases h2 part hpart with h | ⟨r', hr', hs⟩
      · rcases List.mem_cons.mp h with rfl | h
        · exact .inr ⟨r, List.mem_cons_self, rfl⟩
        · rcases List.mem_cons.mp h with rfl | h
          · exact .inr ⟨r, List.mem_cons_self, rfl⟩
          · exact .inl h
      · exact .inr ⟨r', List.mem_cons_of_mem _ hr', hs⟩
    · intro part hpart
      exact h3 part (List.mem_cons_of_mem _ (List.mem_cons_of_mem _ hpart))
    · intro r' hr'
      rcases List.mem_cons.mp hr' with rfl | hr'
      · exact ⟨h3 _ (List.mem_cons_of_mem _ List.mem_cons_self), h3 _ List.mem_cons_self⟩
      · exact h4 r' hr'

/-! ## what a commit does -/

/-- every required route has its connection, made now or kept -/
def Connected (w : Watcher) (required : List WorkerRoute) (created : List Resources) : Prop :=
  ∀ route ∈ required, w.connected route = true ∨ ∃ r ∈ created, r.route = route

theorem pick_spec {w : Watcher} {descriptions : RouteDescriptions}
    {required rest : List WorkerRoute} {created : List Resources}
    (hi : w.Installing descriptions required rest created) (hc : w.Connected required created)
    {route : WorkerRoute} (hr : route ∈ required) :
    ∃ r, (created.find? fun r => decide (r.route.process = route.process)).or
        w.resources[route.process]? = some r ∧ r.route = route ∧
      (r ∈ created ∨ w.resources[route.process]? = some r) := by
  cases hf : created.find? fun r => decide (r.route.process = route.process) with
  | some r =>
    have hmem := List.mem_of_find?_eq_some hf
    have hp : r.route.process = route.process := by
      have htrue := List.find?_some hf
      exact of_decide_eq_true htrue
    exact ⟨r, rfl, hi.named.eq_of_process (hi.made r hmem).1 hr hp, .inl hmem⟩
  | none =>
    rcases hc route hr with hconn | ⟨r, hmem, hroute⟩
    · obtain ⟨r, hget, hroute⟩ := connected_iff.mp hconn
      exact ⟨r, by rw [Option.none_or]; exact hget, hroute, .inr hget⟩
    · have hfalse := List.find?_eq_none.mp hf r hmem
      exact absurd (decide_eq_true (by rw [hroute])) hfalse

theorem newResources_of_mem {w : Watcher} {descriptions : RouteDescriptions}
    {required rest : List WorkerRoute} {created : List Resources}
    (hi : w.Installing descriptions required rest created) (hc : w.Connected required created)
    {route : WorkerRoute} (hr : route ∈ required) :
    ∃ r, (w.newResources required created)[route.process]? = some r ∧ r.route = route := by
  obtain ⟨r, hpick, hroute, _⟩ := pick_spec hi hc hr
  refine ⟨r, ?_, hroute⟩
  unfold newResources
  have hmem : r ∈ required.filterMap fun route =>
      (created.find? fun r => decide (r.route.process = route.process)).or
        w.resources[route.process]? := List.mem_filterMap.mpr ⟨route, hr, hpick⟩
  have hpair : (required.filterMap fun route =>
      (created.find? fun r => decide (r.route.process = route.process)).or
        w.resources[route.process]?).Pairwise
        fun a b => a.route.process ≠ b.route.process := by
    rw [List.pairwise_filterMap]
    refine hi.named.distinct.imp_of_mem ?_
    intro a b ha hb hab ra hra rb hrb
    obtain ⟨r1, hp1, hr1, _⟩ := pick_spec hi hc ha
    obtain ⟨r2, hp2, hr2, _⟩ := pick_spec hi hc hb
    rw [hp1] at hra
    rw [hp2] at hrb
    cases hra
    cases hrb
    rw [hr1, hr2]
    exact hab
  have hget := Maps.getElem?_insertAll_of_mem (fun r : Resources => r.route.process) id ∅ _ hpair r
    hmem
  rw [hroute] at hget
  exact hget

theorem newResources_cases {w : Watcher} {descriptions : RouteDescriptions}
    {required rest : List WorkerRoute} {created : List Resources}
    (hi : w.Installing descriptions required rest created) (hc : w.Connected required created)
    {i : Routing.WorkerIdentity} {r : Resources}
    (h : (w.newResources required created)[i]? = some r) :
    r.route ∈ required ∧ r.route.process = i ∧ (r ∈ created ∨ w.resources[i]? = some r) := by
  unfold newResources at h
  rcases Maps.getElem?_insertAll_cases _ _ h with ⟨r', hmem, hk, hv⟩ | hempty
  · cases hv
    obtain ⟨route, hr, hpick⟩ := List.mem_filterMap.mp hmem
    obtain ⟨r2, hpick2, hroute, hfrom⟩ := pick_spec hi hc hr
    rw [hpick2] at hpick
    cases hpick
    rw [← hk]
    exact ⟨hroute ▸ hr, rfl, by rw [hroute]; exact hfrom⟩
  · simp at hempty

/-- the routes of the new snapshot pass its checks -/
theorem topologySnapshot_ok {w : Watcher} {descriptions : RouteDescriptions}
    {required rest : List WorkerRoute} {created : List Resources} (h : w.Core)
    (hi : w.Installing descriptions required rest created) (hc : w.Connected required created)
    (version : Nat) :
    ∃ snapshot : Routing.TopologySnapshot,
      topologySnapshot w.config.instanceId version
        (targetsOf (w.newResources required created) descriptions) = .ok snapshot ∧
      snapshot.instanceId = w.config.instanceId ∧ snapshot.version = version ∧
      snapshot.routes = targetsOf (w.newResources required created) descriptions := by
  have hok : ∀ (i : Routing.WorkerIdentity) (r : Resources),
      (w.newResources required created)[i]? = some r → r.target.identity = i := by
    intro i r hr
    obtain ⟨_, hp, hfrom⟩ := newResources_cases hi hc hr
    rw [← hp]
    rcases hfrom with hmem | hget
    · exact (hi.made r hmem).2.1.identity
    · exact (h.own i r hget).2.1.identity
  -- a target of the table is the one of its process
  have htarget : ∀ (replicas : List WorkerRoute) (target : Routing.WorkerConnection),
      target ∈ replicas.filterMap (fun route =>
        ((w.newResources required created)[route.process]?).map Resources.target) →
      ((w.newResources required created)[target.identity]?).map Resources.target
        = some target := by
    intro replicas target hmem
    obtain ⟨route, _, hget⟩ := List.mem_filterMap.mp hmem
    obtain ⟨r, hr, rfl⟩ := Option.map_eq_some_iff.mp hget
    rw [hok _ r hr, hr]
    rfl
  have hentry : ∀ e ∈ (targetsOf (w.newResources required created) descriptions).toList,
      ∃ replicas, descriptions[e.1]? = some replicas ∧ e.2 = replicas.filterMap fun route =>
        ((w.newResources required created)[route.process]?).map Resources.target := by
    intro e he
    have hget := ExtTreeMap.mem_toList_iff_getElem?_eq_some.mp he
    unfold targetsOf at hget
    rw [ExtTreeMap.getElem?_map] at hget
    obtain ⟨replicas, hr, heq⟩ := Option.map_eq_some_iff.mp hget
    exact ⟨replicas, hr, heq.symm⟩
  have hmade : ∀ (key : ExpertKey) (replicas : List WorkerRoute),
      descriptions[key]? = some replicas → ∀ route ∈ replicas,
      ∃ r, (w.newResources required created)[route.process]? = some r ∧ r.route = route := by
    intro key replicas hk route hr
    exact newResources_of_mem hi hc ((hi.named.mem route).mpr ⟨key, replicas, hk, hr⟩)
  unfold topologySnapshot
  rw [dif_pos, dif_pos, dif_pos]
  · exact ⟨_, rfl, rfl, rfl, rfl⟩
  · intro e he e' he' target ht target' ht' hid
    obtain ⟨replicas, _, heq⟩ := hentry e he
    obtain ⟨replicas', _, heq'⟩ := hentry e' he'
    have h1 := htarget replicas target (heq ▸ ht)
    have h2 := htarget replicas' target' (heq' ▸ ht')
    rw [hid, h2] at h1
    exact (Option.some.inj h1).symm
  · intro e he
    obtain ⟨replicas, hk, heq⟩ := hentry e he
    rw [heq, List.Nodup, List.pairwise_map, List.pairwise_filterMap]
    have hdist := (hi.routes e.1 replicas hk).1.distinct
    rw [List.Nodup, List.pairwise_map] at hdist
    refine hdist.imp_of_mem ?_
    intro a b ha hb hab ta hta tb htb hid
    obtain ⟨ra, hra, hroutea⟩ := hmade _ _ hk a ha
    obtain ⟨rb, hrb, hrouteb⟩ := hmade _ _ hk b hb
    rw [hra] at hta
    rw [hrb] at htb
    cases hta
    cases htb
    rw [hok _ ra hra, hok _ rb hrb] at hid
    refine hab ?_
    have hw := congrArg Routing.WorkerIdentity.workerId hid
    have hs := congrArg Routing.WorkerIdentity.startId hid
    cases ha' : a.identity
    cases hb' : b.identity
    simp_all [WorkerRoute.process]
  · intro e he
    obtain ⟨replicas, hk, heq⟩ := hentry e he
    rw [heq]
    cases replicas with
    | nil => exact absurd rfl (hi.routes e.1 [] hk).2
    | cons route replicas =>
      obtain ⟨r, hr, _⟩ := hmade _ _ hk route List.mem_cons_self
      rw [List.filterMap_cons, hr]
      simp

/-- the watcher after an installation -/
def installed (w : Watcher) (descriptions : RouteDescriptions)
    (new : ExtTreeMap Routing.WorkerIdentity Resources) (snapshot : Routing.TopologySnapshot) :
    Watcher :=
  { w with
    resources := new
    pools := Maps.insertAll Prod.fst Prod.snd w.pools new.toList
    routeDescriptions := descriptions
    snapshot := snapshot
    firstInstall := true
    watching := .streaming
    cleanup := w.cleanup ++ (w.resources.toList.filter fun e => new[e.1]? ≠ some e.2).map
      fun e => ⟨e.2, .created, false⟩ }

theorem commit_eq {w : Watcher} {descriptions : RouteDescriptions}
    {required rest : List WorkerRoute} {created : List Resources} (h : w.Core)
    (hi : w.Installing descriptions required rest created) (hc : w.Connected required created)
    (version : Nat) :
    ∃ snapshot : Routing.TopologySnapshot,
      w.commit version descriptions required created
        = w.installed descriptions (w.newResources required created) snapshot ∧
      snapshot.instanceId = w.config.instanceId ∧ snapshot.version = version ∧
      snapshot.routes = targetsOf (w.newResources required created) descriptions := by
  obtain ⟨snapshot, hs, hrest⟩ := topologySnapshot_ok h hi hc version
  refine ⟨snapshot, ?_, hrest⟩
  unfold commit
  simp only [hs]
  rfl

theorem getElem?_installed_pools (w : Watcher) (descriptions : RouteDescriptions)
    (new : ExtTreeMap Routing.WorkerIdentity Resources) (snapshot : Routing.TopologySnapshot)
    (i : Routing.WorkerIdentity) :
    (w.installed descriptions new snapshot).pools[i]? = (new[i]?).or w.pools[i]? := by
  have hd : new.toList.Pairwise fun a b => a.1 ≠ b.1 := by
    refine (ExtTreeMap.distinct_keys_toList (t := new)).imp ?_
    intro a b hne e
    exact hne (Std.compare_eq_iff_eq.mpr e)
  unfold installed
  simp only
  cases hn : new[i]? with
  | none =>
    rw [Maps.getElem?_insertAll_of_not_mem]
    · rfl
    · rintro ⟨a, r⟩ he rfl
      rw [ExtTreeMap.mem_toList_iff_getElem?_eq_some] at he
      rw [hn] at he
      cases he
  | some r =>
    exact Maps.getElem?_insertAll_of_mem Prod.fst Prod.snd w.pools new.toList hd (i, r)
      (ExtTreeMap.mem_toList_iff_getElem?_eq_some.mpr hn)

theorem Core.installed {w : Watcher} {descriptions : RouteDescriptions}
    {required rest : List WorkerRoute} {created : List Resources} (h : w.Core)
    (hi : w.Installing descriptions required rest created) (hc : w.Connected required created)
    {snapshot : Routing.TopologySnapshot} (h1 : snapshot.instanceId = w.config.instanceId)
    (h2 : snapshot.routes = targetsOf (w.newResources required created) descriptions) :
    (w.installed descriptions (w.newResources required created) snapshot).Core := by
  have hcases := fun i r => newResources_cases (i := i) (r := r) hi hc
  have hown : ∀ (i : Routing.WorkerIdentity) (r : Resources),
      (w.newResources required created)[i]? = some r →
      r.Ok w.config ∧ r.serial < w.nextSerial ∧ w.IsOpen r := by
    intro i r hr
    rcases (hcases i r hr).2.2 with hmem | hget
    · exact (hi.made r hmem).2
    · obtain ⟨_, a, b, c, _⟩ := h.own i r hget
      exact ⟨a, b, c⟩
  refine ⟨hi.routes, ?_, ?_, ?_, ?_, h1, h2, ?_, h.closing⟩
  · intro i r hr
    obtain ⟨a, b, c⟩ := hown i r hr
    refine ⟨(hcases i r hr).2.1, a, b, c, ?_⟩
    rw [getElem?_installed_pools]
    change (w.newResources required created)[i]? = some r at hr
    rw [hr]
    rfl
  · intro i r hr
    rw [getElem?_installed_pools] at hr
    cases hn : (w.newResources required created)[i]? with
    | none =>
      rw [hn, Option.none_or] at hr
      exact h.pool i r hr
    | some r' =>
      rw [hn, Option.some_or] at hr
      have heq : r' = r := Option.some.inj hr
      rw [heq] at hn
      exact ⟨(hcases i r hn).2.1, (hown i r hn).1⟩
  · intro i j r r' hr hr' hs
    have hsymm : Std.Symm fun r r' : Resources => r.serial ≠ r'.serial :=
      ⟨fun _ _ hne => hne.symm⟩
    rcases (hcases i r hr).2.2 with hmem | hget
    · rcases (hcases j r' hr').2.2 with hmem' | hget'
      · by_contra hne
        exact hi.distinct.forall hmem hmem' hne hs
      · exact absurd hs.symm ((hi.fresh r hmem).1 j r' hget')
    · rcases (hcases j r' hr').2.2 with hmem' | hget'
      · exact absurd hs ((hi.fresh r' hmem').1 i r hget)
      · exact h.serials i j r r' hget hget' hs
  · intro key replicas hk route hr
    exact connected_iff.mpr
      (newResources_of_mem hi hc ((hi.named.mem route).mpr ⟨key, replicas, hk, hr⟩))
  · intro task ht
    rcases List.mem_append.mp ht with ht | ht
    · refine ⟨(h.retired task ht).1, ?_⟩
      intro i r hr
      rcases (hcases i r hr).2.2 with hmem | hget
      · exact ((hi.fresh r hmem).2 task ht).symm
      · exact (h.retired task ht).2 i r hget
    · obtain ⟨⟨j, r0⟩, he, rfl⟩ := List.mem_map.mp ht
      obtain ⟨he, hnew⟩ := List.mem_filter.mp he
      have hget0 := ExtTreeMap.mem_toList_iff_getElem?_eq_some.mp he
      obtain ⟨hp0, _, hlt0, _⟩ := h.own j r0 hget0
      refine ⟨hlt0, ?_⟩
      intro i r hr hs
      rcases (hcases i r hr).2.2 with hmem | hget
      · exact (hi.fresh r hmem).1 j r0 hget0 hs.symm
      · have heq := h.serials i j r r0 hget hget0 hs
        subst heq
        have hij : i = j := (h.own i r hget).1.symm.trans hp0
        subst hij
        exact (of_decide_eq_true hnew) hr

theorem Core.continueInstall {w : Watcher} {descriptions : RouteDescriptions}
    {required rest : List WorkerRoute} {created : List Resources} (h : w.Core)
    (hi : w.Installing descriptions required rest created) (version : Nat) :
    (w.continueInstall version descriptions required rest created).Ok := by
  unfold Watcher.continueInstall
  have hsplit := List.takeWhile_append_dropWhile (p := w.connected) (l := rest)
  have htake : ∀ route ∈ rest.takeWhile w.connected, w.connected route = true :=
    fun route hr => List.mem_takeWhile_imp hr
  split
  · rename_i hnil
    have hc : w.Connected required created := by
      intro route hr
      rcases hi.done route hr with hrest | hdone
      · rw [hnil, List.append_nil] at hsplit
        refine .inl (htake route ?_)
        rw [hsplit]
        exact hrest
      · exact hdone
    obtain ⟨snapshot, heq, h1, _, h2⟩ := commit_eq h hi hc version
    rw [heq]
    exact ⟨h.installed hi hc h1 h2, fun _ _ _ _ _ hw => by cases hw⟩
  · refine ⟨h.frame rfl rfl rfl rfl rfl rfl rfl rfl, ?_⟩
    intro version' descriptions' required' rest' created' hw
    cases hw
    refine Installing.frame (w := w) ⟨hi.routes, hi.named, ?_, ?_, hi.made, hi.fresh, hi.distinct⟩
      rfl rfl rfl rfl rfl
    · intro route hr
      exact hi.left route (List.dropWhile_subset _ hr)
    · intro route hr
      rcases hi.done route hr with hrest | hdone
      · rw [← hsplit] at hrest
        rcases List.mem_append.mp hrest with hrest | hrest
        · exact .inr (.inl (htake route hrest))
        · exact .inl hrest
      · exact .inr hdone

theorem Installing.begin {w : Watcher} {descriptions : RouteDescriptions}
    {required : List WorkerRoute} (hr : RoutesOk descriptions)
    (hq : Required descriptions required) : w.Installing descriptions required required [] where
  routes := hr
  named := hq
  left := fun _ h => h
  done := fun _ h => .inl h
  made := by simp
  fresh := by simp
  distinct := List.Pairwise.nil

theorem Core.install {w : Watcher} (h : w.Core) {descriptions : RouteDescriptions}
    (hr : RoutesOk descriptions) (version : Nat) : (w.install version descriptions).Ok := by
  unfold Watcher.install
  cases hq : requiredRoutes (Maps.values descriptions).flatten [] with
  | error e => exact h.fail_ok (.protocol e)
  | ok required => exact h.continueInstall (.begin hr (required_of_requiredRoutes hq)) version

theorem Core.consume {w : Watcher} (h : w.Core) (hw : w.watching = .streaming)
    (message : TopologyMessage) : (w.consume message).Ok := by
  unfold Watcher.consume
  cases hm : Frontend.consume w.messages message w.snapshot.version w.routeDescriptions with
  | error e => exact h.fail_ok (.protocol e)
  | ok result =>
    obtain ⟨view, messages⟩ := result
    have hcore : ({ w with messages := messages } : Watcher).Core :=
      h.frame rfl rfl rfl rfl rfl rfl rfl rfl
    cases view with
    | none =>
      refine ⟨hcore, ?_⟩
      intro version descriptions required rest created hc
      rw [show ({ w with messages := messages } : Watcher).watching = w.watching from rfl, hw] at hc
      cases hc
    | some view => exact hcore.install (consume_routesOk hm h.routes) view.1

/-- a connection that was made joins the ones of this attempt -/
theorem Ok.created {w : Watcher} (h : w.Ok) {version : Nat} {descriptions : RouteDescriptions}
    {required rest : List WorkerRoute} {route : WorkerRoute} {created : List Resources}
    (hw : w.watching = .creating version descriptions required (route :: rest) created)
    {c : Creation} {r : Resources} (hr : (w.createWorkerResources c route).1 = .ok r) :
    (w.createWorkerResources c route).2.Core ∧
      (w.createWorkerResources c route).2.Installing descriptions required rest
        (created ++ [r]) := by
  have hi := h.installing _ _ _ _ _ hw
  obtain ⟨_, hserial, hroute, hok, hclosing⟩ := createWorkerResources_ok hr
  rw [createWorkerResources_frame w c route]
  generalize (w.createWorkerResources c route).2 = w1 at hclosing ⊢
  constructor
  · exact h.core.grow rfl rfl rfl rfl rfl rfl (Nat.le_succ _) fun part hpart =>
      .inl (hclosing ▸ hpart)
  · have hopen : ∀ r', w.IsOpen r' → ∀ part ∈ w1.closing, part.serial ≠ r'.serial := by
      intro r' ho
      rw [hclosing]
      exact ho
    refine ⟨hi.routes, hi.named, ?_, ?_, ?_, ?_, ?_⟩
    · exact fun route' hr' => hi.left route' (List.mem_cons_of_mem _ hr')
    · intro route' hr'
      rcases hi.done route' hr' with hrest | hconn | ⟨r', hmem, hroute'⟩
      · rcases List.mem_cons.mp hrest with rfl | hrest
        · exact .inr (.inr ⟨r, by simp, hroute⟩)
        · exact .inl hrest
      · exact .inr (.inl hconn)
      · exact .inr (.inr ⟨r', by simp [hmem], hroute'⟩)
    · intro r' hr'
      rcases List.mem_append.mp hr' with hmem | hmem
      · obtain ⟨a, b, c, d⟩ := hi.made r' hmem
        exact ⟨a, b, Nat.lt_succ_of_lt c, hopen r' d⟩
      · rw [List.mem_singleton.mp hmem]
        refine ⟨hroute ▸ hi.left route List.mem_cons_self, hok, ?_, ?_⟩
        · rw [hserial]
          exact Nat.lt_succ_self _
        · intro part hpart
          have hlt := h.core.closing part (hclosing ▸ hpart)
          omega
    · intro r' hr'
      rcases List.mem_append.mp hr' with hmem | hmem
      · exact hi.fresh r' hmem
      · rw [List.mem_singleton.mp hmem]
        constructor
        · intro i r2 hr2 hs
          have hlt := (h.core.own i r2 hr2).2.2.1
          omega
        · intro task ht hs
          have hlt := (h.core.retired task ht).1
          omega
    · rw [List.pairwise_append]
      refine ⟨hi.distinct, List.pairwise_singleton _ _, ?_⟩
      intro r' hr' r2 hr2 hs
      rw [List.mem_singleton.mp hr2] at hs
      have hlt := (hi.made r' hr').2.2.1
      omega

theorem Ok.head_positive {w : Watcher} (h : w.Ok) {version : Nat} {descriptions : RouteDescriptions}
    {required rest : List WorkerRoute} {route : WorkerRoute} {created : List Resources}
    (hw : w.watching = .creating version descriptions required (route :: rest) created) :
    route.positive := by
  have hi := h.installing _ _ _ _ _ hw
  obtain ⟨key, replicas, hk, hmem⟩ := (hi.named.mem route).mp (hi.left route List.mem_cons_self)
  exact (hi.routes key replicas hk).1.positive route hmem

/-- the watcher after a connection could not be made, up to the handlers of `_watch` -/
def afterFailure (w : Watcher) (c : Creation) (route : WorkerRoute) (created : List Resources) :
    Watcher :=
  created.foldl closeResources (w.createWorkerResources c route).2

theorem afterFailure_frame (w : Watcher) (c : Creation) (route : WorkerRoute)
    (created : List Resources) :
    w.afterFailure c route created = { w with
      nextSerial := w.nextSerial + 1
      opened := (w.createWorkerResources c route).2.opened
      closing := (w.afterFailure c route created).closing
      closed := (w.afterFailure c route created).closed } := by
  unfold afterFailure
  have h1 := (foldl_closeResources (w.createWorkerResources c route).2 created).1
  rw [createWorkerResources_frame w c route] at h1
  rw [createWorkerResources_frame w c route]
  exact h1

theorem Ok.afterFailure {w : Watcher} (h : w.Ok) {version : Nat} {descriptions : RouteDescriptions}
    {required rest : List WorkerRoute} {route : WorkerRoute} {created : List Resources}
    (hw : w.watching = .creating version descriptions required (route :: rest) created)
    {c : Creation} {e : WatchError} (he : (w.createWorkerResources c route).1 = .error e) :
    (w.afterFailure c route created).Core := by
  have hi := h.installing _ _ _ _ _ hw
  have hpos : route.positive := h.head_positive hw
  have hclosing : ∀ part ∈ (w.afterFailure c route created).closing, part ∈ w.closing ∨
      (part.serial < w.nextSerial + 1 ∧ ∀ (i : Routing.WorkerIdentity) (r : Resources),
        w.resources[i]? = some r → r.serial ≠ part.serial) := by
    intro part hpart
    rcases (foldl_closeResources _ created).2.1 part hpart with hp | ⟨r', hmem, hs⟩
    · rcases (createWorkerResources_error hpos he).2.2.1 part hp with hp | hs
      · exact .inl hp
      · refine .inr ⟨by omega, ?_⟩
        intro i r hr
        have hlt := (h.core.own i r hr).2.2.1
        omega
    · rw [hs]
      exact .inr ⟨Nat.lt_succ_of_lt (hi.made r' hmem).2.2.1, (hi.fresh r' hmem).1⟩
  have hframe := afterFailure_frame w c route created
  refine h.core.grow ?_ ?_ ?_ ?_ ?_ ?_ ?_ ?_
  · rw [hframe]
  · rw [hframe]
  · rw [hframe]
  · rw [hframe]
  · rw [hframe]
  · rw [hframe]
  · rw [hframe]
    exact Nat.le_succ _
  · intro part hpart
    rcases hclosing part hpart with hp | hp
    · exact .inl hp
    · rw [hframe]
      exact .inr hp

/-- a step of a cleanup task: its own parts are closed, and its pool may leave the mapping -/
theorem retire_frame (w : Watcher) (task : Retirement) (raised : Bool) :
    w.retire task raised = { w with
      cleanup := (w.retire task raised).cleanup
      closing := (w.retire task raised).closing
      closed := (w.retire task raised).closed
      pools := (w.retire task raised).pools } ∧
    (∀ t ∈ (w.retire task raised).cleanup, t ∈ w.cleanup ∨ t.resources = task.resources) ∧
    (∀ part ∈ (w.retire task raised).closing, part ∈ w.closing ∨
      part.serial = task.resources.serial) ∧
    ((w.retire task raised).pools = w.pools ∨
      ((w.retire task raised).pools = w.pools.erase task.resources.route.process ∧
        w.resources[task.resources.route.process]? ≠ some task.resources ∧
        w.pools[task.resources.route.process]? = some task.resources)) := by
  unfold retire
  cases hs : task.stage with
  | created =>
    refine ⟨rfl, ?_, ?_, .inl rfl⟩
    · intro t ht
      rcases List.mem_cons.mp ht with rfl | ht
      · exact .inr rfl
      · exact .inl (List.mem_of_mem_erase ht)
    · intro part hpart
      rcases List.mem_cons.mp hpart with rfl | hpart
      · exact .inr rfl
      · exact .inl hpart
  | closingTransport =>
    refine ⟨rfl, ?_, ?_, .inl rfl⟩
    · intro t ht
      rcases List.mem_cons.mp ht with rfl | ht
      · exact .inr rfl
      · exact .inl (List.mem_of_mem_erase ht)
    · intro part hpart
      rcases List.mem_cons.mp hpart with rfl | hpart
      · exact .inr rfl
      · exact .inl hpart
  | closingPool =>
    refine ⟨rfl, fun t ht => .inl (List.mem_of_mem_erase ht), fun part hpart => .inl hpart, ?_⟩
    simp only
    split_ifs with hif
    · simp only [Bool.and_eq_true, bne_iff_ne, ne_eq, beq_iff_eq] at hif
      exact .inr ⟨rfl, hif.1.2, hif.2⟩
    · exact .inl rfl

theorem Core.retire {w : Watcher} (h : w.Core) {task : Retirement} (ht : task ∈ w.cleanup)
    (raised : Bool) : (w.retire task raised).Core := by
  obtain ⟨hframe, hcleanup, hclosing, hpools⟩ := retire_frame w task raised
  have hserial := h.retired task ht
  rw [hframe]
  generalize w.retire task raised = w1 at hcleanup hclosing hpools ⊢
  refine ⟨h.routes, ?_, ?_, h.serials, h.routed, h.instanceId, h.snapshot, ?_, ?_⟩
  · intro i r hr
    obtain ⟨a, b, c, d, e⟩ := h.own i r hr
    refine ⟨a, b, c, ?_, ?_⟩
    · intro part hpart
      rcases hclosing part hpart with hp | hs
      · exact d part hp
      · rw [hs]
        exact (hserial.2 i r hr).symm
    · rcases hpools with heq | ⟨heq, hne, hsome⟩
      · exact heq ▸ e
      · show w1.pools[i]? = some r
        rw [heq, Maps.getElem?_erase_eq, if_neg]
        · exact e
        · rintro rfl
          rw [e] at hsome
          exact hne (hsome ▸ hr)
  · intro i r hr
    rcases hpools with heq | ⟨heq, _, _⟩
    · exact h.pool i r (heq ▸ hr)
    · have hr' : w1.pools[i]? = some r := hr
      rw [heq, Maps.getElem?_erase_eq] at hr'
      split_ifs at hr'
      exact h.pool i r hr'
  · intro t ht'
    rcases hcleanup t ht' with hmem | heq
    · exact h.retired t hmem
    · rw [heq]
      exact hserial
  · intro part hpart
    rcases hclosing part hpart with hp | hs
    · exact h.closing part hp
    · rw [hs]
      exact hserial.1

theorem Ok.retire {w : Watcher} (h : w.Ok) {task : Retirement} (ht : task ∈ w.cleanup)
    (raised : Bool) : (w.retire task raised).Ok := by
  refine ⟨h.core.retire ht raised, ?_⟩
  intro version descriptions required rest created hw
  obtain ⟨hframe, hcleanup, hclosing, _⟩ := retire_frame w task raised
  rw [hframe] at hw ⊢
  generalize w.retire task raised = w1 at hcleanup hclosing hw ⊢
  have hi := h.installing version descriptions required rest created hw
  refine ⟨hi.routes, hi.named, hi.left, hi.done, ?_, ?_, hi.distinct⟩
  · intro r hr
    obtain ⟨a, b, c, d⟩ := hi.made r hr
    refine ⟨a, b, c, ?_⟩
    intro part hpart
    rcases hclosing part hpart with hp | hs
    · exact d part hp
    · rw [hs]
      exact (hi.fresh r hr).2 task ht
  · intro r hr
    refine ⟨(hi.fresh r hr).1, ?_⟩
    intro t ht'
    rcases hcleanup t ht' with hmem | heq
    · exact (hi.fresh r hr).2 t hmem
    · rw [heq]
      exact (hi.fresh r hr).2 task ht

/-! ## steps and runs -/

theorem Ok.step {w w' : Watcher} (h : w.Ok) {event : WatcherEvent}
    (hs : w.step event = some w') : w'.Ok := by
  unfold Watcher.step at hs
  split at hs
  · split_ifs at hs with hw
    cases hs
    exact h.core.consume hw _
  · split at hs
    · rename_i hw
      split at hs
      · rename_i hr
        cases hs
        have hr' := congrArg Prod.fst hr
        obtain ⟨hcore, hinst⟩ := h.created hw hr'
        rw [hr] at hcore hinst
        exact hcore.continueInstall hinst _
      · rename_i he
        cases hs
        have he' := congrArg Prod.fst he
        have hcore := h.afterFailure hw he'
        unfold Watcher.afterFailure at hcore
        rw [he] at hcore
        exact hcore.fail_ok _
    · cases hs
  · split_ifs at hs
    cases hs
    exact h.core.fail_ok _
  · split_ifs at hs
    cases hs
    exact ⟨h.core.frame rfl rfl rfl rfl rfl rfl rfl rfl, fun _ _ _ _ _ hw => by cases hw⟩
  · split_ifs at hs with ht
    cases hs
    exact h.retire ht _

theorem start_ok (config : WatcherConfig) : (start config).Ok := by
  refine ⟨⟨routesOk_empty, ?_, ?_, ?_, ?_, rfl, ?_, ?_, ?_⟩, fun _ _ _ _ _ hw => by cases hw⟩
  · intro i r hr
    simp [start] at hr
  · intro i r hr
    simp [start] at hr
  · intro i j r r' hr
    simp [start] at hr
  · intro key replicas hk
    simp [start] at hk
  · rfl
  · intro task ht
    simp [start] at ht
  · intro part hpart
    simp [start] at hpart

theorem fail_config (w : Watcher) (e : WatchError) : (w.fail e).config = w.config := by
  cases e <;> rfl

theorem continueInstall_config (w : Watcher) (version : Nat) (descriptions : RouteDescriptions)
    (required rest : List WorkerRoute) (created : List Resources) :
    (w.continueInstall version descriptions required rest created).config = w.config := by
  unfold Watcher.continueInstall
  split
  · unfold Watcher.commit
    simp only
    split
    · exact fail_config w _
    · rfl
  · rfl

theorem consume_config (w : Watcher) (message : TopologyMessage) :
    (w.consume message).config = w.config := by
  unfold Watcher.consume
  split
  · exact fail_config w _
  · rfl
  · unfold Watcher.install
    split
    · exact fail_config _ _
    · exact continueInstall_config _ _ _ _ _ _

theorem step_config {w w' : Watcher} {event : WatcherEvent} (hs : w.step event = some w') :
    w'.config = w.config := by
  unfold Watcher.step at hs
  cases event with
  | message message =>
    simp only at hs
    split_ifs at hs
    cases hs
    exact consume_config w message
  | create c =>
    simp only at hs
    split at hs
    · rename_i route _ created _
      split at hs
      · rename_i hr
        cases hs
        have h1 := congrArg Watcher.config (createWorkerResources_frame w c route)
        rw [hr] at h1
        rw [continueInstall_config]
        exact h1
      · rename_i he
        cases hs
        have h1 := congrArg Watcher.config (afterFailure_frame w c route created)
        unfold Watcher.afterFailure at h1
        rw [he] at h1
        rw [fail_config]
        exact h1
    · cases hs
  | disconnected =>
    simp only at hs
    split_ifs at hs
    cases hs
    exact fail_config w _
  | reconnect =>
    simp only at hs
    split_ifs at hs
    cases hs
    rfl
  | retire task raised =>
    simp only at hs
    split_ifs at hs
    cases hs
    rw [(retire_frame w task raised).1]

/-- a run of the watch task and the cleanup tasks -/
def run (w : Watcher) (events : List WatcherEvent) : Option Watcher :=
  Steps.run step (fun _ _ => true) w events

theorem run_cons {w w1 w' : Watcher} {event : WatcherEvent} {events : List WatcherEvent}
    (hs : w.step event = some w1) (hr : w1.run events = some w') :
    w.run (event :: events) = some w' := by
  show (w.step event).bind _ = some w'
  rw [hs]
  exact hr

theorem Ok.run {w w' : Watcher} (h : w.Ok) {events : List WatcherEvent}
    (hr : w.run events = some w') : w'.Ok := by
  induction events generalizing w with
  | nil =>
    cases hr
    exact h
  | cons event events ih =>
    obtain ⟨w1, hs, hrest⟩ := Option.bind_eq_some_iff.mp hr
    exact ih (h.step hs) hrest

/-! ## a complete message is installed once its connections are made -/

/-- the view that `current` serves -/
structure Serves (w : Watcher) (version : Nat) (descriptions : RouteDescriptions) : Prop where
  version : w.snapshot.version = version
  descriptions : w.routeDescriptions = descriptions
  current : w.current w.config.instanceId = .ok w.snapshot

theorem continueInstall_cases {w : Watcher} {descriptions : RouteDescriptions}
    {required rest : List WorkerRoute} {created : List Resources} (h : w.Core)
    (hi : w.Installing descriptions required rest created) (hf : w.failure = none)
    (version : Nat) :
    (w.continueInstall version descriptions required rest created).Serves version descriptions ∨
      ∃ route rest', rest'.length < rest.length ∧
        (w.continueInstall version descriptions required rest created).watching
          = .creating version descriptions required (route :: rest') created ∧
        (w.continueInstall version descriptions required rest created).failure = none := by
  unfold Watcher.continueInstall
  have hsplit := List.takeWhile_append_dropWhile (p := w.connected) (l := rest)
  cases hd : rest.dropWhile w.connected with
  | nil =>
    have hc : w.Connected required created := by
      intro route hr
      rcases hi.done route hr with hrest | hdone
      · rw [hd, List.append_nil] at hsplit
        refine .inl (List.mem_takeWhile_imp (p := w.connected) (l := rest) ?_)
        rw [hsplit]
        exact hrest
      · exact hdone
    obtain ⟨snapshot, heq, _, hv, _⟩ := commit_eq h hi hc version
    simp only [heq]
    refine .inl ⟨hv, rfl, ?_⟩
    unfold current Watcher.installed
    simp [hf]
  | cons route rest' =>
    refine .inr ⟨route, rest', ?_, rfl, hf⟩
    have hlen := congrArg List.length hsplit
    rw [hd, List.length_append, List.length_cons] at hlen
    omega

/-- the induction is on the number of routes that are still without a connection -/
theorem installs_creating (n : Nat) {w : Watcher} (h : w.Ok) (hf : w.failure = none)
    {version : Nat} {descriptions : RouteDescriptions} {required rest : List WorkerRoute}
    {route : WorkerRoute} {created : List Resources} (hn : rest.length < n)
    (hw : w.watching = .creating version descriptions required (route :: rest) created) :
    ∃ events w', w.run events = some w' ∧ w'.Serves version descriptions := by
  induction n generalizing w route rest created with
  | zero => omega
  | succ n ih =>
    obtain ⟨r, hr⟩ := createWorkerResources_of_none w (c := ⟨none, none, none⟩)
      (h.head_positive hw) rfl
    have hpair : w.createWorkerResources ⟨none, none, none⟩ route
        = (.ok r, (w.createWorkerResources ⟨none, none, none⟩ route).2) := Prod.ext hr rfl
    obtain ⟨hcore, hinst⟩ := h.created hw hr
    have hf1 : (w.createWorkerResources ⟨none, none, none⟩ route).2.failure = none := by
      rw [createWorkerResources_frame]
      exact hf
    have hstep : w.step (.create ⟨none, none, none⟩)
        = some ((w.createWorkerResources ⟨none, none, none⟩ route).2.continueInstall version
          descriptions required rest (created ++ [r])) := by
      unfold Watcher.step
      simp only [hw]
      rw [hpair]
    have hok := h.step hstep
    rcases continueInstall_cases hcore hinst hf1 version with hserves | ⟨route', rest', hlt, hw', hf'⟩
    · exact ⟨[.create ⟨none, none, none⟩], _, run_cons hstep rfl, hserves⟩
    · obtain ⟨events, w', hrun, hserves⟩ := ih hok hf' (by omega) hw'
      exact ⟨.create ⟨none, none, none⟩ :: events, w', run_cons hstep hrun, hserves⟩

/-- a complete message, of one description for each Worker, can be installed -/
theorem installs {w : Watcher} (h : w.Ok) (hf : w.failure = none) (hw : w.watching = .streaming)
    {message : TopologyMessage} {version : Nat} {descriptions : RouteDescriptions}
    {messages : TopologyMessageAssembler}
    (hm : Frontend.consume w.messages message w.snapshot.version w.routeDescriptions
      = .ok (some (version, descriptions), messages))
    {required : List WorkerRoute}
    (hq : requiredRoutes (Maps.values descriptions).flatten [] = .ok required) :
    ∃ events w', w.run events = some w' ∧ w'.Serves version descriptions := by
  have hcore : ({ w with messages := messages } : Watcher).Core :=
    h.core.frame rfl rfl rfl rfl rfl rfl rfl rfl
  have hinst : ({ w with messages := messages } : Watcher).Installing descriptions required
      required [] := .begin (consume_routesOk hm h.core.routes) (required_of_requiredRoutes hq)
  have hstep : w.step (.message message) = some (({ w with messages := messages } : Watcher)
      |>.continueInstall version descriptions required required []) := by
    unfold Watcher.step Watcher.consume Watcher.install
    simp only [if_pos hw, hm, hq]
  rcases continueInstall_cases hcore hinst hf version with hserves | ⟨route, rest, hlt, hw', hf'⟩
  · exact ⟨[.message message], _, run_cons hstep rfl, hserves⟩
  · obtain ⟨events, w', hrun, hserves⟩ :=
      installs_creating (rest.length + 1) (h.step hstep) hf' (Nat.lt_succ_self _) hw'
    exact ⟨.message message :: events, w', run_cons hstep hrun, hserves⟩

/-! ## a failure ends the watch task -/

def StopsOnFailure (w : Watcher) : Prop := w.failure ≠ none → w.watching = .stopped

theorem stopsOnFailure_of_none {w : Watcher} (h : w.failure = none) : w.StopsOnFailure :=
  fun hne => absurd h hne

theorem fail_stops {w : Watcher} (h : w.failure = none) (e : WatchError) :
    (w.fail e).StopsOnFailure := by
  cases e with
  | rpc status => exact stopsOnFailure_of_none h
  | transport error => exact fun _ => rfl
  | protocol error => exact fun _ => rfl
  | other what => exact fun _ => rfl

theorem continueInstall_stops {w : Watcher} (h : w.failure = none) (version : Nat)
    (descriptions : RouteDescriptions) (required rest : List WorkerRoute)
    (created : List Resources) :
    (w.continueInstall version descriptions required rest created).StopsOnFailure := by
  unfold continueInstall
  split
  · unfold commit
    simp only
    split
    · exact fail_stops h _
    · exact stopsOnFailure_of_none h
  · exact stopsOnFailure_of_none h

theorem consume_stops {w : Watcher} (h : w.failure = none) (message : TopologyMessage) :
    (w.consume message).StopsOnFailure := by
  unfold Watcher.consume
  split
  · exact fail_stops h _
  · exact stopsOnFailure_of_none h
  · rename_i messages _
    have hnone : ({ w with messages := messages } : Watcher).failure = none := h
    unfold Watcher.install
    split
    · exact fail_stops hnone _
    · exact continueInstall_stops hnone _ _ _ _ _

theorem StopsOnFailure.failure_eq {w : Watcher} (h : w.StopsOnFailure) (hw : w.watching ≠ .stopped) :
    w.failure = none := by
  by_contra hne
  exact hw (h hne)

theorem StopsOnFailure.step {w w' : Watcher} (h : w.StopsOnFailure) {event : WatcherEvent}
    (hs : w.step event = some w') : w'.StopsOnFailure := by
  unfold Watcher.step at hs
  cases event with
  | message message =>
    simp only at hs
    split_ifs at hs with hw
    cases hs
    exact consume_stops (h.failure_eq (by rw [hw]; simp)) message
  | create c =>
    simp only at hs
    split at hs
    · rename_i version descriptions required route rest created hw
      have hnone : w.failure = none := h.failure_eq (by rw [hw]; simp)
      split at hs
      · rename_i r w1 hr
        cases hs
        refine continueInstall_stops ?_ _ _ _ _ _
        have h1 := congrArg Watcher.failure (createWorkerResources_frame w c route)
        rw [hr] at h1
        exact h1.trans hnone
      · rename_i e w1 he
        cases hs
        refine fail_stops ?_ _
        have h1 := afterFailure_frame w c route created
        unfold afterFailure at h1
        rw [he] at h1
        rw [h1]
        exact hnone
    · cases hs
  | disconnected =>
    simp only at hs
    split_ifs at hs with hw
    cases hs
    exact fail_stops (h.failure_eq (by rw [hw]; simp)) _
  | reconnect =>
    simp only at hs
    split_ifs at hs with hw
    cases hs
    exact stopsOnFailure_of_none (h.failure_eq (by rw [hw]; simp))
  | retire task raised =>
    simp only at hs
    split_ifs at hs with ht
    cases hs
    rw [StopsOnFailure, (retire_frame w task raised).1]
    exact h

theorem StopsOnFailure.run {w w' : Watcher} (h : w.StopsOnFailure) {events : List WatcherEvent}
    (hr : w.run events = some w') : w'.StopsOnFailure := by
  induction events generalizing w with
  | nil =>
    cases hr
    exact h
  | cons event events ih =>
    obtain ⟨w1, hs, hrest⟩ := Option.bind_eq_some_iff.mp hr
    exact ih (h.step hs) hrest

/-! ## which failures the routing survives -/

/-- the connections that the attempt under way has made -/
def attempt (w : Watcher) : List Resources :=
  match w.watching with
  | .creating _ _ _ _ created => created
  | _ => []

/-- a failed connection leaves the view that was served, with open pools and connections, nothing
of the attempt open, and a watcher that can install the next message -/
structure Survives (w w' : Watcher) : Prop where
  current : ∀ instanceId, w'.current instanceId = w.current instanceId
  usable : ∀ (key : ExpertKey) (replicas : List Routing.WorkerConnection),
    w'.snapshot.routes[key]? = some replicas → ∀ target ∈ replicas,
      ∃ r, w'.pools[target.identity]? = some r ∧ r.target = target ∧ w'.IsOpen r
  closed : ∀ r ∈ w.attempt, Part.transport r.serial ∈ w'.closed ∧ Part.pool r.serial ∈ w'.closed
  released : ∀ part ∈ w'.opened, part ∈ w.opened ∨ part ∈ w'.closed
  installable : ∀ (message : TopologyMessage) (version : Nat) (descriptions : RouteDescriptions)
    (messages : TopologyMessageAssembler) (required : List WorkerRoute),
    Frontend.consume w'.messages message w'.snapshot.version w'.routeDescriptions
      = .ok (some (version, descriptions), messages) →
    requiredRoutes (Maps.values descriptions).flatten [] = .ok required →
    ∃ events w'', w'.run events = some w'' ∧ w''.Serves version descriptions

/-- every failed connection of the run is survived -/
def SurvivesFailures (config : WatcherConfig) (events : List WatcherEvent) : Prop :=
  ∀ (before after : List WatcherEvent) (c : Creation), events = before ++ .create c :: after →
    ∀ w w', (start config).run before = some w → w.step (.create c) = some w' →
      c.error.isSome → w.Survives w'

theorem Core.usable {w : Watcher} (h : w.Core) {key : ExpertKey}
    {replicas : List Routing.WorkerConnection} (hk : w.snapshot.routes[key]? = some replicas)
    {target : Routing.WorkerConnection} (ht : target ∈ replicas) :
    ∃ r, w.resources[target.identity]? = some r ∧ w.pools[target.identity]? = some r ∧
      r.target = target ∧ w.IsOpen r := by
  rw [h.snapshot] at hk
  unfold targetsOf at hk
  rw [ExtTreeMap.getElem?_map] at hk
  obtain ⟨routes, _, rfl⟩ := Option.map_eq_some_iff.mp hk
  obtain ⟨route, _, hget⟩ := List.mem_filterMap.mp ht
  obtain ⟨r, hr, rfl⟩ := Option.map_eq_some_iff.mp hget
  obtain ⟨hp, hok, _, hopen, hpool⟩ := h.own _ r hr
  have hid : r.target.identity = route.process := hok.identity.trans hp
  rw [hid]
  exact ⟨r, hr, hpool, rfl, hopen⟩

theorem current_of_stopped {w : Watcher} {e : WatchError} (h : w.failure = some e) :
    w.current w.config.instanceId
      = .error (transportError .protocol ("the topology stream failed: " ++ e.text) false) := by
  unfold current
  rw [if_neg (by simp), h]

/-- a failed connection is survived exactly when its exception is an RPC error -/
theorem survives_iff {w w' : Watcher} (h : w.Ok) (hstop : w.StopsOnFailure) {c : Creation}
    {e : WatchError} (hc : c.error = some e) (hs : w.step (.create c) = some w') :
    w.Survives w' ↔ e.isRpc = true := by
  unfold Watcher.step at hs
  simp only at hs
  split at hs
  · rename_i version descriptions required route rest created hw
    have he : (w.createWorkerResources c route).1 = .error e := createWorkerResources_of_error hc
    have hpair : w.createWorkerResources c route
        = (.error e, (w.createWorkerResources c route).2) := Prod.ext he rfl
    rw [hpair] at hs
    cases hs
    have hcore : (w.afterFailure c route created).Core := h.afterFailure hw he
    have hframe := afterFailure_frame w c route created
    have hnone : w.failure = none := hstop.failure_eq (by rw [hw]; simp)
    have hattempt : w.attempt = created := by
      unfold attempt
      rw [hw]
    change w.Survives ((w.afterFailure c route created).fail e) ↔ _
    constructor
    · intro hsurvives
      by_contra hrpc
      have hcur := hsurvives.current w.config.instanceId
      have hfail : ((w.afterFailure c route created).fail e).failure = some e := by
        cases e with
        | rpc status => exact absurd rfl hrpc
        | transport error => rfl
        | protocol error => rfl
        | other what => rfl
      have hconfig : ((w.afterFailure c route created).fail e).config = w.config := by
        cases e <;> rw [hframe] <;> rfl
      have hstopped := current_of_stopped hfail
      rw [hconfig, hcur] at hstopped
      unfold current at hstopped
      rw [if_neg (by simp), hnone] at hstopped
      simp only at hstopped
      split_ifs at hstopped
      simp [transportError] at hstopped
    · intro hrpc
      cases e with
      | transport error => cases hrpc
      | protocol error => cases hrpc
      | other what => cases hrpc
      | rpc status =>
        have hok := hcore.fail_ok (.rpc status)
        have hfold := foldl_closeResources (w.createWorkerResources c route).2 created
        have hcreate := createWorkerResources_error (h.head_positive hw) he
        refine ⟨?_, ?_, ?_, ?_, ?_⟩
        · intro instanceId
          show (fail _ (.rpc status)).current instanceId = _
          rw [hframe]
          rfl
        · intro key replicas hk target ht
          obtain ⟨r, _, hpool, htarget, hopen⟩ := hok.core.usable hk ht
          exact ⟨r, hpool, htarget, hopen⟩
        · rw [hattempt]
          exact hfold.2.2.2
        · intro part hpart
          have hopened : part ∈ (w.createWorkerResources c route).2.opened := by
            have hp : part ∈ (w.afterFailure c route created).opened := hpart
            rw [hframe] at hp
            exact hp
          rcases hcreate.2.1 part hopened with hold | hclosed
          · exact .inl hold
          · exact .inr (hfold.2.2.1 part hclosed)
        · intro message version' descriptions' messages required' hm hq
          have hstep : ((w.afterFailure c route created).fail (.rpc status)).step .reconnect
              = some { (w.afterFailure c route created).fail (.rpc status) with
                watching := .streaming } := rfl
          have hfail : ((w.afterFailure c route created).fail (.rpc status)).failure = none := by
            show (w.afterFailure c route created).failure = none
            rw [hframe]
            exact hnone
          obtain ⟨events, w'', hrun, hserves⟩ :=
            installs (hok.step hstep) hfail rfl hm hq
          exact ⟨.reconnect :: events, w'', run_cons hstep hrun, hserves⟩
  · cases hs

end Watcher

/-- a run survives its failed connections exactly when each of them raised an RPC error -/
theorem failed_connection_survived (config : WatcherConfig) (events : List WatcherEvent)
    (w : Watcher) (hrun : (Watcher.start config).run events = some w) :
    Watcher.SurvivesFailures config events ↔
      ∀ c, WatcherEvent.create c ∈ events → ∀ e, c.error = some e → e.isRpc = true := by
  have hreach : ∀ before w1, (Watcher.start config).run before = some w1 →
      w1.Ok ∧ w1.StopsOnFailure := fun before w1 h1 =>
    ⟨(Watcher.start_ok config).run h1, (Watcher.stopsOnFailure_of_none rfl).run h1⟩
  constructor
  · intro hsurvives c hmem e he
    obtain ⟨before, after, hsplit⟩ := List.append_of_mem hmem
    rw [hsplit] at hrun
    unfold Watcher.run at hrun
    rw [Steps.run_append] at hrun
    obtain ⟨w1, h1, hrest⟩ := Option.bind_eq_some_iff.mp hrun
    obtain ⟨w2, h2, _⟩ := Option.bind_eq_some_iff.mp hrest
    obtain ⟨hok, hstop⟩ := hreach before w1 h1
    exact (Watcher.survives_iff hok hstop he h2).mp
      (hsurvives before after c hsplit w1 w2 h1 h2 (by rw [he]; rfl))
  · intro hrpc before after c hsplit w1 w2 h1 h2 hsome
    obtain ⟨e, he⟩ := Option.isSome_iff_exists.mp hsome
    obtain ⟨hok, hstop⟩ := hreach before w1 h1
    refine (Watcher.survives_iff hok hstop he h2).mpr (hrpc c ?_ e he)
    rw [hsplit]
    simp

namespace WatcherExample

def config : WatcherConfig := ⟨7, 1, 2, 8, .fp16, "cpu"⟩

def replica (name endpoint : String) (transportType : Int) : ExpertKit.WorkerRoute :=
  ⟨name, "s1", endpoint, "cpu", 1, 1, 4, transportType⟩

theorem four_pos : 0 < 4 := by decide

/-- one expert on a connected Worker -/
def connected : List WatcherEvent :=
  [.message (.snapshot ⟨7, 1, 0, 1, [⟨0, 0, [replica "a" "127.0.0.1:50051" 1]⟩]⟩),
    .create ⟨none, none, none⟩]

/-- a second Worker that shares memory -/
def joining : WatcherEvent :=
  .message (.update ⟨7, 1, 2, 0, 1, [⟨0, 1, [replica "b" "127.0.0.1:50052" 2]⟩]⟩)

/-- the second Worker is registered but does not answer yet -/
def unreachable : Creation :=
  ⟨none, none, some (.transport ⟨.unavailable, true, none, none, [],
    "the Worker gRPC call failed with UNAVAILABLE"⟩)⟩

/-- the same, with the exception of the call itself -/
def disconnected : Creation := ⟨none, none, some (.rpc "UNAVAILABLE")⟩

end WatcherExample

theorem failed_connection_survived_reconnected :
    ∃ w, (Watcher.start WatcherExample.config).run
        (WatcherExample.connected ++ [WatcherExample.joining,
          .create WatcherExample.disconnected, .reconnect, WatcherExample.joining]) = some w ∧
      Watcher.SurvivesFailures WatcherExample.config
        (WatcherExample.connected ++ [WatcherExample.joining,
          .create WatcherExample.disconnected, .reconnect, WatcherExample.joining]) := by
  obtain ⟨w, hw⟩ := Option.isSome_iff_exists.mp
    (show ((Watcher.start WatcherExample.config).run
      (WatcherExample.connected ++ [WatcherExample.joining,
        .create WatcherExample.disconnected, .reconnect, WatcherExample.joining])).isSome = true
      by decide +kernel)
  refine ⟨w, hw, (failed_connection_survived _ _ w hw).mpr ?_⟩
  intro c hmem e he
  simp only [WatcherExample.connected, WatcherExample.joining, List.cons_append, List.nil_append,
    List.mem_cons, reduceCtorEq, WatcherEvent.create.injEq, List.not_mem_nil, or_false,
    false_or] at hmem
  rcases hmem with rfl | rfl
  · cases he
  · cases he
    rfl

/-- a Worker that does not answer takes the routes of all others down: `current` raises a
non-retryable error from then on, and no message is read any more -/
theorem failed_connection_stops_routing :
    ∃ w w', (Watcher.start WatcherExample.config).run
        (WatcherExample.connected ++ [WatcherExample.joining]) = some w ∧
      w.step (.create WatcherExample.unreachable) = some w' ∧
      (w.current 7).map (·.version) = .ok 1 ∧
      w'.current 7 = .error (.transport ⟨.protocol, false, none, none, [],
        "the topology stream failed: the Worker gRPC call failed with UNAVAILABLE"⟩) ∧
      (∀ message, w'.step (.message message) = none) ∧
      ¬ Watcher.SurvivesFailures WatcherExample.config
        (WatcherExample.connected ++ WatcherExample.joining ::
          [.create WatcherExample.unreachable]) := by
  obtain ⟨w, hw, hcheck⟩ := (Option.any_eq_true (fun w : Watcher =>
      (w.step (.create WatcherExample.unreachable)).any (fun w' =>
        decide ((w.current 7).map (·.version) = .ok 1) &&
        decide ((w'.current 7).map (·.version) = .error (.transport ⟨.protocol, false, none, none,
          [], "the topology stream failed: the Worker gRPC call failed with UNAVAILABLE"⟩)) &&
        decide (w'.watching = .stopped)))
    ((Watcher.start WatcherExample.config).run
      (WatcherExample.connected ++ [WatcherExample.joining]))).mp (by decide +kernel)
  obtain ⟨w', hw', hcheck'⟩ := (Option.any_eq_true _ _).mp hcheck
  simp only [Bool.and_eq_true, decide_eq_true_eq] at hcheck'
  obtain ⟨⟨hcur, hcur'⟩, hstopped⟩ := hcheck'
  refine ⟨w, w', hw, hw', hcur, ?_, ?_, ?_⟩
  · cases h : w'.current 7 with
    | error raised =>
      rw [h] at hcur'
      rw [Except.error.inj hcur']
    | ok snapshot =>
      rw [h] at hcur'
      cases hcur'
  · intro message
    show (if w'.watching = .streaming then some (w'.consume message) else none) = none
    rw [hstopped]
    rfl
  · intro hsurvives
    have h1 := (hsurvives (WatcherExample.connected ++ [WatcherExample.joining]) []
      WatcherExample.unreachable rfl w w' hw hw' rfl).current 7
    rw [h1, hcur] at hcur'
    cases hcur'

end ExpertKit.Frontend

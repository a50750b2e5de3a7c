import ExpertKit.Proto

/-!
# Frontend: the topology message assembler

`TopologyMessageAssembler` of `ek-transport/src/expertkit_transport/controller/messages.py` and the
state that `ControllerTopologyWatcher._consume` keeps around it.  A message part is validated and
kept in `pending`; the last part of a message decodes and checks the whole message and returns the
new routing view.  An error stops the watcher for good, so no state is returned with it.

* `decodeRoutes`            `_decode_routes`, with its two cross-checks over Worker processes;
* `consume`                 `consume` and `_consume_part`;
* `View`, `View.consume`, `View.feed`   the installed version and routes, and a run over messages.

`math.ceil(max_routes / 64)` is written as the exact quotient.
-/

namespace ExpertKit.Frontend
open Std

structure TopologyProtocolError where
  message : String
deriving DecidableEq, Repr

structure WorkerIdentity where
  workerId : String
  startId : String
deriving DecidableEq, Repr

/-- the validated `WorkerRoute` of the Frontend -/
structure WorkerRoute where
  identity : WorkerIdentity
  endpoint : String
  device : String
  maxActiveBatches : Nat
  maxPendingBatches : Nat
  maxBatchTokens : Nat
  transportType : Int
deriving DecidableEq, Repr

abbrev RouteDescriptions := ExtTreeMap ExpertKey (List WorkerRoute)

instance : DecidableEq RouteDescriptions := inferInstance

inductive MessageKind where
  | snapshot
  | update
deriving DecidableEq, Repr

/-- `_MultipartMessage`; a part is kept as its routes or changes -/
structure MultipartMessage where
  kind : MessageKind
  version : Nat
  previousVersion : Option Nat
  partCount : Nat
  parts : ExtTreeMap Nat (List RouteEntry)
deriving DecidableEq

structure TopologyMessageAssembler where
  instanceId : Nat
  numLayers : Nat
  expertsPerLayer : Nat
  pending : Option MultipartMessage
deriving DecidableEq

def maxRoutesPerPart : Nat := 64

/-! ## decoding -/

def describe (replica : ExpertKit.WorkerRoute) : WorkerRoute where
  identity := ⟨replica.workerId, replica.startId⟩
  endpoint := replica.computationEndpoint
  device := replica.device
  maxActiveBatches := replica.maxActiveBatches
  maxPendingBatches := replica.maxPendingBatches
  maxBatchTokens := replica.maxBatchTokens
  transportType := replica.transportType

def validatePositive (name : String) (value : Nat) : Except TopologyProtocolError Unit :=
  if value ≤ 0 then .error ⟨name ++ " must be positive"⟩ else .ok ()

/-- the checks of one replica that look at this replica only -/
def checkReplica (replica : ExpertKit.WorkerRoute) : Except TopologyProtocolError Unit := do
  if replica.workerId.isEmpty || replica.startId.isEmpty || replica.computationEndpoint.isEmpty ||
      replica.device.isEmpty then
    throw ⟨"topology Worker identity, endpoint, and device are required"⟩
  validatePositive "max_active_batches" replica.maxActiveBatches
  validatePositive "max_pending_batches" replica.maxPendingBatches
  validatePositive "max_batch_tokens" replica.maxBatchTokens
  if !(replica.transportType == 1 || replica.transportType == 2) then
    throw ⟨"topology Worker Transport type is invalid"⟩

/-- `worker_metadata`, an insertion-ordered dictionary -/
abbrev WorkerMetadata := List (WorkerIdentity × WorkerRoute)

/-- the inner loop over the replicas of one route -/
def decodeReplicas (metadata : WorkerMetadata) (identities : List WorkerIdentity) :
    List ExpertKit.WorkerRoute → Except TopologyProtocolError (List WorkerRoute × WorkerMetadata)
  | [] => .ok ([], metadata)
  | replica :: rest => do
    checkReplica replica
    let description := describe replica
    let identity := description.identity
    if identity ∈ identities then throw ⟨"topology route repeats one Worker process"⟩
    let existing := (metadata.lookup identity).getD description
    let metadata :=
      if (metadata.lookup identity).isSome then metadata else metadata ++ [(identity, description)]
    if existing ≠ description then
      throw ⟨"one Worker process has inconsistent topology metadata"⟩
    let (replicas, metadata) ← decodeReplicas metadata (identity :: identities) rest
    return (description :: replicas, metadata)

/-- the outer loop over the routes -/
def decodeLoop (numLayers expertsPerLayer : Nat) (allowEmpty : Bool) :
    RouteDescriptions → WorkerMetadata → List RouteEntry →
      Except TopologyProtocolError RouteDescriptions
  | decoded, _, [] => .ok decoded
  | decoded, metadata, route :: rest => do
    if route.layerId ≥ numLayers || route.expertId ≥ expertsPerLayer then
      throw ⟨"topology route is outside the model bounds"⟩
    if decoded.contains route.key then throw ⟨"topology repeats one expert route"⟩
    let (replicas, metadata) ← decodeReplicas metadata [] route.replicas
    if replicas.isEmpty && !allowEmpty then
      throw ⟨"snapshot route has no ready Worker replica"⟩
    decodeLoop numLayers expertsPerLayer allowEmpty (decoded.insert route.key replicas) metadata rest

def decodeRoutes (a : TopologyMessageAssembler) (routes : List RouteEntry) (allowEmpty : Bool) :
    Except TopologyProtocolError RouteDescriptions :=
  decodeLoop a.numLayers a.expertsPerLayer allowEmpty ∅ [] routes

/-! ## complete messages -/

def completeSnapshot (a : TopologyMessageAssembler) (version : Nat) (routes : List RouteEntry)
    (installedVersion : Nat) (installedRoutes : RouteDescriptions) :
    Except TopologyProtocolError (Nat × RouteDescriptions) := do
  let descriptions ← decodeRoutes a routes false
  if version < installedVersion then throw ⟨"topology snapshot version moved backwards"⟩
  if !descriptions.isEmpty && version == 0 then
    throw ⟨"a nonempty topology must have a positive version"⟩
  if version = installedVersion ∧ descriptions ≠ installedRoutes then
    throw ⟨"one topology version has conflicting snapshots"⟩
  return (version, descriptions)

def applyDecoded (decoded : RouteDescriptions) (descriptions : RouteDescriptions)
    (key : ExpertKey) : RouteDescriptions :=
  let replicas := (decoded[key]?).getD []
  if replicas.isEmpty then descriptions.erase key else descriptions.insert key replicas

/-- the loop over the changes of an update -/
def applyChanges (decoded : RouteDescriptions) :
    RouteDescriptions → List ExpertKey → List RouteEntry →
      Except TopologyProtocolError RouteDescriptions
  | descriptions, _, [] => .ok descriptions
  | descriptions, seen, change :: rest =>
    if change.key ∈ seen then .error ⟨"topology update repeats one expert route"⟩
    else applyChanges decoded (applyDecoded decoded descriptions change.key) (change.key :: seen)
      rest

def completeUpdate (a : TopologyMessageAssembler) (previousVersion version : Nat)
    (changes : List RouteEntry) (installedVersion : Nat) (installedRoutes : RouteDescriptions) :
    Except TopologyProtocolError (Nat × RouteDescriptions) := do
  if previousVersion ≠ installedVersion ∨ version ≤ previousVersion then
    throw ⟨"topology update does not join the installed version"⟩
  if changes.isEmpty then throw ⟨"topology update must contain at least one change"⟩
  let decoded ← decodeRoutes a changes true
  let descriptions ← applyChanges decoded installedRoutes [] changes
  return (version, descriptions)

/-! ## parts -/

/-- what one part says besides its entries -/
structure PartHeader where
  kind : MessageKind
  version : Nat
  previousVersion : Option Nat
  partIndex : Nat
  partCount : Nat
deriving DecidableEq, Repr

def maxParts (a : TopologyMessageAssembler) : Nat :=
  max 1 ((a.numLayers * a.expertsPerLayer + maxRoutesPerPart - 1) / maxRoutesPerPart)

/-- the checks of one part against the bounds -/
def checkPart (a : TopologyMessageAssembler) (h : PartHeader) (entries : List RouteEntry) :
    Except TopologyProtocolError Unit := do
  if h.partCount ≤ 0 ∨ h.partCount ≤ h.partIndex then
    throw ⟨"topology part index or count is invalid"⟩
  if maxRoutesPerPart < entries.length then
    throw ⟨"topology part contains more than 64 routes"⟩
  if maxParts a < h.partCount then
    throw ⟨"topology part count exceeds the model route bound"⟩

/-- the message that the part belongs to: the pending one, or a new one -/
def pendingFor (a : TopologyMessageAssembler) (h : PartHeader) :
    Except TopologyProtocolError MultipartMessage :=
  match a.pending with
  | none => .ok ⟨h.kind, h.version, h.previousVersion, h.partCount, ∅⟩
  | some m =>
    if m.kind ≠ h.kind ∨ m.version ≠ h.version ∨ m.previousVersion ≠ h.previousVersion ∨
        m.partCount ≠ h.partCount then
      .error ⟨"topology multipart messages were interleaved"⟩
    else .ok m

def consumePart (a : TopologyMessageAssembler) (h : PartHeader) (entries : List RouteEntry)
    (installedVersion : Nat) (installedRoutes : RouteDescriptions) :
    Except TopologyProtocolError (Option (Nat × RouteDescriptions) × TopologyMessageAssembler) := do
  checkPart a h entries
  let m ← pendingFor a h
  if m.parts.contains h.partIndex then throw ⟨"topology part index was repeated"⟩
  let parts := m.parts.insert h.partIndex entries
  if parts.size ≠ h.partCount then return (none, { a with pending := some { m with parts } })
  let ordered := ((List.range h.partCount).filterMap fun i => parts[i]?).flatten
  let view ← match h.kind, h.previousVersion with
    | .update, some previousVersion =>
      completeUpdate a previousVersion h.version ordered installedVersion installedRoutes
    | _, _ => completeSnapshot a h.version ordered installedVersion installedRoutes
  return (some view, { a with pending := none })

def consume (a : TopologyMessageAssembler) (message : TopologyMessage) (installedVersion : Nat)
    (installedRoutes : RouteDescriptions) :
    Except TopologyProtocolError (Option (Nat × RouteDescriptions) × TopologyMessageAssembler) :=
  match message with
  | .snapshot part =>
    if part.instanceId ≠ a.instanceId then
      .error ⟨"snapshot instance_id does not match the request"⟩
    else consumePart a ⟨.snapshot, part.topologyVersion, none, part.partIndex, part.partCount⟩
      part.routes installedVersion installedRoutes
  | .update part =>
    if part.instanceId ≠ a.instanceId then
      .error ⟨"update instance_id does not match the request"⟩
    else consumePart a
      ⟨.update, part.topologyVersion, some part.previousVersion, part.partIndex, part.partCount⟩
      part.changes installedVersion installedRoutes
  | .unset => .error ⟨"topology message has no snapshot or update"⟩

/-! ## the watcher's view -/

structure View where
  messages : TopologyMessageAssembler
  version : Nat
  routes : RouteDescriptions
deriving DecidableEq

/-- `ControllerTopologyWatcher._consume`, with a complete message installed -/
def View.consume (view : View) (message : TopologyMessage) : Except TopologyProtocolError View :=
  match Frontend.consume view.messages message view.version view.routes with
  | .error e => .error e
  | .ok (none, messages) => .ok { view with messages }
  | .ok (some (version, routes), messages) => .ok ⟨messages, version, routes⟩

def View.feed (view : View) : List TopologyMessage → Except TopologyProtocolError View
  | [] => .ok view
  | message :: rest =>
    match view.consume message with
    | .error e => .error e
    | .ok view => view.feed rest

theorem View.feed_append (view : View) (a b : List TopologyMessage) :
    view.feed (a ++ b) = match view.feed a with
      | .error e => .error e
      | .ok view => view.feed b := by
  induction a generalizing view with
  | nil => rfl
  | cons m a ih =>
    simp only [List.cons_append, View.feed]
    cases view.consume m with
    | error e => rfl
    | ok view' => exact ih view'

end ExpertKit.Frontend

import ExpertKit.Lib.Maps
import ExpertKit.Lib.Parts

/-!
# The wire types of the control protocol

The messages of `ek-proto/ek/control/v2` (`lifecycle.proto`, `weight_control.proto`) and the
expert key of `ek/worker/v2/common.proto`, as the Controller (Rust) and the Worker and Frontend
(Python) exchange them.  Unsigned fields are `Nat`, open enumerations arrive as raw `Int`s and are
decoded by `tryFrom`.

* `ExpertKey`            `(layer_id, expert_id)`, ordered lexicographically;
* `ExpertStateKind`, `WorkerRunState`, `WorkerTransportType`, `ActivationDType`,
  `WeightLoadStage`, `WeightLoadErrorCode`   the closed readings of the enumerations;
* `TargetExpert`, `ExpertState`, `WorkerRoute`   the entries of the multipart messages;
* `*Part`, `TopologyMessage`   the parts themselves.
-/

namespace ExpertKit
open Std

/-- at most this many entries travel in one part -/
def maxControlEntriesPerPart : Nat := 64

/-! ## expert keys -/

structure ExpertKey where
  layerId : Nat
  expertId : Nat
deriving DecidableEq, Repr, Inhabited

instance : Ord ExpertKey := ⟨compareLex (compareOn ExpertKey.layerId) (compareOn ExpertKey.expertId)⟩

instance : TransOrd ExpertKey :=
  inferInstanceAs
    (TransCmp (compareLex (compareOn ExpertKey.layerId) (compareOn ExpertKey.expertId)))

theorem ExpertKey.compare_eq (a b : ExpertKey) :
    compare a b = (compare a.layerId b.layerId).then (compare a.expertId b.expertId) := rfl

instance : LawfulEqOrd ExpertKey where
  eq_of_compare {a b} h := by
    rw [ExpertKey.compare_eq, Ordering.then_eq_eq] at h
    obtain ⟨h1, h2⟩ := h
    rw [Std.compare_eq_iff_eq] at h1 h2
    cases a
    cases b
    simp_all

/-! ## enumerations -/

inductive ExpertStateKind where
  | unspecified
  | ready
  | failed
  | removed
deriving DecidableEq, Repr

def ExpertStateKind.tryFrom : Int → Option ExpertStateKind
  | 0 => some .unspecified
  | 1 => some .ready
  | 2 => some .failed
  | 3 => some .removed
  | _ => none

def ExpertStateKind.toInt : ExpertStateKind → Int
  | .unspecified => 0
  | .ready => 1
  | .failed => 2
  | .removed => 3

inductive WorkerRunState where
  | unspecified
  | running
  | shuttingDown
deriving DecidableEq, Repr

def WorkerRunState.tryFrom : Int → Option WorkerRunState
  | 0 => some .unspecified
  | 1 => some .running
  | 2 => some .shuttingDown
  | _ => none

inductive WorkerTransportType where
  | unspecified
  | grpc
  | shm
deriving DecidableEq, Repr

def WorkerTransportType.tryFrom : Int → Option WorkerTransportType
  | 0 => some .unspecified
  | 1 => some .grpc
  | 2 => some .shm
  | _ => none

inductive ActivationDType where
  | unspecified
  | fp16
  | bf16
  | fp32
deriving DecidableEq, Repr

def ActivationDType.tryFrom : Int → Option ActivationDType
  | 0 => some .unspecified
  | 1 => some .fp16
  | 2 => some .bf16
  | 3 => some .fp32
  | _ => none

inductive WeightLoadStage where
  | unspecified
  | fetch
  | read
  | parse
  | validate
  | convert
  | place
deriving DecidableEq, Repr

def WeightLoadStage.tryFrom : Int → Option WeightLoadStage
  | 0 => some .unspecified
  | 1 => some .fetch
  | 2 => some .read
  | 3 => some .parse
  | 4 => some .validate
  | 5 => some .convert
  | 6 => some .place
  | _ => none

def WeightLoadStage.toInt : WeightLoadStage → Int
  | .unspecified => 0
  | .fetch => 1
  | .read => 2
  | .parse => 3
  | .validate => 4
  | .convert => 5
  | .place => 6

inductive WeightLoadErrorCode where
  | unspecified
  | notFound
  | io
  | network
  | invalidFormat
  | unexpectedMetadata
  | unsupported
  | internal
deriving DecidableEq, Repr

def WeightLoadErrorCode.tryFrom : Int → Option WeightLoadErrorCode
  | 0 => some .unspecified
  | 1 => some .notFound
  | 2 => some .io
  | 3 => some .network
  | 4 => some .invalidFormat
  | 5 => some .unexpectedMetadata
  | 6 => some .unsupported
  | 7 => some .internal
  | _ => none

def WeightLoadErrorCode.toInt : WeightLoadErrorCode → Int
  | .unspecified => 0
  | .notFound => 1
  | .io => 2
  | .network => 3
  | .invalidFormat => 4
  | .unexpectedMetadata => 5
  | .unsupported => 6
  | .internal => 7

theorem ExpertStateKind.tryFrom_toInt (k : ExpertStateKind) : tryFrom k.toInt = some k := by
  cases k <;> rfl

theorem WeightLoadStage.tryFrom_toInt (k : WeightLoadStage) : tryFrom k.toInt = some k := by
  cases k <;> rfl

theorem WeightLoadErrorCode.tryFrom_toInt (k : WeightLoadErrorCode) :
    tryFrom k.toInt = some k := by
  cases k <;> rfl

/-! ## entries -/

structure TargetExpert where
  layerId : Nat
  expertId : Nat
  targetDevice : String
  peerWeightEndpoints : List String
deriving DecidableEq, Repr

structure WeightLoadFailure where
  stage : Int
  code : Int
  retryable : Bool
  diagnostic : String
deriving DecidableEq, Repr

structure ExpertState where
  layerId : Nat
  expertId : Nat
  state : Int
  failure : Option WeightLoadFailure
deriving DecidableEq, Repr

structure WorkerRoute where
  workerId : String
  startId : String
  computationEndpoint : String
  device : String
  maxActiveBatches : Nat
  maxPendingBatches : Nat
  maxBatchTokens : Nat
  transportType : Int
deriving DecidableEq, Repr

/-- an `ExpertRoute` of a snapshot or a `RouteChange` of an update: both messages have these
fields; an empty replica list of a change removes the route -/
structure RouteEntry where
  layerId : Nat
  expertId : Nat
  replicas : List WorkerRoute
deriving DecidableEq, Repr

def TargetExpert.key (t : TargetExpert) : ExpertKey := ⟨t.layerId, t.expertId⟩

def ExpertState.key (s : ExpertState) : ExpertKey := ⟨s.layerId, s.expertId⟩

def RouteEntry.key (r : RouteEntry) : ExpertKey := ⟨r.layerId, r.expertId⟩

/-- `state.state == ExpertStateKind::ExpertReady as i32` -/
def ExpertState.isReady (s : ExpertState) : Bool := s.state == ExpertStateKind.ready.toInt

/-! ## registration -/

structure WorkerDevice where
  device : String
  maxExperts : Nat
deriving DecidableEq, Repr

structure RegisterWorkerRequest where
  workerId : String
  startId : String
  instanceId : Nat
  computationEndpoint : String
  peerWeightEndpoint : String
  backend : String
  activationDtype : Int
  device : Option WorkerDevice
  maxBatchTokens : Nat
  maxActiveBatchesPerDevice : Nat
  maxPendingBatchesPerDevice : Nat
  transportType : Int
deriving DecidableEq, Repr

/-! ## parts -/

structure TargetExpertListPart where
  placementGeneration : Nat
  partIndex : Nat
  partCount : Nat
  experts : List TargetExpert
deriving DecidableEq, Repr

structure DrainAuthorizationPart where
  drainId : Nat
  placementGeneration : Nat
  minTopologyVersion : Nat
  stopAcceptingAllComputation : Bool
  partIndex : Nat
  partCount : Nat
  experts : List ExpertKey
deriving DecidableEq, Repr

structure FullExpertStatePart where
  placementGeneration : Nat
  reportSequence : Nat
  partIndex : Nat
  partCount : Nat
  experts : List ExpertState
deriving DecidableEq, Repr

structure ExpertStateUpdates where
  placementGeneration : Nat
  reportSequence : Nat
  experts : List ExpertState
deriving DecidableEq, Repr

structure TopologySnapshotPart where
  instanceId : Nat
  topologyVersion : Nat
  partIndex : Nat
  partCount : Nat
  routes : List RouteEntry
deriving DecidableEq, Repr

structure TopologyUpdatePart where
  instanceId : Nat
  previousVersion : Nat
  topologyVersion : Nat
  partIndex : Nat
  partCount : Nat
  changes : List RouteEntry
deriving DecidableEq, Repr

/-- the `oneof` of a topology message; `unset` is a message without a payload -/
inductive TopologyMessage where
  | snapshot (part : TopologySnapshotPart)
  | update (part : TopologyUpdatePart)
  | unset
deriving DecidableEq, Repr

/-- the `oneof` of a message of the Worker on its weight stream -/
inductive WorkerWeightMessage where
  | openStream (workerId startId : String)
  | fullState (part : FullExpertStatePart)
  | stateUpdates (updates : ExpertStateUpdates)
  | drainComplete (drainId : Nat)
  | unset
deriving DecidableEq, Repr

/-- the `oneof` of a message of the Controller on the weight stream -/
inductive ControllerWeightMessage where
  | targets (part : TargetExpertListPart)
  | stateAck (reportSequence : Nat)
  | drain (part : DrainAuthorizationPart)
  | unset
deriving DecidableEq, Repr

end ExpertKit

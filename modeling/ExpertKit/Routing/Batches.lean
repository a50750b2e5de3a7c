import ExpertKit.Proto
import ExpertKit.Lib.Scatter

/-!
# Frontend routing: batches, Topology snapshots and replica selection

The data of `ek-transport`'s routing package (`batches.py`, `routing/topology.py`,
`routing/selection.py`, `errors.py`).  A tensor of shape `[n, k]` is a list of `n` rows over `Fin k`,
so its width is part of the type and its length is checked where the source checks it.  Arithmetic is
exact over a semiring `S`; the casts to and from FP32 are identities here.

* `RoutedLayerBatch`, `WorkerBatch`     the checks of `__post_init__` are fields;
* `WorkerIdentity`, `WorkerConnection`, `TopologySnapshot`   the routes of one Topology version;
* `ReplicaSelector`, `RoundRobinSelector`   the policy, as a state passing function;
* `WorkerBatch.rows`, `assignments`     the slots of a batch under their token number;
* `rowValue`, `layerRow`                what one row of slots and one token are worth.
-/

set_option linter.unusedSectionVars false

namespace ExpertKit.Routing
open Std

def uint32Max : Nat := 2 ^ 32 - 1

/-! ## errors -/

inductive TransportErrorCode where
  | busy
  | draining
  | staleTopology
  | expertNotReady
  | invalidRequest
  | unsupported
  | unavailable
  | deadlineExceeded
  | cancelled
  | protocol
deriving DecidableEq, Repr

structure TransportError where
  code : TransportErrorCode
  retryable : Bool
  observedTopologyVersion : Option Nat
  minTopologyVersion : Option Nat
  unavailableExpertIds : List Nat
  diagnostic : String
deriving DecidableEq, Repr

/-- a raised exception: a `TransportError` or any other one -/
inductive Raised where
  | transport (error : TransportError)
  | other (what : String)
deriving DecidableEq, Repr

/-! ## Topology -/

structure WorkerIdentity where
  workerId : String
  startId : String
deriving DecidableEq, Repr

instance : Ord WorkerIdentity :=
  ⟨compareLex (compareOn WorkerIdentity.workerId) (compareOn WorkerIdentity.startId)⟩

instance : TransOrd WorkerIdentity :=
  inferInstanceAs
    (TransCmp (compareLex (compareOn WorkerIdentity.workerId) (compareOn WorkerIdentity.startId)))

theorem WorkerIdentity.compare_eq (a b : WorkerIdentity) :
    compare a b = (compare a.workerId b.workerId).then (compare a.startId b.startId) := rfl

instance : LawfulEqOrd WorkerIdentity where
  eq_of_compare {a b} h := by
    rw [WorkerIdentity.compare_eq, Ordering.then_eq_eq] at h
    obtain ⟨h1, h2⟩ := h
    rw [Std.compare_eq_iff_eq] at h1 h2
    cases a
    cases b
    simp_all

/-- a route to one Worker process; its Transport acts through `Submission` -/
structure WorkerConnection where
  identity : WorkerIdentity
  maxBatchTokens : Nat
  maxActiveBatches : Nat
  maxPendingBatches : Nat
  tokens_pos : 0 < maxBatchTokens
  active_pos : 0 < maxActiveBatches
  pending_pos : 0 < maxPendingBatches
deriving DecidableEq

/-- the checks of `TopologySnapshot.__post_init__` are fields -/
structure TopologySnapshot where
  instanceId : Nat
  version : Nat
  routes : ExtTreeMap ExpertKey (List WorkerConnection)
  nonempty : ∀ (key : ExpertKey) (replicas : List WorkerConnection),
    routes[key]? = some replicas → replicas ≠ []
  distinct : ∀ (key : ExpertKey) (replicas : List WorkerConnection),
    routes[key]? = some replicas → (replicas.map WorkerConnection.identity).Nodup
  consistent : ∀ (key key' : ExpertKey) (replicas replicas' : List WorkerConnection),
    routes[key]? = some replicas → routes[key']? = some replicas' →
    ∀ target ∈ replicas, ∀ target' ∈ replicas', target.identity = target'.identity →
      target = target'

/-- the ready replicas of one layer under the expert number -/
def TopologySnapshot.layerRoutes (t : TopologySnapshot) (layerId : Nat) :
    List (Nat × List WorkerConnection) :=
  (t.routes.toList.filter fun e => e.1.layerId == layerId).map fun e => (e.1.expertId, e.2)

/-! ## selection -/

structure ReplicaSelector (σ : Type) where
  select : σ → (instanceId layerId expertId : Nat) → List WorkerConnection →
    ExtTreeSet WorkerIdentity → (fallbackToExcluded : Bool) → Except Raised WorkerConnection × σ

/-- rotate each expert over its ready replicas; the state counts the selections of each expert -/
def RoundRobinSelector : ReplicaSelector (List ((Nat × Nat × Nat) × Nat)) where
  select next instanceId layerId expertId replicas excluded fallbackToExcluded :=
    let preferred := replicas.filter fun target => !excluded.contains target.identity
    let eligible := if preferred.isEmpty && fallbackToExcluded then replicas else preferred
    let index := (next.lookup (instanceId, layerId, expertId)).getD 0
    match eligible[index % eligible.length]? with
    | none => (.error (.transport ⟨.unavailable, true, none, none, [expertId],
        "no eligible ready replica"⟩), next)
    | some target => (.ok target, ((instanceId, layerId, expertId), index + 1) :: next)

/-! ## batches -/

inductive Dtype where
  | fp16
  | bf16
  | fp32
deriving DecidableEq, Repr

/-- activations of shape `[token_count, d]` -/
structure HiddenStates (S : Type) (d : Nat) where
  dtype : Dtype
  device : String
  values : List (Fin d → S)
  tokens_pos : 0 < values.length
  hidden_pos : 0 < d

/-- `distinct_expert_ids` is sorted without duplicates and holds `uint32` numbers -/
structure DistinctOk (ids : List Nat) : Prop where
  sorted : ids.Pairwise (· < ·)
  le : ∀ e ∈ ids, e ≤ uint32Max

structure RoutedLayerBatch (S : Type) (d k : Nat) where
  instanceId : Nat
  layerId : Nat
  hiddenStates : HiddenStates S d
  expertIds : List (Fin k → Int)
  routingWeights : List (Fin k → S)
  distinctExpertIds : List Nat
  topK_pos : 0 < k
  ids_shape : expertIds.length = hiddenStates.values.length
  weights_shape : routingWeights.length = hiddenStates.values.length
  distinct : DistinctOk distinctExpertIds

section
variable {S : Type} {d k : Nat}

def RoutedLayerBatch.tokenCount (b : RoutedLayerBatch S d k) : Nat := b.hiddenStates.values.length

/-- the number of rows that the indices select; `none` selects every source row in order -/
def selectedTokens (hidden : HiddenStates S d) : Option (List Nat) → Nat
  | none => hidden.values.length
  | some indices => indices.length

structure WorkerBatch (S : Type) (d k : Nat) where
  instanceId : Nat
  layerId : Nat
  topologyVersion : Nat
  hiddenStates : HiddenStates S d
  tokenIndices : Option (List Nat)
  expertIds : List (Fin k → Int)
  routingWeights : List (Fin k → S)
  distinctExpertIds : List Nat
  indices_pos : 0 < selectedTokens hiddenStates tokenIndices
  topK_pos : 0 < k
  ids_shape : expertIds.length = selectedTokens hiddenStates tokenIndices
  weights_shape : routingWeights.length = selectedTokens hiddenStates tokenIndices
  distinct : DistinctOk distinctExpertIds

def WorkerBatch.tokenCount (b : WorkerBatch S d k) : Nat :=
  selectedTokens b.hiddenStates b.tokenIndices

/-- the token indices, with `arange(token_count)` for the complete batch -/
def WorkerBatch.indices (b : WorkerBatch S d k) : List Nat :=
  b.tokenIndices.getD (List.range b.tokenCount)

theorem WorkerBatch.length_indices (b : WorkerBatch S d k) : b.indices.length = b.tokenCount := by
  unfold WorkerBatch.indices WorkerBatch.tokenCount
  cases b.tokenIndices with
  | none => simp [selectedTokens]
  | some indices => rfl

/-! ## slots -/

/-- one row of slots under its token number -/
structure SlotRow (S : Type) (k : Nat) where
  token : Nat
  ids : Fin k → Int
  weights : Fin k → S

def slotRows (indices : List Nat) (ids : List (Fin k → Int)) (weights : List (Fin k → S)) :
    List (SlotRow S k) :=
  (indices.zip (ids.zip weights)).map fun r => ⟨r.1, r.2.1, r.2.2⟩

def WorkerBatch.rows (b : WorkerBatch S d k) : List (SlotRow S k) :=
  slotRows b.indices b.expertIds b.routingWeights

def RoutedLayerBatch.rows (b : RoutedLayerBatch S d k) : List (SlotRow S k) :=
  slotRows (List.range b.tokenCount) b.expertIds b.routingWeights

/-- the valid (expert, weight) entries that the rows hold for token `t` in slot `j` -/
def assignments (rows : List (SlotRow S k)) (t : Nat) (j : Fin k) : List (Int × S) :=
  rows.flatMap fun r => if r.token = t ∧ 0 ≤ r.ids j then [(r.ids j, r.weights j)] else []

theorem assignments_flatMap {ι : Type} (l : List ι) (f : ι → List (SlotRow S k)) (t : Nat)
    (j : Fin k) :
    assignments (l.flatMap f) t j = l.flatMap fun i => assignments (f i) t j :=
  List.flatMap_assoc

/-! ## values -/

variable [Semiring S]

/-- the sum of weight times expert over the valid slots of a row, for one activation -/
def rowValue (expert : Nat → (Fin d → S) → Fin d → S) (hidden : Fin d → S) (ids : Fin k → Int)
    (weights : Fin k → S) : Fin d → S :=
  ∑ j, if 0 ≤ ids j then weights j • expert (ids j).toNat hidden else 0

/-- what a Worker has to write for its batch, row by row -/
def WorkerBatch.outputs (expert : Nat → (Fin d → S) → Fin d → S) (b : WorkerBatch S d k) :
    List (Fin d → S) :=
  b.rows.map fun r => rowValue expert (b.hiddenStates.values.getD r.token 0) r.ids r.weights

/-- the sum over all valid slots of token `t` -/
def layerRow (expert : Nat → (Fin d → S) → Fin d → S) (b : RoutedLayerBatch S d k) (t : Nat) :
    Fin d → S :=
  rowValue expert (b.hiddenStates.values.getD t 0) (b.expertIds.getD t fun _ => -1)
    (b.routingWeights.getD t 0)

end

end ExpertKit.Routing

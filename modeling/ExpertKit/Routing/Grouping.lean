import ExpertKit.Lib.Ledger
import ExpertKit.Routing.Batches

/-!
# Frontend routing: grouping assignments by Worker and splitting physical batches

`routing/grouping.py`.  Every requested expert gets one replica; the slots of a layer are masked per
selected Worker, compacted to the rows that hold one of its slots, and cut into chunks of at most
`max_batch_tokens` rows.  When one Worker serves every expert the complete tensors are sent.

* `splitBatch`, `groupWorkerBatches`   the code;
* `Covers`          every valid slot names a listed expert;
* `Grouped`         what holds of the plans: the slots of the layer are handed out exactly once;
* `groupWorkerBatches_grouped`   every grouping that returns is one.
-/

set_option linter.unusedSectionVars false

namespace ExpertKit.Routing
open Std

section
variable {S : Type} {d k : Nat}

structure WorkerBatchPlan (S : Type) (d k : Nat) where
  target : WorkerConnection
  batch : WorkerBatch S d k

def invalidRequest (diagnostic : String) : Raised :=
  .transport ⟨.invalidRequest, false, none, none, [], diagnostic⟩

def unavailable (experts : List Nat) (diagnostic : String) : Raised :=
  .transport ⟨.unavailable, true, none, none, experts, diagnostic⟩

/-! ## splitting -/

def chunkCount (tokens chunkSize : Nat) : Nat := (tokens + chunkSize - 1) / chunkSize

/-- entry `index` of the flat table of counts: valid slots whose chunk and expert lead there -/
def flatCount (expertIds : List (Fin k → Int)) (chunkSize width index : Nat) : Nat :=
  (expertIds.zipIdx.map fun row => (List.finRange k).countP fun j =>
    decide (0 ≤ row.1 j ∧ row.2 / chunkSize * width + (row.1 j).toNat = index)).sum

/-- the experts of chunk `chunk`, from one table of counts for all chunks -/
def distinctExpertsOfChunk (expertIds : List (Fin k → Int)) (chunkSize : Nat)
    (distinctExpertIds : List Nat) (chunk : Nat) : List Nat :=
  match distinctExpertIds.getLast? with
  | none => []
  | some last => (List.range (last + 1)).filter fun e =>
      flatCount expertIds chunkSize (last + 1) (chunk * (last + 1) + e) != 0

theorem distinctExpertsOfChunk_ok {expertIds : List (Fin k → Int)} {chunkSize : Nat}
    {distinct : List Nat} (h : DistinctOk distinct) (chunk : Nat) :
    DistinctOk (distinctExpertsOfChunk expertIds chunkSize distinct chunk) := by
  unfold distinctExpertsOfChunk
  cases hl : distinct.getLast? with
  | none => exact ⟨List.Pairwise.nil, by simp⟩
  | some last =>
    refine ⟨List.pairwise_lt_range.filter _, ?_⟩
    intro e he
    have hlt := List.mem_range.mp (List.mem_filter.mp he).1
    have hle := h.le last (List.mem_of_getLast? hl)
    omega

theorem slice_length_eq {α β : Type} (size : Nat) {l : List α} {l' : List β}
    (h : l.length = l'.length) (i : Nat) :
    (Parts.slice size l i).length = (Parts.slice size l' i).length := by
  rw [Parts.slice_eq, Parts.slice_eq]
  simp [h]

theorem slice_length_pos {α : Type} {size : Nat} (hs : 0 < size) {l : List α} {i : Nat}
    (h : i < chunkCount l.length size) : 0 < (Parts.slice size l i).length := by
  rw [Parts.slice_eq, List.length_take, List.length_drop]
  unfold chunkCount at h
  have h1 : (i + 1) * size ≤ l.length + size - 1 := (Nat.le_div_iff_mul_le hs).mp h
  rw [Nat.succ_mul] at h1
  omega

/-- rows `i * size` to `i * size + size` of a batch -/
def chunk (batch : WorkerBatch S d k) (size : Nat) (hs : 0 < size)
    (i : Fin (chunkCount batch.tokenCount size)) : WorkerBatch S d k where
  instanceId := batch.instanceId
  layerId := batch.layerId
  topologyVersion := batch.topologyVersion
  hiddenStates := batch.hiddenStates
  tokenIndices := some (Parts.slice size batch.indices i)
  expertIds := Parts.slice size batch.expertIds i
  routingWeights := Parts.slice size batch.routingWeights i
  distinctExpertIds := distinctExpertsOfChunk batch.expertIds size batch.distinctExpertIds i
  indices_pos := slice_length_pos hs (by rw [batch.length_indices]; exact i.2)
  topK_pos := batch.topK_pos
  ids_shape := slice_length_eq size (batch.ids_shape.trans batch.length_indices.symm) i
  weights_shape := slice_length_eq size (batch.weights_shape.trans batch.length_indices.symm) i
  distinct := distinctExpertsOfChunk_ok batch.distinct i

/-- an expert number above the listed ones leads out of the table of counts -/
def outOfTable (batch : WorkerBatch S d k) (size : Nat) : Bool :=
  batch.distinctExpertIds.getLast?.any fun last =>
    batch.expertIds.zipIdx.any fun row => (List.finRange k).any fun j =>
      decide (0 ≤ row.1 j ∧ chunkCount batch.tokenCount size * (last + 1)
        ≤ row.2 / size * (last + 1) + (row.1 j).toNat)

def splitBatch (target : WorkerConnection) (batch : WorkerBatch S d k) :
    Except Raised (List (WorkerBatchPlan S d k)) :=
  if batch.tokenCount ≤ target.maxBatchTokens then .ok [⟨target, batch⟩]
  else if outOfTable batch target.maxBatchTokens then .error (.other "index out of bounds")
  else .ok ((List.finRange (chunkCount batch.tokenCount target.maxBatchTokens)).map fun i =>
    ⟨target, chunk batch target.maxBatchTokens target.tokens_pos i⟩)

/-! ## grouping -/

/-- one replica for every requested expert -/
def selectTargets {σ : Type} (selector : ReplicaSelector σ) (instanceId layerId : Nat)
    (routes : List (Nat × List WorkerConnection)) (excluded : ExtTreeSet WorkerIdentity)
    (excludedByExpert : ExtTreeMap Nat (ExtTreeSet WorkerIdentity)) (fallbackToExcluded : Bool) :
    List Nat → σ → Except Raised (List WorkerConnection) × σ
  | [], state => (.ok [], state)
  | expertId :: rest, state =>
    match selector.select state instanceId layerId expertId ((routes.lookup expertId).getD [])
        (excluded.union ((excludedByExpert[expertId]?).getD ∅)) fallbackToExcluded with
    | (.error raised, state) => (.error raised, state)
    | (.ok target, state) =>
      match selectTargets selector instanceId layerId routes excluded excludedByExpert
          fallbackToExcluded rest state with
      | (.error raised, state) => (.error raised, state)
      | (.ok targets, state) => (.ok (target :: targets), state)

/-- `targets_by_identity` after the selection loop -/
def targetsByIdentity (selected : List (Nat × WorkerConnection)) :
    ExtTreeMap WorkerIdentity WorkerConnection :=
  Maps.insertAll (fun e => e.2.identity) Prod.snd ∅ selected

/-- `experts_by_identity` after the selection loop -/
def expertsByIdentity (selected : List (Nat × WorkerConnection)) :
    ExtTreeMap WorkerIdentity (List Nat) :=
  selected.foldl (fun experts e => experts.insert e.2.identity
    ((experts[e.2.identity]?).getD [] ++ [e.1])) ∅

/-- the number of a Worker in the sorted order of the selected ones -/
def targetIndex (selected : List (Nat × WorkerConnection)) (identity : WorkerIdentity) : Nat :=
  ((targetsByIdentity selected).toList.map Prod.fst).idxOf identity

/-- `expert_target_values`: the Worker number of every expert, `-1` for the others -/
def expertTargetValues (selected : List (Nat × WorkerConnection)) : List Int :=
  Scatter.indexCopy (List.replicate ((selected.map Prod.fst).foldl max 0 + 1) (-1))
    (selected.map fun e => (e.1, (targetIndex selected e.2.identity : Int)))

/-- the Worker number of every slot, `-1` where the slot is not valid -/
def assignmentTargets (values : List Int) (expertIds : List (Fin k → Int)) :
    List (Fin k → Int) :=
  expertIds.map fun row j => if 0 ≤ row j then values.getD (row j).toNat (-1) else -1

/-- the rows with a slot of this Worker -/
def targetTokens (targets : List (Fin k → Int)) (index : Nat) : List Nat :=
  (List.range targets.length).filter fun t =>
    (List.finRange k).any fun j => targets.getD t (fun _ => -1) j == (index : Int)

/-- the rows of a tensor, with `default` in the slots of other Workers -/
def maskedRows {α : Type} (targets : List (Fin k → Int)) (index : Nat) (tensor : List (Fin k → α))
    (default : α) : List (Fin k → α) :=
  (targetTokens targets index).map fun t j =>
    if targets.getD t (fun _ => -1) j = (index : Int) then tensor.getD t (fun _ => default) j
    else default

theorem expertsByIdentity_getD (selected : List (Nat × WorkerConnection))
    (identity : WorkerIdentity) :
    ((expertsByIdentity selected)[identity]?).getD []
      = (selected.filter fun e => e.2.identity = identity).map Prod.fst := by
  have h : ∀ (m : ExtTreeMap WorkerIdentity (List Nat)),
      ((selected.foldl (fun experts e => experts.insert e.2.identity
        ((experts[e.2.identity]?).getD [] ++ [e.1])) m)[identity]?).getD []
      = (m[identity]?).getD [] ++
        (selected.filter fun e => e.2.identity = identity).map Prod.fst := by
    induction selected with
    | nil => intro m; simp
    | cons e selected ih =>
      intro m
      rw [List.foldl_cons, ih, Maps.getElem?_insert_eq]
      by_cases he : e.2.identity = identity
      · simp [he]
      · simp [he]
  have h0 := h ∅
  simpa [expertsByIdentity] using h0

theorem map_fst_zip_sublist {α β : Type} (l : List α) (l' : List β) :
    ((l.zip l').map Prod.fst).Sublist l := by
  induction l generalizing l' with
  | nil => exact List.Sublist.refl _
  | cons a l ih =>
    cases l' with
    | nil => exact List.nil_sublist _
    | cons b l' => exact (ih l').cons_cons a

theorem expertsByIdentity_ok {requested : List Nat} (h : DistinctOk requested)
    (targets : List WorkerConnection) (identity : WorkerIdentity) :
    DistinctOk (((expertsByIdentity (requested.zip targets))[identity]?).getD []) := by
  rw [expertsByIdentity_getD]
  have hsub : (((requested.zip targets).filter fun e => e.2.identity = identity).map
      Prod.fst).Sublist requested :=
    (List.filter_sublist.map Prod.fst).trans (map_fst_zip_sublist requested targets)
  exact ⟨h.sorted.sublist hsub, fun e he => h.le e (hsub.subset he)⟩

variable [Zero S]

/-- the batch of the Worker with this number -/
def maskedBatch (batch : RoutedLayerBatch S d k) (version : Nat) (targets : List (Fin k → Int))
    (index : Nat) (experts : List Nat) (hne : 0 < (targetTokens targets index).length)
    (he : DistinctOk experts) : WorkerBatch S d k where
  instanceId := batch.instanceId
  layerId := batch.layerId
  topologyVersion := version
  hiddenStates := batch.hiddenStates
  tokenIndices := some (targetTokens targets index)
  expertIds := maskedRows targets index batch.expertIds (-1)
  routingWeights := maskedRows targets index batch.routingWeights 0
  distinctExpertIds := experts
  indices_pos := hne
  topK_pos := batch.topK_pos
  ids_shape := List.length_map _
  weights_shape := List.length_map _
  distinct := he

/-- the loop over the selected Workers -/
def groupTargets (batch : RoutedLayerBatch S d k) (version : Nat) (targets : List (Fin k → Int))
    (experts : WorkerIdentity → List Nat) (he : ∀ identity, DistinctOk (experts identity)) :
    List (WorkerConnection × Nat) → Except Raised (List (WorkerBatchPlan S d k))
  | [] => .ok []
  | (target, index) :: rest =>
    if hne : 0 < (targetTokens targets index).length then
      match splitBatch target (maskedBatch batch version targets index (experts target.identity)
          hne (he target.identity)) with
      | .error raised => .error raised
      | .ok plans =>
        match groupTargets batch version targets experts he rest with
        | .error raised => .error raised
        | .ok more => .ok (plans ++ more)
    else groupTargets batch version targets experts he rest

/-- the complete tensors for one Worker -/
def completeBatch (batch : RoutedLayerBatch S d k) (version : Nat) : WorkerBatch S d k where
  instanceId := batch.instanceId
  layerId := batch.layerId
  topologyVersion := version
  hiddenStates := batch.hiddenStates
  tokenIndices := none
  expertIds := batch.expertIds
  routingWeights := batch.routingWeights
  distinctExpertIds := batch.distinctExpertIds
  indices_pos := batch.hiddenStates.tokens_pos
  topK_pos := batch.topK_pos
  ids_shape := batch.ids_shape
  weights_shape := batch.weights_shape
  distinct := batch.distinct

/-- mask, compact and split the slots of the selected Workers -/
def groupSelected (batch : RoutedLayerBatch S d k) (version : Nat)
    (targets : List WorkerConnection) : Except Raised (List (WorkerBatchPlan S d k)) :=
  let selected := batch.distinctExpertIds.zip targets
  let values := expertTargetValues selected
  if batch.expertIds.any fun row => (List.finRange k).any fun j =>
      decide (values.length ≤ (row j).toNat) then
    .error (.other "index is out of bounds")
  else
    groupTargets batch version (assignmentTargets values batch.expertIds)
      (fun identity => ((expertsByIdentity selected)[identity]?).getD [])
      (expertsByIdentity_ok batch.distinct targets)
      (Maps.values (targetsByIdentity selected)).zipIdx

def groupWorkerBatches {σ : Type} (selector : ReplicaSelector σ) (batch : RoutedLayerBatch S d k)
    (topology : TopologySnapshot) (excluded : ExtTreeSet WorkerIdentity)
    (excludedByExpert : ExtTreeMap Nat (ExtTreeSet WorkerIdentity))
    (fallbackToExcluded reuseCompleteTensors : Bool) (state : σ) :
    Except Raised (List (WorkerBatchPlan S d k)) × σ :=
  let routes := topology.layerRoutes batch.layerId
  let missing := batch.distinctExpertIds.filter fun e => (routes.lookup e).isNone
  if batch.instanceId ≠ topology.instanceId then
    (.error (invalidRequest "Routed layer and Topology instance IDs differ"), state)
  else if batch.distinctExpertIds.isEmpty then (.ok [], state)
  else if routes.isEmpty then
    (.error (unavailable batch.distinctExpertIds "the layer has no ready expert routes"), state)
  else if !missing.isEmpty then
    (.error (unavailable missing "one or more experts have no ready route"), state)
  else
    match selectTargets selector batch.instanceId batch.layerId routes excluded excludedByExpert
        fallbackToExcluded batch.distinctExpertIds state with
    | (.error raised, state) => (.error raised, state)
    | (.ok targets, state) =>
      match reuseCompleteTensors,
          Maps.values (targetsByIdentity (batch.distinctExpertIds.zip targets)) with
      | true, [target] => (splitBatch target (completeBatch batch topology.version), state)
      | _, _ => (groupSelected batch topology.version targets, state)

/-! ## the rows of a split batch -/

/-- every valid slot names a listed expert -/
def Covers (ids : List (Fin k → Int)) (distinct : List Nat) : Prop :=
  ∀ row ∈ ids, ∀ j, 0 ≤ row j → (row j).toNat ∈ distinct

theorem slotRows_slice (size : Nat) (indices : List Nat) (ids : List (Fin k → Int))
    (weights : List (Fin k → S)) (i : Nat) :
    slotRows (Parts.slice size indices i) (Parts.slice size ids i) (Parts.slice size weights i)
      = Parts.slice size (slotRows indices ids weights) i := by
  unfold slotRows
  simp only [Parts.slice_eq, List.zip_eq_zipWith, ← List.map_take, ← List.map_drop,
    List.take_zipWith, List.drop_zipWith]

theorem length_slotRows {indices : List Nat} {ids : List (Fin k → Int)}
    {weights : List (Fin k → S)} (hi : ids.length = indices.length)
    (hw : weights.length = indices.length) :
    (slotRows indices ids weights).length = indices.length := by
  simp [slotRows, hi, hw]

theorem WorkerBatch.length_rows (b : WorkerBatch S d k) : b.rows.length = b.tokenCount := by
  unfold WorkerBatch.rows
  rw [length_slotRows (b.ids_shape.trans b.length_indices.symm)
    (b.weights_shape.trans b.length_indices.symm), b.length_indices]

theorem chunk_rows (batch : WorkerBatch S d k) (size : Nat) (hs : 0 < size)
    (i : Fin (chunkCount batch.tokenCount size)) :
    (chunk batch size hs i).rows = Parts.slice size batch.rows i :=
  slotRows_slice size batch.indices batch.expertIds batch.routingWeights i

theorem chunkCount_eq {tokens size : Nat} (hs : 0 < size) (ht : 0 < tokens) :
    chunkCount tokens size = Parts.partCount size tokens := by
  have h : 1 ≤ chunkCount tokens size := by
    unfold chunkCount
    exact (Nat.le_div_iff_mul_le hs).mpr (by omega)
  unfold Parts.partCount
  exact (max_eq_left h).symm

/-- the plans of a split carry the rows of the batch, in order -/
structure Split (batch : WorkerBatch S d k) (plans : List (WorkerBatchPlan S d k)) : Prop where
  rows : (plans.flatMap fun p => p.batch.rows) = batch.rows
  hidden : ∀ p ∈ plans, p.batch.hiddenStates = batch.hiddenStates
  indices : ∀ p ∈ plans, p.batch.indices.Sublist batch.indices
  covers : Covers batch.expertIds batch.distinctExpertIds →
    ∀ p ∈ plans, Covers p.batch.expertIds p.batch.distinctExpertIds

theorem flatCount_ne_zero {expertIds : List (Fin k → Int)} {size width index r : Nat}
    {row : Fin k → Int} {j : Fin k} (hr : expertIds[r]? = some row) (hj : 0 ≤ row j)
    (hidx : r / size * width + (row j).toNat = index) :
    flatCount expertIds size width index ≠ 0 := by
  unfold flatCount
  intro hzero
  rw [List.sum_eq_zero_iff] at hzero
  have hmem : (row, r) ∈ expertIds.zipIdx := List.mem_zipIdx_iff_getElem?.mpr hr
  have hc := hzero _ (List.mem_map.mpr ⟨(row, r), hmem, rfl⟩)
  rw [List.countP_eq_zero] at hc
  exact hc j (List.mem_finRange j) (decide_eq_true ⟨hj, hidx⟩)

/-- the experts of a chunk are listed, because every expert of the batch is -/
theorem chunk_covers {batch : WorkerBatch S d k}
    (hc : Covers batch.expertIds batch.distinctExpertIds) (size : Nat) (hs : 0 < size)
    (i : Fin (chunkCount batch.tokenCount size)) :
    Covers (chunk batch size hs i).expertIds (chunk batch size hs i).distinctExpertIds := by
  intro row hrow j hj
  show (row j).toNat ∈ distinctExpertsOfChunk batch.expertIds size batch.distinctExpertIds i
  have hslice : row ∈ (batch.expertIds.drop (i * size)).take size := by
    rw [← Parts.slice_eq]
    exact hrow
  obtain ⟨a, ha⟩ := List.mem_iff_getElem?.mp hslice
  rw [List.getElem?_take] at ha
  split_ifs at ha with hlt
  rw [List.getElem?_drop] at ha
  have hmem := hc row (List.mem_of_getElem? ha) j hj
  have hdiv : (i * size + a) / size = i := by
    rw [Nat.mul_comm, Nat.mul_add_div hs, Nat.div_eq_of_lt hlt, Nat.add_zero]
  unfold distinctExpertsOfChunk
  cases hl : batch.distinctExpertIds.getLast? with
  | none =>
    rw [List.getLast?_eq_none_iff.mp hl] at hmem
    cases hmem
  | some last =>
    have hle : (row j).toNat ≤ last := by
      obtain ⟨front, hfront⟩ := List.getLast?_eq_some_iff.mp hl
      have hsorted := batch.distinct.sorted
      rw [hfront] at hmem hsorted
      rcases List.mem_append.mp hmem with hm | hm
      · exact Nat.le_of_lt ((List.pairwise_append.mp hsorted).2.2 _ hm _ (List.mem_singleton_self _))
      · exact Nat.le_of_eq (List.mem_singleton.mp hm)
    refine List.mem_filter.mpr ⟨List.mem_range.mpr (by omega), ?_⟩
    have hne : flatCount batch.expertIds size (last + 1) (i * (last + 1) + (row j).toNat) ≠ 0 :=
      flatCount_ne_zero ha hj (by rw [hdiv])
    simpa using hne

theorem splitBatch_split {target : WorkerConnection} {batch : WorkerBatch S d k}
    {plans : List (WorkerBatchPlan S d k)} (h : splitBatch target batch = .ok plans) :
    Split batch plans := by
  unfold splitBatch at h
  split_ifs at h
  · cases h
    refine ⟨by simp, ?_, ?_, ?_⟩
    · intro p hp
      rw [List.mem_singleton.mp hp]
    · intro p hp
      rw [List.mem_singleton.mp hp]
    · intro hc p hp
      rw [List.mem_singleton.mp hp]
      exact hc
  · cases h
    have hs := target.tokens_pos
    refine ⟨?_, ?_, ?_, ?_⟩
    · rw [List.flatMap_map]
      have hpart : chunkCount batch.tokenCount target.maxBatchTokens
          = Parts.partCount target.maxBatchTokens batch.rows.length := by
        rw [batch.length_rows]
        exact chunkCount_eq hs batch.indices_pos
      calc (List.finRange (chunkCount batch.tokenCount target.maxBatchTokens)).flatMap
            (fun i => (chunk batch target.maxBatchTokens hs i).rows)
          = (List.finRange (chunkCount batch.tokenCount target.maxBatchTokens)).flatMap
            (fun i => Parts.slice target.maxBatchTokens batch.rows i.val) := by
              simp only [chunk_rows]
        _ = (List.range (chunkCount batch.tokenCount target.maxBatchTokens)).flatMap
            (Parts.slice target.maxBatchTokens batch.rows) := by
              rw [← List.map_coe_finRange_eq_range, List.flatMap_map]
        _ = batch.rows := by rw [hpart, Parts.flatMap_slice _ _ hs]
    · intro p hp
      obtain ⟨i, _, rfl⟩ := List.mem_map.mp hp
      rfl
    · intro p hp
      obtain ⟨i, _, rfl⟩ := List.mem_map.mp hp
      show (Parts.slice target.maxBatchTokens batch.indices i).Sublist batch.indices
      rw [Parts.slice_eq]
      exact (List.take_sublist _ _).trans (List.drop_sublist _ _)
    · intro hc p hp
      obtain ⟨i, _, rfl⟩ := List.mem_map.mp hp
      exact chunk_covers hc _ hs i

/-! ## the plans of one grouping -/

/-- the plans hand out every slot of the layer exactly once -/
structure Grouped (batch : RoutedLayerBatch S d k) (plans : List (WorkerBatchPlan S d k)) :
    Prop where
  once : ∀ t j, (plans.flatMap fun p => assignments p.batch.rows t j) = assignments batch.rows t j
  hidden : ∀ p ∈ plans, p.batch.hiddenStates = batch.hiddenStates
  nodup : ∀ p ∈ plans, p.batch.indices.Nodup
  lt : ∀ p ∈ plans, ∀ t ∈ p.batch.indices, t < batch.tokenCount
  covers : ∀ p ∈ plans, Covers p.batch.expertIds p.batch.distinctExpertIds

theorem slotRows_map (l : List Nat) (ids : Nat → Fin k → Int) (weights : Nat → Fin k → S) :
    slotRows l (l.map ids) (l.map weights) = l.map fun t => ⟨t, ids t, weights t⟩ := by
  unfold slotRows
  rw [List.zip_map', List.map_prod_left_eq_zip.symm, List.map_map]
  rfl

theorem map_getD_range {α : Type} {l : List α} {n : Nat} (h : l.length = n) (default : α) :
    (List.range n).map (fun t => l.getD t default) = l := by
  apply List.ext_getElem?
  intro t
  rw [List.getElem?_map]
  by_cases ht : t < n
  · rw [List.getElem?_range ht, List.getElem?_eq_getElem (h ▸ ht)]
    simp [List.getD_eq_getElem?_getD, List.getElem?_eq_getElem (h ▸ ht)]
  · rw [List.getElem?_eq_none (by simpa using ht), List.getElem?_eq_none (by omega)]
    rfl

theorem RoutedLayerBatch.rows_eq (b : RoutedLayerBatch S d k) :
    b.rows = (List.range b.tokenCount).map fun t =>
      ⟨t, b.expertIds.getD t fun _ => -1, b.routingWeights.getD t fun _ => 0⟩ := by
  unfold RoutedLayerBatch.rows
  rw [← slotRows_map, map_getD_range (show b.expertIds.length = b.tokenCount from b.ids_shape),
    map_getD_range (show b.routingWeights.length = b.tokenCount from b.weights_shape)]

/-- with distinct token numbers every slot occurs at most once -/
theorem assignments_map {l : List Nat} (hl : l.Nodup) (ids : Nat → Fin k → Int)
    (weights : Nat → Fin k → S) (t : Nat) (j : Fin k) :
    assignments (l.map fun s => (⟨s, ids s, weights s⟩ : SlotRow S k)) t j
      = if t ∈ l ∧ 0 ≤ ids t j then [(ids t j, weights t j)] else [] := by
  unfold assignments
  rw [List.flatMap_map]
  have h : (fun s => if s = t ∧ 0 ≤ ids s j then [(ids s j, weights s j)] else [])
      = fun s => if s = t then (if 0 ≤ ids s j then [(ids s j, weights s j)] else []) else [] := by
    funext s
    by_cases hs : s = t <;> simp [hs]
  show l.flatMap (fun s => if s = t ∧ 0 ≤ ids s j then [(ids s j, weights s j)] else []) = _
  rw [h, Scatter.flatMap_at hl]
  by_cases ht : t ∈ l <;> simp [ht]

theorem RoutedLayerBatch.assignments_rows (b : RoutedLayerBatch S d k) (t : Nat) (j : Fin k) :
    assignments b.rows t j
      = if t < b.tokenCount ∧ 0 ≤ b.expertIds.getD t (fun _ => -1) j then
          [(b.expertIds.getD t (fun _ => -1) j, b.routingWeights.getD t (fun _ => 0) j)] else [] := by
  rw [b.rows_eq, assignments_map List.nodup_range]
  simp only [List.mem_range]

theorem targetTokens_nodup (targets : List (Fin k → Int)) (index : Nat) :
    (targetTokens targets index).Nodup :=
  List.nodup_range.filter _

theorem mem_targetTokens {targets : List (Fin k → Int)} {index t : Nat} :
    t ∈ targetTokens targets index ↔
      t < targets.length ∧ ∃ j, targets.getD t (fun _ => -1) j = (index : Int) := by
  simp [targetTokens]

/-- the slots of the Worker `index`, and only these, are in its batch -/
theorem assignments_masked (batch : RoutedLayerBatch S d k) (targets : List (Fin k → Int))
    (htargets : targets.length = batch.tokenCount) (index t : Nat) (j : Fin k) :
    assignments (slotRows (targetTokens targets index) (maskedRows targets index batch.expertIds (-1))
      (maskedRows targets index batch.routingWeights 0)) t j
      = if targets.getD t (fun _ => -1) j = (index : Int) then assignments batch.rows t j
        else [] := by
  unfold maskedRows
  rw [slotRows_map, assignments_map (targetTokens_nodup targets index), batch.assignments_rows]
  by_cases hj : targets.getD t (fun _ => -1) j = (index : Int)
  · have hmem : t ∈ targetTokens targets index ↔ t < batch.tokenCount := by
      rw [mem_targetTokens, htargets]
      exact ⟨And.left, fun h => ⟨h, j, hj⟩⟩
    simp only [hj, if_true, hmem]
  · simp only [if_neg hj]
    exact if_neg (by rintro ⟨_, h⟩; exact absurd h (by decide))

theorem groupTargets_spec {batch : RoutedLayerBatch S d k} {version : Nat}
    {targets : List (Fin k → Int)} (htargets : targets.length = batch.tokenCount)
    {experts : WorkerIdentity → List Nat} {he : ∀ identity, DistinctOk (experts identity)}
    {l : List (WorkerConnection × Nat)}
    (hcov : ∀ e ∈ l, Covers (maskedRows targets e.2 batch.expertIds (-1)) (experts e.1.identity))
    {plans : List (WorkerBatchPlan S d k)}
    (h : groupTargets batch version targets experts he l = .ok plans) :
    (∀ t j, (plans.flatMap fun p => assignments p.batch.rows t j)
      = l.flatMap fun e => if targets.getD t (fun _ => -1) j = (e.2 : Int) then
          assignments batch.rows t j else []) ∧
    ∀ p ∈ plans, p.batch.hiddenStates = batch.hiddenStates ∧ p.batch.indices.Nodup ∧
      (∀ t ∈ p.batch.indices, t < batch.tokenCount) ∧
      Covers p.batch.expertIds p.batch.distinctExpertIds := by
  induction l generalizing plans with
  | nil =>
    cases h
    exact ⟨fun _ _ => rfl, fun p hp => by cases hp⟩
  | cons e l ih =>
    obtain ⟨target, index⟩ := e
    have hcov' := fun e he => hcov e (List.mem_cons_of_mem _ he)
    unfold groupTargets at h
    split_ifs at h with hne
    · cases hsplit : splitBatch target (maskedBatch batch version targets index
        (experts target.identity) hne (he target.identity)) with
      | error raised => rw [hsplit] at h; cases h
      | ok first =>
        rw [hsplit] at h
        cases hmore : groupTargets batch version targets experts he l with
        | error raised => rw [hmore] at h; cases h
        | ok more =>
          rw [hmore] at h
          cases h
          obtain ⟨honce, hall⟩ := ih hcov' hmore
          have hsp := splitBatch_split hsplit
          constructor
          · intro t j
            rw [List.flatMap_append, List.flatMap_cons, honce, ← assignments_flatMap, hsp.rows]
            congr 1
            exact assignments_masked batch targets htargets index t j
          · intro p hp
            rcases List.mem_append.mp hp with hp | hp
            · refine ⟨hsp.hidden p hp, (targetTokens_nodup targets index).sublist
                (hsp.indices p hp), ?_, hsp.covers (hcov _ List.mem_cons_self) p hp⟩
              intro t ht
              have hmem := (hsp.indices p hp).subset ht
              exact htargets ▸ (mem_targetTokens.mp hmem).1
            · exact hall p hp
    · obtain ⟨honce, hall⟩ := ih hcov' h
      refine ⟨fun t j => ?_, hall⟩
      have hnil : targetTokens targets index = [] := List.length_eq_zero_iff.mp (by omega)
      rw [List.flatMap_cons, ← assignments_masked batch targets htargets index t j, honce, hnil]
      rfl

/-! ## the Worker of every slot -/

theorem selectTargets_length {σ : Type} {selector : ReplicaSelector σ} {instanceId layerId : Nat}
    {routes : List (Nat × List WorkerConnection)} {excluded : ExtTreeSet WorkerIdentity}
    {excludedByExpert : ExtTreeMap Nat (ExtTreeSet WorkerIdentity)} {fallback : Bool}
    {requested : List Nat} {state state' : σ} {targets : List WorkerConnection}
    (h : selectTargets selector instanceId layerId routes excluded excludedByExpert fallback
      requested state = (.ok targets, state')) : targets.length = requested.length := by
  induction requested generalizing state targets with
  | nil =>
    cases h
    rfl
  | cons e requested ih =>
    unfold selectTargets at h
    split at h
    · cases h
    · split at h
      · cases h
      · rename_i hrest
        cases h
        rw [List.length_cons, List.length_cons, ih hrest]

theorem targetsByIdentity_identity {selected : List (Nat × WorkerConnection)}
    {identity : WorkerIdentity} {target : WorkerConnection}
    (h : (targetsByIdentity selected)[identity]? = some target) : target.identity = identity := by
  unfold targetsByIdentity at h
  rcases Maps.getElem?_insertAll_cases _ _ h with ⟨e, _, hk, hv⟩ | h
  · rw [← hv, ← hk]
  · simp at h

/-- the Worker of a selected expert has a number, and its entry under this number -/
theorem targetIndex_entry {selected : List (Nat × WorkerConnection)} {e : Nat × WorkerConnection}
    (he : e ∈ selected) :
    ∃ target, (Maps.values (targetsByIdentity selected))[targetIndex selected e.2.identity]?
      = some target ∧ target.identity = e.2.identity := by
  have hmem : e.2.identity ∈ targetsByIdentity selected :=
    Maps.mem_insertAll (fun e => e.2.identity) Prod.snd ∅ selected e he
  obtain ⟨target, ht⟩ := Maps.exists_getElem? hmem
  have hkey : e.2.identity ∈ (targetsByIdentity selected).toList.map Prod.fst :=
    List.mem_map.mpr ⟨(e.2.identity, target),
      ExtTreeMap.mem_toList_iff_getElem?_eq_some.mpr ht, rfl⟩
  have hidx := List.getElem?_idxOf hkey
  rw [List.getElem?_map, Option.map_eq_some_iff] at hidx
  obtain ⟨⟨identity, target'⟩, hentry, hid⟩ := hidx
  refine ⟨target', ?_, ?_⟩
  · unfold Maps.values targetIndex
    rw [List.getElem?_map, hentry]
    rfl
  · have hget := ExtTreeMap.mem_toList_iff_getElem?_eq_some.mp (List.mem_of_getElem? hentry)
    rw [targetsByIdentity_identity hget]
    exact hid

theorem expertTargetValues_getD {selected : List (Nat × WorkerConnection)}
    (hnd : (selected.map Prod.fst).Nodup) {e : Nat × WorkerConnection} (he : e ∈ selected) :
    (expertTargetValues selected).getD e.1 (-1) = (targetIndex selected e.2.identity : Int) := by
  unfold expertTargetValues
  rw [List.getD_eq_getElem?_getD, Scatter.getElem?_indexCopy_of_mem
    (a := (targetIndex selected e.2.identity : Int))]
  · rfl
  · rw [List.map_map]
    exact hnd
  · exact List.mem_map.mpr ⟨e, he, rfl⟩
  · rw [List.length_replicate]
    have := (Ledger.foldl_max_le.mp (Nat.le_refl ((selected.map Prod.fst).foldl max 0))).2 e.1
      (List.mem_map_of_mem he)
    omega

/-- the Worker number of a valid slot is that of the replica selected for its expert -/
theorem assignmentTargets_getD {batch : RoutedLayerBatch S d k}
    (hc : Covers batch.expertIds batch.distinctExpertIds) {targets : List WorkerConnection}
    (hlen : targets.length = batch.distinctExpertIds.length) {t : Nat} {j : Fin k}
    (hv : 0 ≤ batch.expertIds.getD t (fun _ => -1) j) :
    ∃ e ∈ batch.distinctExpertIds.zip targets,
      e.1 = (batch.expertIds.getD t (fun _ => -1) j).toNat ∧
      (assignmentTargets (expertTargetValues (batch.distinctExpertIds.zip targets))
        batch.expertIds).getD t (fun _ => -1) j
        = (targetIndex (batch.distinctExpertIds.zip targets) e.2.identity : Int) := by
  have hfst : (batch.distinctExpertIds.zip targets).map Prod.fst = batch.distinctExpertIds :=
    List.map_fst_zip (by omega)
  cases hrow : batch.expertIds[t]? with
  | none =>
    rw [List.getD_eq_getElem?_getD, hrow] at hv
    have hneg : (0 : Int) ≤ -1 := hv
    omega
  | some row =>
    have hget : batch.expertIds.getD t (fun _ => -1) = row := by
      rw [List.getD_eq_getElem?_getD, hrow]
      rfl
    rw [hget] at hv ⊢
    have hmem := hc row (List.mem_of_getElem? hrow) j hv
    rw [← hfst] at hmem
    obtain ⟨e, he, heq⟩ := List.mem_map.mp hmem
    refine ⟨e, he, heq, ?_⟩
    unfold assignmentTargets
    rw [List.getD_eq_getElem?_getD, List.getElem?_map, hrow]
    show (if 0 ≤ row j then _ else _) = _
    rw [if_pos hv, ← heq]
    refine expertTargetValues_getD ?_ he
    rw [hfst]
    exact batch.distinct.sorted.imp Nat.ne_of_lt

/-- the experts of a Worker are listed: a slot is kept under the number of its expert's Worker -/
theorem maskedRows_covers {batch : RoutedLayerBatch S d k}
    (hc : Covers batch.expertIds batch.distinctExpertIds) {targets : List WorkerConnection}
    (hlen : targets.length = batch.distinctExpertIds.length) :
    ∀ e ∈ (Maps.values (targetsByIdentity (batch.distinctExpertIds.zip targets))).zipIdx,
      Covers (maskedRows (assignmentTargets (expertTargetValues (batch.distinctExpertIds.zip targets))
        batch.expertIds) e.2 batch.expertIds (-1))
        (((expertsByIdentity (batch.distinctExpertIds.zip targets))[e.1.identity]?).getD []) := by
  rintro ⟨target, index⟩ he row hrow j hj
  obtain ⟨t, ht, rfl⟩ := List.mem_map.mp hrow
  simp only at hj ⊢
  split_ifs at hj with hmask
  · rw [if_pos hmask]
    obtain ⟨e, hsel, hid, hnum⟩ := assignmentTargets_getD hc hlen hj
    obtain ⟨target', hentry, hident⟩ := targetIndex_entry hsel
    rw [hnum, Nat.cast_inj] at hmask
    have hat := List.mem_zipIdx_iff_getElem?.mp he
    simp only at hat
    rw [← hmask, hentry, Option.some.injEq] at hat
    rw [← hid, expertsByIdentity_getD]
    exact List.mem_map.mpr ⟨e, List.mem_filter.mpr ⟨hsel, by simp [← hat, hident]⟩, rfl⟩
  · omega

theorem groupSelected_grouped {batch : RoutedLayerBatch S d k}
    (hc : Covers batch.expertIds batch.distinctExpertIds) {version : Nat}
    {targets : List WorkerConnection} (hlen : targets.length = batch.distinctExpertIds.length)
    {plans : List (WorkerBatchPlan S d k)} (h : groupSelected batch version targets = .ok plans) :
    Grouped batch plans := by
  unfold groupSelected at h
  simp only at h
  split_ifs at h
  have htargets : (assignmentTargets (expertTargetValues (batch.distinctExpertIds.zip targets))
      batch.expertIds).length = batch.tokenCount := by
    unfold assignmentTargets
    rw [List.length_map]
    exact batch.ids_shape
  obtain ⟨honce, hall⟩ := groupTargets_spec htargets (maskedRows_covers hc hlen) h
  refine ⟨fun t j => ?_, fun p hp => (hall p hp).1, fun p hp => (hall p hp).2.1,
    fun p hp => (hall p hp).2.2.1, fun p hp => (hall p hp).2.2.2⟩
  rw [honce]
  by_cases hv : 0 ≤ batch.expertIds.getD t (fun _ => -1) j
  · -- a valid slot: exactly one number of the sorted Workers is its own
    obtain ⟨e, he, _, htarget⟩ := assignmentTargets_getD hc hlen hv
    obtain ⟨target, hentry, _⟩ := targetIndex_entry he
    rw [htarget]
    simp only [Nat.cast_inj]
    exact Scatter.flatMap_zipIdx_at _ (List.getElem?_eq_some_iff.mp hentry).1 _
  · have hnil : assignments batch.rows t j = [] := by
      rw [batch.assignments_rows]
      exact if_neg (fun h => hv h.2)
    simp [hnil]

theorem completeBatch_rows (batch : RoutedLayerBatch S d k) (version : Nat) :
    (completeBatch batch version).rows = batch.rows := rfl

/-- every grouping that returns hands out each slot of the layer exactly once -/
theorem groupWorkerBatches_grouped {σ : Type} {selector : ReplicaSelector σ}
    {batch : RoutedLayerBatch S d k} (hc : Covers batch.expertIds batch.distinctExpertIds)
    {topology : TopologySnapshot} {excluded : ExtTreeSet WorkerIdentity}
    {excludedByExpert : ExtTreeMap Nat (ExtTreeSet WorkerIdentity)} {fallback reuse : Bool}
    {state state' : σ} {plans : List (WorkerBatchPlan S d k)}
    (h : groupWorkerBatches selector batch topology excluded excludedByExpert fallback reuse state
      = (.ok plans, state')) : Grouped batch plans := by
  unfold groupWorkerBatches at h
  simp only at h
  split_ifs at h with h1 h2 h3 h4
  · cases h
  · -- no expert is requested, so no slot is valid
    cases h
    refine ⟨fun t j => ?_, by simp, by simp, by simp, by simp⟩
    rw [batch.assignments_rows, if_neg, List.flatMap_nil]
    rintro ⟨ht, hv⟩
    have hrow : batch.expertIds[t]? = some (batch.expertIds.getD t fun _ => -1) := by
      have hlt : t < batch.expertIds.length := batch.ids_shape.symm ▸ ht
      rw [List.getD_eq_getElem?_getD, List.getElem?_eq_getElem hlt]
      rfl
    have hmem := hc _ (List.mem_of_getElem? hrow) j hv
    rw [List.isEmpty_iff.mp h2] at hmem
    cases hmem
  · cases h
  · cases h
  · split at h
    · cases h
    · rename_i targets state2 hsel
      have hlen := selectTargets_length hsel
      split at h
      · simp only [Prod.mk.injEq] at h
        have hsp := splitBatch_split h.1
        refine ⟨fun t j => ?_, hsp.hidden, ?_, ?_, hsp.covers hc⟩
        · rw [← assignments_flatMap, hsp.rows, completeBatch_rows]
        · intro p hp
          exact List.nodup_range.sublist (hsp.indices p hp)
        · intro p hp t ht
          exact List.mem_range.mp ((hsp.indices p hp).subset ht)
      · simp only [Prod.mk.injEq] at h
        exact groupSelected_grouped hc hlen h.1

end

end ExpertKit.Routing

import ExpertKit.Routing.Dispatch

/-!
# Frontend routing: one routed layer with one retry

`routing/execute.py`.  The first attempt sends every slot once; the slots of the batches that fail
with retryable errors are merged into a new layer batch, grouped against the refreshed Topology and
sent a second time.

* `unfinishedBatch`          the slots that are still to be computed;
* `executeRoutedLayer`       the code; what lies outside it is a `Calls` record;
* `unfinishedBatch_slots`    merging loses no failed slot and invents none;
* `execute_routed_layer_exactly_once`   whenever it returns, every slot of every token was added
                             exactly once.
-/

set_option linter.unusedSectionVars false

namespace ExpertKit.Routing
open Std

section
variable {S : Type} {d k : Nat} [Semiring S]

def deadlineError (diagnostic : String) : Raised :=
  .transport ⟨.deadlineExceeded, false, none, none, [], diagnostic⟩

/-! ## the unfinished batch -/

/-- copy the valid slots of a failed batch, and keep what is there in the others -/
def mergeFailure (slots : List (Fin k → Int) × List (Fin k → S)) (f : FailedWorkerBatch S d k) :
    List (Fin k → Int) × List (Fin k → S) :=
  (Scatter.indexCopy slots.1 (f.plan.batch.rows.map fun r =>
      (r.token, fun j => if 0 ≤ r.ids j then r.ids j else slots.1.getD r.token (fun _ => -1) j)),
    Scatter.indexCopy slots.2 (f.plan.batch.rows.map fun r =>
      (r.token, fun j => if 0 ≤ r.ids j then r.weights j
        else slots.2.getD r.token (fun _ => 0) j)))

def emptySlots (n : Nat) : List (Fin k → Int) × List (Fin k → S) :=
  (List.replicate n fun _ => -1, List.replicate n fun _ => 0)

def unfinishedSlots (n : Nat) (failures : List (FailedWorkerBatch S d k)) :
    List (Fin k → Int) × List (Fin k → S) :=
  failures.foldl mergeFailure (emptySlots n)

def addFailedWorker (identity : WorkerIdentity) (experts : List Nat)
    (failed : ExtTreeMap Nat (ExtTreeSet WorkerIdentity)) :
    ExtTreeMap Nat (ExtTreeSet WorkerIdentity) :=
  experts.foldl (fun failed e => failed.insert e (((failed[e]?).getD ∅).insert identity)) failed

/-- the processes that failed, for every expert they were asked for -/
def failedWorkers (failures : List (FailedWorkerBatch S d k)) :
    ExtTreeMap Nat (ExtTreeSet WorkerIdentity) :=
  failures.foldl (fun failed f =>
    addFailedWorker f.plan.target.identity f.plan.batch.distinctExpertIds failed) ∅

theorem length_mergeFailure (slots : List (Fin k → Int) × List (Fin k → S))
    (f : FailedWorkerBatch S d k) :
    (mergeFailure slots f).1.length = slots.1.length ∧
      (mergeFailure slots f).2.length = slots.2.length :=
  ⟨Scatter.length_indexCopy _ _, Scatter.length_indexCopy _ _⟩

theorem length_unfinishedSlots (n : Nat) (failures : List (FailedWorkerBatch S d k)) :
    (unfinishedSlots n failures).1.length = n ∧ (unfinishedSlots n failures).2.length = n := by
  unfold unfinishedSlots
  induction failures using List.reverseRecOn with
  | nil => simp [emptySlots]
  | append_singleton failures f ih =>
    rw [List.foldl_append, List.foldl_cons, List.foldl_nil, (length_mergeFailure _ f).1,
      (length_mergeFailure _ f).2]
    exact ih

theorem mem_addFailedWorker {identity : WorkerIdentity} {experts : List Nat}
    {failed : ExtTreeMap Nat (ExtTreeSet WorkerIdentity)} {e : Nat} :
    e ∈ addFailedWorker identity experts failed ↔ e ∈ experts ∨ e ∈ failed := by
  unfold addFailedWorker
  induction experts generalizing failed with
  | nil => simp
  | cons a experts ih =>
    rw [List.foldl_cons, ih, ExtTreeMap.mem_insert, Std.compare_eq_iff_eq, List.mem_cons,
      eq_comm, or_left_comm, or_assoc]

theorem mem_failedWorkers {failures : List (FailedWorkerBatch S d k)} {e : Nat} :
    e ∈ failedWorkers failures ↔ ∃ f ∈ failures, e ∈ f.plan.batch.distinctExpertIds := by
  unfold failedWorkers
  induction failures using List.reverseRecOn with
  | nil => simp
  | append_singleton failures f ih =>
    rw [List.foldl_append, List.foldl_cons, List.foldl_nil, mem_addFailedWorker, ih]
    constructor
    · rintro (h | ⟨g, hg, he⟩)
      · exact ⟨f, by simp, h⟩
      · exact ⟨g, by simp [hg], he⟩
    · rintro ⟨g, hg, he⟩
      rcases List.mem_append.mp hg with hg | hg
      · exact .inr ⟨g, hg, he⟩
      · exact .inl (List.mem_singleton.mp hg ▸ he)

theorem failedWorkers_keys_ok (failures : List (FailedWorkerBatch S d k)) :
    DistinctOk (failedWorkers failures).keys := by
  constructor
  · refine (ExtTreeMap.ordered_keys (t := failedWorkers failures)).imp ?_
    intro a b h
    exact Nat.compare_eq_lt.mp h
  · intro e he
    obtain ⟨f, _, hf⟩ := mem_failedWorkers.mp (ExtTreeMap.mem_keys.mp he)
    exact f.plan.batch.distinct.le e hf

/-- the layer batch of everything that failed -/
def unfinishedBatch (source : RoutedLayerBatch S d k) (failures : List (FailedWorkerBatch S d k)) :
    RoutedLayerBatch S d k where
  instanceId := source.instanceId
  layerId := source.layerId
  hiddenStates := source.hiddenStates
  expertIds := (unfinishedSlots source.tokenCount failures).1
  routingWeights := (unfinishedSlots source.tokenCount failures).2
  distinctExpertIds := (failedWorkers failures).keys
  topK_pos := source.topK_pos
  ids_shape := (length_unfinishedSlots _ failures).1
  weights_shape := (length_unfinishedSlots _ failures).2
  distinct := failedWorkers_keys_ok failures

/-! ## the layer call -/

def usesFailedProcess (plan : WorkerBatchPlan S d k)
    (failed : ExtTreeMap Nat (ExtTreeSet WorkerIdentity)) : Bool :=
  plan.batch.distinctExpertIds.any fun e =>
    ((failed[e]?).getD ∅).contains plan.target.identity

def requiredTopologyVersion (failures : List (FailedWorkerBatch S d k)) : Option Nat :=
  (failures.filterMap fun f => f.error.minTopologyVersion).max?

def unavailableBeforeRequiredVersion (failures : List (FailedWorkerBatch S d k))
    (requiredVersion : Nat) : Raised :=
  .transport ⟨.unavailable, true, none, some requiredVersion,
    (ExtTreeSet.ofList (failures.flatMap fun f => f.plan.batch.distinctExpertIds)).toList,
    "the required replacement topology is not available"⟩

/-- what lies outside the call: clock readings, Topology provider, Transports and schedules -/
structure Calls (S : Type) (d k : Nat) where
  clock : Nat → ℚ
  current : Except Raised TopologySnapshot
  refresh : Except Raised TopologySnapshot
  direct : WorkerBatchPlan S d k → Except Raised (List (Fin d → S))
  first : Nat → WorkerBatchPlan S d k → Submission S d
  second : Nat → WorkerBatchPlan S d k → Submission S d
  firstSchedule : Schedule (WorkerBatchPlan S d k × Nat)
  secondSchedule : Schedule (WorkerBatchPlan S d k × Nat)

def zeroRows (batch : RoutedLayerBatch S d k) : List (Fin d → S) :=
  List.replicate batch.tokenCount 0

def raiseOther {α : Type} : Except String α → Except Raised α
  | .ok a => .ok a
  | .error what => .error (.other what)

/-- the first attempt: the failures and the accumulator.  A complete plan answers with the result
itself; when it fails there is no accumulator yet and the retry starts from zeros. -/
def firstAttempt (pools : ExtTreeMap WorkerIdentity OutputPool) (calls : Calls S d k)
    (batch : RoutedLayerBatch S d k) (plans : List (WorkerBatchPlan S d k)) :
    Except Raised (List (FailedWorkerBatch S d k) × List (Fin d → S)) :=
  match plans with
  | [plan] =>
    if plan.batch.tokenIndices.isNone then
      match dispatchCompletePlan plan (calls.direct plan) with
      | .error raised => .error raised
      | .ok (.ok result) => .ok ([], result)
      | .ok (.error failure) => .ok ([failure], zeroRows batch)
    else raiseOther (dispatchOnce plans pools calls.first calls.firstSchedule (zeroRows batch))
  | _ => raiseOther (dispatchOnce plans pools calls.first calls.firstSchedule (zeroRows batch))

/-- the wait before a failed process is asked again -/
def retryDelay (deadline delay : ℚ) (calls : Calls S d k) (failures : List (FailedWorkerBatch S d k))
    (plans : List (WorkerBatchPlan S d k)) : Option Raised :=
  if plans.any fun plan => usesFailedProcess plan (failedWorkers failures) then
    if deadline - calls.clock 2 ≤ delay then
      failures.getLast?.map fun f => .transport f.error
    else if deadline - calls.clock 3 ≤ 0 then
      some (deadlineError "the Routed layer deadline expired before its retry")
    else none
  else none

def secondAttempt (pools : ExtTreeMap WorkerIdentity OutputPool) (calls : Calls S d k)
    (plans : List (WorkerBatchPlan S d k)) (accumulator : List (Fin d → S)) :
    Except Raised (List (Fin d → S)) :=
  match dispatchOnce plans pools calls.second calls.secondSchedule accumulator with
  | .error what => .error (.other what)
  | .ok (failures, accumulator) =>
    match failures.getLast? with
    | some failure => .error (.transport failure.error)
    | none => .ok accumulator

/-- refresh the Topology and send the unfinished slots once more -/
def retry {σ : Type} (selector : ReplicaSelector σ)
    (pools : ExtTreeMap WorkerIdentity OutputPool) (deadline delay : ℚ) (calls : Calls S d k)
    (batch : RoutedLayerBatch S d k) (failures : List (FailedWorkerBatch S d k))
    (accumulator : List (Fin d → S)) (state : σ) : Except Raised (List (Fin d → S)) × σ :=
  match failures.find? fun f => !f.error.retryable with
  | some failure => (.error (.transport failure.error), state)
  | none =>
    match calls.refresh with
    | .error raised => (.error raised, state)
    | .ok refreshed =>
      if deadline - calls.clock 1 ≤ 0 then
        (.error (deadlineError "the Routed layer deadline expired during Topology refresh"), state)
      else
        match (requiredTopologyVersion failures).filter fun v => decide (refreshed.version < v) with
        | some required => (.error (unavailableBeforeRequiredVersion failures required), state)
        | none =>
          match groupWorkerBatches selector (unfinishedBatch batch failures) refreshed ∅
              (failedWorkers failures) true false state with
          | (.error raised, state) => (.error raised, state)
          | (.ok plans, state) =>
            match retryDelay deadline delay calls failures plans with
            | some raised => (.error raised, state)
            | none => (secondAttempt pools calls plans accumulator, state)

def executeRoutedLayer {σ : Type} (selector : ReplicaSelector σ)
    (pools : ExtTreeMap WorkerIdentity OutputPool) (deadline delay : ℚ) (calls : Calls S d k)
    (batch : RoutedLayerBatch S d k) (state : σ) : Except Raised (List (Fin d → S)) × σ :=
  if delay ≤ 0 then
    (.error (.other "same_worker_retry_delay_seconds must be finite and positive"), state)
  else if deadline - calls.clock 0 ≤ 0 then
    (.error (deadlineError "the Routed layer deadline expired before dispatch"), state)
  else
    match calls.current with
    | .error raised => (.error raised, state)
    | .ok snapshot =>
      match groupWorkerBatches selector batch snapshot ∅ ∅ false true state with
      | (.error raised, state) => (.error raised, state)
      | (.ok [], state) => (.ok (zeroRows batch), state)
      | (.ok plans, state) =>
        match firstAttempt pools calls batch plans with
        | .error raised => (.error raised, state)
        | .ok ([], accumulator) => (.ok accumulator, state)
        | .ok (failures, accumulator) =>
          retry selector pools deadline delay calls batch failures accumulator state

/-! ## the slots of the unfinished batch -/

/-- the rows that two slot tensors hold -/
def slotsAt (slots : List (Fin k → Int) × List (Fin k → S)) (t : Nat) (j : Fin k) :
    List (Int × S) :=
  if 0 ≤ slots.1.getD t (fun _ => -1) j then
    [(slots.1.getD t (fun _ => -1) j, slots.2.getD t (fun _ => 0) j)] else []

theorem assignments_of_not_mem {rows : List (SlotRow S k)} {t : Nat}
    (h : t ∉ rows.map SlotRow.token) (j : Fin k) : assignments rows t j = [] := by
  unfold assignments
  rw [List.flatMap_eq_nil_iff]
  intro r hr
  refine if_neg ?_
  rintro ⟨htoken, _⟩
  exact h (htoken ▸ List.mem_map_of_mem hr)

theorem assignments_of_mem {rows : List (SlotRow S k)} (hnd : (rows.map SlotRow.token).Nodup)
    {r : SlotRow S k} (hr : r ∈ rows) (j : Fin k) :
    assignments rows r.token j = if 0 ≤ r.ids j then [(r.ids j, r.weights j)] else [] := by
  induction rows with
  | nil => cases hr
  | cons a rows ih =>
    rw [List.map_cons, List.nodup_cons] at hnd
    have hcons : assignments (a :: rows) r.token j
        = (if a.token = r.token ∧ 0 ≤ a.ids j then [(a.ids j, a.weights j)] else [])
          ++ assignments rows r.token j := List.flatMap_cons
    rw [hcons]
    rcases List.mem_cons.mp hr with rfl | hr
    · rw [assignments_of_not_mem hnd.1, List.append_nil]
      simp
    · have hne : a.token ≠ r.token := fun h => hnd.1 (h ▸ List.mem_map_of_mem hr)
      rw [if_neg (fun h => hne h.1), List.nil_append, ih hnd.2 hr]

/-- a valid slot of the failed batch replaces what was there -/
theorem slotsAt_mergeFailure {slots : List (Fin k → Int) × List (Fin k → S)} {n : Nat}
    (h1 : slots.1.length = n) (h2 : slots.2.length = n) {f : FailedWorkerBatch S d k}
    (hnd : (f.plan.batch.rows.map SlotRow.token).Nodup)
    (hlt : ∀ r ∈ f.plan.batch.rows, r.token < n) (t : Nat) (j : Fin k) :
    slotsAt (mergeFailure slots f) t j
      = if assignments f.plan.batch.rows t j = [] then slotsAt slots t j
        else assignments f.plan.batch.rows t j := by
  by_cases hmem : t ∈ f.plan.batch.rows.map SlotRow.token
  · obtain ⟨r, hr, rfl⟩ := List.mem_map.mp hmem
    have hn := hlt r hr
    have hids : (mergeFailure slots f).1.getD r.token (fun _ => -1)
        = fun j => if 0 ≤ r.ids j then r.ids j else slots.1.getD r.token (fun _ => -1) j :=
      Scatter.getD_indexCopy_map hnd hr (by omega) _
    have hweights : (mergeFailure slots f).2.getD r.token (fun _ => 0)
        = fun j => if 0 ≤ r.ids j then r.weights j
            else slots.2.getD r.token (fun _ => 0) j :=
      Scatter.getD_indexCopy_map hnd hr (by omega) _
    unfold slotsAt
    rw [hids, hweights, assignments_of_mem hnd hr]
    by_cases hj : 0 ≤ r.ids j <;> simp [hj]
  · have hids : (mergeFailure slots f).1[t]? = slots.1[t]? :=
      Scatter.getElem?_indexCopy_of_not_mem (by rw [List.map_map]; exact hmem)
    have hweights : (mergeFailure slots f).2[t]? = slots.2[t]? :=
      Scatter.getElem?_indexCopy_of_not_mem (by rw [List.map_map]; exact hmem)
    rw [assignments_of_not_mem hmem, if_pos rfl]
    unfold slotsAt
    simp only [List.getD_eq_getElem?_getD, hids, hweights]

theorem slotsAt_foldl_mergeFailure {n : Nat} {failures : List (FailedWorkerBatch S d k)}
    (hnd : ∀ f ∈ failures, (f.plan.batch.rows.map SlotRow.token).Nodup)
    (hlt : ∀ f ∈ failures, ∀ r ∈ f.plan.batch.rows, r.token < n) (t : Nat) (j : Fin k)
    {slots : List (Fin k → Int) × List (Fin k → S)} (h1 : slots.1.length = n)
    (h2 : slots.2.length = n)
    (hone : (slotsAt slots t j ++
      failures.flatMap fun f => assignments f.plan.batch.rows t j).length ≤ 1) :
    slotsAt (failures.foldl mergeFailure slots) t j
      = slotsAt slots t j ++ failures.flatMap fun f => assignments f.plan.batch.rows t j := by
  induction failures generalizing slots with
  | nil => simp
  | cons f failures ih =>
    have hstep := slotsAt_mergeFailure h1 h2 (hnd f List.mem_cons_self) (hlt f List.mem_cons_self)
      t j
    rw [List.flatMap_cons, ← List.append_assoc] at hone ⊢
    -- at most one of the slot so far and the slot of `f` is there
    have hmerge : slotsAt (mergeFailure slots f) t j
        = slotsAt slots t j ++ assignments f.plan.batch.rows t j := by
      rw [hstep]
      split_ifs with hnil
      · rw [hnil, List.append_nil]
      · have hpos := List.length_pos_iff.mpr hnil
        have hempty : slotsAt slots t j = [] := by
          rw [← List.length_eq_zero_iff]
          simp only [List.length_append] at hone
          omega
        rw [hempty, List.nil_append]
    rw [List.foldl_cons, ih (fun g hg => hnd g (List.mem_cons_of_mem _ hg))
      (fun g hg => hlt g (List.mem_cons_of_mem _ hg))
      ((length_mergeFailure slots f).1.trans h1) ((length_mergeFailure slots f).2.trans h2)
      (by rw [hmerge]; exact hone), hmerge]

theorem WorkerBatch.rows_token (b : WorkerBatch S d k) : b.rows.map SlotRow.token = b.indices := by
  unfold WorkerBatch.rows slotRows
  rw [List.map_map]
  refine List.map_fst_zip ?_
  rw [List.length_zip, b.ids_shape, b.weights_shape, b.length_indices]
  exact Nat.le_of_eq (Nat.min_self _).symm

theorem length_assignments_le (batch : RoutedLayerBatch S d k) (t : Nat) (j : Fin k) :
    (assignments batch.rows t j).length ≤ 1 := by
  rw [batch.assignments_rows]
  split_ifs <;> simp

/-- merging the failed plans of a grouping loses none of their slots and invents none -/
theorem unfinishedBatch_slots {batch : RoutedLayerBatch S d k}
    {plans : List (WorkerBatchPlan S d k)} (hg : Grouped batch plans)
    {failures : List (FailedWorkerBatch S d k)}
    (hsub : (failures.map FailedWorkerBatch.plan).Sublist plans) (t : Nat) (j : Fin k) :
    assignments (unfinishedBatch batch failures).rows t j
      = failures.flatMap fun f => assignments f.plan.batch.rows t j := by
  have hplan : ∀ f ∈ failures, f.plan ∈ plans :=
    fun f hf => hsub.subset (List.mem_map_of_mem hf)
  have hempty : slotsAt (emptySlots batch.tokenCount : List (Fin k → Int) × List (Fin k → S)) t j
      = [] := by
    refine if_neg ?_
    unfold emptySlots
    rw [List.getD_eq_getElem?_getD, List.getElem?_replicate]
    split_ifs <;> exact of_decide_eq_false rfl
  have hone : (failures.flatMap fun f => assignments f.plan.batch.rows t j).length ≤ 1 := by
    have hle := (hsub.flatMap fun p => assignments p.batch.rows t j).length_le
    rw [hg.once, List.flatMap_map] at hle
    exact hle.trans (length_assignments_le batch t j)
  have hnd : ∀ f ∈ failures, (f.plan.batch.rows.map SlotRow.token).Nodup :=
    fun f hf => f.plan.batch.rows_token ▸ hg.nodup _ (hplan f hf)
  have hlt : ∀ f ∈ failures, ∀ r ∈ f.plan.batch.rows, r.token < batch.tokenCount :=
    fun f hf r hr => hg.lt _ (hplan f hf) r.token
      (f.plan.batch.rows_token ▸ List.mem_map_of_mem hr)
  have hlen : (emptySlots batch.tokenCount : List (Fin k → Int) × List (Fin k → S)).1.length
      = batch.tokenCount ∧ (emptySlots batch.tokenCount : List (Fin k → Int) ×
        List (Fin k → S)).2.length = batch.tokenCount := by
    simp [emptySlots]
  have hfold := slotsAt_foldl_mergeFailure hnd hlt t j hlen.1 hlen.2
    (by rw [hempty]; exact hone)
  rw [hempty, List.nil_append] at hfold
  rw [← hfold, (unfinishedBatch batch failures).assignments_rows]
  unfold slotsAt
  by_cases ht : t < batch.tokenCount
  · have ht' : t < (unfinishedBatch batch failures).tokenCount := ht
    simp only [ht', true_and]
    rfl
  · have hnone : (unfinishedSlots batch.tokenCount failures).1[t]? = none :=
      List.getElem?_eq_none (by rw [(length_unfinishedSlots _ failures).1]; omega)
    rw [if_neg (fun h => ht h.1)]
    refine (if_neg ?_).symm
    show ¬ 0 ≤ (unfinishedSlots batch.tokenCount failures).1.getD t (fun _ => -1) j
    rw [List.getD_eq_getElem?_getD, hnone]
    exact of_decide_eq_false rfl

theorem unfinishedBatch_covers {batch : RoutedLayerBatch S d k}
    {plans : List (WorkerBatchPlan S d k)} (hg : Grouped batch plans)
    {failures : List (FailedWorkerBatch S d k)}
    (hsub : (failures.map FailedWorkerBatch.plan).Sublist plans) :
    Covers (unfinishedBatch batch failures).expertIds
      (unfinishedBatch batch failures).distinctExpertIds := by
  intro row hrow j hj
  obtain ⟨t, ht⟩ := List.mem_iff_getElem?.mp hrow
  have hget : (unfinishedBatch batch failures).expertIds.getD t (fun _ => -1) = row := by
    rw [List.getD_eq_getElem?_getD, ht]
    rfl
  have hlt : t < (unfinishedBatch batch failures).tokenCount :=
    Nat.lt_of_lt_of_eq (List.getElem?_eq_some_iff.mp ht).1
      (unfinishedBatch batch failures).ids_shape
  -- the slot comes from one of the failed plans, whose list names its expert
  have hmem := unfinishedBatch_slots hg hsub t j
  rw [RoutedLayerBatch.assignments_rows, hget, if_pos ⟨hlt, hj⟩] at hmem
  have hslot := hmem ▸ List.mem_singleton_self _
  obtain ⟨f, hf, ha⟩ := List.mem_flatMap.mp hslot
  unfold assignments at ha
  obtain ⟨r, hr, hif⟩ := List.mem_flatMap.mp ha
  split_ifs at hif with hvalid
  · rw [List.mem_singleton, Prod.mk.injEq] at hif
    refine ExtTreeMap.mem_keys.mpr (mem_failedWorkers.mpr ⟨f, hf, ?_⟩)
    rw [hif.1]
    refine hg.covers _ (hsub.subset (List.mem_map_of_mem hf)) r.ids ?_ j hvalid.2
    unfold WorkerBatch.rows slotRows at hr
    obtain ⟨⟨i, ids, weights⟩, hz, rfl⟩ := List.mem_map.mp hr
    exact (List.of_mem_zip (List.of_mem_zip hz).2).1
  · cases hif

/-! ## what the rows are worth -/

variable (expert : Nat → (Fin d → S) → Fin d → S)

/-- weight times expert over a list of (expert, weight) entries -/
def slotValue (hidden : Fin d → S) (l : List (Int × S)) : Fin d → S :=
  (l.map fun a => a.2 • expert a.1.toNat hidden).sum

/-- what the rows are worth for token `t` -/
def tokenValue (hidden : Fin d → S) (rows : List (SlotRow S k)) (t : Nat) : Fin d → S :=
  ∑ j, slotValue expert hidden (assignments rows t j)

theorem slotValue_append (hidden : Fin d → S) (l l' : List (Int × S)) :
    slotValue expert hidden (l ++ l') = slotValue expert hidden l + slotValue expert hidden l' := by
  simp [slotValue]

theorem sum_slotValue_flatMap {ι : Type} (hidden : Fin d → S) (l : List ι)
    (slots : ι → Fin k → List (Int × S)) :
    (l.map fun i => ∑ j, slotValue expert hidden (slots i j)).sum
      = ∑ j, slotValue expert hidden (l.flatMap fun i => slots i j) := by
  induction l with
  | nil => simp [slotValue]
  | cons i l ih =>
    simp only [List.map_cons, List.sum_cons, List.flatMap_cons, slotValue_append,
      Finset.sum_add_distrib, ih]

/-- the sum of a row, if it is a row of `t`, is the sum over its slots for `t` -/
theorem rowValue_eq (hidden : Fin d → S) (r : SlotRow S k) (t : Nat) :
    (if r.token = t then rowValue expert hidden r.ids r.weights else 0)
      = ∑ j, slotValue expert hidden
          (if r.token = t ∧ 0 ≤ r.ids j then [(r.ids j, r.weights j)] else []) := by
  by_cases ht : r.token = t
  · rw [if_pos ht]
    unfold rowValue
    refine Finset.sum_congr rfl fun j _ => ?_
    by_cases hj : 0 ≤ r.ids j <;> simp [ht, hj, slotValue]
  · simp [ht, slotValue]

theorem total_rows (hidden : Nat → Fin d → S) (rows : List (SlotRow S k)) (t : Nat) :
    Scatter.total (rows.map fun r => (r.token, rowValue expert (hidden r.token) r.ids r.weights)) t
      = tokenValue expert (hidden t) rows t := by
  have hrow : ∀ r : SlotRow S k,
      (if r.token = t then rowValue expert (hidden r.token) r.ids r.weights else 0)
        = if r.token = t then rowValue expert (hidden t) r.ids r.weights else 0 := by
    intro r
    by_cases h : r.token = t <;> simp [h]
  unfold Scatter.total tokenValue assignments
  rw [List.map_map, ← sum_slotValue_flatMap]
  congr 1
  refine List.map_congr_left fun r _ => ?_
  show (if r.token = t then rowValue expert (hidden r.token) r.ids r.weights else 0) = _
  rw [hrow, rowValue_eq]

theorem WorkerBatch.total_outputs (b : WorkerBatch S d k) (t : Nat) :
    Scatter.total (b.indices.zip (b.outputs expert)) t
      = tokenValue expert (b.hiddenStates.values.getD t 0) b.rows t := by
  unfold WorkerBatch.outputs
  rw [← b.rows_token, List.zip_map', total_rows expert fun t => b.hiddenStates.values.getD t 0]

theorem layerRow_eq (batch : RoutedLayerBatch S d k) {t : Nat} (ht : t < batch.tokenCount) :
    layerRow expert batch t
      = tokenValue expert (batch.hiddenStates.values.getD t 0) batch.rows t := by
  unfold layerRow rowValue tokenValue
  refine Finset.sum_congr rfl fun j _ => ?_
  rw [batch.assignments_rows]
  by_cases hj : 0 ≤ batch.expertIds.getD t (fun _ => -1) j
  · rw [if_pos hj, if_pos ⟨ht, hj⟩]
    simp [slotValue]
    rfl
  · rw [if_neg hj, if_neg (fun h => hj h.2)]
    rfl

/-- a grouping is worth as much as the layer -/
theorem Grouped.sum_tokenValue {batch : RoutedLayerBatch S d k}
    {plans : List (WorkerBatchPlan S d k)} (hg : Grouped batch plans) (hidden : Fin d → S)
    (t : Nat) :
    (plans.map fun p => tokenValue expert hidden p.batch.rows t).sum
      = tokenValue expert hidden batch.rows t := by
  unfold tokenValue
  rw [sum_slotValue_flatMap]
  refine Finset.sum_congr rfl fun j _ => ?_
  rw [hg.once]

/-! ## the attempts -/

/-- every Transport that succeeds writes the sum of each of its rows -/
structure Calls.Correct (calls : Calls S d k) : Prop where
  direct : ∀ plan rows, calls.direct plan = .ok rows → rows = plan.batch.outputs expert
  first : ∀ i plan rows, (calls.first i plan).execute = .ok rows →
    rows = plan.batch.outputs expert
  second : ∀ i plan rows, (calls.second i plan).execute = .ok rows →
    rows = plan.batch.outputs expert

/-- `distinct_expert_ids` is the exact set of the valid expert numbers -/
def RoutedLayerBatch.Exact (batch : RoutedLayerBatch S d k) : Prop :=
  ∀ e : Nat, e ∈ batch.distinctExpertIds ↔ ∃ row ∈ batch.expertIds, ∃ j, row j = (e : Int)

theorem RoutedLayerBatch.Exact.covers {batch : RoutedLayerBatch S d k} (h : batch.Exact) :
    Covers batch.expertIds batch.distinctExpertIds := by
  intro row hrow j hj
  exact (h _).mpr ⟨row, hrow, j, (Int.toNat_of_nonneg hj).symm⟩

theorem sum_add_sum_filterMap {ι κ M : Type} [AddCommMonoid M] (l : List ι) (pick : ι → Option κ)
    (kept value : ι → M) (picked : κ → M)
    (hnone : ∀ i ∈ l, pick i = none → kept i = value i)
    (hsome : ∀ i ∈ l, ∀ x, pick i = some x → kept i = 0 ∧ picked x = value i) :
    (l.map kept).sum + ((l.filterMap pick).map picked).sum = (l.map value).sum := by
  induction l with
  | nil => simp
  | cons i l ih =>
    have ih' := ih (fun a ha => hnone a (List.mem_cons_of_mem _ ha))
      (fun a ha => hsome a (List.mem_cons_of_mem _ ha))
    cases hp : pick i with
    | none =>
      rw [List.filterMap_cons_none hp, List.map_cons, List.sum_cons, List.map_cons, List.sum_cons,
        hnone i List.mem_cons_self hp, add_assoc, ih']
    | some x =>
      obtain ⟨hk, hx⟩ := hsome i List.mem_cons_self x hp
      rw [List.filterMap_cons_some hp]
      simp only [List.map_cons, List.sum_cons]
      rw [hk, hx, zero_add, add_left_comm, ih']

/-- an attempt that returns adds, for every token, all that its failures do not owe -/
theorem dispatchOnce_value {batch : RoutedLayerBatch S d k} {plans : List (WorkerBatchPlan S d k)}
    (hg : Grouped batch plans) {pools : ExtTreeMap WorkerIdentity OutputPool}
    {submissions : Nat → WorkerBatchPlan S d k → Submission S d}
    (hcorrect : ∀ i plan rows, (submissions i plan).execute = .ok rows →
      rows = plan.batch.outputs expert)
    {schedule : Schedule (WorkerBatchPlan S d k × Nat)}
    {accumulator accumulator' : List (Fin d → S)} {failures : List (FailedWorkerBatch S d k)}
    (h : dispatchOnce plans pools submissions schedule accumulator
      = .ok (failures, accumulator')) :
    (failures.map FailedWorkerBatch.plan).Sublist plans ∧
    accumulator'.length = accumulator.length ∧
    ∀ t : Nat, ∃ added, accumulator'[t]? = accumulator[t]?.map (· + added) ∧
      added + (failures.map fun f => tokenValue expert (batch.hiddenStates.values.getD t 0)
        f.plan.batch.rows t).sum
      = tokenValue expert (batch.hiddenStates.values.getD t 0) batch.rows t := by
  obtain ⟨hfail, hlen, hacc, hsub⟩ := dispatchOnce_spec h
  have hzip : plans.zipIdx.map Prod.fst = plans := List.zipIdx_map_fst 0 plans
  refine ⟨?_, hlen, fun t => ⟨_, hacc t, ?_⟩⟩
  · have hplans : failures.map FailedWorkerBatch.plan = (plans.zipIdx.filter fun e =>
        (submissions e.2 e.1).failure.isSome).map Prod.fst := by
      rw [hfail, List.map_filterMap, ← List.filterMap_eq_filter, List.map_filterMap]
      congr 1
      funext e
      cases hf : (submissions e.2 e.1).failure <;> simp [Option.guard, hf]
    rw [hplans]
    exact (List.filter_sublist.map Prod.fst).trans (by rw [hzip])
  · have hmem : ∀ e ∈ plans.zipIdx, e.1.batch.hiddenStates = batch.hiddenStates := by
      intro e he
      exact hg.hidden e.1 (hzip ▸ List.mem_map_of_mem he)
    rw [← hg.sum_tokenValue expert, hfail]
    nth_rewrite 3 [← hzip]
    rw [List.map_map]
    refine sum_add_sum_filterMap plans.zipIdx _ _ _ _ ?_ ?_
    · intro e he hnone
      have hok := (hsub e he).1 (by simpa using hnone)
      rw [hcorrect _ _ _ hok, e.1.batch.total_outputs expert, hmem e he]
      rfl
    · intro e he f hf
      obtain ⟨error, herror, rfl⟩ := Option.map_eq_some_iff.mp hf
      refine ⟨?_, rfl⟩
      rw [(hsub e he).2 (by rw [herror]; rfl), List.zip_nil_right, Scatter.total_nil]

/-- the first attempt adds all that its failures do not owe -/
theorem firstAttempt_value {batch : RoutedLayerBatch S d k} {plans : List (WorkerBatchPlan S d k)}
    (hg : Grouped batch plans) {pools : ExtTreeMap WorkerIdentity OutputPool}
    {calls : Calls S d k} (hcorrect : calls.Correct expert)
    {failures : List (FailedWorkerBatch S d k)} {accumulator : List (Fin d → S)}
    (h : firstAttempt pools calls batch plans = .ok (failures, accumulator)) :
    (failures.map FailedWorkerBatch.plan).Sublist plans ∧
    accumulator.length = batch.tokenCount ∧
    ∀ t < batch.tokenCount, ∃ added, accumulator[t]? = some added ∧
      added + (failures.map fun f => tokenValue expert (batch.hiddenStates.values.getD t 0)
        f.plan.batch.rows t).sum
      = tokenValue expert (batch.hiddenStates.values.getD t 0) batch.rows t := by
  have hmulti : raiseOther (dispatchOnce plans pools calls.first calls.firstSchedule
      (zeroRows batch)) = .ok (failures, accumulator) →
      (failures.map FailedWorkerBatch.plan).Sublist plans ∧
      accumulator.length = batch.tokenCount ∧
      ∀ t < batch.tokenCount, ∃ added, accumulator[t]? = some added ∧
        added + (failures.map fun f => tokenValue expert (batch.hiddenStates.values.getD t 0)
          f.plan.batch.rows t).sum
        = tokenValue expert (batch.hiddenStates.values.getD t 0) batch.rows t := by
    intro hraise
    cases honce : dispatchOnce plans pools calls.first calls.firstSchedule (zeroRows batch) with
    | error what => rw [honce] at hraise; cases hraise
    | ok result =>
      rw [honce] at hraise
      cases hraise
      obtain ⟨hsub, hlen, hval⟩ := dispatchOnce_value expert hg hcorrect.first honce
      refine ⟨hsub, by rw [hlen]; simp [zeroRows], fun t ht => ?_⟩
      obtain ⟨added, hadd, hsum⟩ := hval t
      refine ⟨added, ?_, hsum⟩
      rw [hadd]
      simp [zeroRows, ht]
  unfold firstAttempt at h
  split at h
  · rename_i plan
    split_ifs at h with hnone
    · -- the complete plan of a single Worker
      have hrows := hg.sum_tokenValue expert
      simp only [List.map_cons, List.map_nil, List.sum_cons, List.sum_nil, add_zero] at hrows
      unfold dispatchCompletePlan at h
      split at h
      · cases h
      · rename_i result hresult
        cases h
        split at hresult
        · rename_i out hout
          cases hresult
          have hhid := hg.hidden plan (List.mem_singleton_self plan)
          have hidx : plan.batch.indices = List.range batch.tokenCount := by
            unfold WorkerBatch.indices WorkerBatch.tokenCount RoutedLayerBatch.tokenCount
            rw [Option.isNone_iff_eq_none.mp hnone, hhid]
            rfl
          have hlen : (plan.batch.outputs expert).length = batch.tokenCount := by
            unfold WorkerBatch.outputs
            rw [List.length_map, plan.batch.length_rows, ← plan.batch.length_indices, hidx,
              List.length_range]
          rw [hcorrect.direct plan _ hout]
          rw [← hlen] at hidx
          refine ⟨List.nil_sublist _, hlen, fun t ht => ?_⟩
          refine ⟨_, List.getElem?_eq_getElem (hlen ▸ ht), ?_⟩
          rw [List.map_nil, List.sum_nil, add_zero, ← hrows, ← hhid,
            ← plan.batch.total_outputs expert, hidx, Scatter.total_range_zip]
        · cases hresult
        · cases hresult
      · rename_i failure hfailure
        cases h
        split at hfailure
        · cases hfailure
        · cases hfailure
          refine ⟨List.Sublist.refl _, by simp [zeroRows], fun t ht => ⟨0, ?_, ?_⟩⟩
          · simp [zeroRows, ht]
          · simp [hrows]
        · cases hfailure
    · exact hmulti h
  · exact hmulti h

/-! ## exactly once -/

theorem retry_value {σ : Type} {selector : ReplicaSelector σ}
    {pools : ExtTreeMap WorkerIdentity OutputPool} {deadline delay : ℚ} {calls : Calls S d k}
    (hcorrect : calls.Correct expert) {batch : RoutedLayerBatch S d k}
    {plans : List (WorkerBatchPlan S d k)} (hg : Grouped batch plans)
    {failures : List (FailedWorkerBatch S d k)}
    (hsub : (failures.map FailedWorkerBatch.plan).Sublist plans)
    {accumulator out : List (Fin d → S)} {state state' : σ}
    (h : retry selector pools deadline delay calls batch failures accumulator state
      = (.ok out, state')) :
    out.length = accumulator.length ∧
    ∀ t : Nat, out[t]? = accumulator[t]?.map (· + (failures.map fun f =>
      tokenValue expert (batch.hiddenStates.values.getD t 0) f.plan.batch.rows t).sum) := by
  unfold retry at h
  split at h
  · cases h
  · split at h
    · cases h
    · split_ifs at h
      · cases h
      · split at h
        · cases h
        · split at h
          · cases h
          · rename_i retryPlans state2 hgroup
            split at h
            · cases h
            · simp only [Prod.mk.injEq] at h
              have hsecond := h.1
              unfold secondAttempt at hsecond
              split at hsecond
              · cases hsecond
              · rename_i retryFailures accumulator' honce
                split at hsecond
                · cases hsecond
                · rename_i hnone
                  cases hsecond
                  have hg' := groupWorkerBatches_grouped (unfinishedBatch_covers hg hsub) hgroup
                  obtain ⟨_, hlen, hval⟩ := dispatchOnce_value expert hg' hcorrect.second honce
                  refine ⟨hlen, fun t => ?_⟩
                  obtain ⟨added, hadd, hsum⟩ := hval t
                  have hslots : tokenValue expert (batch.hiddenStates.values.getD t 0)
                      (unfinishedBatch batch failures).rows t
                      = (failures.map fun f => tokenValue expert
                          (batch.hiddenStates.values.getD t 0) f.plan.batch.rows t).sum := by
                    unfold tokenValue
                    rw [sum_slotValue_flatMap]
                    refine Finset.sum_congr rfl fun j _ => ?_
                    rw [unfinishedBatch_slots hg hsub]
                  rw [List.getLast?_eq_none_iff.mp hnone, List.map_nil, List.sum_nil,
                    add_zero] at hsum
                  rw [hadd, hsum, ← hslots]
                  rfl

/-- **Exactly-once aggregation.**  Whatever fails in the first attempt and in whatever order the
Workers answer, a returned layer holds for every token the sum over all of its valid slots. -/
theorem execute_routed_layer_exactly_once {σ : Type} (selector : ReplicaSelector σ)
    (pools : ExtTreeMap WorkerIdentity OutputPool) (deadline delay : ℚ) (calls : Calls S d k)
    (hcorrect : calls.Correct expert) (batch : RoutedLayerBatch S d k) (hexact : batch.Exact)
    (state : σ) (out : List (Fin d → S))
    (h : (executeRoutedLayer selector pools deadline delay calls batch state).1 = .ok out) :
    out = (List.range batch.tokenCount).map (layerRow expert batch) := by
  have hrows : out.length = batch.tokenCount ∧
      ∀ t < batch.tokenCount, out[t]? = some (layerRow expert batch t) := by
    unfold executeRoutedLayer at h
    split_ifs at h
    · split at h
      · cases h
      · split at h
        · cases h
        · rename_i snapshot _ state2 hgroup
          have hg := groupWorkerBatches_grouped hexact.covers hgroup
          cases h
          refine ⟨by simp [zeroRows], fun t ht => ?_⟩
          rw [layerRow_eq expert batch ht, ← hg.sum_tokenValue expert]
          simp [zeroRows, ht]
        · rename_i snapshot _ plans state2 _ hgroup
          have hg := groupWorkerBatches_grouped hexact.covers hgroup
          split at h
          · cases h
          · rename_i accumulator hfirst
            cases h
            obtain ⟨_, hlen, hval⟩ := firstAttempt_value expert hg hcorrect hfirst
            refine ⟨hlen, fun t ht => ?_⟩
            obtain ⟨added, hadd, hsum⟩ := hval t ht
            rw [List.map_nil, List.sum_nil, add_zero] at hsum
            rw [hadd, hsum, layerRow_eq expert batch ht]
          · rename_i failures accumulator _ hfirst
            obtain ⟨hsub, hlen, hval⟩ := firstAttempt_value expert hg hcorrect hfirst
            obtain ⟨hlen', hval'⟩ := retry_value expert hcorrect hg hsub (Prod.ext h rfl)
            refine ⟨hlen'.trans hlen, fun t ht => ?_⟩
            obtain ⟨added, hadd, hsum⟩ := hval t ht
            rw [hval' t, hadd, Option.map_some, hsum, layerRow_eq expert batch ht]
  apply List.ext_getElem?
  intro t
  by_cases ht : t < batch.tokenCount
  · rw [hrows.2 t ht, List.getElem?_map, List.getElem?_range ht]
    rfl
  · rw [List.getElem?_eq_none (by omega), List.getElem?_eq_none (by simpa using ht)]

end

/-! ## a layer over two Workers, one of which fails in the first attempt -/

namespace Fixture

def worker (name : String) (maxBatchTokens : Nat) (h : 0 < maxBatchTokens) : WorkerConnection :=
  ⟨⟨name, "start-0"⟩, maxBatchTokens, 1, 1, h, by decide, by decide⟩

def routes (a b : WorkerConnection) : ExtTreeMap ExpertKey (List WorkerConnection) :=
  ((∅ : ExtTreeMap ExpertKey (List WorkerConnection)).insert ⟨1, 0⟩ [a]).insert ⟨1, 1⟩ [b]

theorem routes_cases {a b : WorkerConnection} {key : ExpertKey} {replicas : List WorkerConnection}
    (h : (routes a b)[key]? = some replicas) : replicas = [a] ∨ replicas = [b] := by
  unfold routes at h
  rw [Maps.getElem?_insert_eq, Maps.getElem?_insert_eq] at h
  split_ifs at h
  · exact .inr (Option.some.inj h).symm
  · exact .inl (Option.some.inj h).symm
  · simp at h

/-- expert 0 on the first Worker and expert 1 on the second one -/
def snapshot (version : Nat) (a b : WorkerConnection) (hne : a.identity ≠ b.identity) :
    TopologySnapshot where
  instanceId := 7
  version := version
  routes := routes a b
  nonempty := by
    intro key replicas h
    rcases routes_cases h with rfl | rfl <;> simp
  distinct := by
    intro key replicas h
    rcases routes_cases h with rfl | rfl <;> simp
  consistent := by
    intro key key' replicas replicas' h h' target ht target' ht' e
    rcases routes_cases h with rfl | rfl <;> rcases routes_cases h' with rfl | rfl <;> simp_all

def retryable : TransportError := ⟨.unavailable, true, none, some 2, [], "connection lost"⟩

/-- the expert with number `e` multiplies the activation by `e + 2` -/
def expert (e : Nat) (hidden : Fin 1 → Int) : Fin 1 → Int := fun i => (e + 2 : Int) * hidden i

def hidden : HiddenStates Int 1 :=
  ⟨.bf16, "cpu", [fun _ => 1, fun _ => 10, fun _ => 100], by decide, by decide⟩

/-- three tokens with two slots; the last token has one valid slot -/
def batch : RoutedLayerBatch Int 1 2 where
  instanceId := 7
  layerId := 1
  hiddenStates := hidden
  expertIds := [![0, 1], ![1, 0], ![0, -1]]
  routingWeights := [![1, 2], ![3, 4], ![5, 0]]
  distinctExpertIds := [0, 1]
  topK_pos := by decide
  ids_shape := rfl
  weights_shape := rfl
  distinct := ⟨by decide, by decide⟩

/-- the second Worker fails once; the tasks of the first attempt finish in reverse order -/
def calls : Calls Int 1 2 where
  clock := fun _ => 0
  current := .ok (snapshot 1 (worker "worker-0" 2 (by decide)) (worker "worker-1" 4 (by decide))
    (by decide))
  refresh := .ok (snapshot 2 (worker "worker-0" 2 (by decide)) (worker "worker-2" 1 (by decide))
    (by decide))
  direct := fun plan => .ok (plan.batch.outputs expert)
  first := fun _ plan => if plan.target.identity.workerId = "worker-1"
    then ⟨.ok (), .error (.transport retryable), none⟩
    else ⟨.ok (), .ok (plan.batch.outputs expert), none⟩
  second := fun _ plan => ⟨.ok (), .ok (plan.batch.outputs expert), none⟩
  firstSchedule := ⟨List.reverse, List.reverse_perm⟩
  secondSchedule := ⟨id, fun _ => List.Perm.refl _⟩

def pools : ExtTreeMap WorkerIdentity OutputPool :=
  ((∅ : ExtTreeMap WorkerIdentity OutputPool).insert ⟨"worker-0", "start-0"⟩
    ⟨4, 1, .bf16, "cpu"⟩).insert ⟨"worker-1", "start-0"⟩ ⟨4, 1, .bf16, "cpu"⟩ |>.insert
    ⟨"worker-2", "start-0"⟩ ⟨4, 1, .bf16, "cpu"⟩

theorem calls_correct : calls.Correct expert where
  direct := by
    intro plan rows h
    cases h
    rfl
  first := by
    intro i plan rows h
    unfold calls at h
    simp only at h
    split_ifs at h
    cases h
    rfl
  second := by
    intro i plan rows h
    cases h
    rfl

theorem batch_exact : batch.Exact := by
  intro e
  show e ∈ [0, 1] ↔ ∃ row ∈ [![0, 1], ![1, 0], ![0, -1]], ∃ j, row j = (e : Int)
  simp [Fin.exists_fin_two]
  omega

end Fixture

theorem execute_routed_layer_retried :
    ∃ out, (executeRoutedLayer RoundRobinSelector Fixture.pools 10 1 Fixture.calls Fixture.batch
        []).1 = .ok out ∧
      out = (List.range Fixture.batch.tokenCount).map (layerRow Fixture.expert Fixture.batch) := by
  have hrun : (executeRoutedLayer RoundRobinSelector Fixture.pools 10 1 Fixture.calls Fixture.batch
      []).1 = .ok [fun _ => 8, fun _ => 170, fun _ => 1000] := by decide +kernel
  exact ⟨_, hrun, execute_routed_layer_exactly_once Fixture.expert RoundRobinSelector Fixture.pools
    10 1 Fixture.calls Fixture.calls_correct Fixture.batch Fixture.batch_exact [] _ hrun⟩

end ExpertKit.Routing

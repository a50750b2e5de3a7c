import ExpertKit.Routing.Grouping

/-!
# Frontend routing: dispatching the plans of one attempt

`routing/dispatch.py`.  Every plan is one task: it leases an output Tensor, lets the Transport write
the partial rows and adds them to the accumulator.  An addition has no suspension point, so the tasks
of one attempt act on the accumulator one after another, in the order in which they finish.  A
`TransportError` is kept for the retry; any other exception ends the call.

* `Submission`, `Schedule`     what the Transport does, and the order in which the tasks finish;
* `dispatchPlan`, `dispatchCompletePlan`, `dispatchOnce`   the code;
* `dispatchOnce_spec`          the failures in input order, and what the accumulator gains.
-/

set_option linter.unusedSectionVars false

namespace ExpertKit.Routing
open Std

section
variable {S : Type} {d k : Nat} [Semiring S]

structure FailedWorkerBatch (S : Type) (d k : Nat) where
  plan : WorkerBatchPlan S d k
  error : TransportError

structure OutputPool where
  maxBatchTokens : Nat
  hiddenDim : Nat
  dtype : Dtype
  device : String
deriving DecidableEq

/-- one submission: the lease of an output Tensor, the rows that the Transport writes, and the
exception, if any, when the Tensor goes back to its pool (an accelerator error, never a
`TransportError`) -/
structure Submission (S : Type) (d : Nat) where
  lease : Except Raised Unit
  execute : Except Raised (List (Fin d → S))
  release : Option String

/-- the order in which the tasks of an attempt finish -/
structure Schedule (α : Type) where
  order : List α → List α
  perm : ∀ tasks, (order tasks).Perm tasks

/-- the accumulator is FP32 on the device of the activations, so only the pool can be wrong -/
def validateAccumulator (plan : WorkerBatchPlan S d k) (pool : OutputPool) : Option String :=
  if pool.hiddenDim ≠ d then
    some "output pool hidden dimension does not match the Worker batch"
  else if pool.dtype ≠ plan.batch.hiddenStates.dtype then
    some "output pool dtype does not match the activation dtype"
  else if pool.device ≠ plan.batch.hiddenStates.device then
    some "output pool and accumulator must be on the same device"
  else if pool.maxBatchTokens < plan.batch.tokenCount then
    some "output pool is too small for the physical Worker batch"
  else none

def dispatchPlan (plan : WorkerBatchPlan S d k) (submission : Submission S d)
    (accumulator : List (Fin d → S)) :
    Except String (Option (FailedWorkerBatch S d k) × List (Fin d → S)) :=
  match submission.lease with
  | .error (.transport error) => .ok (some ⟨plan, error⟩, accumulator)
  | .error (.other what) => .error what
  | .ok () =>
    let result := match submission.execute with
      | .error (.transport error) => .ok (some ⟨plan, error⟩, accumulator)
      | .error (.other what) => .error what
      | .ok rows => .ok (none, Scatter.indexAdd accumulator (plan.batch.indices.zip rows))
    -- the lease ends on every way out of the block
    match submission.release with
    | some what => .error what
    | none => result

/-- the complete result of one Worker, without aggregation -/
def dispatchCompletePlan (plan : WorkerBatchPlan S d k)
    (execute : Except Raised (List (Fin d → S))) :
    Except Raised (Except (FailedWorkerBatch S d k) (List (Fin d → S))) :=
  match execute with
  | .ok result => .ok (.ok result)
  | .error (.transport error) => .ok (.error ⟨plan, error⟩)
  | .error (.other what) => .error (.other what)

def runTask (pools : ExtTreeMap WorkerIdentity OutputPool) (plan : WorkerBatchPlan S d k)
    (submission : Submission S d) (accumulator : List (Fin d → S)) :
    Except String (Option (FailedWorkerBatch S d k) × List (Fin d → S)) :=
  match pools[plan.target.identity]? with
  | none => .error "no output pool for selected Worker process"
  | some pool =>
    match validateAccumulator plan pool with
    | some what => .error what
    | none => dispatchPlan plan submission accumulator

/-- the tasks in the order in which they finish; `failures` has one entry for each plan -/
def runTasks (pools : ExtTreeMap WorkerIdentity OutputPool)
    (submissions : Nat → WorkerBatchPlan S d k → Submission S d) :
    List (WorkerBatchPlan S d k × Nat) → List (Option (FailedWorkerBatch S d k)) →
    List (Fin d → S) →
    Except String (List (Option (FailedWorkerBatch S d k)) × List (Fin d → S))
  | [], failures, accumulator => .ok (failures, accumulator)
  | (plan, index) :: rest, failures, accumulator =>
    match runTask pools plan (submissions index plan) accumulator with
    | .error what => .error what
    | .ok (failure, accumulator) =>
      runTasks pools submissions rest (failures.set index failure) accumulator

def dispatchOnce (plans : List (WorkerBatchPlan S d k))
    (pools : ExtTreeMap WorkerIdentity OutputPool)
    (submissions : Nat → WorkerBatchPlan S d k → Submission S d)
    (schedule : Schedule (WorkerBatchPlan S d k × Nat)) (accumulator : List (Fin d → S)) :
    Except String (List (FailedWorkerBatch S d k) × List (Fin d → S)) :=
  match runTasks pools submissions (schedule.order plans.zipIdx)
      (List.replicate plans.length none) accumulator with
  | .error what => .error what
  | .ok (failures, accumulator) => .ok (failures.filterMap id, accumulator)

/-! ## what an attempt does -/

/-- the `TransportError` of a submission, if it has one -/
def Submission.failure (s : Submission S d) : Option TransportError :=
  match s.lease, s.execute with
  | .error (.transport error), _ => some error
  | .ok (), .error (.transport error) => some error
  | _, _ => none

/-- the rows that a submission writes -/
def Submission.written (s : Submission S d) : List (Fin d → S) :=
  match s.lease, s.execute with
  | .ok (), .ok rows => rows
  | _, _ => []

theorem dispatchPlan_spec {plan : WorkerBatchPlan S d k} {s : Submission S d}
    {accumulator accumulator' : List (Fin d → S)} {failure : Option (FailedWorkerBatch S d k)}
    (h : dispatchPlan plan s accumulator = .ok (failure, accumulator')) :
    failure = s.failure.map (FailedWorkerBatch.mk plan) ∧
      accumulator' = Scatter.indexAdd accumulator (plan.batch.indices.zip s.written) ∧
      (failure = none → s.execute = .ok s.written) ∧ (failure.isSome → s.written = []) := by
  obtain ⟨lease, execute, release⟩ := s
  unfold dispatchPlan at h
  have hnil : ∀ indices : List Nat,
      Scatter.indexAdd accumulator (indices.zip ([] : List (Fin d → S))) = accumulator := by
    intro indices
    rw [List.zip_nil_right]
    rfl
  rcases lease with (error | what) | _
  · cases h
    exact ⟨rfl, (hnil _).symm, fun hnone => (by cases hnone), fun _ => rfl⟩
  · cases h
  · cases release with
    | some what => cases h
    | none =>
      rcases execute with (error | what) | rows
      · cases h
        exact ⟨rfl, (hnil _).symm, fun hnone => (by cases hnone), fun _ => rfl⟩
      · cases h
      · cases h
        exact ⟨rfl, rfl, fun _ => rfl, fun hsome => by cases hsome⟩

theorem runTask_dispatchPlan {pools : ExtTreeMap WorkerIdentity OutputPool}
    {plan : WorkerBatchPlan S d k} {s : Submission S d} {accumulator : List (Fin d → S)}
    {result : Option (FailedWorkerBatch S d k) × List (Fin d → S)}
    (h : runTask pools plan s accumulator = .ok result) :
    dispatchPlan plan s accumulator = .ok result := by
  unfold runTask at h
  split at h
  · cases h
  · split at h
    · cases h
    · exact h

theorem runTasks_spec {pools : ExtTreeMap WorkerIdentity OutputPool}
    {submissions : Nat → WorkerBatchPlan S d k → Submission S d}
    {tasks : List (WorkerBatchPlan S d k × Nat)}
    {failures failures' : List (Option (FailedWorkerBatch S d k))}
    {accumulator accumulator' : List (Fin d → S)}
    (h : runTasks pools submissions tasks failures accumulator = .ok (failures', accumulator')) :
    failures' = Scatter.indexCopy failures (tasks.map fun e =>
      (e.2, (submissions e.2 e.1).failure.map (FailedWorkerBatch.mk e.1))) ∧
    accumulator' = Scatter.indexAdd accumulator (tasks.flatMap fun e =>
      e.1.batch.indices.zip (submissions e.2 e.1).written) ∧
    ∀ e ∈ tasks, ((submissions e.2 e.1).failure = none →
        (submissions e.2 e.1).execute = .ok (submissions e.2 e.1).written) ∧
      ((submissions e.2 e.1).failure.isSome → (submissions e.2 e.1).written = []) := by
  induction tasks generalizing failures accumulator with
  | nil =>
    cases h
    exact ⟨rfl, rfl, fun e he => by cases he⟩
  | cons e tasks ih =>
    obtain ⟨plan, index⟩ := e
    unfold runTasks at h
    split at h
    · cases h
    · rename_i failure accumulator2 htask
      obtain ⟨hf, hacc, hok, hfail⟩ := dispatchPlan_spec (runTask_dispatchPlan htask)
      obtain ⟨h1, h2, h3⟩ := ih h
      refine ⟨?_, ?_, ?_⟩
      · rw [h1, hf]
        rfl
      · rw [h2, hacc, List.flatMap_cons, Scatter.indexAdd_append]
      · intro e he
        rcases List.mem_cons.mp he with rfl | he
        · refine ⟨fun hnone => hok ?_, fun hsome => hfail ?_⟩
          · rw [hf]
            simp only at hnone
            rw [hnone]
            rfl
          · rw [hf, Option.isSome_map]
            exact hsome
        · exact h3 e he

/-- an attempt that returns: the failures are those of the submissions, in input order, and the
accumulator has gained the rows of every other submission -/
theorem dispatchOnce_spec {plans : List (WorkerBatchPlan S d k)}
    {pools : ExtTreeMap WorkerIdentity OutputPool}
    {submissions : Nat → WorkerBatchPlan S d k → Submission S d}
    {schedule : Schedule (WorkerBatchPlan S d k × Nat)}
    {accumulator accumulator' : List (Fin d → S)} {failures : List (FailedWorkerBatch S d k)}
    (h : dispatchOnce plans pools submissions schedule accumulator
      = .ok (failures, accumulator')) :
    failures = (plans.zipIdx.filterMap fun e =>
      (submissions e.2 e.1).failure.map (FailedWorkerBatch.mk e.1)) ∧
    accumulator'.length = accumulator.length ∧
    (∀ t : Nat, accumulator'[t]? = accumulator[t]?.map (· + (plans.zipIdx.map fun e =>
      Scatter.total (e.1.batch.indices.zip (submissions e.2 e.1).written) t).sum)) ∧
    ∀ e ∈ plans.zipIdx, ((submissions e.2 e.1).failure = none →
        (submissions e.2 e.1).execute = .ok (submissions e.2 e.1).written) ∧
      ((submissions e.2 e.1).failure.isSome → (submissions e.2 e.1).written = []) := by
  unfold dispatchOnce at h
  split at h
  · cases h
  · rename_i table accumulator2 hrun
    cases h
    obtain ⟨htable, hacc, hall⟩ := runTasks_spec hrun
    have hperm := schedule.perm plans.zipIdx
    refine ⟨?_, ?_, ?_, fun e he => hall e (hperm.mem_iff.mpr he)⟩
    · have htable' : table = plans.zipIdx.map fun e =>
          (submissions e.2 e.1).failure.map (FailedWorkerBatch.mk e.1) := by
        apply List.ext_getElem?
        intro i
        rw [htable]
        by_cases hi : i < plans.length
        · have hmem : (plans[i], i) ∈ plans.zipIdx :=
            List.mem_zipIdx_iff_getElem?.mpr (List.getElem?_eq_getElem hi)
          rw [Scatter.getElem?_indexCopy_of_mem (a := (submissions i plans[i]).failure.map
            (FailedWorkerBatch.mk plans[i]))]
          · rw [List.getElem?_map, List.getElem?_zipIdx, List.getElem?_eq_getElem hi]
            simp
          · rw [List.map_map]
            refine (hperm.map _).nodup_iff.mpr ?_
            show (plans.zipIdx.map Prod.snd).Nodup
            rw [List.zipIdx_map_snd]
            exact List.nodup_range'
          · exact List.mem_map.mpr ⟨(plans[i], i), hperm.mem_iff.mpr hmem, rfl⟩
          · rw [List.length_replicate]
            exact hi
        · rw [List.getElem?_eq_none, List.getElem?_eq_none]
          · simpa using hi
          · rw [Scatter.length_indexCopy, List.length_replicate]
            omega
      rw [htable', List.filterMap_map]
      rfl
    · rw [hacc, Scatter.length_indexAdd]
    · intro t
      rw [hacc, Scatter.getElem?_indexAdd, Scatter.total_flatMap, (hperm.map _).sum_eq]

end

end ExpertKit.Routing

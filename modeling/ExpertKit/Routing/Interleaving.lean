import ExpertKit.Frontend.Watcher
import ExpertKit.Routing.Execute
import ExpertKit.Routing.Plans

/-!
# Frontend routing: one layer call while the Topology changes

`execute_routed_layer` between its suspension points, over the live `pools` mapping of the topology
watcher.  A task of `dispatch_once` looks its pool up when it starts, after the grouping that
selected the Worker; in between, and during the retry delay, messages are installed and the
resources of dropped Workers retired.

* `Phase`, `LayerRun.step`    where a call waits, and one step of the call or of the watcher;
* `HasPool`                   what the first step of a task needs;
* `layer_call_promised`       a call returns or raises a `TransportError` exactly when every task
                              finds its pool;
* `tasks_find_pools`          they do when no step of the watcher takes a pool that is still needed.

The readings of the clock, the answers of the Transports and the state of the selector are part of
the steps.
-/

set_option linter.unusedSectionVars false

namespace ExpertKit.Routing
open Std

section
variable {S : Type} {d k : Nat} [Semiring S]

/-! ## where a call waits -/

structure LayerRequest (S : Type) (d k : Nat) where
  batch : RoutedLayerBatch S d k
  deadline : ℚ
  delay : ℚ

/-- a task of `dispatch_once` after its first step -/
structure StartedTask (S : Type) (d k : Nat) where
  plan : WorkerBatchPlan S d k
  index : Nat
  poolClosing : Bool

/-- one `dispatch_once`; `observed` is the version of the first snapshot, `none` in the retry -/
structure Attempt (S : Type) (d k : Nat) where
  observed : Option Nat
  plans : List (WorkerBatchPlan S d k)
  waiting : List (WorkerBatchPlan S d k × Nat)
  started : List (StartedTask S d k)
  failures : List (Option (FailedWorkerBatch S d k))
  accumulator : List (Fin d → S)

inductive Phase (S : Type) (d k : Nat) where
  | ready
  | direct (version : Nat) (plan : WorkerBatchPlan S d k)
  | dispatching (attempt : Attempt S d k)
  | refreshing (version : Nat) (failures : List (FailedWorkerBatch S d k))
      (accumulator : List (Fin d → S))
  | sleeping (plans : List (WorkerBatchPlan S d k)) (accumulator : List (Fin d → S))
  | done (result : Except Raised (List (Fin d → S)))

/-- the failures of the first attempt, up to the refresh -/
def afterFailures (version : Nat) (failures : List (FailedWorkerBatch S d k))
    (accumulator : List (Fin d → S)) : Phase S d k :=
  match failures.find? fun f => !f.error.retryable with
  | some failure => .done (.error (.transport failure.error))
  | none => .refreshing version failures accumulator

/-- the end of `dispatch_once` -/
def Attempt.finish (a : Attempt S d k) : Phase S d k :=
  match a.observed with
  | some version =>
    if (a.failures.filterMap id).isEmpty then .done (.ok a.accumulator)
    else afterFailures version (a.failures.filterMap id) a.accumulator
  | none =>
    match (a.failures.filterMap id).getLast? with
    | some failure => .done (.error (.transport failure.error))
    | none => .done (.ok a.accumulator)

/-- the task group ends with its last task -/
def Attempt.settle (a : Attempt S d k) : Phase S d k :=
  if a.waiting.isEmpty && a.started.isEmpty then a.finish else .dispatching a

def startAttempt (observed : Option Nat) (plans : List (WorkerBatchPlan S d k))
    (accumulator : List (Fin d → S)) : Phase S d k :=
  Attempt.settle ⟨observed, plans, plans.zipIdx, [], List.replicate plans.length none, accumulator⟩

/-- the first attempt: a single complete plan is sent without a pool -/
def firstPhase (batch : RoutedLayerBatch S d k) (version : Nat)
    (plans : List (WorkerBatchPlan S d k)) : Phase S d k :=
  match plans with
  | [] => .done (.ok (zeroRows batch))
  | [plan] =>
    if plan.batch.tokenIndices.isNone then .direct version plan
    else startAttempt (some version) [plan] (zeroRows batch)
  | plans => startAttempt (some version) plans (zeroRows batch)

/-- the call up to its first suspension point -/
def begin {σ : Type} (selector : ReplicaSelector σ) (request : LayerRequest S d k)
    (w : Frontend.Watcher) (clock : ℚ) (state : σ) : Phase S d k :=
  if request.delay ≤ 0 then
    .done (.error (.other "same_worker_retry_delay_seconds must be finite and positive"))
  else if request.deadline - clock ≤ 0 then
    .done (.error (deadlineError "the Routed layer deadline expired before dispatch"))
  else
    match w.current request.batch.instanceId with
    | .error raised => .done (.error raised)
    | .ok snapshot =>
      match (groupWorkerBatches selector request.batch snapshot ∅ ∅ false true state).1 with
      | .error raised => .done (.error raised)
      | .ok plans => firstPhase request.batch snapshot.version plans

/-- the first step of a task: the pool is looked up in the live mapping; an exception ends the task
group and the call -/
def startTask (w : Frontend.Watcher) (a : Attempt S d k) (index : Nat) : Option (Phase S d k) :=
  match a.waiting.find? fun e => decide (e.2 = index) with
  | none => none
  | some (plan, _) =>
    match w.pools[plan.target.identity]? with
    | none => some (.done (.error (.other "no output pool for selected Worker process")))
    | some r =>
      match validateAccumulator plan r.pool with
      | some what => some (.done (.error (.other what)))
      | none => some (.dispatching { a with
          waiting := a.waiting.filter fun e => decide (e.2 ≠ index)
          started := ⟨plan, index, decide (.pool r.serial ∈ w.closing)⟩ :: a.started })

/-- a pool that is being closed hands out no Tensor -/
def StartedTask.submission (t : StartedTask S d k) (s : Submission S d) : Submission S d :=
  match t.poolClosing, s.lease with
  | true, .ok () => { s with lease := .error (.transport ⟨.unavailable, true, none, none, [],
      "output Tensor pool is unavailable"⟩) }
  | _, _ => s

/-- the rest of a task -/
def finishTask (a : Attempt S d k) (index : Nat) (s : Submission S d) : Option (Phase S d k) :=
  match a.started.find? fun t => decide (t.index = index) with
  | none => none
  | some t =>
    match dispatchPlan t.plan (t.submission s) a.accumulator with
    | .error what => some (.done (.error (.other what)))
    | .ok (failure, accumulator) => some (Attempt.settle { a with
        started := a.started.filter fun t => decide (t.index ≠ index)
        failures := a.failures.set index failure
        accumulator := accumulator })

/-- the clock before the refresh, after it, and before the retry delay -/
structure RefreshClock where
  before : ℚ
  after : ℚ
  delay : ℚ

/-- the retry plans: a failed process is asked again after the delay only -/
def retryPhase (request : LayerRequest S d k) (failures : List (FailedWorkerBatch S d k))
    (accumulator : List (Fin d → S)) (clock : RefreshClock)
    (plans : List (WorkerBatchPlan S d k)) : Phase S d k :=
  if plans.any fun plan => usesFailedProcess plan (failedWorkers failures) then
    if request.deadline - clock.delay ≤ request.delay then
      match failures.getLast? with
      | some failure => .done (.error (.transport failure.error))
      | none => .sleeping plans accumulator
    else .sleeping plans accumulator
  else startAttempt none plans accumulator

/-- the call from the refresh of the Topology to its next suspension point -/
def refresh {σ : Type} (selector : ReplicaSelector σ) (request : LayerRequest S d k)
    (w : Frontend.Watcher) (version : Nat) (failures : List (FailedWorkerBatch S d k))
    (accumulator : List (Fin d → S)) (clock : RefreshClock) (state : σ) : Phase S d k :=
  if request.deadline - clock.before ≤ 0 then
    .done (.error (deadlineError "the topology refresh deadline expired"))
  else
    match w.refresh request.batch.instanceId version with
    | .error raised => .done (.error raised)
    | .ok refreshed =>
      if request.deadline - clock.after ≤ 0 then
        .done (.error (deadlineError "the Routed layer deadline expired during Topology refresh"))
      else
        match (requiredTopologyVersion failures).filter fun v => decide (refreshed.version < v) with
        | some required => .done (.error (unavailableBeforeRequiredVersion failures required))
        | none =>
          match (groupWorkerBatches selector (unfinishedBatch request.batch failures) refreshed ∅
              (failedWorkers failures) true false state).1 with
          | .error raised => .done (.error raised)
          | .ok plans => retryPhase request failures accumulator clock plans

/-- the call after the retry delay -/
def wake (request : LayerRequest S d k) (plans : List (WorkerBatchPlan S d k))
    (accumulator : List (Fin d → S)) (clock : ℚ) : Phase S d k :=
  if request.deadline - clock ≤ 0 then
    .done (.error (deadlineError "the Routed layer deadline expired before its retry"))
  else startAttempt none plans accumulator

/-- the answer of the Worker that was sent the complete tensors -/
def answer (request : LayerRequest S d k) (version : Nat) (plan : WorkerBatchPlan S d k)
    (result : Except Raised (List (Fin d → S))) : Phase S d k :=
  match dispatchCompletePlan plan result with
  | .error raised => .done (.error raised)
  | .ok (.ok rows) => .done (.ok rows)
  | .ok (.error failure) => afterFailures version [failure] (zeroRows request.batch)

/-! ## the call and the watcher -/

structure LayerRun (S : Type) (d k : Nat) where
  watcher : Frontend.Watcher
  phase : Phase S d k

inductive LayerEvent (S : Type) (d : Nat) (σ : Type) where
  | watch (event : Frontend.WatcherEvent)
  | begin (clock : ℚ) (state : σ)
  | answered (result : Except Raised (List (Fin d → S)))
  | taskStart (index : Nat)
  | taskDone (index : Nat) (submission : Submission S d)
  | refresh (clock : RefreshClock) (state : σ)
  | wake (clock : ℚ)

/-- one step of the call -/
def callStep {σ : Type} (selector : ReplicaSelector σ) (request : LayerRequest S d k)
    (w : Frontend.Watcher) : Phase S d k → LayerEvent S d σ → Option (Phase S d k)
  | .ready, .begin clock state => some (begin selector request w clock state)
  | .direct version plan, .answered result => some (answer request version plan result)
  | .dispatching a, .taskStart index => startTask w a index
  | .dispatching a, .taskDone index submission => finishTask a index submission
  | .refreshing version failures accumulator, .refresh clock state =>
    some (refresh selector request w version failures accumulator clock state)
  | .sleeping plans accumulator, .wake clock => some (wake request plans accumulator clock)
  | _, _ => none

/-- one step of the watcher or of the call -/
def LayerRun.step {σ : Type} (selector : ReplicaSelector σ) (request : LayerRequest S d k)
    (s : LayerRun S d k) : LayerEvent S d σ → Option (LayerRun S d k)
  | .watch event => (s.watcher.step event).map fun w => { s with watcher := w }
  | event => (callStep selector request s.watcher s.phase event).map fun phase =>
      { s with phase := phase }

def LayerRun.start (config : Frontend.WatcherConfig) : LayerRun S d k :=
  ⟨Frontend.Watcher.start config, .ready⟩

def LayerRun.run {σ : Type} (selector : ReplicaSelector σ) (request : LayerRequest S d k)
    (s : LayerRun S d k) (events : List (LayerEvent S d σ)) : Option (LayerRun S d k) :=
  Steps.run (LayerRun.step selector request) (fun _ _ => true) s events

/-! ## what is promised -/

/-- a result, or a `TransportError` -/
def Promised {α : Type} : Except Raised α → Prop
  | .error (.other _) => False
  | _ => True

/-- the docstring of `execute_routed_layer` -/
def LayerRun.Promised (s : LayerRun S d k) : Prop :=
  match s.phase with
  | .done result => Routing.Promised result
  | _ => True

/-- Transports and pools raise `TransportError`, and no accelerator fails -/
def LayerEvent.Ordinary {σ : Type} : LayerEvent S d σ → Prop
  | .answered result => Routing.Promised result
  | .taskDone _ submission =>
    Routing.Promised submission.lease ∧ Routing.Promised submission.execute ∧
      submission.release = none
  | _ => True

/-- a batch of the watcher's model that lists its experts -/
structure LayerRequest.Valid (request : LayerRequest S d k) (config : Frontend.WatcherConfig) :
    Prop where
  delay : 0 < request.delay
  instanceId : request.batch.instanceId = config.instanceId
  covers : Covers request.batch.expertIds request.batch.distinctExpertIds
  hiddenDim : config.hiddenDim = d
  dtype : config.dtype = request.batch.hiddenStates.dtype
  device : config.device = request.batch.hiddenStates.device

/-- the mapping holds a pool for the Worker of this plan, and it is large enough -/
def HasPool (w : Frontend.Watcher) (plan : WorkerBatchPlan S d k) : Prop :=
  ∃ r, w.pools[plan.target.identity]? = some r ∧ plan.batch.tokenCount ≤ r.pool.maxBatchTokens

/-- a task that starts here finds its pool -/
def FindsPool {σ : Type} (s : LayerRun S d k) (event : LayerEvent S d σ) : Prop :=
  ∀ index, event = .taskStart index → ∀ a, s.phase = .dispatching a → ∀ plan i,
    a.waiting.find? (fun e => decide (e.2 = index)) = some (plan, i) → HasPool s.watcher plan

/-! ## the phases of a call -/

/-- the tasks and failures of an attempt belong to its plans -/
structure Attempt.Ok (batch : RoutedLayerBatch S d k) (a : Attempt S d k) : Prop where
  hidden : ∀ plan ∈ a.plans, plan.batch.hiddenStates = batch.hiddenStates
  waiting : ∀ e ∈ a.waiting, a.plans[e.2]? = some e.1
  started : ∀ t ∈ a.started, a.plans[t.index]? = some t.plan
  failed : ∀ (i : Nat) (f : FailedWorkerBatch S d k), a.failures[i]? = some (some f) →
    a.plans[i]? = some f.plan
  grouped : a.observed.isSome → Grouped batch a.plans

def Phase.Ok (batch : RoutedLayerBatch S d k) : Phase S d k → Prop
  | .ready => True
  | .direct _ plan => Grouped batch [plan]
  | .dispatching a => a.Ok batch
  | .refreshing _ failures _ =>
    ∃ plans, Grouped batch plans ∧ (failures.map FailedWorkerBatch.plan).Sublist plans
  | .sleeping plans _ => ∀ plan ∈ plans, plan.batch.hiddenStates = batch.hiddenStates
  | .done result => Routing.Promised result

/-- the failures in input order are those of some of the plans, in order -/
theorem failures_sublist {failures : List (Option (FailedWorkerBatch S d k))}
    {plans : List (WorkerBatchPlan S d k)}
    (h : ∀ (i : Nat) (f : FailedWorkerBatch S d k), failures[i]? = some (some f) →
      plans[i]? = some f.plan) :
    ((failures.filterMap id).map FailedWorkerBatch.plan).Sublist plans := by
  induction failures generalizing plans with
  | nil => exact List.nil_sublist _
  | cons failure failures ih =>
    cases plans with
    | nil =>
      have hnil : (failure :: failures).filterMap id = [] := by
        rw [List.filterMap_eq_nil_iff]
        intro o ho
        cases o with
        | none => rfl
        | some f =>
          obtain ⟨i, hi⟩ := List.mem_iff_getElem?.mp ho
          have hget := h i f hi
          simp at hget
      rw [hnil]
      exact List.nil_sublist _
    | cons plan plans =>
      have hrest := @ih plans fun i f hf => h (i + 1) f hf
      cases failure with
      | none => exact hrest.cons plan
      | some f =>
        have hplan : plan = f.plan := Option.some.inj (h 0 f rfl)
        rw [hplan]
        exact hrest.cons_cons f.plan

theorem afterFailures_ok {batch : RoutedLayerBatch S d k} {plans : List (WorkerBatchPlan S d k)}
    (hg : Grouped batch plans) {failures : List (FailedWorkerBatch S d k)}
    (hsub : (failures.map FailedWorkerBatch.plan).Sublist plans) (version : Nat)
    (accumulator : List (Fin d → S)) : (afterFailures version failures accumulator).Ok batch := by
  unfold afterFailures
  split
  · trivial
  · exact ⟨plans, hg, hsub⟩

theorem Attempt.Ok.finish {batch : RoutedLayerBatch S d k} {a : Attempt S d k} (h : a.Ok batch) :
    a.finish.Ok batch := by
  unfold Attempt.finish
  split
  · rename_i version hobserved
    split_ifs
    · trivial
    · exact afterFailures_ok (h.grouped (by rw [hobserved]; rfl)) (failures_sublist h.failed) _ _
  · split <;> trivial

theorem Attempt.Ok.settle {batch : RoutedLayerBatch S d k} {a : Attempt S d k} (h : a.Ok batch) :
    a.settle.Ok batch := by
  unfold Attempt.settle
  split_ifs
  · exact h.finish
  · exact h

theorem startAttempt_ok {batch : RoutedLayerBatch S d k} {observed : Option Nat}
    {plans : List (WorkerBatchPlan S d k)}
    (hhidden : ∀ plan ∈ plans, plan.batch.hiddenStates = batch.hiddenStates)
    (hg : observed.isSome → Grouped batch plans) (accumulator : List (Fin d → S)) :
    (startAttempt observed plans accumulator).Ok batch := by
  refine Attempt.Ok.settle ⟨hhidden, ?_, by simp, ?_, hg⟩
  · intro e he
    exact List.mem_zipIdx_iff_getElem?.mp he
  · intro i f hf
    rw [List.getElem?_replicate] at hf
    split_ifs at hf
    cases hf

theorem firstPhase_ok {batch : RoutedLayerBatch S d k} {plans : List (WorkerBatchPlan S d k)}
    (hg : Grouped batch plans) (version : Nat) : (firstPhase batch version plans).Ok batch := by
  unfold firstPhase
  split
  · trivial
  · split_ifs
    · exact hg
    · exact startAttempt_ok hg.hidden (fun _ => hg) _
  · exact startAttempt_ok hg.hidden (fun _ => hg) _

/-! ## the steps of a call -/

theorem promised_error {α β : Type} {raised : Raised}
    (h : Promised (.error raised : Except Raised α)) :
    Promised (.error raised : Except Raised β) := by
  cases raised with
  | transport error => trivial
  | other what => exact h.elim

theorem current_promised {w : Frontend.Watcher} {instanceId : Nat}
    (h : instanceId = w.config.instanceId) : Promised (w.current instanceId) := by
  unfold Frontend.Watcher.current
  rw [if_neg (by simp [h])]
  split
  · trivial
  · split <;> trivial

theorem current_ok {w : Frontend.Watcher} {instanceId : Nat} {snapshot : TopologySnapshot}
    (h : w.current instanceId = .ok snapshot) : snapshot = w.snapshot := by
  unfold Frontend.Watcher.current at h
  split at h
  · cases h
  · split at h
    · cases h
    · split at h
      · cases h
      · exact (Except.ok.inj h).symm

theorem refresh_promised {w : Frontend.Watcher} {instanceId : Nat}
    (h : instanceId = w.config.instanceId) (observed : Nat) :
    Promised (w.refresh instanceId observed) := by
  unfold Frontend.Watcher.refresh
  have hcurrent := current_promised h
  split
  · rename_i raised heq
    rw [heq] at hcurrent
    exact hcurrent
  · split <;> trivial

theorem refresh_ok {w : Frontend.Watcher} {instanceId observed : Nat} {snapshot : TopologySnapshot}
    (h : w.refresh instanceId observed = .ok snapshot) : snapshot = w.snapshot := by
  unfold Frontend.Watcher.refresh at h
  split at h
  · cases h
  · rename_i found hcurrent
    split at h
    · cases h
    · cases h
      exact current_ok hcurrent

variable {σ : Type} {selector : ReplicaSelector σ}

/-- a grouping ends the call with a `TransportError`, or hands out the slots of the batch -/
theorem grouping_cases (hl : selector.Lawful) {batch : RoutedLayerBatch S d k}
    (hc : Covers batch.expertIds batch.distinctExpertIds) (snapshot : TopologySnapshot)
    (excludedByExpert : ExtTreeMap Nat (ExtTreeSet WorkerIdentity)) (fallback reuse : Bool)
    (state : σ) :
    (∃ error, (groupWorkerBatches selector batch snapshot ∅ excludedByExpert fallback reuse
        state).1 = .error (.transport error)) ∨
      ∃ plans, (groupWorkerBatches selector batch snapshot ∅ excludedByExpert fallback reuse
        state).1 = .ok plans ∧ Grouped batch plans ∧ ∀ plan ∈ plans,
          plan.batch.tokenCount ≤ plan.target.maxBatchTokens ∧
          ∃ (key : ExpertKey) (replicas : List WorkerConnection),
            snapshot.routes[key]? = some replicas ∧ plan.target ∈ replicas := by
  have heq : groupWorkerBatches selector batch snapshot ∅ excludedByExpert fallback reuse state
      = ((groupWorkerBatches selector batch snapshot ∅ excludedByExpert fallback reuse state).1,
        (groupWorkerBatches selector batch snapshot ∅ excludedByExpert fallback reuse state).2) :=
    rfl
  rcases groupWorkerBatches_cases hl hc heq with herror | ⟨plans, hplans, hfits⟩
  · exact .inl herror
  · refine .inr ⟨plans, hplans, ?_, hfits⟩
    rw [hplans] at heq
    exact groupWorkerBatches_grouped hc heq

theorem begin_ok (hl : selector.Lawful) {request : LayerRequest S d k} {w : Frontend.Watcher}
    (hv : request.Valid w.config) (clock : ℚ) (state : σ) :
    (begin selector request w clock state).Ok request.batch := by
  unfold begin
  rw [if_neg (hv.delay.not_ge)]
  split
  · trivial
  · have hcurrent := current_promised (w := w) hv.instanceId
    split
    · rename_i raised heq
      rw [heq] at hcurrent
      exact promised_error hcurrent
    · rename_i snapshot heq
      rcases grouping_cases hl hv.covers snapshot ∅ false true state with
        ⟨error, herror⟩ | ⟨plans, hplans, hg, _⟩
      · rw [herror]
        trivial
      · rw [hplans]
        exact firstPhase_ok hg _

theorem answer_ok {request : LayerRequest S d k} {version : Nat} {plan : WorkerBatchPlan S d k}
    (hg : Grouped request.batch [plan]) {result : Except Raised (List (Fin d → S))}
    (hr : Routing.Promised result) : (answer request version plan result).Ok request.batch := by
  rcases result with (error | what) | rows
  · exact afterFailures_ok hg (List.Sublist.refl _) _ _
  · exact hr.elim
  · trivial

/-- a pool of the watcher refuses only a batch that is too large for it -/
theorem validateAccumulator_eq {request : LayerRequest S d k} {w : Frontend.Watcher} (hw : w.Core)
    (hv : request.Valid w.config) {plan : WorkerBatchPlan S d k}
    (hh : plan.batch.hiddenStates = request.batch.hiddenStates) {r : Frontend.Resources}
    (hr : w.pools[plan.target.identity]? = some r) :
    validateAccumulator plan r.pool = if plan.batch.tokenCount ≤ r.pool.maxBatchTokens then none
      else some "output pool is too small for the physical Worker batch" := by
  have hpool := (hw.pool _ r hr).2.pool
  unfold validateAccumulator
  rw [if_neg, if_neg, if_neg]
  · by_cases hle : plan.batch.tokenCount ≤ r.pool.maxBatchTokens
    · rw [if_pos hle, if_neg (by omega)]
    · rw [if_neg hle, if_pos (by omega)]
  · rw [hpool, hh]
    exact not_not.mpr hv.device
  · rw [hpool, hh]
    exact not_not.mpr hv.dtype
  · rw [hpool]
    exact not_not.mpr hv.hiddenDim

/-- a task that starts, or ends, leaves the rest of its attempt -/
theorem Attempt.Ok.starts {batch : RoutedLayerBatch S d k} {a : Attempt S d k} (ha : a.Ok batch)
    {index i : Nat} {plan : WorkerBatchPlan S d k}
    (hfind : a.waiting.find? (fun e => decide (e.2 = index)) = some (plan, i)) (closing : Bool) :
    Attempt.Ok batch { a with
      waiting := a.waiting.filter fun e => decide (e.2 ≠ index)
      started := ⟨plan, index, closing⟩ :: a.started } := by
  have hmem := List.mem_of_find?_eq_some hfind
  have hi : i = index := by
    have htrue := List.find?_some hfind
    exact of_decide_eq_true htrue
  refine ⟨ha.hidden, ?_, ?_, ha.failed, ha.grouped⟩
  · intro e he
    exact ha.waiting e (List.mem_of_mem_filter he)
  · intro t ht
    rcases List.mem_cons.mp ht with rfl | ht
    · rw [← hi]
      exact ha.waiting _ hmem
    · exact ha.started t ht

theorem Attempt.Ok.ends {batch : RoutedLayerBatch S d k} {a : Attempt S d k} (ha : a.Ok batch)
    {index : Nat} {t : StartedTask S d k}
    (hfind : a.started.find? (fun t => decide (t.index = index)) = some t)
    {s : Submission S d} {accumulator rows : List (Fin d → S)}
    {failure : Option (FailedWorkerBatch S d k)}
    (hplan : dispatchPlan t.plan s accumulator = .ok (failure, rows)) :
    Attempt.Ok batch { a with
      started := a.started.filter fun t => decide (t.index ≠ index)
      failures := a.failures.set index failure
      accumulator := rows } := by
  have hmem := List.mem_of_find?_eq_some hfind
  have hindex : t.index = index := by
    have htrue := List.find?_some hfind
    exact of_decide_eq_true htrue
  refine ⟨ha.hidden, ha.waiting, ?_, ?_, ha.grouped⟩
  · intro t' ht'
    exact ha.started t' (List.mem_of_mem_filter ht')
  · intro i f hf
    simp only at hf
    rw [List.getElem?_set] at hf
    split_ifs at hf with hi hlt
    · rw [Option.some.injEq] at hf
      rw [hf] at hplan
      have hspec := (dispatchPlan_spec hplan).1
      obtain ⟨error, _, hfail⟩ := Option.map_eq_some_iff.mp hspec.symm
      rw [← hi, ← hindex, ← hfail]
      exact ha.started t hmem
    · exact ha.failed i f hf

theorem startTask_ok {request : LayerRequest S d k} {w : Frontend.Watcher} (hw : w.Core)
    (hv : request.Valid w.config) {a : Attempt S d k} (ha : a.Ok request.batch) {index : Nat}
    (hp : ∀ plan i, a.waiting.find? (fun e => decide (e.2 = index)) = some (plan, i) →
      HasPool w plan) {phase : Phase S d k} (h : startTask w a index = some phase) :
    phase.Ok request.batch := by
  unfold startTask at h
  split at h
  · cases h
  · rename_i plan i hfind
    obtain ⟨r, hr, hle⟩ := hp plan i hfind
    have hat := ha.waiting _ (List.mem_of_find?_eq_some hfind)
    have hval := validateAccumulator_eq hw hv
      (ha.hidden plan (List.mem_of_getElem? hat)) hr
    rw [if_pos hle] at hval
    rw [hr] at h
    simp only [hval] at h
    cases h
    exact ha.starts hfind _

/-- a task that misses its pool ends the call with another exception -/
theorem startTask_not_promised {request : LayerRequest S d k} {w : Frontend.Watcher} (hw : w.Core)
    (hv : request.Valid w.config) {a : Attempt S d k} (ha : a.Ok request.batch) {index : Nat}
    {plan : WorkerBatchPlan S d k} {i : Nat}
    (hfind : a.waiting.find? (fun e => decide (e.2 = index)) = some (plan, i))
    (hp : ¬ HasPool w plan) {phase : Phase S d k} (h : startTask w a index = some phase) :
    ∃ what, phase = .done (.error (.other what)) := by
  unfold startTask at h
  rw [hfind] at h
  simp only at h
  split at h
  · cases h
    exact ⟨_, rfl⟩
  · rename_i r hr
    have hat := ha.waiting _ (List.mem_of_find?_eq_some hfind)
    have hval := validateAccumulator_eq hw hv
      (ha.hidden plan (List.mem_of_getElem? hat)) hr
    rw [if_neg (fun hle => hp ⟨r, hr, hle⟩)] at hval
    simp only [hval] at h
    cases h
    exact ⟨_, rfl⟩

theorem submission_promised (t : StartedTask S d k) {s : Submission S d}
    (h : Promised s.lease) : Promised (t.submission s).lease ∧
      (t.submission s).execute = s.execute ∧ (t.submission s).release = s.release := by
  unfold StartedTask.submission
  split
  · exact ⟨trivial, rfl, rfl⟩
  · exact ⟨h, rfl, rfl⟩

theorem dispatchPlan_ordinary {plan : WorkerBatchPlan S d k} {s : Submission S d}
    (h1 : Promised s.lease) (h2 : Promised s.execute) (h3 : s.release = none)
    (accumulator : List (Fin d → S)) :
    ∃ failure rows, dispatchPlan plan s accumulator = .ok (failure, rows) := by
  unfold dispatchPlan
  obtain ⟨lease, execute, release⟩ := s
  simp only at h1 h2 h3 ⊢
  subst h3
  rcases lease with (error | what) | _
  · exact ⟨_, _, rfl⟩
  · exact h1.elim
  · rcases execute with (error | what) | rows
    · exact ⟨_, _, rfl⟩
    · exact h2.elim
    · exact ⟨_, _, rfl⟩

theorem finishTask_ok {batch : RoutedLayerBatch S d k} {a : Attempt S d k} (ha : a.Ok batch)
    {index : Nat} {s : Submission S d} (h1 : Promised s.lease) (h2 : Promised s.execute)
    (h3 : s.release = none) {phase : Phase S d k} (h : finishTask a index s = some phase) :
    phase.Ok batch := by
  unfold finishTask at h
  split at h
  · cases h
  · rename_i t hfind
    obtain ⟨hl, he, hr⟩ := submission_promised t h1
    obtain ⟨failure, rows, hplan⟩ := @dispatchPlan_ordinary _ _ _ _ t.plan _ hl (he ▸ h2)
      (hr.trans h3) a.accumulator
    rw [hplan] at h
    simp only [Option.some.injEq] at h
    rw [← h]
    exact (ha.ends hfind hplan).settle

theorem refreshPhase_ok (hl : selector.Lawful) {request : LayerRequest S d k}
    {w : Frontend.Watcher} (hv : request.Valid w.config) {version : Nat}
    {failures : List (FailedWorkerBatch S d k)} {accumulator : List (Fin d → S)}
    (hf : (Phase.refreshing version failures accumulator).Ok request.batch) (clock : RefreshClock)
    (state : σ) :
    (refresh selector request w version failures accumulator clock state).Ok request.batch := by
  obtain ⟨plans, hg, hsub⟩ := hf
  unfold refresh
  split
  · trivial
  · have hrefresh := refresh_promised (w := w) hv.instanceId version
    split
    · rename_i raised heq
      rw [heq] at hrefresh
      exact promised_error hrefresh
    · rename_i refreshed heq
      split
      · trivial
      · split
        · trivial
        · rcases grouping_cases hl (unfinishedBatch_covers hg hsub) refreshed
            (failedWorkers failures) true false state with
            ⟨error, herror⟩ | ⟨retry, hretry, hgroup, _⟩
          · rw [herror]
            trivial
          · rw [hretry]
            have hhidden : ∀ plan ∈ retry,
                plan.batch.hiddenStates = request.batch.hiddenStates := hgroup.hidden
            show (retryPhase request failures accumulator clock retry).Ok request.batch
            unfold retryPhase
            split_ifs
            · split
              · trivial
              · exact hhidden
            · exact hhidden
            · exact startAttempt_ok hhidden (by simp) _

theorem wake_ok {request : LayerRequest S d k} {plans : List (WorkerBatchPlan S d k)}
    (hh : ∀ plan ∈ plans, plan.batch.hiddenStates = request.batch.hiddenStates)
    (accumulator : List (Fin d → S)) (clock : ℚ) :
    (wake request plans accumulator clock).Ok request.batch := by
  unfold wake
  split_ifs
  · trivial
  · exact startAttempt_ok hh (by simp) _

theorem callStep_ok (hl : selector.Lawful) {request : LayerRequest S d k} {w : Frontend.Watcher}
    (hw : w.Core) (hv : request.Valid w.config) {phase phase' : Phase S d k}
    (hp : phase.Ok request.batch) {event : LayerEvent S d σ} (ho : event.Ordinary)
    (hfinds : FindsPool ⟨w, phase⟩ event)
    (hs : callStep selector request w phase event = some phase') : phase'.Ok request.batch := by
  unfold callStep at hs
  split at hs
  · cases hs
    exact begin_ok hl hv _ _
  · cases hs
    exact answer_ok hp ho
  · exact startTask_ok hw hv hp (hfinds _ rfl _ rfl) hs
  · exact finishTask_ok hp ho.1 ho.2.1 ho.2.2 hs
  · cases hs
    exact refreshPhase_ok hl hv hp _ _
  · cases hs
    exact wake_ok hp _ _
  · cases hs

/-! ## runs -/

/-- the watcher serves what it has installed, and the call is between two suspension points -/
structure LayerRun.Ok (request : LayerRequest S d k) (s : LayerRun S d k) : Prop where
  watcher : s.watcher.Ok
  valid : request.Valid s.watcher.config
  phase : s.phase.Ok request.batch

theorem LayerRun.Ok.promised {request : LayerRequest S d k} {s : LayerRun S d k}
    (h : s.Ok request) : s.Promised := by
  have hp := h.phase
  unfold LayerRun.Promised
  split
  · rename_i result heq
    rw [heq] at hp
    exact hp
  · trivial

theorem step_cases {request : LayerRequest S d k} {s s' : LayerRun S d k}
    {event : LayerEvent S d σ} (hs : s.step selector request event = some s') :
    (∃ e w, event = .watch e ∧ s.watcher.step e = some w ∧ s' = { s with watcher := w }) ∨
      ∃ phase, callStep selector request s.watcher s.phase event = some phase ∧
        s' = { s with phase := phase } := by
  cases event with
  | watch e =>
    obtain ⟨w, hw, rfl⟩ := Option.map_eq_some_iff.mp hs
    exact .inl ⟨e, w, rfl, hw, rfl⟩
  | begin clock state =>
    obtain ⟨phase, hp, rfl⟩ := Option.map_eq_some_iff.mp hs
    exact .inr ⟨phase, hp, rfl⟩
  | answered result =>
    obtain ⟨phase, hp, rfl⟩ := Option.map_eq_some_iff.mp hs
    exact .inr ⟨phase, hp, rfl⟩
  | taskStart index =>
    obtain ⟨phase, hp, rfl⟩ := Option.map_eq_some_iff.mp hs
    exact .inr ⟨phase, hp, rfl⟩
  | taskDone index submission =>
    obtain ⟨phase, hp, rfl⟩ := Option.map_eq_some_iff.mp hs
    exact .inr ⟨phase, hp, rfl⟩
  | refresh clock state =>
    obtain ⟨phase, hp, rfl⟩ := Option.map_eq_some_iff.mp hs
    exact .inr ⟨phase, hp, rfl⟩
  | wake clock =>
    obtain ⟨phase, hp, rfl⟩ := Option.map_eq_some_iff.mp hs
    exact .inr ⟨phase, hp, rfl⟩

theorem LayerRun.Ok.step (hl : selector.Lawful) {request : LayerRequest S d k}
    {s s' : LayerRun S d k} (h : s.Ok request) {event : LayerEvent S d σ} (ho : event.Ordinary)
    (hfinds : FindsPool s event) (hs : s.step selector request event = some s') :
    s'.Ok request := by
  rcases step_cases hs with ⟨e, w, _, hw, rfl⟩ | ⟨phase, hp, rfl⟩
  · refine ⟨h.watcher.step hw, ?_, h.phase⟩
    rw [Frontend.Watcher.step_config hw]
    exact h.valid
  · exact ⟨h.watcher, h.valid, callStep_ok hl h.watcher.core h.valid h.phase ho hfinds hp⟩

theorem LayerRun.Ok.step_missing {request : LayerRequest S d k} {s s' : LayerRun S d k}
    (h : s.Ok request) {event : LayerEvent S d σ} (hfinds : ¬ FindsPool s event)
    (hs : s.step selector request event = some s') : ¬ s'.Promised := by
  unfold FindsPool at hfinds
  simp only [not_forall] at hfinds
  obtain ⟨index, rfl, a, ha, plan, i, hfind, hmiss⟩ := hfinds
  rcases step_cases hs with ⟨e, w, he, _⟩ | ⟨phase, hp, rfl⟩
  · cases he
  · rw [ha] at hp
    have hok : a.Ok request.batch := by
      have hphase := h.phase
      rw [ha] at hphase
      exact hphase
    obtain ⟨what, rfl⟩ := startTask_not_promised h.watcher.core h.valid hok hfind hmiss hp
    exact fun hpromised => hpromised

theorem run_watch_phase {request : LayerRequest S d k} {s s' : LayerRun S d k}
    (watched : List Frontend.WatcherEvent)
    (h : s.run selector request (watched.map LayerEvent.watch) = some s') : s'.phase = s.phase := by
  induction watched generalizing s with
  | nil =>
    cases h
    rfl
  | cons e watched ih =>
    obtain ⟨s1, hs, hrest⟩ := Option.bind_eq_some_iff.mp h
    obtain ⟨w, _, rfl⟩ := Option.map_eq_some_iff.mp hs
    have hphase := ih hrest
    exact hphase

theorem start_ok {config : Frontend.WatcherConfig} {request : LayerRequest S d k}
    (hv : request.Valid config) : (LayerRun.start config : LayerRun S d k).Ok request :=
  ⟨Frontend.Watcher.start_ok config, hv, trivial⟩

/-! ## which tasks find their pool -/

/-- the plans of a call whose tasks have not started yet -/
def Phase.held : Phase S d k → List (WorkerBatchPlan S d k)
  | .dispatching a => a.waiting.map Prod.fst
  | .sleeping plans _ => plans
  | _ => []

theorem afterFailures_held (version : Nat) (failures : List (FailedWorkerBatch S d k))
    (accumulator : List (Fin d → S)) : (afterFailures version failures accumulator).held = [] := by
  unfold afterFailures
  split <;> rfl

theorem Attempt.finish_held (a : Attempt S d k) : a.finish.held = [] := by
  unfold Attempt.finish
  split
  · split_ifs
    · rfl
    · exact afterFailures_held _ _ _
  · split <;> rfl

theorem Attempt.settle_held {a : Attempt S d k} {plan : WorkerBatchPlan S d k}
    (h : plan ∈ a.settle.held) : plan ∈ a.waiting.map Prod.fst := by
  unfold Attempt.settle at h
  split_ifs at h
  · rw [a.finish_held] at h
    cases h
  · exact h

theorem startAttempt_held {observed : Option Nat} {plans : List (WorkerBatchPlan S d k)}
    {accumulator : List (Fin d → S)} {plan : WorkerBatchPlan S d k}
    (h : plan ∈ (startAttempt observed plans accumulator).held) : plan ∈ plans := by
  obtain ⟨e, he, rfl⟩ := List.mem_map.mp (Attempt.settle_held h)
  exact List.fst_mem_of_mem_zipIdx he

theorem firstPhase_held {batch : RoutedLayerBatch S d k} {version : Nat}
    {plans : List (WorkerBatchPlan S d k)} {plan : WorkerBatchPlan S d k}
    (h : plan ∈ (firstPhase batch version plans).held) : plan ∈ plans := by
  unfold firstPhase at h
  split at h
  · cases h
  · split_ifs at h
    · cases h
    · exact startAttempt_held h
  · exact startAttempt_held h

theorem retryPhase_held {request : LayerRequest S d k} {failures : List (FailedWorkerBatch S d k)}
    {accumulator : List (Fin d → S)} {clock : RefreshClock} {plans : List (WorkerBatchPlan S d k)}
    {plan : WorkerBatchPlan S d k}
    (h : plan ∈ (retryPhase request failures accumulator clock plans).held) : plan ∈ plans := by
  unfold retryPhase at h
  split_ifs at h
  · split at h
    · cases h
    · exact h
  · exact h
  · exact startAttempt_held h

/-- a plan that fits a Worker of the installed snapshot has its pool -/
theorem hasPool_of_fits {w : Frontend.Watcher} (hw : w.Core) {plan : WorkerBatchPlan S d k}
    (hle : plan.batch.tokenCount ≤ plan.target.maxBatchTokens) {key : ExpertKey}
    {replicas : List WorkerConnection} (hk : w.snapshot.routes[key]? = some replicas)
    (hmem : plan.target ∈ replicas) : HasPool w plan := by
  obtain ⟨r, _, hpool, htarget, _⟩ := hw.usable hk hmem
  have hok := (hw.pool _ r hpool).2
  refine ⟨r, hpool, ?_⟩
  rw [hok.pool]
  show plan.batch.tokenCount ≤ r.route.maxBatchTokens
  rw [← hok.tokens, htarget]
  exact hle

theorem refresh_held (hl : selector.Lawful) {request : LayerRequest S d k} {w : Frontend.Watcher}
    (hw : w.Core) {version : Nat} {failures : List (FailedWorkerBatch S d k)}
    {accumulator : List (Fin d → S)}
    (hf : (Phase.refreshing version failures accumulator).Ok request.batch) {clock : RefreshClock}
    {state : σ} {plan : WorkerBatchPlan S d k}
    (h : plan ∈ (refresh selector request w version failures accumulator clock state).held) :
    HasPool w plan := by
  obtain ⟨plans, hg, hsub⟩ := hf
  unfold refresh at h
  split at h
  · cases h
  · split at h
    · cases h
    · rename_i refreshed hrefresh
      split at h
      · cases h
      · split at h
        · cases h
        · rcases grouping_cases hl (unfinishedBatch_covers hg hsub) refreshed
            (failedWorkers failures) true false state with
            ⟨error, herror⟩ | ⟨retry, hretry, _, hfits⟩
          · rw [herror] at h
            cases h
          · rw [hretry] at h
            obtain ⟨hle, key, replicas, hk, hmem⟩ := hfits plan (retryPhase_held h)
            exact hasPool_of_fits hw hle (refresh_ok hrefresh ▸ hk) hmem

/-- a step of the call leaves it with plans that have their pools -/
theorem callStep_held (hl : selector.Lawful) {request : LayerRequest S d k} {w : Frontend.Watcher}
    (hw : w.Core) (hv : request.Valid w.config) {phase phase' : Phase S d k}
    (hp : phase.Ok request.batch) (hheld : ∀ plan ∈ phase.held, HasPool w plan)
    {event : LayerEvent S d σ} (hs : callStep selector request w phase event = some phase') :
    ∀ plan ∈ phase'.held, HasPool w plan := by
  intro plan hplan
  unfold callStep at hs
  split at hs
  · cases hs
    unfold begin at hplan
    split at hplan
    · cases hplan
    · split at hplan
      · cases hplan
      · split at hplan
        · cases hplan
        · rename_i snapshot hcurrent
          rcases grouping_cases hl hv.covers snapshot ∅ false true _ with
            ⟨error, herror⟩ | ⟨plans, hplans, _, hfits⟩
          · rw [herror] at hplan
            cases hplan
          · rw [hplans] at hplan
            obtain ⟨hle, key, replicas, hk, hmem⟩ := hfits plan (firstPhase_held hplan)
            exact hasPool_of_fits hw hle (current_ok hcurrent ▸ hk) hmem
  · cases hs
    unfold answer at hplan
    split at hplan
    · cases hplan
    · cases hplan
    · rw [afterFailures_held] at hplan
      cases hplan
  · unfold startTask at hs
    split at hs
    · cases hs
    · split at hs
      · cases hs
        cases hplan
      · split at hs
        · cases hs
          cases hplan
        · cases hs
          obtain ⟨e, he, rfl⟩ := List.mem_map.mp hplan
          exact hheld e.1 (List.mem_map_of_mem (List.mem_of_mem_filter he))
  · unfold finishTask at hs
    split at hs
    · cases hs
    · split at hs
      · cases hs
        cases hplan
      · cases hs
        have hmem := Attempt.settle_held hplan
        exact hheld plan hmem
  · cases hs
    exact refresh_held hl hw hp hplan
  · cases hs
    unfold wake at hplan
    split at hplan
    · cases hplan
    · exact hheld plan (startAttempt_held hplan)
  · cases hs

/-- a step of the watcher leaves the pools that the call still has to look up -/
def KeepsPools (s : LayerRun S d k) (event : LayerEvent S d σ) : Prop :=
  ∀ e w, event = .watch e → s.watcher.step e = some w → ∀ plan ∈ s.phase.held,
    HasPool s.watcher plan → HasPool w plan

theorem FindsPool.of_held {s : LayerRun S d k} {event : LayerEvent S d σ}
    (h : ∀ plan ∈ s.phase.held, HasPool s.watcher plan) : FindsPool s event := by
  intro index _ a ha plan i hfind
  refine h plan ?_
  rw [ha]
  exact List.mem_map.mpr ⟨(plan, i), List.mem_of_find?_eq_some hfind, rfl⟩

/-- every task finds its pool when the watcher takes none that is still needed -/
theorem tasks_find_pools (hl : selector.Lawful) {config : Frontend.WatcherConfig}
    {request : LayerRequest S d k} (hv : request.Valid config)
    {events : List (LayerEvent S d σ)} (ho : ∀ event ∈ events, event.Ordinary)
    (hkeep : ∀ n x event, (LayerRun.start config).run selector request (events.take n) = some x →
      events[n]? = some event → KeepsPools x event)
    {x : LayerRun S d k} {n : Nat}
    (hrun : (LayerRun.start config).run selector request (events.take n) = some x) :
    x.Ok request ∧ ∀ plan ∈ x.phase.held, HasPool x.watcher plan := by
  induction n generalizing x with
  | zero =>
    cases hrun
    exact ⟨start_ok hv, fun plan hplan => by cases hplan⟩
  | succ n ih =>
    cases hevent : events[n]? with
    | none =>
      have hle := List.getElem?_eq_none_iff.mp hevent
      rw [List.take_of_length_le (by omega)] at hrun
      exact ih (by rw [List.take_of_length_le hle]; exact hrun)
    | some event =>
      rw [List.take_add_one, hevent] at hrun
      unfold LayerRun.run at hrun
      rw [Steps.run_append] at hrun
      obtain ⟨y, hy, hlast⟩ := Option.bind_eq_some_iff.mp hrun
      obtain ⟨z, hz, hend⟩ := Option.bind_eq_some_iff.mp hlast
      cases hend
      obtain ⟨hok, hheld⟩ := ih hy
      refine ⟨hok.step hl (ho event (List.mem_of_getElem? hevent)) (.of_held hheld) hz, ?_⟩
      rcases step_cases hz with ⟨e, w, rfl, hw, rfl⟩ | ⟨phase, hp, rfl⟩
      · intro plan hplan
        exact hkeep n y _ hy hevent e w rfl hw plan hplan (hheld plan hplan)
      · exact callStep_held hl hok.watcher.core hok.valid hok.phase hheld hp

end

/-- the call never fails otherwise than with a `TransportError` exactly when each of its tasks
finds, where it starts, a pool of its Worker that is large enough -/
theorem layer_call_promised {S : Type} {d k : Nat} [Semiring S] {σ : Type}
    (selector : ReplicaSelector σ) (hl : selector.Lawful) (config : Frontend.WatcherConfig)
    (request : LayerRequest S d k) (hv : request.Valid config)
    (events : List (LayerEvent S d σ)) (ho : ∀ event ∈ events, event.Ordinary)
    (s : LayerRun S d k)
    (hrun : (LayerRun.start config).run selector request events = some s) :
    (∀ n x, (LayerRun.start config).run selector request (events.take n) = some x →
        x.Promised) ↔
      ∀ n x event, (LayerRun.start config).run selector request (events.take n) = some x →
        events[n]? = some event → FindsPool x event :=
  Steps.run_states_iff LayerEvent.Ordinary FindsPool (I := LayerRun.Ok request)
    (P := LayerRun.Promised) (fun _ h => h.promised)
    (fun _ _ _ h ho hf hs => h.step hl ho hf hs) (fun _ _ _ h _ hf hs => h.step_missing hf hs)
    (start_ok hv) ho hrun

/-! ## a Worker that is busy, and leaves during the retry delay -/

namespace Leaving

def config : Frontend.WatcherConfig := ⟨7, 2, 2, 1, .bf16, "cpu"⟩

def replica : ExpertKit.WorkerRoute := ⟨"a", "s1", "127.0.0.1:50051", "cpu", 1, 1, 4, 1⟩

def request : LayerRequest Int 1 2 := ⟨Fixture.batch, 10, 1⟩

/-- both experts of the layer on one Worker, which answers that it is busy; the call waits before
it asks again -/
def waiting : List (LayerEvent Int 1 (List ((Nat × Nat × Nat) × Nat))) :=
  [.watch (.message (.snapshot ⟨7, 1, 0, 1, [⟨1, 0, [replica]⟩, ⟨1, 1, [replica]⟩]⟩)),
    .watch (.create ⟨none, none, none⟩), .begin 0 [],
    .answered (.error (.transport ⟨.busy, true, none, none, [], "at capacity"⟩)),
    .refresh ⟨0, 0, 0⟩ []]

def resources : Frontend.Resources :=
  ⟨0, Frontend.describe replica,
    ⟨⟨"a", "s1"⟩, 4, 1, 1, Frontend.WatcherExample.four_pos, Nat.one_pos, Nat.one_pos⟩,
    ⟨4, 1, .bf16, "cpu"⟩⟩

/-- the Worker leaves the topology, and its connection is closed -/
def leaves : List (LayerEvent Int 1 (List ((Nat × Nat × Nat) × Nat))) :=
  [.watch (.message (.update ⟨7, 1, 2, 0, 1, [⟨1, 0, []⟩, ⟨1, 1, []⟩]⟩)),
    .watch (.retire ⟨resources, .created, false⟩ false),
    .watch (.retire ⟨resources, .closingTransport, false⟩ false),
    .watch (.retire ⟨resources, .closingPool, false⟩ false)]

def retried : List (LayerEvent Int 1 (List ((Nat × Nat × Nat) × Nat))) :=
  [.wake 2, .taskStart 0]

def written : List (LayerEvent Int 1 (List ((Nat × Nat × Nat) × Nat))) :=
  [.taskDone 0 ⟨.ok (), .ok [fun _ => 8, fun _ => 170, fun _ => 1000], none⟩]

theorem request_valid : request.Valid config where
  delay := by decide
  instanceId := rfl
  covers := Fixture.batch_exact.covers
  hiddenDim := rfl
  dtype := rfl
  device := rfl

end Leaving

theorem layer_call_promised_retried :
    ∃ s, (LayerRun.start Leaving.config).run RoundRobinSelector Leaving.request
        (Leaving.waiting ++ Leaving.retried ++ Leaving.written) = some s ∧
      ∀ n x, (LayerRun.start Leaving.config).run RoundRobinSelector Leaving.request
        ((Leaving.waiting ++ Leaving.retried ++ Leaving.written).take n) = some x →
        x.Promised := by
  have hordinary : ∀ event ∈ Leaving.waiting ++ Leaving.retried ++ Leaving.written,
      event.Ordinary := by
    intro event he
    simp only [Leaving.waiting, Leaving.retried, Leaving.written, List.cons_append,
      List.nil_append, List.mem_cons, List.not_mem_nil, or_false] at he
    rcases he with rfl | rfl | rfl | rfl | rfl | rfl | rfl | rfl
    all_goals trivial
  obtain ⟨s, hs⟩ := Option.isSome_iff_exists.mp
    (show ((LayerRun.start Leaving.config).run RoundRobinSelector Leaving.request
      (Leaving.waiting ++ Leaving.retried ++ Leaving.written)).isSome = true by decide +kernel)
  refine ⟨s, hs, (layer_call_promised RoundRobinSelector roundRobinSelector_lawful Leaving.config
    Leaving.request Leaving.request_valid _ hordinary s hs).mpr ?_⟩
  intro n x event hx he
  refine .of_held (tasks_find_pools roundRobinSelector_lawful Leaving.request_valid hordinary ?_
    hx).2
  -- the watcher steps before the call begins only
  intro n x event hx he e w hwatch hw plan hplan
  subst hwatch
  match n with
  | 0 =>
    cases hx
    cases hplan
  | 1 =>
    rw [run_watch_phase [.message (.snapshot ⟨7, 1, 0, 1,
      [⟨1, 0, [Leaving.replica]⟩, ⟨1, 1, [Leaving.replica]⟩]⟩)] hx] at hplan
    cases hplan
  | 2 => cases he
  | 3 => cases he
  | 4 => cases he
  | 5 => cases he
  | 6 => cases he
  | 7 => cases he
  | n + 8 => cases he

/-- the call ended with the error of a missing pool -/
def Leaving.misses (s : LayerRun Int 1 2) : Bool :=
  match s.phase with
  | .done (.error (.other what)) => decide (what = "no output pool for selected Worker process")
  | _ => false

/-- the retry looks up the pool of a Worker that has left, and the call ends with a `RuntimeError` -/
theorem retry_misses_pool :
    ∃ s, (LayerRun.start Leaving.config).run RoundRobinSelector Leaving.request
        (Leaving.waiting ++ Leaving.leaves ++ Leaving.retried) = some s ∧
      s.phase = .done (.error (.other "no output pool for selected Worker process")) ∧
      ¬ s.Promised := by
  obtain ⟨s, hs, hcheck⟩ := (Option.any_eq_true Leaving.misses
    ((LayerRun.start Leaving.config).run RoundRobinSelector Leaving.request
      (Leaving.waiting ++ Leaving.leaves ++ Leaving.retried))).mp (by decide +kernel)
  unfold Leaving.misses at hcheck
  split at hcheck
  · rename_i what hphase
    have hwhat := of_decide_eq_true hcheck
    rw [hwhat] at hphase
    refine ⟨s, hs, hphase, ?_⟩
    unfold LayerRun.Promised
    rw [hphase]
    exact fun h => h
  · cases hcheck

end ExpertKit.Routing

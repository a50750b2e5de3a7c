import ExpertKit.Routing.Interleaving
import ExpertKit.Routing.Partition

/-!
# Frontend routing: the second attempt of a layer call

Over the interleaving of a layer call with the topology watcher: which process the retry asks for
the experts that failed, when it may ask a failed process again, and how often a slot is sent.

* `ReplicaSelector.Prefers`      an excluded replica is chosen only where every replica is excluded;
* `FailedFor`, `Avoids`          what holds of the plans of a retry;
* `Phase.budget`                 how often a slot can still be sent; no step exceeds it;
* `retry_avoids_failed_process`  the second attempts of all runs.
-/

set_option linter.unusedSectionVars false

namespace ExpertKit.Routing
open Std

/-! ## selection -/

/-- the docstring of `ReplicaSelector.select` -/
structure ReplicaSelector.Prefers {σ : Type} (selector : ReplicaSelector σ) : Prop extends
    selector.Lawful where
  prefers : ∀ state instanceId layerId expertId replicas excluded fallback target state',
    selector.select state instanceId layerId expertId replicas excluded fallback
      = (.ok target, state') → target.identity ∈ excluded →
    ∀ replica ∈ replicas, replica.identity ∈ excluded

theorem roundRobinSelector_prefers : RoundRobinSelector.Prefers where
  toLawful := roundRobinSelector_lawful
  prefers := by
    intro state instanceId layerId expertId replicas excluded fallback target state' h hex
    unfold RoundRobinSelector at h
    simp only at h
    split at h
    · cases h
    · rename_i target' hget
      cases h
      have hmem := List.mem_of_getElem? hget
      split_ifs at hmem with hfallback
      · intro replica hreplica
        have hnone : replica ∉ replicas.filter fun t => !excluded.contains t.identity := by
          rw [List.isEmpty_iff.mp (Bool.and_eq_true_iff.mp hfallback).1]
          exact List.not_mem_nil
        by_contra hnot
        refine hnone (List.mem_filter.mpr ⟨hreplica, ?_⟩)
        rw [Bool.not_eq_true', Bool.eq_false_iff]
        exact fun hcontains => hnot (ExtTreeSet.contains_iff_mem.mp hcontains)
      · have hkept := (List.mem_filter.mp hmem).2
        rw [ExtTreeSet.contains_iff_mem.mpr hex] at hkept
        cases hkept

theorem mem_selectTargets {σ : Type} {selector : ReplicaSelector σ} {instanceId layerId : Nat}
    {routes : List (Nat × List WorkerConnection)} {excluded : ExtTreeSet WorkerIdentity}
    {excludedByExpert : ExtTreeMap Nat (ExtTreeSet WorkerIdentity)} {fallback : Bool}
    {requested : List Nat} {state state' : σ} {targets : List WorkerConnection}
    (h : selectTargets selector instanceId layerId routes excluded excludedByExpert fallback
      requested state = (.ok targets, state')) :
    ∀ entry ∈ requested.zip targets, ∃ before after,
      selector.select before instanceId layerId entry.1 ((routes.lookup entry.1).getD [])
        (excluded.union ((excludedByExpert[entry.1]?).getD ∅)) fallback
        = (.ok entry.2, after) := by
  induction requested generalizing state targets with
  | nil => simp
  | cons e requested ih =>
    unfold selectTargets at h
    split at h
    · cases h
    · rename_i target state1 hsel
      split at h
      · cases h
      · rename_i rest state2 hrest
        cases h
        intro entry hentry
        rcases List.mem_cons.mp hentry with rfl | hentry
        · exact ⟨_, _, hsel⟩
        · exact ih hrest entry hentry

section
variable {S : Type} {d k : Nat} [Semiring S]

/-! ## the processes that failed -/

/-- this process failed while it was asked for this expert -/
def FailedFor (failures : List (FailedWorkerBatch S d k)) (e : Nat) (identity : WorkerIdentity) :
    Prop :=
  ∃ f ∈ failures, e ∈ f.plan.batch.distinctExpertIds ∧ f.plan.target.identity = identity

theorem mem_addFailedWorker_getD {identity identity' : WorkerIdentity} {experts : List Nat}
    {failed : ExtTreeMap Nat (ExtTreeSet WorkerIdentity)} {e : Nat} :
    identity' ∈ ((addFailedWorker identity experts failed)[e]?).getD ∅ ↔
      (e ∈ experts ∧ identity = identity') ∨ identity' ∈ (failed[e]?).getD ∅ := by
  unfold addFailedWorker
  induction experts generalizing failed with
  | nil => simp
  | cons a experts ih =>
    rw [List.foldl_cons, ih, Maps.getElem?_insert_eq]
    by_cases ha : a = e
    · subst ha
      simp only [if_true, Option.getD_some, ExtTreeSet.mem_insert, Std.compare_eq_iff_eq,
        List.mem_cons, true_or, true_and]
      tauto
    · simp only [ha, if_false, List.mem_cons, Ne.symm ha, false_or]

theorem mem_failedWorkers_getD {failures : List (FailedWorkerBatch S d k)} {e : Nat}
    {identity : WorkerIdentity} :
    identity ∈ ((failedWorkers failures)[e]?).getD ∅ ↔ FailedFor failures e identity := by
  unfold failedWorkers FailedFor
  induction failures using List.reverseRecOn with
  | nil => simp
  | append_singleton failures f ih =>
    rw [List.foldl_append, List.foldl_cons, List.foldl_nil, mem_addFailedWorker_getD, ih]
    constructor
    · rintro (⟨he, hid⟩ | ⟨g, hg, h⟩)
      · exact ⟨f, by simp, he, hid⟩
      · exact ⟨g, by simp [hg], h⟩
    · rintro ⟨g, hg, he, hid⟩
      rcases List.mem_append.mp hg with hg | hg
      · exact .inr ⟨g, hg, he, hid⟩
      · rw [List.mem_singleton.mp hg] at he hid
        exact .inl ⟨he, hid⟩

theorem usesFailedProcess_iff {plan : WorkerBatchPlan S d k}
    {failures : List (FailedWorkerBatch S d k)} :
    usesFailedProcess plan (failedWorkers failures) = true ↔
      ∃ e ∈ plan.batch.distinctExpertIds, FailedFor failures e plan.target.identity := by
  unfold usesFailedProcess
  rw [List.any_eq_true]
  simp only [ExtTreeSet.contains_iff_mem, mem_failedWorkers_getD]

/-- no failure requires a newer Topology -/
theorem required_le {failures : List (FailedWorkerBatch S d k)} {version : Nat}
    (h : (requiredTopologyVersion failures).filter (fun v => decide (version < v)) = none) :
    ∀ f ∈ failures, ∀ required, f.error.minTopologyVersion = some required →
      required ≤ version := by
  intro f hf required hrequired
  unfold requiredTopologyVersion at h
  have hmem : required ∈ failures.filterMap fun f => f.error.minTopologyVersion :=
    List.mem_filterMap.mpr ⟨f, hf, hrequired⟩
  cases hmax : (failures.filterMap fun f => f.error.minTopologyVersion).max? with
  | none =>
    rw [List.max?_eq_none_iff.mp hmax] at hmem
    cases hmem
  | some most =>
    rw [hmax] at h
    have hle : required ≤ most := (List.max?_eq_some_iff.mp hmax).2 required hmem
    have hmost : ¬ version < most := by
      intro hlt
      rw [Option.filter_some, if_pos (decide_eq_true hlt)] at h
      cases h
    omega

/-! ## the retry plans -/

/-- the retry asks for the unfinished slots once, on a Topology that no failure is ahead of, and a
process that failed for an expert only where every replica of this expert did -/
structure Avoids (batch : RoutedLayerBatch S d k) (failures : List (FailedWorkerBatch S d k))
    (refreshed : TopologySnapshot) (plans : List (WorkerBatchPlan S d k)) : Prop where
  once : ∀ t j, (plans.flatMap fun plan => assignments plan.batch.rows t j)
    = failures.flatMap fun f => assignments f.plan.batch.rows t j
  listed : ∀ plan ∈ plans, Covers plan.batch.expertIds plan.batch.distinctExpertIds
  version : ∀ plan ∈ plans, plan.batch.topologyVersion = refreshed.version
  required : ∀ f ∈ failures, ∀ version, f.error.minTopologyVersion = some version →
    version ≤ refreshed.version
  replica : ∀ plan ∈ plans, ∀ e ∈ plan.batch.distinctExpertIds, ∃ replicas,
    refreshed.routes[(⟨batch.layerId, e⟩ : ExpertKey)]? = some replicas ∧
    plan.target ∈ replicas ∧
    (FailedFor failures e plan.target.identity →
      ∀ replica ∈ replicas, FailedFor failures e replica.identity)

variable {σ : Type} {selector : ReplicaSelector σ}

theorem retryPlans_avoid (hp : selector.Prefers) {batch : RoutedLayerBatch S d k}
    {plans : List (WorkerBatchPlan S d k)} (hg : Grouped batch plans)
    {failures : List (FailedWorkerBatch S d k)}
    (hsub : (failures.map FailedWorkerBatch.plan).Sublist plans) {refreshed : TopologySnapshot}
    (hrequired : (requiredTopologyVersion failures).filter
      (fun v => decide (refreshed.version < v)) = none) {state state' : σ}
    {retry : List (WorkerBatchPlan S d k)}
    (h : groupWorkerBatches selector (unfinishedBatch batch failures) refreshed ∅
      (failedWorkers failures) true false state = (.ok retry, state')) :
    Avoids batch failures refreshed retry := by
  have hc := unfinishedBatch_covers hg hsub
  have hretry := groupWorkerBatches_grouped hc h
  refine ⟨fun t j => ?_, hretry.covers, groupWorkerBatches_version h, required_le hrequired, ?_⟩
  · rw [hretry.once, unfinishedBatch_slots hg hsub]
  · intro plan hplan e he
    rcases groupWorkerBatches_selected hp.toLawful hc h with rfl | ⟨targets, hselect, hselected⟩
    · cases hplan
    · obtain ⟨before, after, hone⟩ := mem_selectTargets hselect _ (hselected plan hplan e he)
      have hmem := hp.chosen _ _ _ _ _ _ _ _ _ hone
      cases hlook : (refreshed.layerRoutes batch.layerId).lookup e with
      | none =>
        have hempty : ((refreshed.layerRoutes (unfinishedBatch batch failures).layerId).lookup
            e).getD [] = [] := by
          rw [show (unfinishedBatch batch failures).layerId = batch.layerId from rfl, hlook]
          rfl
        rw [hempty] at hmem
        cases hmem
      | some replicas =>
        have hreplicas : ((refreshed.layerRoutes (unfinishedBatch batch failures).layerId).lookup
            e).getD [] = replicas := by
          rw [show (unfinishedBatch batch failures).layerId = batch.layerId from rfl, hlook]
          rfl
        rw [hreplicas] at hmem hone
        refine ⟨replicas, mem_layerRoutes hlook, hmem, fun hfailed replica hreplica => ?_⟩
        -- the excluded processes of an expert are those that failed for it
        have hexcluded : ∀ identity : WorkerIdentity,
            identity ∈ (∅ : ExtTreeSet WorkerIdentity).union
              (((failedWorkers failures)[e]?).getD ∅) ↔ FailedFor failures e identity := by
          intro identity
          rw [← mem_failedWorkers_getD]
          simp
        exact (hexcluded _).mp
          (hp.prefers _ _ _ _ _ _ _ _ _ hone ((hexcluded _).mpr hfailed) replica hreplica)

/-! ## the phases of a call, whatever the steps answer -/

/-- a call that has neither begun nor ended has a positive delay, and plans that group its batch -/
def Phase.Open (request : LayerRequest S d k) (phase : Phase S d k) : Prop :=
  phase = .ready ∨ (∃ result, phase = .done result) ∨
    0 < request.delay ∧ phase.Ok request.batch

theorem Phase.Open.done {request : LayerRequest S d k} (result : Except Raised (List (Fin d → S))) :
    (Phase.done result : Phase S d k).Open request :=
  .inr (.inl ⟨result, rfl⟩)

theorem begin_open {request : LayerRequest S d k}
    (hc : Covers request.batch.expertIds request.batch.distinctExpertIds) (w : Frontend.Watcher)
    (clock : ℚ) (state : σ) : (begin selector request w clock state).Open request := by
  unfold begin
  split
  · exact .done _
  · rename_i hdelay
    split
    · exact .done _
    · split
      · exact .done _
      · rename_i snapshot _
        split
        · exact .done _
        · rename_i plans hplans
          have hg := groupWorkerBatches_grouped hc (Prod.ext hplans rfl)
          exact .inr (.inr ⟨lt_of_not_ge hdelay, firstPhase_ok hg _⟩)

theorem startTask_open {request : LayerRequest S d k} {a : Attempt S d k} (hd : 0 < request.delay)
    (ha : a.Ok request.batch) {w : Frontend.Watcher} {index : Nat} {phase : Phase S d k}
    (h : startTask w a index = some phase) : phase.Open request := by
  unfold startTask at h
  split at h
  · cases h
  · rename_i plan i hfind
    split at h
    · cases h
      exact .done _
    · split at h
      · cases h
        exact .done _
      · cases h
        exact .inr (.inr ⟨hd, ha.starts hfind _⟩)

theorem finishTask_open {request : LayerRequest S d k} {a : Attempt S d k}
    (hd : 0 < request.delay) (ha : a.Ok request.batch) {index : Nat} {s : Submission S d}
    {phase : Phase S d k} (h : finishTask a index s = some phase) : phase.Open request := by
  unfold finishTask at h
  split at h
  · cases h
  · rename_i t hfind
    split at h
    · cases h
      exact .done _
    · rename_i failure rows hplan
      cases h
      exact .inr (.inr ⟨hd, (ha.ends hfind hplan).settle⟩)

/-- what the step out of the refresh leads to -/
theorem refresh_cases (hp : selector.Prefers) {request : LayerRequest S d k} {w : Frontend.Watcher}
    {version : Nat} {failures : List (FailedWorkerBatch S d k)} {accumulator : List (Fin d → S)}
    (hf : (Phase.refreshing version failures accumulator).Ok request.batch) (clock : RefreshClock)
    (state : σ) :
    (∃ result, refresh selector request w version failures accumulator clock state
        = .done result) ∨
      ∃ refreshed retry, w.refresh request.batch.instanceId version = .ok refreshed ∧
        Grouped (unfinishedBatch request.batch failures) retry ∧
        Avoids request.batch failures refreshed retry ∧
        ((request.delay < request.deadline - clock.delay ∧
            refresh selector request w version failures accumulator clock state
              = .sleeping retry accumulator) ∨
          ((∀ plan ∈ retry, ∀ e ∈ plan.batch.distinctExpertIds,
              ¬ FailedFor failures e plan.target.identity) ∧
            refresh selector request w version failures accumulator clock state
              = startAttempt none retry accumulator)) := by
  obtain ⟨plans, hg, hsub⟩ := hf
  unfold refresh
  split
  · exact .inl ⟨_, rfl⟩
  · split
    · exact .inl ⟨_, rfl⟩
    · rename_i refreshed hrefresh
      split
      · exact .inl ⟨_, rfl⟩
      · split
        · exact .inl ⟨_, rfl⟩
        · rename_i hrequired
          split
          · exact .inl ⟨_, rfl⟩
          · rename_i retry hretry
            have hgroup := groupWorkerBatches_grouped (unfinishedBatch_covers hg hsub)
              (Prod.ext hretry rfl)
            have havoid := retryPlans_avoid hp hg hsub hrequired (Prod.ext hretry rfl)
            unfold retryPhase
            by_cases huses : (retry.any fun plan =>
                usesFailedProcess plan (failedWorkers failures)) = true
            · rw [if_pos huses]
              by_cases hlate : request.deadline - clock.delay ≤ request.delay
              · rw [if_pos hlate]
                cases hlast : failures.getLast? with
                | some failure => exact .inl ⟨_, rfl⟩
                | none =>
                  -- without a failure no process has failed
                  rw [List.getLast?_eq_none_iff.mp hlast] at huses
                  obtain ⟨plan, _, hplan⟩ := List.any_eq_true.mp huses
                  obtain ⟨_, _, f, hf, _⟩ := usesFailedProcess_iff.mp hplan
                  cases hf
              · rw [if_neg hlate]
                exact .inr ⟨refreshed, retry, hrefresh, hgroup, havoid, .inl
                  ⟨lt_of_not_ge hlate, rfl⟩⟩
            · rw [if_neg huses]
              refine .inr ⟨refreshed, retry, hrefresh, hgroup, havoid, .inr ⟨?_, rfl⟩⟩
              intro plan hplan e he hfailed
              exact huses (List.any_eq_true.mpr
                ⟨plan, hplan, usesFailedProcess_iff.mpr ⟨e, he, hfailed⟩⟩)

theorem callStep_open (hp : selector.Prefers) {request : LayerRequest S d k}
    (hc : Covers request.batch.expertIds request.batch.distinctExpertIds) {w : Frontend.Watcher}
    {phase phase' : Phase S d k} (ho : phase.Open request) {event : LayerEvent S d σ}
    (hs : callStep selector request w phase event = some phase') : phase'.Open request := by
  unfold callStep at hs
  split at hs
  · cases hs
    exact begin_open hc _ _ _
  · rcases ho with ho | ⟨_, ho⟩ | ⟨hd, ho⟩
    · cases ho
    · cases ho
    · cases hs
      rename_i version plan result
      rcases result with (error | what) | rows
      · exact .inr (.inr ⟨hd, afterFailures_ok ho (List.Sublist.refl _) _ _⟩)
      · exact .done _
      · exact .done _
  · rcases ho with ho | ⟨_, ho⟩ | ⟨hd, ho⟩
    · cases ho
    · cases ho
    · exact startTask_open hd ho hs
  · rcases ho with ho | ⟨_, ho⟩ | ⟨hd, ho⟩
    · cases ho
    · cases ho
    · exact finishTask_open hd ho hs
  · rcases ho with ho | ⟨_, ho⟩ | ⟨hd, ho⟩
    · cases ho
    · cases ho
    · cases hs
      rcases refresh_cases hp ho _ _ with ⟨result, hresult⟩ |
        ⟨refreshed, retry, _, hgroup, _, ⟨_, hphase⟩ | ⟨_, hphase⟩⟩
      · rw [hresult]
        exact .done _
      · rw [hphase]
        exact .inr (.inr ⟨hd, hgroup.hidden⟩)
      · have hhidden : ∀ plan ∈ retry,
            plan.batch.hiddenStates = request.batch.hiddenStates := hgroup.hidden
        rw [hphase]
        exact .inr (.inr ⟨hd, startAttempt_ok hhidden (by simp) _⟩)
  · rcases ho with ho | ⟨_, ho⟩ | ⟨hd, ho⟩
    · cases ho
    · cases ho
    · cases hs
      exact .inr (.inr ⟨hd, wake_ok ho _ _⟩)
  · cases hs

/-! ## how often a slot is sent -/

/-- the plan that a step hands to the Transport of its Worker -/
def sentBy (before after : Phase S d k) (event : LayerEvent S d σ) : List (WorkerBatchPlan S d k) :=
  match before, event, after with
  | .ready, .begin _ _, .direct _ plan => [plan]
  | .dispatching a, .taskStart index, .dispatching _ =>
    (a.waiting.filter fun e => decide (e.2 = index)).map Prod.fst
  | _, _, _ => []

/-- the plans that a run sends, in order -/
def LayerRun.sent (selector : ReplicaSelector σ) (request : LayerRequest S d k) :
    LayerRun S d k → List (LayerEvent S d σ) → List (WorkerBatchPlan S d k)
  | _, [] => []
  | s, event :: events =>
    match s.step selector request event with
    | none => []
    | some s' => sentBy s.phase s'.phase event ++ s'.sent selector request events

/-- how many plans hold this slot -/
def slotCount (plans : List (WorkerBatchPlan S d k)) (t : Nat) (j : Fin k) : Nat :=
  (plans.flatMap fun plan => assignments plan.batch.rows t j).length

/-- how often a slot can still be sent -/
def Phase.budget (t : Nat) (j : Fin k) : Phase S d k → Nat
  | .ready => 2
  | .direct _ _ => 1
  | .dispatching a => slotCount (a.waiting.map Prod.fst) t j + a.observed.toList.length
  | .refreshing _ _ _ => 1
  | .sleeping plans _ => slotCount plans t j
  | .done _ => 0

theorem slotCount_append (plans plans' : List (WorkerBatchPlan S d k)) (t : Nat) (j : Fin k) :
    slotCount (plans ++ plans') t j = slotCount plans t j + slotCount plans' t j := by
  unfold slotCount
  rw [List.flatMap_append, List.length_append]

theorem Grouped.slotCount_le {batch : RoutedLayerBatch S d k}
    {plans : List (WorkerBatchPlan S d k)} (hg : Grouped batch plans) (t : Nat) (j : Fin k) :
    slotCount plans t j ≤ 1 := by
  unfold slotCount
  rw [hg.once]
  exact length_assignments_le batch t j

theorem afterFailures_budget (version : Nat) (failures : List (FailedWorkerBatch S d k))
    (accumulator : List (Fin d → S)) (t : Nat) (j : Fin k) :
    (afterFailures version failures accumulator).budget t j ≤ 1 := by
  unfold afterFailures
  split
  · exact Nat.zero_le 1
  · exact Nat.le_refl 1

/-- the end of an attempt sends nothing more, but for the retry of a first attempt -/
theorem Attempt.settle_budget (a : Attempt S d k) (t : Nat) (j : Fin k) :
    a.settle.budget t j ≤ slotCount (a.waiting.map Prod.fst) t j + a.observed.toList.length := by
  unfold Attempt.settle
  split
  · unfold Attempt.finish
    split
    · rename_i version hobserved
      rw [hobserved]
      split
      · exact Nat.zero_le _
      · exact Nat.le_trans (afterFailures_budget _ _ _ t j) (Nat.le_add_left 1 _)
    · split <;> exact Nat.zero_le _
  · exact Nat.le_refl _

/-- only the first phase sends the complete tensors -/
theorem Attempt.settle_ne_direct (a : Attempt S d k) {version : Nat}
    {plan : WorkerBatchPlan S d k} : a.settle ≠ .direct version plan := by
  intro h
  unfold Attempt.settle at h
  split at h
  · unfold Attempt.finish at h
    split at h
    · split at h
      · cases h
      · unfold afterFailures at h
        split at h <;> cases h
    · split at h <;> cases h
  · cases h

theorem startAttempt_budget (observed : Option Nat) (plans : List (WorkerBatchPlan S d k))
    (accumulator : List (Fin d → S)) (t : Nat) (j : Fin k) :
    (startAttempt observed plans accumulator).budget t j
      ≤ slotCount plans t j + observed.toList.length := by
  have h := Attempt.settle_budget (⟨observed, plans, plans.zipIdx, [],
    List.replicate plans.length none, accumulator⟩ : Attempt S d k) t j
  simp only [List.zipIdx_map_fst] at h
  exact h

theorem firstPhase_budget {batch : RoutedLayerBatch S d k} {plans : List (WorkerBatchPlan S d k)}
    (hg : Grouped batch plans) (version : Nat) (t : Nat) (j : Fin k) (clock : ℚ) (state : σ) :
    slotCount (sentBy .ready (firstPhase batch version plans)
        (.begin clock state : LayerEvent S d σ)) t j
      + (firstPhase batch version plans).budget t j ≤ 2 := by
  have hone := hg.slotCount_le t j
  have hstart : ∀ accumulator : List (Fin d → S), slotCount (sentBy .ready
      (startAttempt (some version) plans accumulator)
      (.begin clock state : LayerEvent S d σ)) t j
      + (startAttempt (some version) plans accumulator).budget t j ≤ 2 := by
    intro accumulator
    have hbudget := startAttempt_budget (some version) plans accumulator t j
    have hnone : sentBy .ready (startAttempt (some version) plans accumulator)
        (.begin clock state : LayerEvent S d σ) = [] := by
      unfold sentBy
      split
      · rename_i hdirect
        exact absurd hdirect (Attempt.settle_ne_direct _)
      · rename_i heq _ _
        cases heq
      · rfl
    rw [hnone]
    simp only [slotCount, List.flatMap_nil, List.length_nil, Option.toList_some,
      List.length_singleton] at hbudget hone ⊢
    omega
  unfold firstPhase
  split
  · exact Nat.zero_le 2
  · split_ifs
    · show slotCount [_] t j + 1 ≤ 2
      omega
    · exact hstart _
  · exact hstart _

theorem sentBy_nil {before after : Phase S d k} {event : LayerEvent S d σ}
    (hbegin : ∀ clock state, event ≠ .begin clock state) (htask : ∀ index, event ≠ .taskStart index) :
    sentBy before after event = [] := by
  unfold sentBy
  split
  · exact absurd rfl (hbegin _ _)
  · exact absurd rfl (htask _)
  · rfl

theorem slotCount_filter (waiting : List (WorkerBatchPlan S d k × Nat)) (index t : Nat)
    (j : Fin k) :
    slotCount ((waiting.filter fun e => decide (e.2 = index)).map Prod.fst) t j
      + slotCount ((waiting.filter fun e => decide (e.2 ≠ index)).map Prod.fst) t j
      = slotCount (waiting.map Prod.fst) t j := by
  induction waiting with
  | nil => rfl
  | cons e waiting ih =>
    have hcons : ∀ (plan : WorkerBatchPlan S d k) (plans : List (WorkerBatchPlan S d k)),
        slotCount (plan :: plans) t j = slotCount [plan] t j + slotCount plans t j :=
      fun plan plans => slotCount_append [plan] plans t j
    by_cases he : e.2 = index
    · rw [List.filter_cons_of_pos (by simp [he]), List.filter_cons_of_neg (by simp [he])]
      rw [List.map_cons, List.map_cons, hcons, hcons e.1 (waiting.map Prod.fst), ← ih]
      omega
    · rw [List.filter_cons_of_neg (by simp [he]), List.filter_cons_of_pos (by simp [he])]
      rw [List.map_cons, List.map_cons, hcons e.1 (waiting.map Prod.fst), hcons, ← ih]
      omega

theorem startTask_budget {a : Attempt S d k} {w : Frontend.Watcher} {index : Nat}
    {phase : Phase S d k} (h : startTask w a index = some phase) (t : Nat) (j : Fin k) :
    slotCount (sentBy (.dispatching a) phase (.taskStart index : LayerEvent S d σ)) t j
      + phase.budget t j ≤ (Phase.dispatching a).budget t j := by
  unfold startTask at h
  split at h
  · cases h
  · split at h
    · cases h
      exact Nat.zero_le _
    · split at h
      · cases h
        exact Nat.zero_le _
      · cases h
        have hsplit := slotCount_filter a.waiting index t j
        simp only [sentBy, Phase.budget]
        omega

/-- a step sends a slot at most as often as it lowers what can still be sent -/
theorem callStep_budget (hp : selector.Prefers) {request : LayerRequest S d k}
    (hc : Covers request.batch.expertIds request.batch.distinctExpertIds) {w : Frontend.Watcher}
    {phase phase' : Phase S d k} (ho : phase.Open request) {event : LayerEvent S d σ}
    (hs : callStep selector request w phase event = some phase') (t : Nat) (j : Fin k) :
    slotCount (sentBy phase phase' event) t j + phase'.budget t j ≤ phase.budget t j := by
  have hrest : (∀ clock state, event ≠ .begin clock state) → (∀ index, event ≠ .taskStart index) →
      phase'.budget t j ≤ phase.budget t j →
      slotCount (sentBy phase phase' event) t j + phase'.budget t j ≤ phase.budget t j := by
    intro hbegin htask hle
    rw [sentBy_nil hbegin htask]
    simpa [slotCount] using hle
  unfold callStep at hs
  split at hs
  · cases hs
    unfold begin
    split
    · exact Nat.zero_le _
    · split
      · exact Nat.zero_le _
      · split
        · exact Nat.zero_le _
        · split
          · exact Nat.zero_le _
          · rename_i plans hplans
            exact firstPhase_budget (groupWorkerBatches_grouped hc (Prod.ext hplans rfl)) _ t j _ _
  · cases hs
    refine hrest (by simp) (by simp) ?_
    unfold answer
    split
    · exact Nat.zero_le _
    · exact Nat.zero_le _
    · exact afterFailures_budget _ _ _ t j
  · exact startTask_budget hs t j
  · refine hrest (by simp) (by simp) ?_
    unfold finishTask at hs
    split at hs
    · cases hs
    · split at hs
      · cases hs
        exact Nat.zero_le _
      · cases hs
        exact Attempt.settle_budget _ t j
  · refine hrest (by simp) (by simp) ?_
    cases hs
    rcases ho with ho | ⟨_, ho⟩ | ⟨_, ho⟩
    · cases ho
    · cases ho
    · rcases refresh_cases hp ho _ _ with ⟨result, hresult⟩ |
        ⟨refreshed, retry, _, hgroup, _, ⟨_, hphase⟩ | ⟨_, hphase⟩⟩
      · rw [hresult]
        exact Nat.zero_le _
      · rw [hphase]
        exact hgroup.slotCount_le t j
      · rw [hphase]
        exact Nat.le_trans (startAttempt_budget none retry _ t j) (hgroup.slotCount_le t j)
  · refine hrest (by simp) (by simp) ?_
    cases hs
    unfold wake
    split
    · exact Nat.zero_le _
    · exact startAttempt_budget none _ _ t j
  · cases hs

theorem step_open (hp : selector.Prefers) {request : LayerRequest S d k}
    (hc : Covers request.batch.expertIds request.batch.distinctExpertIds) {s s' : LayerRun S d k}
    (ho : s.phase.Open request) {event : LayerEvent S d σ}
    (hs : s.step selector request event = some s') : s'.phase.Open request := by
  rcases step_cases hs with ⟨e, w, _, _, rfl⟩ | ⟨phase, hphase, rfl⟩
  · exact ho
  · exact callStep_open hp hc ho hphase

/-- the run lemma: a run never sends a slot more often than its budget -/
theorem sent_budget (hp : selector.Prefers) {request : LayerRequest S d k}
    (hc : Covers request.batch.expertIds request.batch.distinctExpertIds) {s : LayerRun S d k}
    (ho : s.phase.Open request) (events : List (LayerEvent S d σ)) (t : Nat) (j : Fin k) :
    slotCount (s.sent selector request events) t j ≤ s.phase.budget t j := by
  induction events generalizing s with
  | nil => exact Nat.zero_le _
  | cons event events ih =>
    unfold LayerRun.sent
    cases hs : s.step selector request event with
    | none => exact Nat.zero_le _
    | some s' =>
      have hlater := ih (step_open hp hc ho hs)
      simp only
      rw [slotCount_append]
      rcases step_cases hs with ⟨e, w, rfl, _, rfl⟩ | ⟨phase, hphase, rfl⟩
      · rw [sentBy_nil (by simp) (by simp)]
        simpa [slotCount] using hlater
      · have hstep := callStep_budget hp hc ho hphase t j
        simp only at hlater ⊢
        omega

/-! ## what a second attempt was decided on -/

/-- step `n` of the run refreshed the Topology after these failures of the first attempt -/
def RefreshedAt (selector : ReplicaSelector σ) (config : Frontend.WatcherConfig)
    (request : LayerRequest S d k) (events : List (LayerEvent S d σ)) (n : Nat)
    (failures : List (FailedWorkerBatch S d k)) (clock : RefreshClock)
    (refreshed : TopologySnapshot) : Prop :=
  ∃ x version accumulator state,
    (LayerRun.start config).run selector request (events.take n) = some x ∧
    events[n]? = some (.refresh clock state) ∧
    x.phase = .refreshing version failures accumulator ∧
    x.watcher.refresh request.batch.instanceId version = .ok refreshed

/-- step `n` of the run ended the retry delay before the deadline -/
def SleptUntil (selector : ReplicaSelector σ) (config : Frontend.WatcherConfig)
    (request : LayerRequest S d k) (events : List (LayerEvent S d σ)) (n : Nat)
    (plans : List (WorkerBatchPlan S d k)) : Prop :=
  ∃ x accumulator clock,
    (LayerRun.start config).run selector request (events.take n) = some x ∧
    events[n]? = some (.wake clock) ∧ x.phase = .sleeping plans accumulator ∧
    clock < request.deadline

/-- the plans of a second attempt that runs after `n` steps: they avoid the failed processes, and
asked one again only after the delay -/
def RetryOf (selector : ReplicaSelector σ) (config : Frontend.WatcherConfig)
    (request : LayerRequest S d k) (events : List (LayerEvent S d σ)) (n : Nat)
    (plans : List (WorkerBatchPlan S d k)) : Prop :=
  ∃ m failures clock refreshed, m < n ∧
    RefreshedAt selector config request events m failures clock refreshed ∧
    Avoids request.batch failures refreshed plans ∧
    ((∃ plan ∈ plans, ∃ e ∈ plan.batch.distinctExpertIds,
        FailedFor failures e plan.target.identity) →
      0 < request.delay ∧ request.delay < request.deadline - clock.delay ∧
      ∃ w, m < w ∧ w < n ∧ SleptUntil selector config request events w plans)

theorem RetryOf.mono {config : Frontend.WatcherConfig} {request : LayerRequest S d k}
    {events : List (LayerEvent S d σ)} {n n' : Nat} (hn : n ≤ n')
    {plans : List (WorkerBatchPlan S d k)}
    (h : RetryOf selector config request events n plans) :
    RetryOf selector config request events n' plans := by
  obtain ⟨m, failures, clock, refreshed, hm, hat, havoid, hreuse⟩ := h
  refine ⟨m, failures, clock, refreshed, by omega, hat, havoid, fun hused => ?_⟩
  obtain ⟨hd, hlate, w, hw, hwn, hslept⟩ := hreuse hused
  exact ⟨hd, hlate, w, hw, by omega, hslept⟩

/-- the history of the phase that a call is in after `n` steps -/
def Phase.Traced (selector : ReplicaSelector σ) (config : Frontend.WatcherConfig)
    (request : LayerRequest S d k) (events : List (LayerEvent S d σ)) (n : Nat) :
    Phase S d k → Prop
  | .sleeping plans _ => ∃ m failures clock refreshed, m < n ∧
      RefreshedAt selector config request events m failures clock refreshed ∧
      Avoids request.batch failures refreshed plans ∧
      request.delay < request.deadline - clock.delay
  | .dispatching a => a.observed = none → RetryOf selector config request events n a.plans
  | _ => True

section
variable {config : Frontend.WatcherConfig} {request : LayerRequest S d k}
  {events : List (LayerEvent S d σ)} {n : Nat}

theorem Phase.Traced.mono {n' : Nat} (hn : n ≤ n') {phase : Phase S d k}
    (h : phase.Traced selector config request events n) :
    phase.Traced selector config request events n' := by
  cases phase with
  | sleeping plans accumulator =>
    obtain ⟨m, failures, clock, refreshed, hm, hrest⟩ := h
    exact ⟨m, failures, clock, refreshed, by omega, hrest⟩
  | dispatching a => exact fun ha => (h ha).mono hn
  | ready => trivial
  | direct version plan => trivial
  | refreshing version failures accumulator => trivial
  | done result => trivial

theorem afterFailures_traced (version : Nat) (failures : List (FailedWorkerBatch S d k))
    (accumulator : List (Fin d → S)) :
    (afterFailures version failures accumulator).Traced selector config request events n := by
  unfold afterFailures
  split <;> trivial

theorem Attempt.settle_traced {a : Attempt S d k}
    (h : a.observed = none → RetryOf selector config request events n a.plans) :
    a.settle.Traced selector config request events n := by
  unfold Attempt.settle
  split
  · unfold Attempt.finish
    split
    · split
      · trivial
      · exact afterFailures_traced _ _ _
    · split <;> trivial
  · exact h

theorem firstPhase_traced (version : Nat) (plans : List (WorkerBatchPlan S d k)) :
    (firstPhase request.batch version plans).Traced selector config request events n := by
  unfold firstPhase
  split
  · trivial
  · split
    · trivial
    · exact Attempt.settle_traced (fun hnone => by cases hnone)
  · exact Attempt.settle_traced (fun hnone => by cases hnone)

/-- a step of the call hands its history on -/
theorem callStep_traced (hp : selector.Prefers) {x : LayerRun S d k}
    (hx : (LayerRun.start config).run selector request (events.take n) = some x)
    (ho : x.phase.Open request) (ht : x.phase.Traced selector config request events n)
    {event : LayerEvent S d σ} (hevent : events[n]? = some event) {phase : Phase S d k}
    (hs : callStep selector request x.watcher x.phase event = some phase) :
    phase.Traced selector config request events (n + 1) := by
  unfold callStep at hs
  split at hs
  · cases hs
    unfold begin
    split
    · trivial
    · split
      · trivial
      · split
        · trivial
        · split
          · trivial
          · exact firstPhase_traced _ _
  · cases hs
    unfold answer
    split
    · trivial
    · trivial
    · exact afterFailures_traced _ _ _
  · rename_i a index hphase
    rw [hphase] at ht
    unfold startTask at hs
    split at hs
    · cases hs
    · split at hs
      · cases hs
        trivial
      · split at hs
        · cases hs
          trivial
        · cases hs
          exact fun hnone => (ht hnone).mono (Nat.le_succ n)
  · rename_i a index submission hphase
    rw [hphase] at ht
    unfold finishTask at hs
    split at hs
    · cases hs
    · split at hs
      · cases hs
        trivial
      · cases hs
        exact Attempt.settle_traced fun hnone => (ht hnone).mono (Nat.le_succ n)
  · rename_i version failures accumulator clock state hphase
    rcases ho with ho | ⟨_, ho⟩ | ⟨hd, ho⟩
    · rw [hphase] at ho
      cases ho
    · rw [hphase] at ho
      cases ho
    · rw [hphase] at ho
      cases hs
      rcases refresh_cases hp ho clock state with ⟨result, hresult⟩ |
        ⟨refreshed, retry, hrefresh, _, havoid, ⟨hlate, hnext⟩ | ⟨hunused, hnext⟩⟩
      · rw [hresult]
        trivial
      · have hat : RefreshedAt selector config request events n failures clock refreshed :=
          ⟨x, version, accumulator, state, hx, hevent, hphase, hrefresh⟩
        rw [hnext]
        exact ⟨n, failures, clock, refreshed, Nat.lt_succ_self n, hat, havoid, hlate⟩
      · have hat : RefreshedAt selector config request events n failures clock refreshed :=
          ⟨x, version, accumulator, state, hx, hevent, hphase, hrefresh⟩
        rw [hnext]
        refine Attempt.settle_traced fun _ => ⟨n, failures, clock, refreshed, Nat.lt_succ_self n,
          hat, havoid, ?_⟩
        rintro ⟨plan, hplan, e, he, hfailed⟩
        exact absurd hfailed (hunused plan hplan e he)
  · rename_i plans accumulator clock hphase
    cases hs
    rw [hphase] at ht
    obtain ⟨m, failures, before, refreshed, hm, hat, havoid, hlate⟩ := ht
    unfold wake
    split
    · trivial
    · rename_i hwoken
      have hslept : SleptUntil selector config request events n plans :=
        ⟨x, accumulator, clock, hx, hevent, hphase, by linarith⟩
      have hd : 0 < request.delay := by
        rcases ho with ho | ⟨_, ho⟩ | ⟨hd, _⟩
        · rw [hphase] at ho
          cases ho
        · rw [hphase] at ho
          cases ho
        · exact hd
      exact Attempt.settle_traced fun _ => ⟨m, failures, before, refreshed, by omega, hat, havoid,
        fun _ => ⟨hd, hlate, n, hm, Nat.lt_succ_self n, hslept⟩⟩
  · cases hs

end

/-- the history of every prefix of a run -/
theorem run_traced (hp : selector.Prefers) {config : Frontend.WatcherConfig}
    {request : LayerRequest S d k}
    (hc : Covers request.batch.expertIds request.batch.distinctExpertIds)
    {events : List (LayerEvent S d σ)} {s : LayerRun S d k}
    (hrun : (LayerRun.start config).run selector request events = some s) :
    s.phase.Traced selector config request events events.length := by
  have hstart : (LayerRun.start config).phase.Open request ∧
      (LayerRun.start config).phase.Traced selector config request events 0 := ⟨.inl rfl, trivial⟩
  have hboth := Steps.run_take_invariant (n := events.length)
    (P := fun n (x : LayerRun S d k) => x.phase.Open request ∧
      x.phase.Traced selector config request events n)
    hstart ?_ (Nat.le_refl _)
    (by rw [List.take_length]; exact hrun)
  · exact hboth.2
  · rintro n x event y hx ⟨ho, ht⟩ hevent hs
    refine ⟨step_open hp hc ho hs, ?_⟩
    rcases step_cases hs with ⟨e, w, _, _, rfl⟩ | ⟨phase, hphase, rfl⟩
    · exact ht.mono (Nat.le_succ n)
    · exact callStep_traced hp hx ho ht hevent hphase

end

/-- **The retry avoids the processes that failed.**  In every run of a layer call no slot is sent
more than twice, and the plans of a second attempt avoid the processes that failed for their
experts; a failed process is asked again after the delay and before the deadline only. -/
theorem retry_avoids_failed_process {S : Type} {d k : Nat} [Semiring S] {σ : Type}
    (selector : ReplicaSelector σ) (hp : selector.Prefers) (config : Frontend.WatcherConfig)
    (request : LayerRequest S d k)
    (hc : Covers request.batch.expertIds request.batch.distinctExpertIds)
    (events : List (LayerEvent S d σ)) :
    (∀ t j, slotCount ((LayerRun.start config).sent selector request events) t j ≤ 2) ∧
      ∀ s a, (LayerRun.start config).run selector request events = some s →
        s.phase = .dispatching a → a.observed = none →
        RetryOf selector config request events events.length a.plans := by
  constructor
  · intro t j
    exact sent_budget hp hc (.inl rfl) events t j
  · intro s a hrun hphase hnone
    have htraced := run_traced hp hc hrun
    rw [hphase] at htraced
    exact htraced hnone

/-- the plans of the call are on their way and none was observed -/
def Leaving.dispatches (s : LayerRun Int 1 2) : Bool :=
  match s.phase with
  | .dispatching a => a.observed.isNone && !a.plans.isEmpty
  | _ => false

theorem retry_avoids_failed_process_busy :
    ∃ s a, (LayerRun.start Leaving.config).run RoundRobinSelector Leaving.request
        (Leaving.waiting ++ Leaving.retried) = some s ∧ s.phase = .dispatching a ∧
      a.observed = none ∧ a.plans ≠ [] ∧
      RetryOf RoundRobinSelector Leaving.config Leaving.request
        (Leaving.waiting ++ Leaving.retried) 7 a.plans := by
  obtain ⟨s, hs, hcheck⟩ := (Option.any_eq_true Leaving.dispatches
    ((LayerRun.start Leaving.config).run RoundRobinSelector Leaving.request
      (Leaving.waiting ++ Leaving.retried))).mp (by decide +kernel)
  unfold Leaving.dispatches at hcheck
  split at hcheck
  · rename_i a hphase
    obtain ⟨hnone, hne⟩ := Bool.and_eq_true_iff.mp hcheck
    have hobserved := Option.isNone_iff_eq_none.mp hnone
    exact ⟨s, a, hs, hphase, hobserved, by simpa using hne,
      (retry_avoids_failed_process RoundRobinSelector roundRobinSelector_prefers Leaving.config
        Leaving.request Leaving.request_valid.covers (Leaving.waiting ++ Leaving.retried)).2 s a hs
        hphase hobserved⟩
  · cases hcheck

end ExpertKit.Routing

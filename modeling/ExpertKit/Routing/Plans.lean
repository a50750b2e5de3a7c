import ExpertKit.Routing.Grouping

/-!
# Frontend routing: what a grouping raises, and what its plans ask for

* `ReplicaSelector.Lawful`       a policy returns a replica or raises a `TransportError`;
* `Fits`                         a plan for a Worker of the snapshot, within its batch limit;
* `groupWorkerBatches_cases`     a grouping of a batch that lists its experts raises nothing else,
                                 and its plans fit the Workers of the snapshot.
-/

set_option linter.unusedSectionVars false

namespace ExpertKit.Routing
open Std

section
variable {S : Type} {d k : Nat}

/-! ## selection -/

structure ReplicaSelector.Lawful {σ : Type} (selector : ReplicaSelector σ) : Prop where
  chosen : ∀ state instanceId layerId expertId replicas excluded fallback target state',
    selector.select state instanceId layerId expertId replicas excluded fallback
      = (.ok target, state') → target ∈ replicas
  raises : ∀ state instanceId layerId expertId replicas excluded fallback raised state',
    selector.select state instanceId layerId expertId replicas excluded fallback
      = (.error raised, state') → ∃ error, raised = .transport error

theorem roundRobinSelector_lawful : RoundRobinSelector.Lawful where
  chosen := by
    intro state instanceId layerId expertId replicas excluded fallback target state' h
    unfold RoundRobinSelector at h
    simp only at h
    split at h
    · cases h
    · rename_i target' hget
      cases h
      have hmem := List.mem_of_getElem? hget
      split_ifs at hmem
      · exact hmem
      · exact List.mem_of_mem_filter hmem
  raises := by
    intro state instanceId layerId expertId replicas excluded fallback raised state' h
    unfold RoundRobinSelector at h
    simp only at h
    split at h
    · cases h
      exact ⟨_, rfl⟩
    · cases h

theorem selectTargets_cases {σ : Type} {selector : ReplicaSelector σ} (hl : selector.Lawful)
    {instanceId layerId : Nat} {routes : List (Nat × List WorkerConnection)}
    {excluded : ExtTreeSet WorkerIdentity}
    {excludedByExpert : ExtTreeMap Nat (ExtTreeSet WorkerIdentity)} {fallback : Bool}
    {requested : List Nat} {state state' : σ} {result : Except Raised (List WorkerConnection)}
    (h : selectTargets selector instanceId layerId routes excluded excludedByExpert fallback
      requested state = (result, state')) :
    (∀ raised, result = .error raised → ∃ error, raised = .transport error) ∧
      ∀ targets, result = .ok targets → ∀ target ∈ targets,
        ∃ expertId replicas, routes.lookup expertId = some replicas ∧ target ∈ replicas := by
  induction requested generalizing state result with
  | nil =>
    cases h
    exact ⟨fun _ hr => (by cases hr), fun targets ht => by cases ht; simp⟩
  | cons expertId requested ih =>
    unfold selectTargets at h
    split at h
    · rename_i hsel
      cases h
      refine ⟨fun _ hr => ?_, fun _ ht => by cases ht⟩
      cases hr
      exact hl.raises _ _ _ _ _ _ _ _ _ hsel
    · rename_i target _ hsel
      have hmem := hl.chosen _ _ _ _ _ _ _ _ _ hsel
      split at h
      · rename_i hrest
        cases h
        refine ⟨fun _ hr => ?_, fun _ ht => by cases ht⟩
        exact (ih hrest).1 _ hr
      · rename_i targets _ hrest
        cases h
        refine ⟨fun _ hr => (by cases hr), fun targets' ht => ?_⟩
        cases ht
        intro target' ht'
        rcases List.mem_cons.mp ht' with rfl | ht'
        · cases hlook : routes.lookup expertId with
          | none =>
            rw [hlook] at hmem
            cases hmem
          | some replicas =>
            rw [hlook] at hmem
            exact ⟨expertId, replicas, hlook, hmem⟩
        · exact (ih hrest).2 targets rfl target' ht'

/-! ## splitting -/

/-- a plan for one of these Workers, within its batch limit -/
structure Fits (targets : List WorkerConnection) (plan : WorkerBatchPlan S d k) : Prop where
  target : plan.target ∈ targets
  tokens : plan.batch.tokenCount ≤ plan.target.maxBatchTokens

theorem le_getLast_of_mem {distinct : List Nat} (h : DistinctOk distinct) {last e : Nat}
    (hl : distinct.getLast? = some last) (he : e ∈ distinct) : e ≤ last := by
  obtain ⟨front, hfront⟩ := List.getLast?_eq_some_iff.mp hl
  have hsorted := h.sorted
  rw [hfront] at he hsorted
  rcases List.mem_append.mp he with hm | hm
  · exact Nat.le_of_lt ((List.pairwise_append.mp hsorted).2.2 _ hm _ (List.mem_singleton_self _))
  · exact Nat.le_of_eq (List.mem_singleton.mp hm)

theorem outOfTable_false {batch : WorkerBatch S d k}
    (hc : Covers batch.expertIds batch.distinctExpertIds) {size : Nat} (hs : 0 < size) :
    outOfTable batch size = false := by
  unfold outOfTable
  rw [← Bool.not_eq_true, Option.any_eq_true]
  rintro ⟨last, hl, hany⟩
  obtain ⟨⟨row, r⟩, hmem, hrow⟩ := List.any_eq_true.mp hany
  obtain ⟨j, _, hj⟩ := List.any_eq_true.mp hrow
  obtain ⟨hpos, hle⟩ := of_decide_eq_true hj
  have hget := List.mem_zipIdx_iff_getElem?.mp hmem
  have hlast := le_getLast_of_mem batch.distinct hl (hc row (List.mem_of_getElem? hget) j hpos)
  -- the row lies in one of the chunks
  have hlt : r < batch.tokenCount := by
    have h := (List.getElem?_eq_some_iff.mp hget).1
    rw [batch.ids_shape] at h
    exact h
  have hchunk : r / size < chunkCount batch.tokenCount size := by
    unfold chunkCount
    have h1 : r / size ≤ (batch.tokenCount - 1) / size := Nat.div_le_div_right (by omega)
    have h2 : batch.tokenCount + size - 1 = batch.tokenCount - 1 + size := by omega
    rw [h2, Nat.add_div_right _ hs]
    omega
  have hmul := Nat.mul_le_mul_right (last + 1) (Nat.succ_le_of_lt hchunk)
  rw [Nat.succ_mul] at hmul
  simp only at hle
  omega

theorem splitBatch_fits {target : WorkerConnection} {batch : WorkerBatch S d k}
    (hc : Covers batch.expertIds batch.distinctExpertIds) :
    ∃ plans, splitBatch target batch = .ok plans ∧
      ∀ plan ∈ plans, plan.target = target ∧ plan.batch.tokenCount ≤ target.maxBatchTokens := by
  unfold splitBatch
  by_cases hle : batch.tokenCount ≤ target.maxBatchTokens
  · rw [if_pos hle]
    refine ⟨_, rfl, ?_⟩
    intro plan hp
    rw [List.mem_singleton.mp hp]
    exact ⟨rfl, hle⟩
  · rw [if_neg hle, outOfTable_false hc target.tokens_pos]
    refine ⟨_, rfl, ?_⟩
    intro plan hp
    obtain ⟨i, _, rfl⟩ := List.mem_map.mp hp
    refine ⟨rfl, ?_⟩
    show (Parts.slice target.maxBatchTokens batch.indices i).length ≤ target.maxBatchTokens
    rw [Parts.slice_eq, List.length_take]
    exact Nat.min_le_left _ _

/-! ## grouping -/

variable [Zero S]

theorem groupTargets_fits {batch : RoutedLayerBatch S d k} {version : Nat}
    {targets : List (Fin k → Int)} {experts : WorkerIdentity → List Nat}
    (he : ∀ identity, DistinctOk (experts identity)) {l : List (WorkerConnection × Nat)}
    (hcov : ∀ e ∈ l, Covers (maskedRows targets e.2 batch.expertIds (-1))
      (experts e.1.identity)) :
    ∃ plans, groupTargets batch version targets experts he l = .ok plans ∧
      ∀ plan ∈ plans, Fits (l.map Prod.fst) plan := by
  induction l with
  | nil => exact ⟨[], rfl, by simp⟩
  | cons e l ih =>
    obtain ⟨target, index⟩ := e
    obtain ⟨more, hmore, hfits⟩ := ih fun e hl => hcov e (List.mem_cons_of_mem _ hl)
    have hrest : ∀ plan ∈ more, Fits (((target, index) :: l).map Prod.fst) plan := fun plan hp =>
      ⟨List.mem_cons_of_mem _ (hfits plan hp).target, (hfits plan hp).tokens⟩
    unfold groupTargets
    by_cases hne : 0 < (targetTokens targets index).length
    · rw [dif_pos hne]
      obtain ⟨first, hfirst, hall⟩ := @splitBatch_fits _ _ _ target
        (maskedBatch batch version targets index (experts target.identity) hne
          (he target.identity)) (hcov _ List.mem_cons_self)
      rw [hfirst, hmore]
      refine ⟨first ++ more, rfl, ?_⟩
      intro plan hp
      rcases List.mem_append.mp hp with hp | hp
      · obtain ⟨htarget, htokens⟩ := hall plan hp
        exact ⟨by rw [htarget]; exact List.mem_cons_self, by rw [htarget]; exact htokens⟩
      · exact hrest plan hp
    · rw [dif_neg hne]
      exact ⟨more, hmore, hrest⟩

theorem mem_targetsByIdentity {selected : List (Nat × WorkerConnection)}
    {target : WorkerConnection} (h : target ∈ Maps.values (targetsByIdentity selected)) :
    target ∈ selected.map Prod.snd := by
  obtain ⟨identity, hget⟩ := Maps.mem_values.mp h
  unfold targetsByIdentity at hget
  rcases Maps.getElem?_insertAll_cases _ _ hget with ⟨e, he, _, rfl⟩ | hempty
  · exact List.mem_map_of_mem he
  · simp at hempty

theorem mem_of_mem_zip_snd {requested : List Nat} {targets : List WorkerConnection}
    {target : WorkerConnection} (h : target ∈ (requested.zip targets).map Prod.snd) :
    target ∈ targets := by
  obtain ⟨e, he, rfl⟩ := List.mem_map.mp h
  exact (List.of_mem_zip he).2

theorem groupSelected_fits {batch : RoutedLayerBatch S d k}
    (hc : Covers batch.expertIds batch.distinctExpertIds) (version : Nat)
    {targets : List WorkerConnection} (hlen : targets.length = batch.distinctExpertIds.length) :
    ∃ plans, groupSelected batch version targets = .ok plans ∧ ∀ plan ∈ plans, Fits targets plan := by
  obtain ⟨plans, hplans, hfits⟩ := @groupTargets_fits _ _ _ _ batch version _ _
    (expertsByIdentity_ok batch.distinct targets) _ (maskedRows_covers hc hlen)
  have hinside : (batch.expertIds.any fun row => (List.finRange k).any fun j =>
      decide ((expertTargetValues (batch.distinctExpertIds.zip targets)).length
        ≤ (row j).toNat)) = false := by
    rw [← Bool.not_eq_true]
    intro hany
    obtain ⟨row, hrow, hj⟩ := List.any_eq_true.mp hany
    obtain ⟨j, _, hle⟩ := List.any_eq_true.mp hj
    have hle := of_decide_eq_true hle
    unfold expertTargetValues at hle
    rw [Scatter.length_indexCopy, List.length_replicate] at hle
    by_cases hpos : 0 ≤ row j
    · have hfst : (batch.distinctExpertIds.zip targets).map Prod.fst = batch.distinctExpertIds :=
        List.map_fst_zip (by omega)
      have hmem : (row j).toNat ∈ (batch.distinctExpertIds.zip targets).map Prod.fst := by
        rw [hfst]
        exact hc row hrow j hpos
      have hmax := (Ledger.foldl_max_le.mp (Nat.le_refl (((batch.distinctExpertIds.zip targets).map
        Prod.fst).foldl max 0))).2 _ hmem
      omega
    · omega
  refine ⟨plans, ?_, ?_⟩
  · unfold groupSelected
    simp only [hinside]
    exact hplans
  · intro plan hp
    have hfit := hfits plan hp
    refine ⟨?_, hfit.tokens⟩
    obtain ⟨e, he, htarget⟩ := List.mem_map.mp hfit.target
    have hmem : e.1 ∈ Maps.values (targetsByIdentity (batch.distinctExpertIds.zip targets)) :=
      List.fst_mem_of_mem_zipIdx he
    rw [← htarget]
    exact mem_of_mem_zip_snd (mem_targetsByIdentity hmem)

/-- a grouping raises only `TransportError`, and its plans fit the Workers of the snapshot -/
theorem groupWorkerBatches_cases {σ : Type} {selector : ReplicaSelector σ}
    (hl : selector.Lawful) {batch : RoutedLayerBatch S d k}
    (hc : Covers batch.expertIds batch.distinctExpertIds) {topology : TopologySnapshot}
    {excluded : ExtTreeSet WorkerIdentity}
    {excludedByExpert : ExtTreeMap Nat (ExtTreeSet WorkerIdentity)} {fallback reuse : Bool}
    {state state' : σ} {result : Except Raised (List (WorkerBatchPlan S d k))}
    (h : groupWorkerBatches selector batch topology excluded excludedByExpert fallback reuse state
      = (result, state')) :
    (∃ error, result = .error (.transport error)) ∨
      ∃ plans, result = .ok plans ∧ ∀ plan ∈ plans,
        plan.batch.tokenCount ≤ plan.target.maxBatchTokens ∧
        ∃ key replicas, topology.routes[(key : ExpertKey)]? = some replicas ∧
          plan.target ∈ replicas := by
  unfold groupWorkerBatches at h
  simp only at h
  split_ifs at h
  · cases h
    exact .inl ⟨_, rfl⟩
  · cases h
    exact .inr ⟨[], rfl, by simp⟩
  · cases h
    exact .inl ⟨_, rfl⟩
  · cases h
    exact .inl ⟨_, rfl⟩
  · have hroute : ∀ (targets : List WorkerConnection),
        (∀ target ∈ targets, ∃ expertId replicas,
          (topology.layerRoutes batch.layerId).lookup expertId = some replicas ∧
            target ∈ replicas) →
        ∀ plan : WorkerBatchPlan S d k, Fits targets plan →
          plan.batch.tokenCount ≤ plan.target.maxBatchTokens ∧
          ∃ key replicas, topology.routes[(key : ExpertKey)]? = some replicas ∧
            plan.target ∈ replicas := by
      intro targets htargets plan hfit
      refine ⟨hfit.tokens, ?_⟩
      obtain ⟨expertId, replicas, hlook, hmem⟩ := htargets _ hfit.target
      obtain ⟨front, back, hsplit, _⟩ := List.lookup_eq_some_iff.mp hlook
      have hentry : (expertId, replicas) ∈ topology.layerRoutes batch.layerId := by
        rw [hsplit]
        simp
      unfold TopologySnapshot.layerRoutes at hentry
      obtain ⟨e, he, heq⟩ := List.mem_map.mp hentry
      cases heq
      exact ⟨e.1, e.2, ExtTreeMap.mem_toList_iff_getElem?_eq_some.mp (List.mem_of_mem_filter he),
        hmem⟩
    split at h
    · rename_i hsel
      cases h
      obtain ⟨error, rfl⟩ := (selectTargets_cases hl hsel).1 _ rfl
      exact .inl ⟨error, rfl⟩
    · rename_i targets _ hsel
      have hlen := selectTargets_length hsel
      have htargets := (selectTargets_cases hl hsel).2 targets rfl
      split at h
      · rename_i target hone
        simp only [Prod.mk.injEq] at h
        obtain ⟨plans, hplans, hall⟩ := @splitBatch_fits _ _ _ target
          (completeBatch batch topology.version) hc
        refine .inr ⟨plans, h.1 ▸ hplans, ?_⟩
        intro plan hp
        obtain ⟨htarget, htokens⟩ := hall plan hp
        refine hroute targets htargets plan ⟨?_, by rw [htarget]; exact htokens⟩
        rw [htarget]
        exact mem_of_mem_zip_snd (mem_targetsByIdentity (by rw [hone]; exact List.mem_cons_self))
      · simp only [Prod.mk.injEq] at h
        obtain ⟨plans, hplans, hall⟩ := groupSelected_fits hc topology.version hlen
        exact .inr ⟨plans, h.1 ▸ hplans, fun plan hp => hroute targets htargets plan (hall plan hp)⟩

end

end ExpertKit.Routing

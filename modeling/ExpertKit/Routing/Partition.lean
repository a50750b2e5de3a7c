import ExpertKit.Lib.Assoc
import ExpertKit.Routing.Plans
import ExpertKit.Routing.Execute

/-!
# Frontend routing: the plans of a grouping partition the assignments

* `WorkerBatch.Exact`, `PaddedRows`   the expert list is exact, and a slot that is not valid is `-1`
                                      with weight zero;
* `splitBatch_exact`, `maskedBatch_exact`   chunks and masked batches keep the lists exact;
* `Partition`                         what holds of the plans of one grouping;
* `group_worker_batches_partition`    every grouping is one, for every selection and flag.
-/

set_option linter.unusedSectionVars false

namespace ExpertKit.Routing
open Std

section
variable {S : Type} {d k : Nat} [Semiring S]

/-! ## exact expert lists -/

/-- `distinct_expert_ids` is the exact set of the valid expert numbers -/
def WorkerBatch.Exact (b : WorkerBatch S d k) : Prop :=
  ∀ e : Nat, e ∈ b.distinctExpertIds ↔ ∃ row ∈ b.expertIds, ∃ j, row j = (e : Int)

theorem WorkerBatch.Exact.covers {b : WorkerBatch S d k} (h : b.Exact) :
    Covers b.expertIds b.distinctExpertIds := by
  intro row hrow j hj
  exact (h _).mpr ⟨row, hrow, j, (Int.toNat_of_nonneg hj).symm⟩

theorem exists_of_flatCount {expertIds : List (Fin k → Int)} {size width index : Nat}
    (h : flatCount expertIds size width index ≠ 0) :
    ∃ (r : Nat) (row : Fin k → Int) (j : Fin k), expertIds[r]? = some row ∧ 0 ≤ row j ∧
      r / size * width + (row j).toNat = index := by
  unfold flatCount at h
  rw [Ne, List.sum_eq_zero_iff] at h
  push Not at h
  obtain ⟨n, hn, hne⟩ := h
  obtain ⟨⟨row, r⟩, hmem, rfl⟩ := List.mem_map.mp hn
  rw [Ne, List.countP_eq_zero] at hne
  push Not at hne
  obtain ⟨j, _, hj⟩ := hne
  obtain ⟨hpos, hidx⟩ := of_decide_eq_true hj
  exact ⟨r, row, j, List.mem_zipIdx_iff_getElem?.mp hmem, hpos, hidx⟩

/-- the expert list of a chunk is that of its rows -/
theorem chunk_exact {batch : WorkerBatch S d k}
    (hc : Covers batch.expertIds batch.distinctExpertIds) (size : Nat) (hs : 0 < size)
    (i : Fin (chunkCount batch.tokenCount size)) : (chunk batch size hs i).Exact := by
  have hcovers := chunk_covers hc size hs i
  intro e
  constructor
  · intro he
    change e ∈ distinctExpertsOfChunk batch.expertIds size batch.distinctExpertIds i at he
    unfold distinctExpertsOfChunk at he
    cases hl : batch.distinctExpertIds.getLast? with
    | none =>
      rw [hl] at he
      cases he
    | some last =>
      rw [hl] at he
      obtain ⟨hrange, hcount⟩ := List.mem_filter.mp he
      have hle := List.mem_range.mp hrange
      obtain ⟨r, row, j, hr, hj, hidx⟩ := exists_of_flatCount (by simpa using hcount)
      have hlast := le_getLast_of_mem batch.distinct hl
        (hc row (List.mem_of_getElem? hr) j hj)
      -- both experts are below the width of the table, so chunk and expert are determined
      have hdiv : r / size = i := by
        have hquot : ∀ a b : Nat, b ≤ last → (a * (last + 1) + b) / (last + 1) = a := by
          intro a b hb
          rw [Nat.add_comm, Nat.add_mul_div_right _ _ (Nat.succ_pos last),
            Nat.div_eq_of_lt (Nat.lt_succ_of_le hb), Nat.zero_add]
        rw [← hquot (r / size) (row j).toNat hlast, hidx]
        exact hquot i e (Nat.le_of_lt_succ hle)
      have hexpert : (row j).toNat = e := by
        rw [hdiv] at hidx
        omega
      refine ⟨row, ?_, j, by omega⟩
      show row ∈ Parts.slice size batch.expertIds i
      rw [Parts.slice_eq]
      have hmod : r = i * size + r % size := by
        rw [← hdiv, Nat.mul_comm]
        exact (Nat.div_add_mod r size).symm
      refine List.mem_of_getElem? (i := r % size) ?_
      rw [List.getElem?_take, if_pos (Nat.mod_lt r hs), List.getElem?_drop, ← hmod]
      exact hr
  · rintro ⟨row, hrow, j, hj⟩
    have hmem := hcovers row hrow j (by omega)
    rw [hj] at hmem
    exact hmem

theorem splitBatch_exact {target : WorkerConnection} {batch : WorkerBatch S d k}
    (hx : batch.Exact) {plans : List (WorkerBatchPlan S d k)}
    (h : splitBatch target batch = .ok plans) : ∀ plan ∈ plans, plan.batch.Exact := by
  intro plan hp
  unfold splitBatch at h
  split_ifs at h
  · cases h
    rw [List.mem_singleton.mp hp]
    exact hx
  · cases h
    obtain ⟨i, _, rfl⟩ := List.mem_map.mp hp
    exact chunk_exact hx.covers _ target.tokens_pos i

/-- the experts of a part of a batch are among those of the batch -/
theorem splitBatch_subset {target : WorkerConnection} {b : WorkerBatch S d k}
    (hc : Covers b.expertIds b.distinctExpertIds) {plans : List (WorkerBatchPlan S d k)}
    (h : splitBatch target b = .ok plans) :
    ∀ plan ∈ plans, ∀ e ∈ plan.batch.distinctExpertIds, e ∈ b.distinctExpertIds := by
  intro plan hp e he
  unfold splitBatch at h
  split_ifs at h
  · cases h
    rw [List.mem_singleton.mp hp] at he
    exact he
  · cases h
    obtain ⟨i, _, rfl⟩ := List.mem_map.mp hp
    obtain ⟨row, hrow, j, hj⟩ := (chunk_exact hc _ target.tokens_pos i e).mp he
    change row ∈ Parts.slice _ b.expertIds i at hrow
    rw [Parts.slice_eq] at hrow
    have hmem := hc row (List.mem_of_mem_drop (List.mem_of_mem_take hrow)) j (by omega)
    rw [hj] at hmem
    exact hmem

theorem splitBatch_target {target : WorkerConnection} {batch : WorkerBatch S d k}
    {plans : List (WorkerBatchPlan S d k)} (h : splitBatch target batch = .ok plans) :
    ∀ plan ∈ plans, plan.target = target := by
  intro plan hp
  unfold splitBatch at h
  split_ifs at h
  · cases h
    rw [List.mem_singleton.mp hp]
  · cases h
    obtain ⟨i, _, rfl⟩ := List.mem_map.mp hp
    rfl

theorem splitBatch_version {target : WorkerConnection} {batch : WorkerBatch S d k}
    {plans : List (WorkerBatchPlan S d k)} (h : splitBatch target batch = .ok plans) :
    ∀ plan ∈ plans, plan.batch.topologyVersion = batch.topologyVersion := by
  intro plan hp
  unfold splitBatch at h
  split_ifs at h
  · cases h
    rw [List.mem_singleton.mp hp]
  · cases h
    obtain ⟨i, _, rfl⟩ := List.mem_map.mp hp
    rfl

/-! ## the experts of one Worker -/

/-- the Worker with a number has this number -/
theorem targetIndex_of_entry {selected : List (Nat × WorkerConnection)} {index : Nat}
    {target : WorkerConnection}
    (h : (Maps.values (targetsByIdentity selected))[index]? = some target) :
    targetIndex selected target.identity = index := by
  unfold Maps.values at h
  rw [List.getElem?_map, Option.map_eq_some_iff] at h
  obtain ⟨⟨identity, target'⟩, hentry, rfl⟩ := h
  have hid := targetsByIdentity_identity
    (ExtTreeMap.mem_toList_iff_getElem?_eq_some.mp (List.mem_of_getElem? hentry))
  have hkey : ((targetsByIdentity selected).toList.map Prod.fst)[index]? = some identity := by
    rw [List.getElem?_map, hentry]
    rfl
  have hnodup : ((targetsByIdentity selected).toList.map Prod.fst).Nodup := by
    rw [List.Nodup, List.pairwise_map]
    refine (ExtTreeMap.distinct_keys_toList (t := targetsByIdentity selected)).imp ?_
    intro a b hne e
    exact hne (Std.compare_eq_iff_eq.mpr e)
  unfold targetIndex
  rw [hid]
  obtain ⟨hlt, hget⟩ := List.getElem?_eq_some_iff.mp hkey
  rw [← hget]
  exact hnodup.idxOf_getElem index hlt

/-- the expert list of a masked batch is that of its slots -/
theorem maskedBatch_exact {batch : RoutedLayerBatch S d k} (hx : batch.Exact)
    {targets : List WorkerConnection} (hlen : targets.length = batch.distinctExpertIds.length)
    {target : WorkerConnection} {index : Nat}
    (he : (target, index) ∈
      (Maps.values (targetsByIdentity (batch.distinctExpertIds.zip targets))).zipIdx) (e : Nat) :
    e ∈ ((expertsByIdentity (batch.distinctExpertIds.zip targets))[target.identity]?).getD [] ↔
      ∃ row ∈ maskedRows (assignmentTargets
        (expertTargetValues (batch.distinctExpertIds.zip targets)) batch.expertIds) index
        batch.expertIds (-1), ∃ j, row j = (e : Int) := by
  have hat := List.mem_zipIdx_iff_getElem?.mp he
  simp only at hat
  constructor
  · intro hmem
    rw [expertsByIdentity_getD] at hmem
    obtain ⟨⟨e', target'⟩, hfilter, rfl⟩ := List.mem_map.mp hmem
    obtain ⟨hsel, hident⟩ := List.mem_filter.mp hfilter
    have hident : target'.identity = target.identity := of_decide_eq_true hident
    obtain ⟨row, hrow, j, hj⟩ := (hx e').mp (List.of_mem_zip hsel).1
    obtain ⟨t, ht⟩ := List.mem_iff_getElem?.mp hrow
    have hget : batch.expertIds.getD t (fun _ => -1) = row := by
      rw [List.getD_eq_getElem?_getD, ht]
      rfl
    have hv : 0 ≤ batch.expertIds.getD t (fun _ => -1) j := by
      rw [hget]
      omega
    -- the slot carries the number of the Worker of its expert
    obtain ⟨e2, hsel2, hid2, hnum⟩ := assignmentTargets_getD hx.covers hlen hv
    have hsame : e2 = (e', target') := by
      rw [hget, hj] at hid2
      have hfst : (batch.distinctExpertIds.zip targets).map Prod.fst = batch.distinctExpertIds :=
        List.map_fst_zip (by omega)
      have hnd : ((batch.distinctExpertIds.zip targets).map Prod.fst).Nodup := by
        rw [hfst]
        exact batch.distinct.sorted.imp Nat.ne_of_lt
      exact List.inj_on_of_nodup_map hnd hsel2 hsel (by simpa using hid2)
    rw [hsame, hident, targetIndex_of_entry hat] at hnum
    have htoken : t ∈ targetTokens (assignmentTargets
        (expertTargetValues (batch.distinctExpertIds.zip targets)) batch.expertIds) index := by
      rw [mem_targetTokens]
      refine ⟨?_, j, hnum⟩
      unfold assignmentTargets
      rw [List.length_map]
      exact (List.getElem?_eq_some_iff.mp ht).1
    refine ⟨_, List.mem_map.mpr ⟨t, htoken, rfl⟩, j, ?_⟩
    simp only
    rw [if_pos hnum, hget, hj]
  · rintro ⟨row, hrow, j, hj⟩
    have hmem := maskedRows_covers hx.covers hlen _ he row hrow j (by omega)
    rw [hj] at hmem
    exact hmem

/-! ## the padding -/

/-- a slot that is not valid is `-1` with weight zero -/
def PaddedRows (rows : List (SlotRow S k)) : Prop :=
  ∀ r ∈ rows, ∀ j, 0 ≤ r.ids j ∨ r.ids j = -1 ∧ r.weights j = 0

theorem splitBatch_padded {target : WorkerConnection} {batch : WorkerBatch S d k}
    {plans : List (WorkerBatchPlan S d k)} (h : splitBatch target batch = .ok plans)
    (hp : PaddedRows batch.rows) : ∀ plan ∈ plans, PaddedRows plan.batch.rows := by
  intro plan hplan r hr
  refine hp r ?_
  rw [← (splitBatch_split h).rows]
  exact List.mem_flatMap.mpr ⟨plan, hplan, hr⟩

/-- the slots of other Workers and the slots that are not valid are masked -/
theorem maskedBatch_padded {batch : RoutedLayerBatch S d k} {targets : List WorkerConnection}
    (version index : Nat) {experts : List Nat} (hne) (he : DistinctOk experts) :
    PaddedRows (maskedBatch batch version (assignmentTargets
      (expertTargetValues (batch.distinctExpertIds.zip targets)) batch.expertIds) index experts
      hne he).rows := by
  intro r hr j
  unfold WorkerBatch.rows maskedBatch WorkerBatch.indices at hr
  simp only [Option.getD_some] at hr
  unfold maskedRows at hr
  rw [slotRows_map] at hr
  obtain ⟨t, ht, rfl⟩ := List.mem_map.mp hr
  simp only
  by_cases hmask : (assignmentTargets (expertTargetValues (batch.distinctExpertIds.zip targets))
      batch.expertIds).getD t (fun _ => -1) j = (index : Int)
  · left
    rw [if_pos hmask]
    by_contra hneg
    -- a slot that is not valid has no Worker number
    have hslot : (assignmentTargets (expertTargetValues (batch.distinctExpertIds.zip targets))
        batch.expertIds).getD t (fun _ => -1) j = -1 := by
      unfold assignmentTargets
      rw [List.getD_eq_getElem?_getD, List.getElem?_map]
      rw [List.getD_eq_getElem?_getD] at hneg
      cases hrow : batch.expertIds[t]? with
      | none => rfl
      | some row =>
        rw [hrow] at hneg
        exact if_neg hneg
    omega
  · right
    rw [if_neg hmask, if_neg hmask]
    exact ⟨rfl, rfl⟩

/-! ## one Worker per plan -/

/-- one Worker process stands for one connection -/
def Consistent (selected : List (Nat × WorkerConnection)) : Prop :=
  ∀ e ∈ selected, ∀ e' ∈ selected, e.2.identity = e'.2.identity → e.2 = e'.2

/-- the Worker of a plan was selected for each of its experts -/
def Selected (selected : List (Nat × WorkerConnection)) (plan : WorkerBatchPlan S d k) : Prop :=
  ∀ e ∈ plan.batch.distinctExpertIds, (e, plan.target) ∈ selected

/-- what a plan of one grouping satisfies -/
structure PlanOk (batch : RoutedLayerBatch S d k) (selected : List (Nat × WorkerConnection))
    (plan : WorkerBatchPlan S d k) : Prop where
  hidden : plan.batch.hiddenStates = batch.hiddenStates
  target : Selected selected plan
  fits : plan.batch.tokenCount ≤ plan.target.maxBatchTokens
  indices : plan.batch.indices.Nodup
  inside : ∀ t ∈ plan.batch.indices, t < batch.tokenCount
  experts : plan.batch.Exact

/-- the plans hand out every valid slot once, with its expert and its weight, and nothing else -/
structure Partition (batch : RoutedLayerBatch S d k) (selected : List (Nat × WorkerConnection))
    (plans : List (WorkerBatchPlan S d k)) : Prop where
  once : ∀ t j, (plans.flatMap fun plan => assignments plan.batch.rows t j)
    = assignments batch.rows t j
  plan : ∀ plan ∈ plans, PlanOk batch selected plan

/-- the slots of a token under the Worker they are sent to -/
def sentSlots (plans : List (WorkerBatchPlan S d k)) (t : Nat) (j : Fin k) :
    List (WorkerConnection × Int × S) :=
  plans.flatMap fun plan => (assignments plan.batch.rows t j).map fun a => (plan.target, a)

theorem mem_assignments {rows : List (SlotRow S k)} {t : Nat} {j : Fin k} {a : Int × S}
    (h : a ∈ assignments rows t j) : ∃ r ∈ rows, 0 ≤ r.ids j ∧ a = (r.ids j, r.weights j) := by
  obtain ⟨r, hr, ha⟩ := List.mem_flatMap.mp h
  split_ifs at ha with hcond
  · exact ⟨r, hr, hcond.2, List.mem_singleton.mp ha⟩
  · cases ha

/-- where a slot is sent is determined by the selection -/
theorem Partition.sentSlots_eq {batch : RoutedLayerBatch S d k}
    {selected : List (Nat × WorkerConnection)} (hnd : (selected.map Prod.fst).Nodup)
    {plans : List (WorkerBatchPlan S d k)} (h : Partition batch selected plans) (t : Nat)
    (j : Fin k) :
    (sentSlots plans t j).map (fun s => (some s.1, s.2))
      = (assignments batch.rows t j).map fun a => (selected.lookup a.1.toNat, a) := by
  rw [← h.once t j, List.map_flatMap]
  unfold sentSlots
  rw [List.map_flatMap]
  refine List.flatMap_congr fun plan hplan => ?_
  rw [List.map_map]
  refine List.map_congr_left fun a ha => ?_
  obtain ⟨r, hr, hpos, rfl⟩ := mem_assignments ha
  have hrow : r.ids ∈ plan.batch.expertIds := by
    unfold WorkerBatch.rows slotRows at hr
    obtain ⟨x, hx, rfl⟩ := List.mem_map.mp hr
    exact (List.of_mem_zip (List.of_mem_zip hx).2).1
  have hexpert := (h.plan plan hplan).experts.covers _ hrow j hpos
  rw [Assoc.lookup_of_mem hnd ((h.plan plan hplan).target _ hexpert)]
  rfl

/-! ## the partition -/

theorem mem_groupTargets {batch : RoutedLayerBatch S d k} {version : Nat}
    {targets : List (Fin k → Int)} {experts : WorkerIdentity → List Nat}
    {he : ∀ identity, DistinctOk (experts identity)} {l : List (WorkerConnection × Nat)}
    {plans : List (WorkerBatchPlan S d k)}
    (h : groupTargets batch version targets experts he l = .ok plans) :
    ∀ plan ∈ plans, ∃ e ∈ l, ∃ hne first,
      splitBatch e.1 (maskedBatch batch version targets e.2 (experts e.1.identity) hne
        (he e.1.identity)) = .ok first ∧ plan ∈ first := by
  induction l generalizing plans with
  | nil =>
    cases h
    simp
  | cons e l ih =>
    obtain ⟨target, index⟩ := e
    unfold groupTargets at h
    split_ifs at h with hne
    · cases hsplit : splitBatch target (maskedBatch batch version targets index
        (experts target.identity) hne (he target.identity)) with
      | error raised => rw [hsplit] at h; cases h
      | ok first =>
        rw [hsplit] at h
        cases hmore : groupTargets batch version targets experts he l with
        | error raised => rw [hmore] at h; cases h
        | ok more =>
          rw [hmore] at h
          cases h
          intro plan hp
          rcases List.mem_append.mp hp with hp | hp
          · exact ⟨(target, index), List.mem_cons_self, hne, first, hsplit, hp⟩
          · obtain ⟨e, hel, hrest⟩ := ih hmore plan hp
            exact ⟨e, List.mem_cons_of_mem _ hel, hrest⟩
    · intro plan hp
      obtain ⟨e, hel, hrest⟩ := ih h plan hp
      exact ⟨e, List.mem_cons_of_mem _ hel, hrest⟩

/-- a masked plan is sent to the replica selected for each of its experts -/
theorem groupSelected_selected {batch : RoutedLayerBatch S d k}
    (hc : Covers batch.expertIds batch.distinctExpertIds) {version : Nat}
    {targets : List WorkerConnection} (hlen : targets.length = batch.distinctExpertIds.length)
    (hone : Consistent (batch.distinctExpertIds.zip targets))
    {plans : List (WorkerBatchPlan S d k)} (h : groupSelected batch version targets = .ok plans) :
    ∀ plan ∈ plans, Selected (batch.distinctExpertIds.zip targets) plan := by
  unfold groupSelected at h
  simp only at h
  split_ifs at h
  intro plan hp e hexpert
  obtain ⟨⟨target, index⟩, he, hne, first, hsplit, hfirst⟩ := mem_groupTargets h plan hp
  have hof := splitBatch_subset (maskedRows_covers hc hlen _ he) hsplit plan hfirst e hexpert
  -- an expert of this process was selected with this connection
  change e ∈ ((expertsByIdentity (batch.distinctExpertIds.zip targets))[target.identity]?).getD []
    at hof
  rw [expertsByIdentity_getD] at hof
  obtain ⟨⟨e', target'⟩, hfilter, rfl⟩ := List.mem_map.mp hof
  obtain ⟨hsel, hident⟩ := List.mem_filter.mp hfilter
  obtain ⟨⟨e2, target2⟩, hsel2, rfl⟩ := List.mem_map.mp
    (mem_targetsByIdentity (List.fst_mem_of_mem_zipIdx he))
  rw [splitBatch_target hsplit plan hfirst, ← hone _ hsel _ hsel2 (of_decide_eq_true hident)]
  exact hsel

/-- so is a complete plan, when one Worker serves every expert -/
theorem completeBatch_selected {batch : RoutedLayerBatch S d k}
    (hc : Covers batch.expertIds batch.distinctExpertIds) {version : Nat}
    {targets : List WorkerConnection} (hlen : targets.length = batch.distinctExpertIds.length)
    (hone : Consistent (batch.distinctExpertIds.zip targets)) {target : WorkerConnection}
    (hvalues : Maps.values (targetsByIdentity (batch.distinctExpertIds.zip targets)) = [target])
    {plans : List (WorkerBatchPlan S d k)}
    (h : splitBatch target (completeBatch batch version) = .ok plans) :
    ∀ plan ∈ plans, Selected (batch.distinctExpertIds.zip targets) plan := by
  intro plan hp e hexpert
  have hof : e ∈ batch.distinctExpertIds :=
    splitBatch_subset (b := completeBatch batch version) hc h plan hp e hexpert
  have hfst : (batch.distinctExpertIds.zip targets).map Prod.fst = batch.distinctExpertIds :=
    List.map_fst_zip (by omega)
  rw [← hfst] at hof
  obtain ⟨⟨e', target'⟩, hsel, rfl⟩ := List.mem_map.mp hof
  -- the selected Worker of the expert is the only one
  obtain ⟨target2, hentry, hident⟩ := targetIndex_entry hsel
  rw [hvalues] at hentry
  have htwo : target2 = target := List.mem_singleton.mp (List.mem_of_getElem? hentry)
  obtain ⟨⟨e2, target3⟩, hsel2, h3⟩ := List.mem_map.mp
    (@mem_targetsByIdentity (batch.distinctExpertIds.zip targets) target
      (by rw [hvalues]; exact List.mem_singleton_self _))
  simp only at h3
  subst h3
  have hsame : target' = target3 := hone _ hsel _ hsel2 (by rw [← htwo]; exact hident.symm)
  rw [splitBatch_target h plan hp, ← hsame]
  exact hsel

/-- masking, compacting and splitting gives a partition, with every other slot masked -/
theorem groupSelected_partition {batch : RoutedLayerBatch S d k} (hx : batch.Exact) (version : Nat)
    {targets : List WorkerConnection} (hlen : targets.length = batch.distinctExpertIds.length)
    (hc : Consistent (batch.distinctExpertIds.zip targets)) :
    ∃ plans, groupSelected batch version targets = .ok plans ∧
      Partition batch (batch.distinctExpertIds.zip targets) plans ∧
      ∀ plan ∈ plans, PaddedRows plan.batch.rows := by
  obtain ⟨plans, hplans, hfits⟩ := groupSelected_fits hx.covers version hlen
  have hgrouped := groupSelected_grouped hx.covers hlen hplans
  have hselected := groupSelected_selected hx.covers hlen hc hplans
  have hmem := hplans
  unfold groupSelected at hmem
  simp only at hmem
  split_ifs at hmem
  have hall := mem_groupTargets hmem
  refine ⟨plans, hplans, ⟨hgrouped.once, ?_⟩, ?_⟩
  · intro plan hp
    obtain ⟨⟨target, index⟩, he, hne, first, hsplit, hfirst⟩ := hall plan hp
    have hexact : (maskedBatch batch version (assignmentTargets (expertTargetValues
        (batch.distinctExpertIds.zip targets)) batch.expertIds) index _ hne
        (expertsByIdentity_ok batch.distinct targets target.identity)).Exact :=
      maskedBatch_exact hx hlen he
    exact ⟨hgrouped.hidden plan hp, hselected plan hp, (hfits plan hp).tokens,
      hgrouped.nodup plan hp, hgrouped.lt plan hp, splitBatch_exact hexact hsplit plan hfirst⟩
  · intro plan hp
    obtain ⟨⟨target, index⟩, he, hne, first, hsplit, hfirst⟩ := hall plan hp
    exact splitBatch_padded hsplit (maskedBatch_padded version index hne _) plan hfirst

/-- the complete tensors are a partition when one Worker serves every expert -/
theorem completeBatch_partition {batch : RoutedLayerBatch S d k} (hx : batch.Exact) (version : Nat)
    {targets : List WorkerConnection} (hlen : targets.length = batch.distinctExpertIds.length)
    (hc : Consistent (batch.distinctExpertIds.zip targets)) {target : WorkerConnection}
    (hone : Maps.values (targetsByIdentity (batch.distinctExpertIds.zip targets)) = [target]) :
    ∃ plans, splitBatch target (completeBatch batch version) = .ok plans ∧
      Partition batch (batch.distinctExpertIds.zip targets) plans ∧
      (PaddedRows batch.rows → ∀ plan ∈ plans, PaddedRows plan.batch.rows) := by
  have hexact : (completeBatch batch version).Exact := hx
  obtain ⟨plans, hplans, hall⟩ := @splitBatch_fits _ _ _ target _ hexact.covers
  have hsp := splitBatch_split hplans
  have hselected := completeBatch_selected hx.covers hlen hc hone hplans
  refine ⟨plans, hplans, ⟨?_, ?_⟩, fun hpad => splitBatch_padded hplans hpad⟩
  · intro t j
    rw [← assignments_flatMap, hsp.rows, completeBatch_rows]
  · intro plan hp
    obtain ⟨htarget, htokens⟩ := hall plan hp
    refine ⟨hsp.hidden plan hp, hselected plan hp, htarget ▸ htokens,
      List.nodup_range.sublist (hsp.indices plan hp), ?_, splitBatch_exact hexact hplans plan hp⟩
    intro t ht
    exact List.mem_range.mp ((hsp.indices plan hp).subset ht)

theorem mem_layerRoutes {topology : TopologySnapshot} {layerId expertId : Nat}
    {replicas : List WorkerConnection}
    (h : (topology.layerRoutes layerId).lookup expertId = some replicas) :
    topology.routes[(⟨layerId, expertId⟩ : ExpertKey)]? = some replicas := by
  obtain ⟨front, back, hsplit, _⟩ := List.lookup_eq_some_iff.mp h
  have hentry : (expertId, replicas) ∈ topology.layerRoutes layerId := by
    rw [hsplit]
    simp
  unfold TopologySnapshot.layerRoutes at hentry
  obtain ⟨⟨key, found⟩, he, heq⟩ := List.mem_map.mp hentry
  obtain ⟨hmem, hlayer⟩ := List.mem_filter.mp he
  obtain ⟨rfl, rfl⟩ := Prod.mk.inj heq
  have hkey : key.layerId = layerId := by simpa using hlayer
  rw [← hkey]
  exact ExtTreeMap.mem_toList_iff_getElem?_eq_some.mp hmem

/-- the connections that one snapshot offers are consistent -/
theorem selectTargets_consistent {σ : Type} {selector : ReplicaSelector σ} (hl : selector.Lawful)
    {topology : TopologySnapshot} {instanceId layerId : Nat} {excluded : ExtTreeSet WorkerIdentity}
    {excludedByExpert : ExtTreeMap Nat (ExtTreeSet WorkerIdentity)} {fallback : Bool}
    {requested : List Nat} {state state' : σ} {targets : List WorkerConnection}
    (h : selectTargets selector instanceId layerId (topology.layerRoutes layerId) excluded
      excludedByExpert fallback requested state = (.ok targets, state')) :
    Consistent (requested.zip targets) := by
  have hroute := (selectTargets_cases hl h).2 targets rfl
  rintro ⟨e, target⟩ he ⟨e', target'⟩ he' hident
  obtain ⟨_, replicas, hlook, hmem⟩ := hroute target (List.of_mem_zip he).2
  obtain ⟨_, replicas', hlook', hmem'⟩ := hroute target' (List.of_mem_zip he').2
  exact topology.consistent _ _ _ _ (mem_layerRoutes hlook) (mem_layerRoutes hlook') target hmem
    target' hmem' hident

/-- the plans of any grouping are sent to the selected replicas -/
theorem groupWorkerBatches_selected {σ : Type} {selector : ReplicaSelector σ}
    (hl : selector.Lawful) {batch : RoutedLayerBatch S d k}
    (hc : Covers batch.expertIds batch.distinctExpertIds) {topology : TopologySnapshot}
    {excluded : ExtTreeSet WorkerIdentity}
    {excludedByExpert : ExtTreeMap Nat (ExtTreeSet WorkerIdentity)} {fallback reuse : Bool}
    {state state' : σ} {plans : List (WorkerBatchPlan S d k)}
    (h : groupWorkerBatches selector batch topology excluded excludedByExpert fallback reuse state
      = (.ok plans, state')) :
    plans = [] ∨ ∃ targets, selectTargets selector batch.instanceId batch.layerId
        (topology.layerRoutes batch.layerId) excluded excludedByExpert fallback
        batch.distinctExpertIds state = (.ok targets, state') ∧
      ∀ plan ∈ plans, Selected (batch.distinctExpertIds.zip targets) plan := by
  unfold groupWorkerBatches at h
  simp only at h
  split_ifs at h
  · cases h
  · cases h
    exact .inl rfl
  · cases h
  · cases h
  · split at h
    · cases h
    · rename_i targets _ hselect
      have hlen := selectTargets_length hselect
      have hone := selectTargets_consistent hl hselect
      split at h
      · rename_i target hvalues
        simp only [Prod.mk.injEq] at h
        obtain ⟨hplans, rfl⟩ := h
        exact .inr ⟨targets, hselect, completeBatch_selected hc hlen hone hvalues hplans⟩
      · simp only [Prod.mk.injEq] at h
        obtain ⟨hplans, rfl⟩ := h
        exact .inr ⟨targets, hselect, groupSelected_selected hc hlen hone hplans⟩

/-- a batch without an expert has no valid slot -/
theorem partition_nil {batch : RoutedLayerBatch S d k} (hx : batch.Exact)
    (hnil : batch.distinctExpertIds = []) (targets : List WorkerConnection) :
    Partition batch (batch.distinctExpertIds.zip targets) [] := by
  refine ⟨fun t j => ?_, by simp⟩
  rw [List.flatMap_nil, batch.assignments_rows, if_neg]
  rintro ⟨ht, hv⟩
  have hlt : t < batch.expertIds.length := batch.ids_shape.symm ▸ ht
  have hrow : batch.expertIds.getD t (fun _ => -1) ∈ batch.expertIds := by
    rw [List.getD_eq_getElem?_getD, List.getElem?_eq_getElem hlt]
    exact List.getElem_mem hlt
  have hmem := hx.covers _ hrow j hv
  rw [hnil] at hmem
  cases hmem

/-- the grouping of a batch whose experts are all routed is that of its selection -/
theorem groupWorkerBatches_routed {σ : Type} {selector : ReplicaSelector σ}
    (hl : selector.Lawful) {batch : RoutedLayerBatch S d k} (hx : batch.Exact)
    {topology : TopologySnapshot} (hinstance : batch.instanceId = topology.instanceId)
    (hrouted : ∀ e ∈ batch.distinctExpertIds,
      ((topology.layerRoutes batch.layerId).lookup e).isSome)
    {excluded : ExtTreeSet WorkerIdentity}
    {excludedByExpert : ExtTreeMap Nat (ExtTreeSet WorkerIdentity)} {fallback : Bool}
    {state state' : σ} {result : Except Raised (List WorkerConnection)}
    (hselect : selectTargets selector batch.instanceId batch.layerId
      (topology.layerRoutes batch.layerId) excluded excludedByExpert fallback
      batch.distinctExpertIds state = (result, state')) (reuse : Bool) :
    (∀ raised, result = .error raised → groupWorkerBatches selector batch topology excluded
        excludedByExpert fallback reuse state = (.error raised, state')) ∧
      ∀ targets, result = .ok targets → ∃ plans, groupWorkerBatches selector batch topology
        excluded excludedByExpert fallback reuse state = (.ok plans, state') ∧
        Partition batch (batch.distinctExpertIds.zip targets) plans ∧
        (reuse = false ∨ PaddedRows batch.rows → ∀ plan ∈ plans, PaddedRows plan.batch.rows) := by
  have hmissing : (batch.distinctExpertIds.filter fun e =>
      ((topology.layerRoutes batch.layerId).lookup e).isNone).isEmpty = true := by
    rw [List.isEmpty_iff, List.filter_eq_nil_iff]
    intro e he
    have h := hrouted e he
    simp [Option.isSome_iff_ne_none.mp h]
  by_cases hnil : batch.distinctExpertIds = []
  · rw [hnil] at hselect
    cases hselect
    refine ⟨fun _ h => (by cases h), fun targets h => ?_⟩
    cases h
    refine ⟨[], ?_, partition_nil hx hnil [], fun _ plan hp => by cases hp⟩
    unfold groupWorkerBatches
    simp [hinstance, hnil]
  · have hroutes : (topology.layerRoutes batch.layerId).isEmpty = false := by
      obtain ⟨e, he⟩ := List.exists_mem_of_ne_nil _ hnil
      have h := hrouted e he
      cases hr : topology.layerRoutes batch.layerId with
      | nil =>
        rw [hr] at h
        cases h
      | cons route rest => rfl
    have hknown : ¬ ¬ batch.instanceId = topology.instanceId := not_not_intro hinstance
    have hexperts : ¬ batch.distinctExpertIds.isEmpty = true := by simpa using hnil
    constructor
    · rintro raised rfl
      unfold groupWorkerBatches
      simp only
      rw [if_neg hknown, if_neg hexperts, if_neg (by simp [hroutes]), if_neg (by simp [hmissing]),
        hselect]
    · rintro targets rfl
      have hlen := selectTargets_length hselect
      have hc := selectTargets_consistent hl hselect
      obtain ⟨plans, hplans, hpart, hpad⟩ := groupSelected_partition hx topology.version hlen hc
      unfold groupWorkerBatches
      simp only
      rw [if_neg hknown, if_neg hexperts, if_neg (by simp [hroutes]), if_neg (by simp [hmissing]),
        hselect]
      simp only
      split
      · rename_i target hone
        obtain ⟨plans', hplans', hpart', hpad'⟩ :=
          completeBatch_partition hx topology.version hlen hc hone
        refine ⟨plans', by rw [hplans'], hpart', fun h => hpad' (h.resolve_left (by simp))⟩
      · exact ⟨plans, by rw [hplans], hpart, fun _ => hpad⟩

/-- every plan carries the version of the Topology it was grouped on -/
theorem groupWorkerBatches_version {σ : Type} {selector : ReplicaSelector σ}
    {batch : RoutedLayerBatch S d k} {topology : TopologySnapshot}
    {excluded : ExtTreeSet WorkerIdentity}
    {excludedByExpert : ExtTreeMap Nat (ExtTreeSet WorkerIdentity)} {fallback reuse : Bool}
    {state state' : σ} {plans : List (WorkerBatchPlan S d k)}
    (h : groupWorkerBatches selector batch topology excluded excludedByExpert fallback reuse state
      = (.ok plans, state')) :
    ∀ plan ∈ plans, plan.batch.topologyVersion = topology.version := by
  unfold groupWorkerBatches at h
  simp only at h
  split_ifs at h
  · cases h
  · cases h
    simp
  · cases h
  · cases h
  · split at h
    · cases h
    · split at h
      · simp only [Prod.mk.injEq] at h
        exact splitBatch_version h.1
      · simp only [Prod.mk.injEq] at h
        have hgroup := h.1
        unfold groupSelected at hgroup
        simp only at hgroup
        split_ifs at hgroup
        intro plan hp
        obtain ⟨_, _, _, first, hsplit, hfirst⟩ := mem_groupTargets hgroup plan hp
        exact splitBatch_version hsplit plan hfirst

theorem selected_nodup (batch : RoutedLayerBatch S d k) {targets : List WorkerConnection}
    (hlen : targets.length = batch.distinctExpertIds.length) :
    ((batch.distinctExpertIds.zip targets).map Prod.fst).Nodup := by
  rw [List.map_fst_zip (by omega)]
  exact batch.distinct.sorted.imp Nat.ne_of_lt

/-- **Routing plans partition the assignments.**  When the selection of a routed batch raises, so
does the grouping; otherwise both forms of the grouping hand out each valid slot once, to the
replica selected for its expert, and mask every other slot. -/
theorem group_worker_batches_partition {S : Type} {d k : Nat} [Semiring S] {σ : Type}
    (selector : ReplicaSelector σ) (hl : selector.Lawful) (batch : RoutedLayerBatch S d k)
    (hx : batch.Exact) (topology : TopologySnapshot)
    (hinstance : batch.instanceId = topology.instanceId)
    (hrouted : ∀ e ∈ batch.distinctExpertIds,
      ((topology.layerRoutes batch.layerId).lookup e).isSome)
    (excluded : ExtTreeSet WorkerIdentity)
    (excludedByExpert : ExtTreeMap Nat (ExtTreeSet WorkerIdentity)) (fallback : Bool)
    (state state' : σ) (result : Except Raised (List WorkerConnection))
    (hselect : selectTargets selector batch.instanceId batch.layerId
      (topology.layerRoutes batch.layerId) excluded excludedByExpert fallback
      batch.distinctExpertIds state = (result, state')) :
    (∀ raised, result = .error raised → ∀ reuse, groupWorkerBatches selector batch topology
        excluded excludedByExpert fallback reuse state = (.error raised, state')) ∧
      ∀ targets, result = .ok targets → ∃ complete masked,
        groupWorkerBatches selector batch topology excluded excludedByExpert fallback true state
          = (.ok complete, state') ∧
        groupWorkerBatches selector batch topology excluded excludedByExpert fallback false state
          = (.ok masked, state') ∧
        Partition batch (batch.distinctExpertIds.zip targets) complete ∧
        Partition batch (batch.distinctExpertIds.zip targets) masked ∧
        (∀ plan ∈ masked, PaddedRows plan.batch.rows) ∧
        (PaddedRows batch.rows → ∀ plan ∈ complete, PaddedRows plan.batch.rows) ∧
        ∀ t j, sentSlots complete t j = sentSlots masked t j := by
  constructor
  · intro raised hr reuse
    exact (groupWorkerBatches_routed hl hx hinstance hrouted hselect reuse).1 raised hr
  · rintro targets rfl
    obtain ⟨complete, hcomplete, hpart, hpad⟩ :=
      (groupWorkerBatches_routed hl hx hinstance hrouted hselect true).2 targets rfl
    obtain ⟨masked, hmasked, hpart', hpad'⟩ :=
      (groupWorkerBatches_routed hl hx hinstance hrouted hselect false).2 targets rfl
    have hnd := selected_nodup batch (selectTargets_length hselect)
    refine ⟨complete, masked, hcomplete, hmasked, hpart, hpart', hpad' (.inl rfl),
      fun h => hpad (.inr h), fun t j => ?_⟩
    -- both forms send a slot to the Worker of its expert
    have hboth := (hpart.sentSlots_eq hnd t j).trans (hpart'.sentSlots_eq hnd t j).symm
    refine List.map_injective_iff.mpr ?_ hboth
    rintro ⟨target, a⟩ ⟨target', a'⟩ h
    simpa using h

end

/-- both experts on one Worker -/
def Fixture.single (target : WorkerConnection) : TopologySnapshot where
  instanceId := 7
  version := 1
  routes := Fixture.routes target target
  nonempty := by
    intro key replicas h
    rcases Fixture.routes_cases h with rfl | rfl <;> simp
  distinct := by
    intro key replicas h
    rcases Fixture.routes_cases h with rfl | rfl <;> simp
  consistent := by
    intro key key' replicas replicas' h h' a ha b hb _
    rcases Fixture.routes_cases h with rfl | rfl <;>
      rcases Fixture.routes_cases h' with rfl | rfl <;>
      exact (List.mem_singleton.mp ha).trans (List.mem_singleton.mp hb).symm

/-- on two Workers both forms mask; on one Worker the complete tensors are sent without an index, and
the slots are the same -/
theorem group_worker_batches_partition_two :
    (∃ complete masked, groupWorkerBatches RoundRobinSelector Fixture.batch
        (Fixture.snapshot 1 (Fixture.worker "worker-0" 2 (by decide))
          (Fixture.worker "worker-1" 4 (by decide)) (by decide)) ∅ ∅ false true []
        = (.ok complete, [((7, 1, 1), 1), ((7, 1, 0), 1)]) ∧
      groupWorkerBatches RoundRobinSelector Fixture.batch
        (Fixture.snapshot 1 (Fixture.worker "worker-0" 2 (by decide))
          (Fixture.worker "worker-1" 4 (by decide)) (by decide)) ∅ ∅ false false []
        = (.ok masked, [((7, 1, 1), 1), ((7, 1, 0), 1)]) ∧
      ∀ t j, sentSlots complete t j = sentSlots masked t j) ∧
    ∃ complete masked, groupWorkerBatches RoundRobinSelector Fixture.batch
        (Fixture.single (Fixture.worker "worker-0" 4 (by decide))) ∅ ∅ false true []
        = (.ok complete, [((7, 1, 1), 1), ((7, 1, 0), 1)]) ∧
      groupWorkerBatches RoundRobinSelector Fixture.batch
        (Fixture.single (Fixture.worker "worker-0" 4 (by decide))) ∅ ∅ false false []
        = (.ok masked, [((7, 1, 1), 1), ((7, 1, 0), 1)]) ∧
      complete.map (fun plan => plan.batch.tokenIndices) = [none] ∧
      masked.map (fun plan => plan.batch.tokenIndices) = [some [0, 1, 2]] ∧
      ∀ t j, sentSlots complete t j = sentSlots masked t j := by
  constructor
  · obtain ⟨complete, masked, hcomplete, hmasked, _, _, _, _, hsame⟩ :=
      (group_worker_batches_partition RoundRobinSelector roundRobinSelector_lawful Fixture.batch
        Fixture.batch_exact (Fixture.snapshot 1 (Fixture.worker "worker-0" 2 (by decide))
          (Fixture.worker "worker-1" 4 (by decide)) (by decide)) rfl (by decide +kernel) ∅ ∅ false
        [] [((7, 1, 1), 1), ((7, 1, 0), 1)]
        (.ok [Fixture.worker "worker-0" 2 (by decide), Fixture.worker "worker-1" 4 (by decide)])
        (by decide +kernel)).2 _ rfl
    exact ⟨complete, masked, hcomplete, hmasked, hsame⟩
  · obtain ⟨complete, masked, hcomplete, hmasked, _, _, _, _, hsame⟩ :=
      (group_worker_batches_partition RoundRobinSelector roundRobinSelector_lawful Fixture.batch
        Fixture.batch_exact (Fixture.single (Fixture.worker "worker-0" 4 (by decide))) rfl (by decide +kernel) ∅ ∅ false []
        [((7, 1, 1), 1), ((7, 1, 0), 1)]
        (.ok [Fixture.worker "worker-0" 4 (by decide), Fixture.worker "worker-0" 4 (by decide)])
        (by decide +kernel)).2 _ rfl
    have hindices (reuse : Bool) (plans : List (WorkerBatchPlan Int 1 2)) (state)
        (h : groupWorkerBatches RoundRobinSelector Fixture.batch
          (Fixture.single (Fixture.worker "worker-0" 4 (by decide))) ∅ ∅ false reuse []
          = (.ok plans, state)) : plans.map (fun plan => plan.batch.tokenIndices)
        = if reuse then [none] else [some [0, 1, 2]] := by
      have hplans : (groupWorkerBatches RoundRobinSelector Fixture.batch
          (Fixture.single (Fixture.worker "worker-0" 4 (by decide))) ∅ ∅ false reuse []).1.toOption.map (fun plans => plans.map fun plan => plan.batch.tokenIndices)
          = some (if reuse then [none] else [some [0, 1, 2]]) := by
        cases reuse <;> decide +kernel
      rw [h] at hplans
      exact Option.some.inj hplans
    exact ⟨complete, masked, hcomplete, hmasked, hindices true _ _ hcomplete,
      hindices false _ _ hmasked, hsame⟩

end ExpertKit.Routing

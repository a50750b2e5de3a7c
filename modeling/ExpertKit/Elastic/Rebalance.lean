import ExpertKit.Elastic.ExpertIds
import ExpertKit.Lib.Shares

/-!
# Elasticity: the plan of a rebalance

`plan_rebalance_nodes` of `controller/service/control.rs`.  The result `none` stands for a panic: a
product or a sum out of its range, an index out of range, or the `expect` of the loop.

* `planRebalanceNodes`            the function;
* `minBy_least`                   the choice of the loop;
* `Filling`, `planLoop_filling`   the invariant of the loop, and its end;
* `plan_rebalance_spec`           when there is a plan, and what it is.
-/

set_option linter.unusedSectionVars false

namespace ExpertKit.Elastic
open Std

/-! ## the function -/

/-- the nodes with capacity that are configured for the instance -/
def eligible (instanceId : Nat) (nodes : List Node) : List Node :=
  nodes.filter fun node =>
    node.config["instance_id"]?.bind ConfigValue.asU64 == some instanceId &&
      decide (0 < maxExperts node)

def workerLe (left right : Node) : Bool :=
  ((compare left.hostname right.hostname).then (compare left.id right.id)).isLE

def addU64 (a b : Nat) : Option Nat := if a + b < 2 ^ 64 then some (a + b) else none

def mulU128 (a b : Nat) : Option Nat := if a * b < 2 ^ 128 then some (a * b) else none

/-- the closure of `min_by` -/
def compareRatio (capacities loads : List Nat) (left right : Nat) : Option Ordering := do
  let leftRatio ← mulU128 (← loads[left]?) (← capacities[right]?)
  let rightRatio ← mulU128 (← loads[right]?) (← capacities[left]?)
  some ((compare leftRatio rightRatio).then (compare left right))

/-- `min_by` -/
def minBy (cmp : Nat → Nat → Option Ordering) : List Nat → Option (Option Nat)
  | [] => some none
  | first :: rest =>
    (rest.foldlM (fun best next => (cmp best next).map fun o => if o == .gt then next else best)
      first).map some

/-- the loop: one expert after the other -/
def planLoop (workers : List Node) (capacities : List Nat) :
    Nat → List Nat → List Nat → Option (List Nat)
  | 0, _, planned => some planned
  | n + 1, loads, planned => do
    let selected ← (← minBy (compareRatio capacities loads)
      ((List.range workers.length).filter fun index => loads.getD index 0 < capacities.getD index 0))
    let load ← addU64 (← loads[selected]?) 1
    let worker ← workers[selected]?
    planLoop workers capacities n (loads.set selected load) (planned ++ [worker.id])

def planRebalanceNodes (instanceId : Int) (activeNodes : List Node) (requiredExperts : Nat) :
    Option (Except EKError (List Nat)) :=
  if instanceId ≤ 0 then some (.error (.runtimeError "instance ID must be positive"))
  else if requiredExperts = 0 then
    some (.error (.runtimeError "model has no routed experts to rebalance"))
  else
    let workers := (eligible instanceId.toNat activeNodes).mergeSort workerLe
    if workers.isEmpty then
      some (.error (.notFound "no active Worker reports capacity for the configured instance"))
    else
      let capacities := workers.map maxExperts
      match capacities.foldlM addU64 0 with
      | none => some (.error (.runtimeError "active Worker capacity overflow"))
      | some total =>
        if 2 ^ 64 ≤ requiredExperts then
          some (.error (.runtimeError "model expert count is too large"))
        else if total < requiredExperts then
          some (.error (.runtimeError ("active Worker capacity " ++ Nat.repr total ++
            " cannot cover " ++ Nat.repr requiredExperts ++ " routed experts")))
        else
          (planLoop workers capacities requiredExperts (List.replicate workers.length 0) []).map .ok

/-! ## the choice -/

theorem maxExperts_lt (node : Node) : maxExperts node < 2 ^ 64 := by
  unfold maxExperts
  cases hread : node.config["max_experts"]?.bind ConfigValue.asU64 with
  | none => exact Nat.two_pow_pos 64
  | some n =>
    obtain ⟨value, _, hvalue⟩ := Option.bind_eq_some_iff.mp hread
    cases value with
    | text value => cases hvalue
    | number value =>
      simp only [ConfigValue.asU64] at hvalue
      split_ifs at hvalue with hfits
      obtain rfl := Option.some.inj hvalue
      rw [Option.getD_some]
      omega

theorem mulU128_ok {a b : Nat} (ha : a < 2 ^ 64) (hb : b < 2 ^ 64) : mulU128 a b = some (a * b) :=
  if_pos ((Nat.mul_lt_mul'' ha hb).trans_eq (by decide))

theorem minBy_least {cmp : Nat → Nat → Option Ordering} (le : Nat → Nat → Prop) {p : Nat → Prop}
    (hrefl : ∀ i, le i i) (htrans : ∀ i j k, p j → le i j → le j k → le i k)
    (hcmp : ∀ i j, p i → p j →
      ∃ o, cmp i j = some o ∧ (o = .gt → le j i) ∧ (o ≠ .gt → le i j))
    {first : Nat} {rest : List Nat} (hp : ∀ i ∈ first :: rest, p i) :
    ∃ s ∈ first :: rest, minBy cmp (first :: rest) = some (some s) ∧
      ∀ j ∈ first :: rest, le s j := by
  suffices hfold : ∀ best, p best → ∃ s ∈ best :: rest,
      rest.foldlM (fun best next => (cmp best next).map fun o => if o == .gt then next else best)
        best = some s ∧ le s best ∧ ∀ j ∈ rest, le s j by
    obtain ⟨s, hs, hrun, hbest, hall⟩ := hfold first (hp first List.mem_cons_self)
    refine ⟨s, hs, by rw [minBy, hrun, Option.map_some], fun j hj => ?_⟩
    rcases List.mem_cons.mp hj with rfl | hj
    · exact hbest
    · exact hall j hj
  have hrest : ∀ i ∈ rest, p i := fun i hi => hp i (List.mem_cons_of_mem _ hi)
  clear hp
  induction rest with
  | nil =>
    intro best _
    exact ⟨best, List.mem_cons_self, rfl, hrefl best, fun j hj => absurd hj List.not_mem_nil⟩
  | cons next rest ih =>
    intro best hbest
    have hnext := hrest next List.mem_cons_self
    obtain ⟨o, ho, hgt, hle⟩ := hcmp best next hbest hnext
    have ih' := ih fun i hi => hrest i (List.mem_cons_of_mem _ hi)
    rw [List.foldlM_cons, ho, Option.map_some]
    by_cases hcase : o = .gt
    · obtain ⟨s, hs, hrun, hfirst, hall⟩ := ih' next hnext
      refine ⟨s, List.mem_cons_of_mem _ hs, ?_, htrans s next best hnext hfirst (hgt hcase), ?_⟩
      · rw [hcase]
        exact hrun
      · intro j hj
        rcases List.mem_cons.mp hj with rfl | hj
        · exact hfirst
        · exact hall j hj
    · obtain ⟨s, hs, hrun, hfirst, hall⟩ := ih' best hbest
      refine ⟨s, ?_, ?_, hfirst, ?_⟩
      · rcases List.mem_cons.mp hs with rfl | hs
        · exact List.mem_cons_self
        · exact List.mem_cons_of_mem _ (List.mem_cons_of_mem _ hs)
      · have hne : (o == .gt) = false := beq_false_of_ne hcase
        rw [hne]
        exact hrun
      · intro j hj
        rcases List.mem_cons.mp hj with rfl | hj
        · exact htrans s best j hbest hfirst (hle hcase)
        · exact hall j hj

section
variable {capacities loads : List Nat}

/-- the capacities are positive numbers of 64 bits, and no load is above its own -/
structure Loaded (capacities loads : List Nat) : Prop where
  length : loads.length = capacities.length
  positive : ∀ i < capacities.length, 0 < capacities.getD i 0
  fits : ∀ i < capacities.length, capacities.getD i 0 < 2 ^ 64
  bounded : ∀ i < capacities.length, loads.getD i 0 ≤ capacities.getD i 0

theorem getElem?_of_lt {l : List Nat} {i : Nat} (h : i < l.length) : l[i]? = some (l.getD i 0) := by
  rw [List.getD_eq_getElem _ _ h, List.getElem?_eq_getElem h]

theorem compareRatio_eq (h : Loaded capacities loads) {i j : Nat} (hi : i < capacities.length)
    (hj : j < capacities.length) :
    compareRatio capacities loads i j =
      some ((compare (loads.getD i 0 * capacities.getD j 0) (loads.getD j 0 * capacities.getD i 0)).then
        (compare i j)) := by
  have hload : ∀ k < capacities.length, loads.getD k 0 < 2 ^ 64 := fun k hk =>
    (h.bounded k hk).trans_lt (h.fits k hk)
  have hli := getElem?_of_lt (h.length ▸ hi)
  have hlj := getElem?_of_lt (h.length ▸ hj)
  unfold compareRatio
  rw [hli, hlj, getElem?_of_lt hi, getElem?_of_lt hj]
  simp only [Option.bind_eq_bind, Option.bind_some, mulU128_ok (hload i hi) (h.fits j hj),
    mulU128_ok (hload j hj) (h.fits i hi)]

/-- the loop finds a worker while one has room -/
theorem select_picks (h : Loaded capacities loads)
    (hroom : ∃ i ∈ List.range capacities.length, loads.getD i 0 < capacities.getD i 0) :
    ∃ s, minBy (compareRatio capacities loads) ((List.range capacities.length).filter fun index =>
        loads.getD index 0 < capacities.getD index 0) = some (some s) ∧
      Shares.Picks (List.range capacities.length) (fun i => capacities.getD i 0)
        (fun i => loads.getD i 0) s := by
  have hmem : ∀ i, i ∈ (List.range capacities.length).filter (fun index =>
      loads.getD index 0 < capacities.getD index 0) ↔
        i < capacities.length ∧ loads.getD i 0 < capacities.getD i 0 := by
    intro i
    rw [List.mem_filter, List.mem_range, decide_eq_true_iff]
  cases hcandidates : (List.range capacities.length).filter fun index =>
      loads.getD index 0 < capacities.getD index 0 with
  | nil =>
    obtain ⟨i, hi, hlt⟩ := hroom
    have hin := (hmem i).mpr ⟨List.mem_range.mp hi, hlt⟩
    rw [hcandidates] at hin
    exact absurd hin List.not_mem_nil
  | cons first rest =>
    rw [hcandidates] at hmem
    -- the ratios compare transitively because the capacity in the middle is positive
    have htrans : ∀ i j k, j < capacities.length →
        loads.getD i 0 * capacities.getD j 0 ≤ loads.getD j 0 * capacities.getD i 0 →
        loads.getD j 0 * capacities.getD k 0 ≤ loads.getD k 0 * capacities.getD j 0 →
        loads.getD i 0 * capacities.getD k 0 ≤ loads.getD k 0 * capacities.getD i 0 := by
      intro i j k hj hij hjk
      refine Nat.le_of_mul_le_mul_right ?_ (h.positive j hj)
      calc loads.getD i 0 * capacities.getD k 0 * capacities.getD j 0
          = loads.getD i 0 * capacities.getD j 0 * capacities.getD k 0 := Nat.mul_right_comm ..
        _ ≤ loads.getD j 0 * capacities.getD i 0 * capacities.getD k 0 :=
          Nat.mul_le_mul_right _ hij
        _ = loads.getD j 0 * capacities.getD k 0 * capacities.getD i 0 := Nat.mul_right_comm ..
        _ ≤ loads.getD k 0 * capacities.getD j 0 * capacities.getD i 0 :=
          Nat.mul_le_mul_right _ hjk
        _ = loads.getD k 0 * capacities.getD i 0 * capacities.getD j 0 := Nat.mul_right_comm ..
    have hcmp : ∀ i j, i < capacities.length → j < capacities.length →
        ∃ o, compareRatio capacities loads i j = some o ∧
          (o = .gt → loads.getD j 0 * capacities.getD i 0 ≤ loads.getD i 0 * capacities.getD j 0) ∧
          (o ≠ .gt → loads.getD i 0 * capacities.getD j 0 ≤
            loads.getD j 0 * capacities.getD i 0) := by
      intro i j hi hj
      refine ⟨_, compareRatio_eq h hi hj, fun hgt => ?_, fun hle => ?_⟩
      · by_contra hlt
        rw [Nat.compare_eq_lt.mpr (Nat.lt_of_not_le hlt)] at hgt
        cases hgt
      · by_contra hlt
        rw [Nat.compare_eq_gt.mpr (Nat.lt_of_not_le hlt)] at hle
        exact hle rfl
    obtain ⟨s, hs, hrun, hleast⟩ := minBy_least
      (fun i j => loads.getD i 0 * capacities.getD j 0 ≤ loads.getD j 0 * capacities.getD i 0)
      (fun i => Nat.le_refl _) htrans hcmp fun i hi => ((hmem i).mp hi).1
    obtain ⟨hlt, hfree⟩ := (hmem s).mp hs
    refine ⟨s, hrun, List.mem_range.mpr hlt, hfree, fun j hj hjfree => ?_⟩
    exact hleast j ((hmem j).mpr ⟨List.mem_range.mp hj, hjfree⟩)

end

/-! ## the loop -/

theorem getD_set_eq {l : List Nat} {s v : Nat} (h : s < l.length) :
    (fun i => (l.set s v).getD i 0) = Function.update (fun i => l.getD i 0) s v := by
  funext i
  by_cases his : i = s
  · subst his
    rw [Function.update_self, List.getD_eq_getElem _ _ (by rwa [List.length_set]),
      List.getElem_set_self]
  · rw [Function.update_of_ne his, List.getD_eq_getElem?_getD, List.getD_eq_getElem?_getD,
      List.getElem?_set_ne (Ne.symm his)]

theorem sum_set_succ {l : List Nat} {s : Nat} (h : s < l.length) :
    (l.set s (l.getD s 0 + 1)).sum = l.sum + 1 := by
  induction l generalizing s with
  | nil => exact absurd h (Nat.not_lt_zero s)
  | cons x l ih =>
    cases s with
    | zero =>
      rw [List.set_cons_zero, List.getD_cons_zero, List.sum_cons, List.sum_cons]
      omega
    | succ s =>
      rw [List.set_cons_succ, List.getD_cons_succ, List.sum_cons, List.sum_cons,
        ih (Nat.lt_of_succ_lt_succ h)]
      omega

theorem map_getD_range (l : List Nat) : (List.range l.length).map (fun i => l.getD i 0) = l := by
  refine List.ext_getElem (by rw [List.length_map, List.length_range]) fun i h1 h2 => ?_
  rw [List.getElem_map, List.getElem_range, List.getD_eq_getElem _ _ h2]

/-- the loads count the plan so far, and were filled fairly -/
structure Filling (workers : List Node) (loads planned : List Nat) : Prop where
  length : loads.length = workers.length
  fair : Shares.Fair (List.range workers.length) (fun i => (workers.map maxExperts).getD i 0)
    fun i => loads.getD i 0
  total : planned.length = loads.sum
  counts : ∀ i (h : i < workers.length), planned.count workers[i].id = loads.getD i 0
  ids : ∀ id ∈ planned, id ∈ workers.map Node.id

section
variable {workers : List Node}

theorem Filling.start (workers : List Node) :
    Filling workers (List.replicate workers.length 0) [] := by
  have hzero : ∀ i, (List.replicate workers.length 0).getD i 0 = 0 := by
    intro i
    rw [List.getD_eq_getElem?_getD, List.getElem?_replicate]
    split_ifs <;> rfl
  refine ⟨List.length_replicate, ?_, ?_, fun i _ => ?_, fun _ h => absurd h List.not_mem_nil⟩
  · simp only [hzero]
    exact Shares.Fair.zero _ _
  · rw [List.sum_replicate, smul_zero, List.length_nil]
  · rw [hzero, List.count_nil]

theorem Filling.loaded {loads planned : List Nat} (h : Filling workers loads planned)
    (hpositive : ∀ node ∈ workers, 0 < maxExperts node) :
    Loaded (workers.map maxExperts) loads := by
  have hcapacity : ∀ i (hi : i < (workers.map maxExperts).length),
      ∃ node ∈ workers, (workers.map maxExperts).getD i 0 = maxExperts node := by
    intro i hi
    rw [List.getD_eq_getElem _ _ hi, List.getElem_map]
    exact ⟨_, List.getElem_mem _, rfl⟩
  refine ⟨by rw [h.length, List.length_map], ?_, ?_, ?_⟩
  · intro i hi
    obtain ⟨node, hnode, heq⟩ := hcapacity i hi
    rw [heq]
    exact hpositive node hnode
  · intro i hi
    obtain ⟨node, _, heq⟩ := hcapacity i hi
    rw [heq]
    exact maxExperts_lt node
  · intro i hi
    rw [List.length_map] at hi
    exact h.fair.bounded i (List.mem_range.mpr hi)

/-- one more expert -/
theorem Filling.step {loads planned : List Nat} (h : Filling workers loads planned)
    (hids : (workers.map Node.id).Nodup) {s : Nat} (hs : s < workers.length)
    (hpick : Shares.Picks (List.range workers.length) (fun i => (workers.map maxExperts).getD i 0)
      (fun i => loads.getD i 0) s) :
    Filling workers (loads.set s (loads.getD s 0 + 1)) (planned ++ [workers[s].id]) := by
  have hset := getD_set_eq (v := loads.getD s 0 + 1) (h.length ▸ hs)
  refine ⟨by rw [List.length_set, h.length], ?_, ?_, ?_, ?_⟩
  · rw [hset]
    exact h.fair.step hpick
  · rw [List.length_append, List.length_singleton, h.total, sum_set_succ (h.length ▸ hs)]
  · intro i hi
    have hi' : (loads.set s (loads.getD s 0 + 1)).getD i 0 = _ := congrFun hset i
    rw [List.count_append, h.counts i hi, hi', List.count_singleton]
    by_cases his : i = s
    · subst his
      rw [Function.update_self, beq_self_eq_true, if_pos rfl]
    · have hne : workers[s].id ≠ workers[i].id := by
        intro heq
        refine his ((@List.Nodup.getElem_inj_iff _ _ hids i (by simpa using hi) s
          (by simpa using hs)).mp ?_)
        rw [List.getElem_map, List.getElem_map]
        exact heq.symm
      rw [Function.update_of_ne his, beq_false_of_ne hne, if_neg Bool.false_ne_true, Nat.add_zero]
  · intro id hid
    rcases List.mem_append.mp hid with hold | hnew
    · exact h.ids id hold
    · rw [List.mem_singleton.mp hnew]
      exact List.mem_map_of_mem (List.getElem_mem hs)

/-- the loop ends with a plan while the experts fit -/
theorem planLoop_filling (hids : (workers.map Node.id).Nodup)
    (hpositive : ∀ node ∈ workers, 0 < maxExperts node) (n : Nat) {loads planned : List Nat}
    (h : Filling workers loads planned)
    (hfits : planned.length + n ≤ (workers.map maxExperts).sum) :
    ∃ plan final, planLoop workers (workers.map maxExperts) n loads planned = some plan ∧
      Filling workers final plan ∧ plan.length = planned.length + n := by
  induction n generalizing loads planned with
  | zero => exact ⟨planned, loads, rfl, h, rfl⟩
  | succ n ih =>
    have hloaded := h.loaded hpositive
    have hroom : ∃ i ∈ List.range (workers.map maxExperts).length,
        loads.getD i 0 < (workers.map maxExperts).getD i 0 := by
      apply Shares.exists_room
      rw [map_getD_range, ← hloaded.length, map_getD_range, ← h.total]
      omega
    obtain ⟨s, hselect, hpick⟩ := select_picks hloaded hroom
    rw [List.length_map] at hselect hpick
    have hs : s < workers.length := List.mem_range.mp hpick.mem
    have hload : addU64 (loads.getD s 0) 1 = some (loads.getD s 0 + 1) := by
      have hcapacity := hloaded.fits s (by rwa [List.length_map])
      have hlt : loads.getD s 0 < (workers.map maxExperts).getD s 0 := hpick.room
      exact if_pos (by omega)
    obtain ⟨plan, final, hrun, hfinal, hlength⟩ := ih (h.step hids hs hpick) <| by
      rw [List.length_append, List.length_singleton]
      omega
    refine ⟨plan, final, ?_, hfinal, ?_⟩
    · rw [planLoop, hselect]
      simp only [Option.bind_eq_bind, Option.bind_some, getElem?_of_lt (h.length ▸ hs), hload,
        List.getElem?_eq_getElem hs]
      exact hrun
    · rw [hlength, List.length_append, List.length_singleton]
      omega

end

/-! ## the plan -/

theorem foldlM_addU64 (capacities : List Nat) (total : Nat) (htotal : total < 2 ^ 64) :
    capacities.foldlM addU64 total =
      if total + capacities.sum < 2 ^ 64 then some (total + capacities.sum) else none := by
  induction capacities generalizing total with
  | nil => rw [List.foldlM_nil, List.sum_nil, Nat.add_zero, if_pos htotal, Option.pure_def]
  | cons capacity capacities ih =>
    rw [List.foldlM_cons, List.sum_cons, addU64, ← Nat.add_assoc]
    by_cases hfits : total + capacity < 2 ^ 64
    · rw [if_pos hfits, Option.bind_eq_bind, Option.bind_some, ih _ hfits]
    · rw [if_neg hfits, if_neg fun h => hfits ((Nat.le_add_right _ _).trans_lt h),
        Option.bind_eq_bind, Option.bind_none]

/-- host names first, then identifiers -/
abbrev compareWorkers : Node → Node → Ordering :=
  compareLex (compareOn Node.hostname) (compareOn Node.id)

theorem mergeSort_workerLe_pairwise (nodes : List Node) :
    (nodes.mergeSort workerLe).Pairwise fun a b => (compareWorkers a b).isLE = true := by
  refine List.pairwise_mergeSort (fun a b c hab hbc => ?_) (fun a b => ?_) nodes
  · have htrans : (compareWorkers a c).isLE = true := TransCmp.isLE_trans hab hbc
    exact htrans
  · rw [Bool.or_eq_true]
    by_cases hle : (compareWorkers a b).isLE = true
    · exact .inl hle
    · refine .inr ?_
      have hlt : compareWorkers b a = .lt := OrientedCmp.lt_of_not_isLE hle
      change (compareWorkers b a).isLE = true
      rw [hlt]
      rfl

/-- the sort forgets the order of the input -/
theorem mergeSort_workerLe_perm {nodes nodes' : List Node} (hids : (nodes.map Node.id).Nodup)
    (hperm : nodes.Perm nodes') : nodes'.mergeSort workerLe = nodes.mergeSort workerLe := by
  refine List.Perm.eq_of_pairwise ?_ (mergeSort_workerLe_pairwise nodes')
    (mergeSort_workerLe_pairwise nodes)
    ((List.mergeSort_perm _ _).trans (hperm.symm.trans (List.mergeSort_perm _ _).symm))
  intro a b ha hb hab hba
  have ha' : a ∈ nodes := hperm.mem_iff.mpr (List.mem_mergeSort.mp ha)
  have hb' : b ∈ nodes := List.mem_mergeSort.mp hb
  have heq : compareWorkers a b = .eq := OrientedCmp.isLE_antisymm hab hba
  obtain ⟨_, hid⟩ := compareLex_eq_eq.mp heq
  exact List.inj_on_of_nodup_map hids ha' hb' (Nat.compare_eq_eq.mp hid)

/-- a plan for the experts, within the capacities and in proportion to them -/
structure RebalancePlan (workers : List Node) (requiredExperts : Nat) (plan : List Nat) : Prop where
  length : plan.length = requiredExperts
  eligible : ∀ id ∈ plan, id ∈ workers.map Node.id
  bounded : ∀ node ∈ workers, plan.count node.id ≤ maxExperts node
  even : ∀ i ∈ workers, ∀ j ∈ workers, 0 < plan.count i.id →
    (plan.count i.id - 1) * maxExperts j ≤ plan.count j.id * maxExperts i

theorem Filling.plan {workers : List Node} {loads plan : List Nat} (h : Filling workers loads plan) :
    RebalancePlan workers plan.length plan := by
  have hread : ∀ node ∈ workers, ∃ i ∈ List.range workers.length,
      plan.count node.id = loads.getD i 0 ∧
        (workers.map maxExperts).getD i 0 = maxExperts node := by
    intro node hnode
    obtain ⟨i, hi, rfl⟩ := List.getElem_of_mem hnode
    refine ⟨i, List.mem_range.mpr hi, h.counts i hi, ?_⟩
    rw [List.getD_eq_getElem _ _ (by rwa [List.length_map]), List.getElem_map]
  refine ⟨rfl, h.ids, fun node hnode => ?_, fun a ha b hb hpos => ?_⟩
  · obtain ⟨i, hi, hcount, hcapacity⟩ := hread node hnode
    rw [hcount, ← hcapacity]
    exact h.fair.bounded i hi
  · obtain ⟨i, hi, hcount, hcapacity⟩ := hread a ha
    obtain ⟨j, hj, hcount', hcapacity'⟩ := hread b hb
    rw [hcount] at hpos
    rw [hcount, hcount', ← hcapacity, ← hcapacity']
    exact h.fair.even i hi j hj hpos

/-- what the request must meet -/
def Plannable (instanceId : Int) (workers : List Node) (requiredExperts : Nat) : Prop :=
  0 < instanceId ∧ 0 < requiredExperts ∧ workers ≠ [] ∧
    (workers.map maxExperts).sum < 2 ^ 64 ∧ requiredExperts ≤ (workers.map maxExperts).sum

section
variable {instanceId : Int} {nodes : List Node} {requiredExperts : Nat}

theorem Plannable.perm {workers workers' : List Node} (h : workers.Perm workers') :
    Plannable instanceId workers requiredExperts ↔
      Plannable instanceId workers' requiredExperts := by
  unfold Plannable
  rw [(h.map maxExperts).sum_nat, Ne, Ne, ← List.isEmpty_iff, ← List.isEmpty_iff, h.isEmpty_eq]

theorem RebalancePlan.perm {workers workers' : List Node} (hperm : workers.Perm workers')
    {plan : List Nat} (h : RebalancePlan workers requiredExperts plan) :
    RebalancePlan workers' requiredExperts plan := by
  refine ⟨h.length, fun id hid => (hperm.map Node.id).mem_iff.mp (h.eligible id hid), ?_, ?_⟩
  · exact fun node hnode => h.bounded node (hperm.mem_iff.mpr hnode)
  · exact fun i hi j hj => h.even i (hperm.mem_iff.mpr hi) j (hperm.mem_iff.mpr hj)

/-- a request that can be met gets its plan -/
theorem planRebalanceNodes_ok (hids : (nodes.map Node.id).Nodup)
    (h : Plannable instanceId (eligible instanceId.toNat nodes) requiredExperts) :
    ∃ plan, planRebalanceNodes instanceId nodes requiredExperts = some (.ok plan) ∧
      RebalancePlan (eligible instanceId.toNat nodes) requiredExperts plan := by
  have hperm := List.mergeSort_perm (eligible instanceId.toNat nodes) workerLe
  have hdistinct : (((eligible instanceId.toNat nodes).mergeSort workerLe).map Node.id).Nodup :=
    (hperm.map Node.id).nodup_iff.mpr (hids.sublist (List.filter_sublist.map Node.id))
  have hpositive : ∀ node ∈ (eligible instanceId.toNat nodes).mergeSort workerLe,
      0 < maxExperts node := by
    intro node hnode
    have hfilter := (List.mem_filter.mp (hperm.mem_iff.mp hnode)).2
    exact of_decide_eq_true ((Bool.and_eq_true _ _).mp hfilter).2
  obtain ⟨hinstance, hrequired, hsome, hfits, henough⟩ := (Plannable.perm hperm).mpr h
  obtain ⟨plan, final, hrun, hfilling, hlength⟩ :=
    planLoop_filling hdistinct hpositive requiredExperts (Filling.start _) <| by
      rw [List.length_nil, Nat.zero_add]
      exact henough
  rw [List.length_nil, Nat.zero_add] at hlength
  have hplan := hfilling.plan
  rw [hlength] at hplan
  refine ⟨plan, ?_, hplan.perm hperm⟩
  have hnonempty : ((eligible instanceId.toNat nodes).mergeSort workerLe).isEmpty = false :=
    List.isEmpty_eq_false_iff.mpr hsome
  unfold planRebalanceNodes
  rw [if_neg (Int.not_le.mpr hinstance), if_neg (Nat.ne_of_gt hrequired)]
  simp only [hnonempty, Bool.false_eq_true, if_false, foldlM_addU64 _ 0 (Nat.two_pow_pos 64),
    Nat.zero_add, if_pos hfits, if_neg (Nat.not_le.mpr (henough.trans_lt hfits)),
    if_neg (Nat.not_lt.mpr henough), hrun, Option.map_some]

/-- any other request is refused -/
theorem planRebalanceNodes_error
    (h : ¬ Plannable instanceId (eligible instanceId.toNat nodes) requiredExperts) :
    ∃ error, planRebalanceNodes instanceId nodes requiredExperts = some (.error error) := by
  have hperm := List.mergeSort_perm (eligible instanceId.toNat nodes) workerLe
  rw [← Plannable.perm hperm] at h
  unfold planRebalanceNodes
  by_cases hinstance : instanceId ≤ 0
  · exact ⟨_, if_pos hinstance⟩
  rw [if_neg hinstance]
  by_cases hrequired : requiredExperts = 0
  · exact ⟨_, if_pos hrequired⟩
  rw [if_neg hrequired]
  simp only
  by_cases hempty : ((eligible instanceId.toNat nodes).mergeSort workerLe).isEmpty = true
  · exact ⟨_, if_pos hempty⟩
  rw [if_neg hempty, foldlM_addU64 _ 0 (Nat.two_pow_pos 64), Nat.zero_add]
  by_cases hfits : (((eligible instanceId.toNat nodes).mergeSort workerLe).map maxExperts).sum <
      2 ^ 64
  · rw [if_pos hfits]
    simp only
    split_ifs with hlarge hcover
    · exact ⟨_, rfl⟩
    · exact ⟨_, rfl⟩
    · refine absurd ⟨Int.not_le.mp hinstance, Nat.pos_of_ne_zero hrequired, ?_, hfits,
        Nat.not_lt.mp hcover⟩ h
      exact fun hnone => hempty (List.isEmpty_iff.mpr hnone)
  · rw [if_neg hfits]
    exact ⟨_, rfl⟩

/-- **The plan of a rebalance.**  The function never panics, so no product leaves its 128 bits and the
`expect` of the loop is not reached; there is a plan exactly when the request can be met; the plan has
one entry for each expert, within the capacities and in proportion to them; the order of the nodes in
the input does not matter. -/
theorem plan_rebalance_spec (instanceId : Int) (nodes : List Node) (requiredExperts : Nat)
    (hids : (nodes.map Node.id).Nodup) :
    planRebalanceNodes instanceId nodes requiredExperts ≠ none ∧
    ((∃ plan, planRebalanceNodes instanceId nodes requiredExperts = some (.ok plan)) ↔
      Plannable instanceId (eligible instanceId.toNat nodes) requiredExperts) ∧
    (∀ plan, planRebalanceNodes instanceId nodes requiredExperts = some (.ok plan) →
      RebalancePlan (eligible instanceId.toNat nodes) requiredExperts plan) ∧
    ∀ nodes', nodes.Perm nodes' → planRebalanceNodes instanceId nodes' requiredExperts =
      planRebalanceNodes instanceId nodes requiredExperts := by
  refine ⟨?_, ⟨?_, ?_⟩, ?_, ?_⟩
  · by_cases h : Plannable instanceId (eligible instanceId.toNat nodes) requiredExperts
    · obtain ⟨plan, hplan, _⟩ := planRebalanceNodes_ok hids h
      rw [hplan]
      exact Option.some_ne_none _
    · obtain ⟨error, herror⟩ := planRebalanceNodes_error h
      rw [herror]
      exact Option.some_ne_none _
  · rintro ⟨plan, hplan⟩
    by_contra h
    obtain ⟨error, herror⟩ := planRebalanceNodes_error h
    rw [hplan] at herror
    cases herror
  · intro h
    obtain ⟨plan, hplan, _⟩ := planRebalanceNodes_ok hids h
    exact ⟨plan, hplan⟩
  · intro plan hplan
    by_cases h : Plannable instanceId (eligible instanceId.toNat nodes) requiredExperts
    · obtain ⟨plan', hplan', hspec⟩ := planRebalanceNodes_ok hids h
      rw [hplan] at hplan'
      cases hplan'
      exact hspec
    · obtain ⟨error, herror⟩ := planRebalanceNodes_error h
      rw [hplan] at herror
      cases herror
  · intro nodes' hperm
    have hsorted : (eligible instanceId.toNat nodes').mergeSort workerLe =
        (eligible instanceId.toNat nodes).mergeSort workerLe :=
      mergeSort_workerLe_perm (hids.sublist (List.filter_sublist.map Node.id)) (hperm.filter _)
    unfold planRebalanceNodes
    rw [hsorted]

end

/-- two workers of the instance with four slots and two, and one of another instance -/
def rebalanceNodes : List Node :=
  [⟨1, "worker-b", "cpu", ((∅ : NodeConfig).insert "instance_id" (.number 7)).insert
      "max_experts" (.number 4), none⟩,
    ⟨2, "worker-a", "cpu", ((∅ : NodeConfig).insert "instance_id" (.number 7)).insert
      "max_experts" (.number 2), none⟩,
    ⟨3, "worker-c", "cpu", ((∅ : NodeConfig).insert "instance_id" (.number 8)).insert
      "max_experts" (.number 9), none⟩]

theorem plan_rebalance_spec_two :
    ∃ plan, planRebalanceNodes 7 rebalanceNodes 6 = some (.ok plan) ∧ plan.length = 6 := by
  obtain ⟨_, hiff, hplan, _⟩ := plan_rebalance_spec 7 rebalanceNodes 6 (by decide)
  have hworkers : (eligible 7 rebalanceNodes).map maxExperts = [4, 2] := by decide +kernel
  have hne : eligible 7 rebalanceNodes ≠ [] := by
    intro hnil
    rw [hnil] at hworkers
    cases hworkers
  obtain ⟨plan, hok⟩ := hiff.mpr ⟨by decide, by decide, hne,
    by rw [show (7 : Int).toNat = 7 from rfl, hworkers]; decide,
    by rw [show (7 : Int).toNat = 7 from rfl, hworkers]; decide⟩
  exact ⟨plan, hok, (hplan plan hok).length⟩

end ExpertKit.Elastic

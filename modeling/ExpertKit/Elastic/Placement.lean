import ExpertKit.Elastic.Eviction

/-!
# Elasticity: where the experts of a lost worker go

`recover_unique_experts` on its own, from the lookup of the lost node to the last statement.  Each
expert of the lost node that has no other active replica is assigned, placed by an eviction, or
reported.

* `planDirect_perm`, `planDirect_full`    every expert is assigned or left over;
* `PlanSpec`, `settling_plan`             the run, and what it wrote;
* `EachSettled`, `WithinCapacity`, `StillHeld`, `NothingLeft`   the four parts;
* `recovery_settles`                      when they hold;
* `recovery_settles_twice`                two rows of one expert, and nowhere to go.
-/

set_option linter.unusedSectionVars false

namespace ExpertKit.Elastic
open Std

/-! ## the direct assignments -/

theorem sortCapacity_perm (capacity : List (Node × Nat)) :
    (sortCapacity capacity).Perm capacity :=
  List.mergeSort_perm capacity _

/-- the first entry has the most free slots -/
theorem sortCapacity_first {capacity others : List (Node × Nat)} {entry : Node × Nat}
    (h : sortCapacity capacity = entry :: others) {other : Node × Nat} (hmem : other ∈ others) :
    other.2 ≤ entry.2 := by
  have hsorted : (sortCapacity capacity).Pairwise fun a b => decide (b.2 ≤ a.2) = true := by
    refine List.pairwise_mergeSort ?_ ?_ _
    · intro a b c hab hbc
      exact decide_eq_true ((of_decide_eq_true hbc).trans (of_decide_eq_true hab))
    · intro a b
      rw [Bool.or_eq_true, decide_eq_true_iff, decide_eq_true_iff]
      exact Nat.le_total _ _
  rw [h] at hsorted
  exact of_decide_eq_true ((List.pairwise_cons.mp hsorted).1 other hmem)

section
variable {instanceId : Nat}

/-- every expert is assigned or left over -/
theorem planDirect_perm (unique : List String) {capacity : List (Node × Nat)}
    (hsome : capacity ≠ []) :
    ((planDirect instanceId unique capacity).1.map Expert.expertId ++
      (planDirect instanceId unique capacity).2).Perm unique := by
  induction unique generalizing capacity with
  | nil => exact .refl _
  | cons expertId unique ih =>
    unfold planDirect
    cases hsort : sortCapacity capacity with
    | nil =>
      have hperm := sortCapacity_perm capacity
      rw [hsort] at hperm
      exact absurd hperm.nil_eq.symm hsome
    | cons entry others =>
      obtain ⟨target, rem⟩ := entry
      simp only
      split_ifs
      · exact (ih (List.cons_ne_nil (target, rem - 1) others)).cons expertId
      · exact List.perm_middle.trans ((ih (List.cons_ne_nil (target, rem) others)).cons expertId)

theorem planDirect_nodes (unique : List String) (capacity : List (Node × Nat)) :
    ∀ row ∈ (planDirect instanceId unique capacity).1,
      row.nodeId ∈ (capacity.map fun entry => entry.1.id) ∧ row.state = .null := by
  induction unique generalizing capacity with
  | nil => exact fun row hrow => absurd hrow List.not_mem_nil
  | cons expertId unique ih =>
    have hperm := (sortCapacity_perm capacity).map fun entry => entry.1.id
    unfold planDirect
    cases hsort : sortCapacity capacity with
    | nil =>
      intro row hrow
      exact absurd (ih [] row hrow).1 List.not_mem_nil
    | cons entry others =>
      obtain ⟨target, rem⟩ := entry
      rw [hsort] at hperm
      simp only
      split_ifs
      · intro row hrow
        rcases List.mem_cons.mp hrow with rfl | hrow
        · exact ⟨hperm.mem_iff.mp List.mem_cons_self, rfl⟩
        · exact ⟨hperm.mem_iff.mp (ih _ row hrow).1, (ih _ row hrow).2⟩
      · intro row hrow
        exact ⟨hperm.mem_iff.mp (ih _ row hrow).1, (ih _ row hrow).2⟩

/-- an expert is left over only when every free slot is used -/
theorem planDirect_full (unique : List String) (capacity : List (Node × Nat))
    (hleft : (planDirect instanceId unique capacity).2 ≠ []) (nodeId : Nat) :
    slots nodeId capacity ≤ countOn nodeId (planDirect instanceId unique capacity).1 := by
  induction unique generalizing capacity with
  | nil => exact absurd rfl hleft
  | cons expertId unique ih =>
    rw [← slots_sortCapacity nodeId capacity]
    unfold planDirect at hleft ⊢
    cases hsort : sortCapacity capacity with
    | nil => exact Nat.zero_le _
    | cons entry others =>
      obtain ⟨target, rem⟩ := entry
      simp only [hsort] at hleft ⊢
      split_ifs at hleft ⊢ with hrem
      · have hrest := ih ((target, rem - 1) :: others) hleft
        rw [slots_cons] at hrest ⊢
        rw [countOn_cons]
        by_cases htarget : target.id = nodeId
        · simp only [recoveredExpert, htarget, if_true] at hrest ⊢
          omega
        · simp only [recoveredExpert, htarget, if_false] at hrest ⊢
          omega
      · have hzero : slots nodeId ((target, rem) :: others) = 0 := by
          unfold slots
          refine List.sum_eq_zero fun n hn => ?_
          obtain ⟨other, hother, rfl⟩ := List.mem_map.mp hn
          have hmem := (List.mem_filter.mp hother).1
          rcases List.mem_cons.mp hmem with rfl | hmem
          · exact Nat.eq_zero_of_not_pos hrem
          · have hle := sortCapacity_first hsort hmem
            simp only at hle
            omega
        rw [hzero]
        exact Nat.zero_le _

/-! ## the evictions -/

/-- every expert is placed or left over -/
theorem planEviction_perm (targets : List Node) (unplaced : List String) (index : EvictionIndex)
    (evicted : List (Nat × String)) :
    ((planEviction instanceId targets unplaced index evicted).2.map Expert.expertId ++
      planUnplaced targets unplaced index evicted).Perm unplaced := by
  induction unplaced generalizing index evicted with
  | nil => exact .refl _
  | cons expertId rest ih =>
    cases hvictim : findVictim index evicted targets with
    | none =>
      rw [planEviction, planUnplaced, hvictim]
      exact List.perm_middle.trans ((ih index evicted).cons expertId)
    | some victim =>
      rw [planEviction, planUnplaced, hvictim]
      exact (ih _ _).cons expertId

end

/-! ## the rows of the lost node -/

/-- `dead_experts` -/
def lostRows (db : Database) (deadHostname : String) : List Expert :=
  match db.nodeByHostname deadHostname with
  | none => []
  | some dead => db.expertsByNode dead.id

/-- `target_nodes` -/
def recoveryTargets (settings : Settings) (db : Database) (deadHostname : String)
    (loading : List String) : List Node :=
  (survivors settings db deadHostname).filter fun node => !loading.contains node.hostname

/-- `unique_expert_ids` -/
def uniqueIds (settings : Settings) (db : Database) (deadHostname : String) : List String :=
  ((lostRows db deadHostname).filter fun row =>
    holders settings db deadHostname row.expertId = 0).map Expert.expertId

/-- `capacity` -/
def freeSlots (db : Database) (targets : List Node) : List (Node × Nat) :=
  targets.map fun node => (node, remainingSlots (maxExperts node) (db.rows node.id))

section
variable {settings : Settings} {deadHostname : String} {loading : List String} {db : Database}

theorem settling_checkLoading (deadExperts : List Expert) (activeNodes rest targets : List Node) :
    Recovery.Settling settings deadHostname loading
      (db, .checkLoading deadExperts activeNodes rest targets) []
      (db, Recovery.startFindUnique deadExperts activeNodes
        (targets ++ rest.filter fun node => !loading.contains node.hostname)) := by
  induction rest generalizing targets with
  | nil =>
    rw [List.filter_nil, List.append_nil]
    exact .quiet rfl rfl (.refl _)
  | cons node rest ih =>
    have htargets : (if loading.contains node.hostname = true then targets
          else targets ++ [node]) ++ (rest.filter fun node => !loading.contains node.hostname) =
        targets ++ ((node :: rest).filter fun node => !loading.contains node.hostname) := by
      cases hloading : loading.contains node.hostname with
      | true => rw [if_pos rfl, List.filter_cons_of_neg (by rw [hloading]; decide)]
      | false =>
        rw [if_neg Bool.false_ne_true, List.filter_cons_of_pos (by rw [hloading]; rfl),
          List.append_assoc, List.singleton_append]
    rw [← htargets]
    cases rest with
    | nil =>
      rw [List.filter_nil, List.append_nil]
      exact .quiet rfl rfl (.refl _)
    | cons next rest => exact .quiet rfl rfl (ih _)

theorem settling_findUnique (hvalid : db.Valid) (targets : List Node) (rest : List Expert)
    (unique : List String) :
    Recovery.Settling settings deadHostname loading
      (db, .findUnique (db.activeNodes settings.nodeActiveThreshold) targets rest unique) []
      (db, .findUnique (db.activeNodes settings.nodeActiveThreshold) targets []
        (unique ++ (rest.filter fun row =>
          holders settings db deadHostname row.expertId = 0).map Expert.expertId)) := by
  induction rest generalizing unique with
  | nil =>
    rw [List.filter_nil, List.map_nil, List.append_nil]
    exact .refl _
  | cons row rest ih =>
    refine .quiet rfl rfl ?_
    rw [otherActive_eq hvalid]
    by_cases hzero : holders settings db deadHostname row.expertId = 0
    · have hrest := ih (unique ++ [row.expertId])
      rw [List.append_assoc, List.singleton_append] at hrest
      rw [if_pos hzero, List.filter_cons_of_pos (by simpa using hzero), List.map_cons]
      exact hrest
    · rw [if_neg hzero, List.filter_cons_of_neg (by simpa using hzero)]
      exact ih _

theorem settling_readCapacity (unique : List String) (instanceId : Nat) (rest : List Node)
    (capacity : List (Node × Nat)) :
    Recovery.Settling settings deadHostname loading
      (db, .readCapacity unique instanceId rest capacity) []
      (db, Recovery.plan unique instanceId (capacity ++ freeSlots db rest)) := by
  induction rest generalizing capacity with
  | nil =>
    rw [freeSlots, List.map_nil, List.append_nil]
    exact .quiet rfl rfl (.refl _)
  | cons node rest ih =>
    have hrest := ih (capacity ++ [(node, remainingSlots (maxExperts node) (db.rows node.id))])
    rw [List.append_assoc, List.singleton_append] at hrest
    exact .quiet rfl rfl hrest

/-- the call is over at once, or it comes to its plan -/
theorem settling_lookup (hvalid : db.Valid) :
    (Recovery.Settling settings deadHostname loading (db, .lookup) [] (db, .done) ∧
      (uniqueIds settings db deadHostname = [] ∨
        recoveryTargets settings db deadHostname loading = [] ∨
        db.instanceByName settings.instanceName = none)) ∨
    (recoveryTargets settings db deadHostname loading ≠ [] ∧ ∃ instanceId,
      Recovery.Settling settings deadHostname loading (db, .lookup) []
        (db, Recovery.plan (uniqueIds settings db deadHostname) instanceId
          (freeSlots db (recoveryTargets settings db deadHostname loading)))) := by
  cases hdead : db.nodeByHostname deadHostname with
  | none =>
    refine .inl ⟨.quiet rfl (by simp only [Recovery.step, hdead]) (.refl _), .inl ?_⟩
    unfold uniqueIds lostRows
    rw [hdead]
    rfl
  | some dead =>
    have hrows : lostRows db deadHostname = db.expertsByNode dead.id := by
      unfold lostRows
      rw [hdead]
    have hlookup : Recovery.step settings deadHostname loading db .lookup =
        some (db, .readExperts dead) := by simp only [Recovery.step, hdead]
    by_cases hempty : (db.expertsByNode dead.id).isEmpty = true
    · refine .inl ⟨.quiet rfl hlookup (.quiet rfl
        (by simp only [Recovery.step, hempty, if_true]) (.refl _)), .inl ?_⟩
      unfold uniqueIds
      rw [hrows, List.isEmpty_iff.mp hempty]
      rfl
    have hread : Recovery.step settings deadHostname loading db (.readExperts dead) =
        some (db, .readActive (db.expertsByNode dead.id)) := by
      simp only [Recovery.step, hempty, if_false, Bool.false_eq_true]
    by_cases hothers : (survivors settings db deadHostname).isEmpty = true
    · have hactive : Recovery.step settings deadHostname loading db
          (.readActive (db.expertsByNode dead.id)) = some (db, .done) := by
        unfold survivors at hothers
        simp only [Recovery.step, hothers, if_true]
      refine .inl ⟨.quiet rfl hlookup (.quiet rfl hread (.quiet rfl hactive (.refl _))),
        .inr (.inl ?_)⟩
      unfold recoveryTargets
      rw [List.isEmpty_iff.mp hothers]
      rfl
    have hactive : Recovery.step settings deadHostname loading db
        (.readActive (db.expertsByNode dead.id)) = some (db, .checkLoading
          (db.expertsByNode dead.id) (db.activeNodes settings.nodeActiveThreshold)
          (survivors settings db deadHostname) []) := by
      unfold survivors at hothers ⊢
      simp only [Recovery.step, hothers, if_false, Bool.false_eq_true]
    have hstart : Recovery.Settling settings deadHostname loading (db, .lookup) []
        (db, Recovery.startFindUnique (db.expertsByNode dead.id)
          (db.activeNodes settings.nodeActiveThreshold)
          (recoveryTargets settings db deadHostname loading)) := by
      have hloading := @settling_checkLoading settings deadHostname loading db
        (db.expertsByNode dead.id) (db.activeNodes settings.nodeActiveThreshold)
        (survivors settings db deadHostname) []
      exact .quiet rfl hlookup (.quiet rfl hread (.quiet rfl hactive hloading))
    unfold Recovery.startFindUnique at hstart
    by_cases hnone : (recoveryTargets settings db deadHostname loading).isEmpty = true
    · rw [if_pos hnone] at hstart
      exact .inl ⟨hstart, .inr (.inl (List.isEmpty_iff.mp hnone))⟩
    rw [if_neg hnone] at hstart
    have hunique := hstart.trans (settling_findUnique hvalid
      (recoveryTargets settings db deadHostname loading) (db.expertsByNode dead.id) [])
    rw [← hrows, List.nil_append] at hunique
    change Recovery.Settling settings deadHostname loading (db, .lookup) []
      (db, .findUnique _ _ [] (uniqueIds settings db deadHostname)) at hunique
    by_cases hall : (uniqueIds settings db deadHostname).isEmpty = true
    · refine .inl ⟨hunique.trans (.quiet rfl ?_ (.refl _)), .inl (List.isEmpty_iff.mp hall)⟩
      simp only [Recovery.step, hall, if_true]
    have hfound : Recovery.step settings deadHostname loading db (.findUnique
        (db.activeNodes settings.nodeActiveThreshold)
        (recoveryTargets settings db deadHostname loading) []
        (uniqueIds settings db deadHostname)) = some (db, .readInstance
          (recoveryTargets settings db deadHostname loading)
          (uniqueIds settings db deadHostname)) := by
      simp only [Recovery.step, hall, if_false, Bool.false_eq_true]
    cases hinstance : db.instanceByName settings.instanceName with
    | none =>
      refine .inl ⟨hunique.trans (.quiet rfl hfound (.quiet rfl ?_ (.refl _))), .inr (.inr rfl)⟩
      simp only [Recovery.step, hinstance]
    | some row =>
      refine .inr ⟨fun h => hnone (List.isEmpty_iff.mpr h), row.id, hunique.trans
        (.quiet rfl hfound (.quiet rfl ?_ (settling_readCapacity _ row.id _ [])))⟩
      simp only [Recovery.step, hinstance]

/-! ## what the plan writes -/

structure PlanSpec (settings : Settings) (db : Database) (deadHostname : String)
    (targets : List Node) (unique : List String) (victims : List (Nat × String))
    (placements direct : List Expert) (left : List String) : Prop where
  perm : (left ++ (placements ++ direct).map Expert.expertId).Perm unique
  written : ∀ row ∈ placements ++ direct, row.nodeId ∈ targets.map Node.id ∧ row.state = .null
  fits : ∀ target ∈ targets,
    countOn target.id direct ≤ remainingSlots (maxExperts target) (db.rows target.id)
  full : left ≠ [] → ∀ target ∈ targets,
    remainingSlots (maxExperts target) (db.rows target.id) ≤ countOn target.id direct
  slots : victims.map Prod.fst = placements.map Expert.nodeId
  pruned : Pruning.Pruned (targets.map Node.id) (mayLeave db) (holders settings db deadHostname)
    victims
  exhausted : left ≠ [] → Pruning.Exhausted (targets.map Node.id) (mayLeave db)
    (holders settings db deadHostname) victims

/-- the settlements of a whole call -/
def settledBy (placements direct : List Expert) (left : List String) : List Settlement :=
  left.map .unplaced ++ ((placements.map fun row => .placed row.nodeId row.expertId) ++
    direct.map fun row => .assigned row.nodeId row.expertId)

theorem slots_freeSlots {targets : List Node} (hids : (targets.map Node.id).Nodup) {target : Node}
    (htarget : target ∈ targets) : slots target.id (freeSlots db targets) =
      remainingSlots (maxExperts target) (db.rows target.id) := by
  induction targets with
  | nil => exact absurd htarget List.not_mem_nil
  | cons first targets ih =>
    obtain ⟨hfirst, hrest⟩ := List.nodup_cons.mp hids
    rw [freeSlots, List.map_cons, slots_cons]
    rcases List.mem_cons.mp htarget with rfl | htarget
    · have hzero : slots target.id (freeSlots db targets) = 0 := by
        refine slots_eq_zero ?_
        rwa [freeSlots, List.map_map]
      unfold freeSlots at hzero
      rw [if_pos rfl, hzero, Nat.add_zero]
    · have hne : ¬ first.id = target.id := fun heq =>
        hfirst (heq ▸ List.mem_map_of_mem htarget)
      rw [if_neg hne, Nat.zero_add]
      exact ih hrest htarget

theorem settling_assigning (db : Database) (direct : List Expert) :
    Recovery.Settling settings deadHostname loading (db, .assigning direct)
      (direct.map fun row => .assigned row.nodeId row.expertId)
      (db.expertUpsertBatch direct, .done) := by
  have hstep : Recovery.Settling settings deadHostname loading (db, .assigning direct) _
      (db.expertUpsertBatch direct, .done) := .step rfl (.refl _)
  rwa [List.append_nil] at hstep

/-- the plan is carried out -/
theorem settling_plan (hvalid : db.Valid) {targets : List Node}
    (hids : (targets.map Node.id).Nodup) (hsome : targets ≠ []) (unique : List String)
    (instanceId : Nat) : ∃ victims placements direct left,
      PlanSpec settings db deadHostname targets unique victims placements direct left ∧
      Recovery.Settling settings deadHostname loading
        (db, Recovery.plan unique instanceId (freeSlots db targets))
        (settledBy placements direct left)
        ((deleteAll db victims).expertUpsertBatch (placements ++ direct), .done) := by
  have hnodes : (freeSlots db targets).map Prod.fst = targets := by
    rw [freeSlots, List.map_map]
    exact List.map_id targets
  have hcapacity : freeSlots db targets ≠ [] := fun h => hsome (List.map_eq_nil_iff.mp h)
  have hperm := @planDirect_perm instanceId unique _ hcapacity
  have hwritten : ∀ row ∈ (planDirect instanceId unique (freeSlots db targets)).1,
      row.nodeId ∈ targets.map Node.id ∧ row.state = .null := by
    intro row hrow
    have hnode := planDirect_nodes unique (freeSlots db targets) row hrow
    rwa [freeSlots, List.map_map] at hnode
  have hfits : ∀ target ∈ targets,
      countOn target.id (planDirect instanceId unique (freeSlots db targets)).1 ≤
        remainingSlots (maxExperts target) (db.rows target.id) := by
    intro target htarget
    rw [← slots_freeSlots hids htarget]
    exact planDirect_le instanceId target.id unique _
  unfold Recovery.plan
  by_cases hleft : (planDirect instanceId unique (freeSlots db targets)).2 = []
  · rw [hleft, List.append_nil] at hperm
    refine ⟨[], [], (planDirect instanceId unique (freeSlots db targets)).1, [],
      ⟨hperm, hwritten, hfits, fun h => absurd rfl h, rfl, Pruning.Pruned.nil _ _ _,
        fun h => absurd rfl h⟩, ?_⟩
    simp only [hleft, List.isEmpty_nil, if_true]
    exact settling_assigning db _
  · have hnonempty : ¬ (planDirect instanceId unique (freeSlots db targets)).2.isEmpty = true :=
      fun h => hleft (List.isEmpty_iff.mp h)
    obtain ⟨index, hindexed, hsettling⟩ := @settling_evicts settings deadHostname db loading hvalid
      ⟨targets, instanceId, (planDirect instanceId unique (freeSlots db targets)).1,
        (planDirect instanceId unique (freeSlots db targets)).2⟩
    have hspec := planEviction_spec instanceId targets
      (planDirect instanceId unique (freeSlots db targets)).2 index []
    have hplaced := @planEviction_perm instanceId targets
      (planDirect instanceId unique (freeSlots db targets)).2 index []
    obtain ⟨hpruned, hexhausted, hnull⟩ := planEviction_pruned hids instanceId
      (planDirect instanceId unique (freeSlots db targets)).2 hindexed (Pruning.Pruned.nil _ _ _)
    have hlengths := @planEviction_length targets instanceId
      (planDirect instanceId unique (freeSlots db targets)).2 index []
    rw [List.append_nil] at hpruned hexhausted
    generalize (planEviction instanceId targets
      (planDirect instanceId unique (freeSlots db targets)).2 index []).1 = victims at *
    generalize (planEviction instanceId targets
      (planDirect instanceId unique (freeSlots db targets)).2 index []).2 = placements at *
    generalize planUnplaced targets (planDirect instanceId unique (freeSlots db targets)).2 index
      [] = left at *
    have hreverse := List.reverse_perm victims
    refine ⟨victims, placements, (planDirect instanceId unique (freeSlots db targets)).1, left,
      ⟨?_, fun row hrow => ?_, hfits, fun _ target htarget => ?_, hspec.slots,
        hpruned.perm hreverse, fun hne => ?_⟩, ?_⟩
    · rw [List.map_append]
      have hmiddle : (left ++ (placements.map Expert.expertId ++
          (planDirect instanceId unique (freeSlots db targets)).1.map Expert.expertId)).Perm
          ((planDirect instanceId unique (freeSlots db targets)).1.map Expert.expertId ++
            (placements.map Expert.expertId ++ left)) := by
        rw [← List.append_assoc]
        exact List.perm_append_comm.trans (List.perm_append_comm.append_left _)
      exact hmiddle.trans ((hplaced.append_left _).trans hperm)
    · rcases List.mem_append.mp hrow with hplacement | hdirect
      · have hnode : row.nodeId ∈ victims.map Prod.fst :=
          hspec.slots ▸ List.mem_map_of_mem hplacement
        obtain ⟨victim, hvictim, heq⟩ := List.mem_map.mp hnode
        obtain ⟨⟨node, hmem, hid⟩, _⟩ := hspec.read victim hvictim
        exact ⟨List.mem_map.mpr ⟨node, hmem, hid.trans heq⟩, hnull row hplacement⟩
      · exact hwritten row hdirect
    · rw [← slots_freeSlots hids htarget]
      exact planDirect_full unique _ hleft target.id
    · refine (hexhausted ?_).perm hreverse
      have hlength := hplaced.length_eq
      rw [List.length_append, List.length_map, hlengths] at hlength
      have hpos := List.length_pos_iff.mpr hne
      omega
    · simp only [hnonempty, if_false, Bool.false_eq_true, hnodes]
      have hwhole := hsettling.trans (settling_assigning _ _)
      rw [List.append_assoc] at hwhole
      unfold Database.expertUpsertBatch at hwhole ⊢
      rw [List.foldl_append]
      exact hwhole

/-! ## the rows afterwards -/

theorem hasRow_deleteAll (db : Database) (victims : List (Nat × String)) (n : Nat)
    (expertId : String) : hasRow (deleteAll db victims) n expertId = true ↔
      hasRow db n expertId = true ∧ (n, expertId) ∉ victims := by
  have hany := any_deleteAll db victims n expertId fun _ => true
  simp only [Bool.and_true] at hany
  exact hany

theorem mayLeave_deleteAll (db : Database) (victims : List (Nat × String)) (n : Nat)
    (expertId : String) : mayLeave (deleteAll db victims) n expertId = true ↔
      mayLeave db n expertId = true ∧ (n, expertId) ∉ victims :=
  any_deleteAll db victims n expertId fun row => row.state == .loaded || row.state == .null

theorem mayLeave_hasRow {n : Nat} {expertId : String} (h : mayLeave db n expertId = true) :
    hasRow db n expertId = true := by
  obtain ⟨row, hrow, htest⟩ := List.any_eq_true.mp h
  rw [Bool.and_eq_true] at htest
  exact List.any_eq_true.mpr ⟨row, hrow, htest.1⟩

/-- rows that are new are all inserted -/
theorem upsertBatch_fresh (db : Database) (rows : List Expert)
    (hnew : ∀ row ∈ rows, hasRow db row.nodeId row.expertId = false)
    (hnd : (rows.map fun row => (row.nodeId, row.expertId)).Nodup) :
    (db.expertUpsertBatch rows).experts = db.experts ++ rows := by
  unfold Database.expertUpsertBatch
  induction rows generalizing db with
  | nil => rw [List.foldl_nil, List.append_nil]
  | cons row rows ih =>
    obtain ⟨hrow, hrest⟩ := List.nodup_cons.mp hnd
    have hinsert : db.expertUpsert row = { db with experts := db.experts ++ [row] } := by
      refine if_neg fun hexists => ?_
      obtain ⟨old, hold, hkey⟩ := List.any_eq_true.mp hexists
      simp only [Expert.sameKey, Bool.and_eq_true, beq_iff_eq] at hkey
      have hhas : hasRow db row.nodeId row.expertId = true :=
        List.any_eq_true.mpr ⟨old, hold, by simp [hkey]⟩
      rw [hnew row List.mem_cons_self] at hhas
      exact absurd hhas Bool.false_ne_true
    rw [List.foldl_cons, ih (db.expertUpsert row) (fun other hother => ?_) hrest, hinsert,
      List.append_assoc, List.singleton_append]
    rw [hasRow_upsert, hnew other (List.mem_cons_of_mem _ hother), Bool.false_or,
      Bool.and_eq_false_iff, beq_eq_false_iff_ne, beq_eq_false_iff_ne]
    by_contra hsame
    push Not at hsame
    exact hrow (List.mem_map.mpr ⟨other, hother, Prod.ext hsame.1.symm hsame.2.symm⟩)

theorem rows_deleteAll (db : Database) (victims : List (Nat × String)) (n : Nat) :
    (deleteAll db victims).rows n =
      ((db.expertsByNode n).filter fun row => (n, row.expertId) ∉ victims).length := by
  unfold Database.rows Database.expertsByNode
  rw [deleteAll_experts, List.filter_filter, List.filter_filter]
  congr 1
  refine List.filter_congr fun row _ => ?_
  rw [Bool.eq_iff_iff]
  simp only [outside, Bool.and_eq_true, decide_eq_true_eq]
  constructor
  · rintro ⟨rfl, hout⟩
    exact ⟨hout, rfl⟩
  · rintro ⟨hout, rfl⟩
    exact ⟨rfl, hout⟩

/-- with one row for each expert of the node, a victim frees one slot -/
theorem rows_deleteAll_ge {n : Nat} (victims : List (Nat × String))
    (hone : ((db.expertsByNode n).map Expert.expertId).Nodup) :
    db.rows n ≤ (deleteAll db victims).rows n + (victims.map Prod.fst).count n := by
  have hsplit := List.length_eq_length_filter_add (l := db.expertsByNode n)
    fun row => decide ((n, row.expertId) ∉ victims)
  have hgone : (((db.expertsByNode n).filter fun row =>
      !decide ((n, row.expertId) ∉ victims)).map Expert.expertId).Nodup :=
    hone.sublist (List.filter_sublist.map _)
  have hsub : (((db.expertsByNode n).filter fun row =>
      !decide ((n, row.expertId) ∉ victims)).map Expert.expertId) ⊆
      (victims.filter fun victim => victim.1 = n).map Prod.snd := by
    intro expertId hmem
    obtain ⟨row, hrow, rfl⟩ := List.mem_map.mp hmem
    have hin := (List.mem_filter.mp hrow).2
    rw [Bool.not_eq_true', decide_eq_false_iff_not, not_not] at hin
    exact List.mem_map.mpr ⟨(n, row.expertId), List.mem_filter.mpr ⟨hin, by simp⟩, rfl⟩
  have hle := (hgone.subperm hsub).length_le
  rw [List.length_map, List.length_map] at hle
  rw [rows_deleteAll, List.count, List.countP_map, List.countP_eq_length_filter]
  have hsame : (victims.filter ((fun x => x == n) ∘ Prod.fst)).length =
      (victims.filter fun victim => victim.1 = n).length := by
    congr 1
  rw [hsame]
  unfold Database.rows
  omega

theorem countOn_eq (n : Nat) (rows : List Expert) :
    countOn n rows = (rows.map Expert.nodeId).count n := by
  unfold countOn
  rw [List.count, List.countP_map, List.countP_eq_length_filter]
  congr 1

theorem countOn_append (n : Nat) (rows more : List Expert) :
    countOn n (rows ++ more) = countOn n rows + countOn n more := by
  unfold countOn
  rw [List.filter_append, List.length_append]

/-! ## the replicas afterwards -/

theorem holders_eq (settings : Settings) (db : Database) (deadHostname expertId : String) :
    holders settings db deadHostname expertId =
      (Pruning.hosts ((survivors settings db deadHostname).map Node.id) (hasRow db)
        expertId).length := by
  unfold holders Pruning.hosts
  rw [← List.countP_eq_length_filter, List.countP_map]
  rfl

theorem survivors_ids (hvalid : db.Valid) :
    ((survivors settings db deadHostname).map Node.id).Nodup :=
  hvalid.ids.sublist ((List.filter_sublist.trans List.filter_sublist).map _)

theorem deleteAll_valid (hvalid : db.Valid) (victims : List (Nat × String)) :
    (deleteAll db victims).Valid := by
  induction victims generalizing db with
  | nil => exact hvalid
  | cons victim victims ih => exact ih ⟨hvalid.ids, hvalid.hostnames, hvalid.fresh⟩

/-- each victim is one replica less -/
theorem holders_deleteAll (hvalid : db.Valid) {victims : List (Nat × String)}
    (hdistinct : victims.Nodup) (hlegal : ∀ victim ∈ victims,
      victim.1 ∈ (survivors settings db deadHostname).map Node.id ∧
        hasRow db victim.1 victim.2 = true) (expertId : String) :
    holders settings (deleteAll db victims) deadHostname expertId +
      Pruning.taken victims expertId = holders settings db deadHostname expertId := by
  rw [holders_eq settings db, ← Pruning.countP_gone (survivors_ids hvalid) hdistinct hlegal,
    List.length_eq_countP_add_countP fun n => decide ((n, expertId) ∈ victims), Nat.add_comm]
  congr 1
  unfold holders Pruning.hosts
  rw [survivors_deleteAll, List.countP_filter, List.countP_map]
  refine List.countP_congr fun node _ => ?_
  simp only [Function.comp_apply, Bool.and_eq_true, decide_eq_true_eq]
  rw [hasRow_deleteAll, and_comm]

theorem hasRow_written {rows : List Expert} {n : Nat} {expertId : String} :
    (rows.any fun row => row.nodeId == n && row.expertId == expertId) = true ↔
      ∃ row ∈ rows, row.nodeId = n ∧ row.expertId = expertId := by
  simp only [List.any_eq_true, Bool.and_eq_true, beq_iff_eq]

/-- a new expert has at most one replica -/
theorem holders_new (hvalid : db.Valid) {rows : List Expert}
    (hone : (rows.map Expert.expertId).Nodup) {expertId : String}
    (hzero : holders settings db deadHostname expertId = 0) :
    holders settings (db.expertUpsertBatch rows) deadHostname expertId ≤ 1 := by
  have hnone : ∀ node ∈ survivors settings db deadHostname,
      ¬ hasRow db node.id expertId = true := List.countP_eq_zero.mp hzero
  unfold holders
  rw [survivors_upsertBatch, List.countP_eq_length_filter]
  by_cases hexists : ∃ row ∈ rows, row.expertId = expertId
  · obtain ⟨row, hrow, hid⟩ := hexists
    have hsub : (((survivors settings db deadHostname).filter fun node =>
        hasRow (db.expertUpsertBatch rows) node.id expertId).map Node.id) ⊆ [row.nodeId] := by
      intro n hn
      obtain ⟨node, hnode, rfl⟩ := List.mem_map.mp hn
      obtain ⟨hmem, hhas⟩ := List.mem_filter.mp hnode
      rw [hasRow_upsertBatch, Bool.or_eq_true, hasRow_written] at hhas
      obtain ⟨other, hother, hn, hid'⟩ := hhas.resolve_left (hnone node hmem)
      have hsame : other = row := List.inj_on_of_nodup_map hone hother hrow (hid'.trans hid.symm)
      rw [← hn, hsame]
      exact List.mem_singleton_self _
    have hnd := (@survivors_ids settings deadHostname _
      hvalid).sublist ((List.filter_sublist (p := fun node =>
        hasRow (db.expertUpsertBatch rows) node.id expertId)).map Node.id)
    have hle := (hnd.subperm hsub).length_le
    rwa [List.length_map] at hle
  · rw [List.filter_eq_nil_iff.mpr fun node hmem hhas => ?_]
    · exact Nat.zero_le _
    · rw [hasRow_upsertBatch, Bool.or_eq_true, hasRow_written] at hhas
      obtain ⟨other, hother, _, hid⟩ := hhas.resolve_left (hnone node hmem)
      exact hexists ⟨other, hother, hid⟩

/-- an expert that is not written keeps its replicas -/
theorem holders_upsertBatch {rows : List Expert} {expertId : String}
    (hnot : expertId ∉ rows.map Expert.expertId) :
    holders settings (db.expertUpsertBatch rows) deadHostname expertId =
      holders settings db deadHostname expertId := by
  unfold holders
  rw [survivors_upsertBatch]
  refine List.countP_congr fun node _ => ?_
  rw [hasRow_upsertBatch, Bool.or_eq_true, or_iff_left]
  intro hany
  obtain ⟨row, hrow, _, hid⟩ := hasRow_written.mp hany
  exact hnot (List.mem_map.mpr ⟨row, hrow, hid⟩)

theorem holders_upsertBatch_le (rows : List Expert) (expertId : String) :
    holders settings db deadHostname expertId ≤
      holders settings (db.expertUpsertBatch rows) deadHostname expertId := by
  unfold holders
  rw [survivors_upsertBatch]
  refine List.countP_mono_left fun node _ hrow => ?_
  rw [hasRow_upsertBatch, hrow, Bool.true_or]

/-! ## the four parts -/

/-- the expert is assigned, placed or reported, once, and its rows on the targets are those that
were written -/
structure SettledOnce (targets : List Node) (settled : List Settlement) (db' : Database)
    (expertId : String) : Prop where
  once : settled.countP (fun settlement => settlement.expertId = expertId) = 1
  onTargets : ∀ n, .assigned n expertId ∈ settled ∨ .placed n expertId ∈ settled →
    n ∈ targets.map Node.id
  rows : ∀ target ∈ targets, hasRow db' target.id expertId = true ↔
    .assigned target.id expertId ∈ settled ∨ .placed target.id expertId ∈ settled

/-- each expert of the lost node that has no other active replica -/
def EachSettled (settings : Settings) (deadHostname : String) (loading : List String)
    (db : Database) (settled : List Settlement) (db' : Database) : Prop :=
  ∀ row ∈ lostRows db deadHostname, holders settings db deadHostname row.expertId = 0 →
    SettledOnce (recoveryTargets settings db deadHostname loading) settled db' row.expertId

/-- no target has more rows than it may have, unless it had them before -/
def WithinCapacity (targets : List Node) (db db' : Database) : Prop :=
  ∀ target ∈ targets, db'.rows target.id ≤ max (maxExperts target) (db.rows target.id)

def StillHeld (settings : Settings) (deadHostname : String) (db db' : Database) : Prop :=
  ∀ expertId, 0 < holders settings db deadHostname expertId →
    0 < holders settings db' deadHostname expertId

/-- an expert is reported only when the targets are full, and no row on them may be evicted -/
def NothingLeft (settings : Settings) (deadHostname : String) (targets : List Node)
    (settled : List Settlement) (db' : Database) : Prop :=
  ∀ expertId, .unplaced expertId ∈ settled → ∀ target ∈ targets,
    maxExperts target ≤ db'.rows target.id ∧ ∀ other, mayLeave db' target.id other = true →
      holders settings db' deadHostname other ≤ 1

section
variable {targets : List Node} {unique : List String} {victims : List (Nat × String)}
  {placements direct : List Expert} {left : List String}

theorem PlanSpec.legal
    (h : PlanSpec settings db deadHostname targets unique victims placements direct left)
    (htargets : targets ⊆ survivors settings db deadHostname) : ∀ victim ∈ victims,
      victim.1 ∈ (survivors settings db deadHostname).map Node.id ∧
        hasRow db victim.1 victim.2 = true :=
  fun victim hvictim => ⟨List.map_subset _ htargets (h.pruned.legal victim hvictim).1,
    mayLeave_hasRow (h.pruned.legal victim hvictim).2⟩

theorem PlanSpec.count_slots
    (h : PlanSpec settings db deadHostname targets unique victims placements direct left)
    (n : Nat) : (victims.map Prod.fst).count n = countOn n placements := by
  rw [h.slots, countOn_eq]

theorem PlanSpec.withinCapacity
    (h : PlanSpec settings db deadHostname targets unique victims placements direct left) :
    WithinCapacity targets db
      ((deleteAll db victims).expertUpsertBatch (placements ++ direct)) := by
  intro target htarget
  have hwritten := Database.rows_upsertBatch_le (deleteAll db victims) (placements ++ direct)
    target.id
  have hfreed := @length_filter_victims target.id _ (db.expertsByNode target.id)
    h.pruned.distinct fun victim hvictim hn => by
      obtain ⟨row, hrow, htest⟩ := List.any_eq_true.mp (h.pruned.legal victim hvictim).2
      rw [Bool.and_eq_true, Bool.and_eq_true, beq_iff_eq, beq_iff_eq] at htest
      exact List.mem_map.mpr ⟨row, List.mem_filter.mpr
        ⟨hrow, decide_eq_true (htest.1.1.trans hn)⟩, htest.1.2⟩
  have hslots := h.count_slots target.id
  have hcount : (victims.map Prod.fst).count target.id =
      (victims.filter fun victim => victim.1 = target.id).length := by
    rw [List.count, List.countP_map, List.countP_eq_length_filter]
    congr 1
  have hfits := h.fits target htarget
  rw [← rows_deleteAll] at hfreed
  change _ ≤ _ + countOn target.id (placements ++ direct) at hwritten
  rw [countOn_append] at hwritten
  unfold remainingSlots at hfits
  unfold Database.rows at *
  omega

theorem PlanSpec.stillHeld (hvalid : db.Valid)
    (h : PlanSpec settings db deadHostname targets unique victims placements direct left)
    (htargets : targets ⊆ survivors settings db deadHostname) :
    StillHeld settings deadHostname db
      ((deleteAll db victims).expertUpsertBatch (placements ++ direct)) := by
  intro expertId hpos
  have hcount := holders_deleteAll hvalid h.pruned.distinct (h.legal htargets) expertId
  have hspare := h.pruned.spare expertId
  have hle := @holders_upsertBatch_le settings deadHostname (deleteAll db victims)
    (placements ++ direct) expertId
  omega

theorem mem_settledBy_assigned {n : Nat} {expertId : String} :
    .assigned n expertId ∈ settledBy placements direct left ↔
      ∃ row ∈ direct, row.nodeId = n ∧ row.expertId = expertId := by
  simp [settledBy]

theorem mem_settledBy_placed {n : Nat} {expertId : String} :
    .placed n expertId ∈ settledBy placements direct left ↔
      ∃ row ∈ placements, row.nodeId = n ∧ row.expertId = expertId := by
  simp [settledBy]

theorem mem_settledBy_unplaced {expertId : String} :
    .unplaced expertId ∈ settledBy placements direct left ↔ expertId ∈ left := by
  simp [settledBy]

theorem settledBy_ids : (settledBy placements direct left).map Settlement.expertId =
    left ++ (placements ++ direct).map Expert.expertId := by
  simp only [settledBy, List.map_append, List.map_map, Function.comp_def, Settlement.expertId,
    List.map_id']

/-- an expert without a replica has no row on a target when the victims are gone -/
theorem not_hasRow_deleteAll {expertId : String}
    (hzero : holders settings db deadHostname expertId = 0) (victims : List (Nat × String))
    {target : Node} (htarget : target ∈ survivors settings db deadHostname) :
    hasRow (deleteAll db victims) target.id expertId = false := by
  rw [← Bool.not_eq_true, hasRow_deleteAll]
  exact fun h => List.countP_eq_zero.mp hzero target htarget h.1

theorem PlanSpec.settledOnce
    (h : PlanSpec settings db deadHostname targets unique victims placements direct left)
    (htargets : targets ⊆ survivors settings db deadHostname) (hunique : unique.Nodup)
    {expertId : String} (hmem : expertId ∈ unique)
    (hzero : holders settings db deadHostname expertId = 0) :
    SettledOnce targets (settledBy placements direct left)
      ((deleteAll db victims).expertUpsertBatch (placements ++ direct)) expertId := by
  refine ⟨?_, fun n hn => ?_, fun target htarget => ?_⟩
  · have hcount := (@settledBy_ids placements direct left ▸ h.perm).count_eq expertId
    rw [List.count_eq_one_of_mem hunique hmem, List.count, List.countP_map] at hcount
    rw [← hcount]
    exact List.countP_congr fun settlement _ => by simp
  · rw [mem_settledBy_assigned, mem_settledBy_placed] at hn
    rcases hn with ⟨row, hrow, rfl, _⟩ | ⟨row, hrow, rfl, _⟩
    · exact (h.written row (List.mem_append_right _ hrow)).1
    · exact (h.written row (List.mem_append_left _ hrow)).1
  · rw [hasRow_upsertBatch, not_hasRow_deleteAll hzero victims (htargets htarget), Bool.false_or,
      hasRow_written, mem_settledBy_assigned, mem_settledBy_placed]
    simp only [List.mem_append]
    constructor
    · rintro ⟨row, hrow | hrow, heq⟩
      · exact .inr ⟨row, hrow, heq⟩
      · exact .inl ⟨row, hrow, heq⟩
    · rintro (⟨row, hrow, heq⟩ | ⟨row, hrow, heq⟩)
      · exact ⟨row, .inr hrow, heq⟩
      · exact ⟨row, .inl hrow, heq⟩

theorem PlanSpec.fresh
    (h : PlanSpec settings db deadHostname targets unique victims placements direct left)
    (htargets : targets ⊆ survivors settings db deadHostname) (hunique : unique.Nodup)
    (hzero : ∀ expertId ∈ unique, holders settings db deadHostname expertId = 0) :
    ((deleteAll db victims).expertUpsertBatch (placements ++ direct)).experts =
      (deleteAll db victims).experts ++ (placements ++ direct) := by
  have hids := (List.nodup_append.mp (h.perm.nodup_iff.mpr hunique)).2.1
  refine upsertBatch_fresh _ _ (fun row hrow => ?_) ?_
  · obtain ⟨target, htarget, hid⟩ := List.mem_map.mp (h.written row hrow).1
    rw [← hid]
    exact not_hasRow_deleteAll (hzero _ (h.perm.subset
      (List.mem_append_right _ (List.mem_map_of_mem hrow)))) victims (htargets htarget)
  · refine List.Nodup.of_map Prod.snd ?_
    rwa [List.map_map]

theorem PlanSpec.nothingLeft (hvalid : db.Valid)
    (h : PlanSpec settings db deadHostname targets unique victims placements direct left)
    (htargets : targets ⊆ survivors settings db deadHostname) (hunique : unique.Nodup)
    (hzero : ∀ expertId ∈ unique, holders settings db deadHostname expertId = 0)
    (hone : ∀ target ∈ targets, ((db.expertsByNode target.id).map Expert.expertId).Nodup) :
    NothingLeft settings deadHostname targets (settledBy placements direct left)
      ((deleteAll db victims).expertUpsertBatch (placements ++ direct)) := by
  intro expertId hleft target htarget
  rw [mem_settledBy_unplaced] at hleft
  have hsome : left ≠ [] := List.ne_nil_of_mem hleft
  have hids := (List.nodup_append.mp (h.perm.nodup_iff.mpr hunique)).2.1
  have hfresh := h.fresh htargets hunique hzero
  constructor
  · have hfreed := rows_deleteAll_ge victims (hone target htarget)
    have hfull := h.full hsome target htarget
    have hslots := h.count_slots target.id
    have hrows : ((deleteAll db victims).expertUpsertBatch (placements ++ direct)).rows target.id =
        (deleteAll db victims).rows target.id + countOn target.id (placements ++ direct) := by
      unfold Database.rows Database.expertsByNode countOn
      rw [hfresh, List.filter_append, List.length_append]
    rw [hrows, countOn_append]
    unfold remainingSlots at hfull
    omega
  · intro other hmay
    by_cases hnew : other ∈ (placements ++ direct).map Expert.expertId
    · -- the new rows of an expert are its only ones
      have hnone := hzero other (h.perm.subset (List.mem_append_right _ hnew))
      have hcount := holders_deleteAll hvalid h.pruned.distinct (h.legal htargets) other
      exact holders_new (deleteAll_valid hvalid victims) hids (by omega)
    · have hold : mayLeave (deleteAll db victims) target.id other = true := by
        unfold mayLeave at hmay ⊢
        rw [hfresh, List.any_append, Bool.or_eq_true] at hmay
        refine hmay.resolve_right fun hany => ?_
        obtain ⟨row, hrow, htest⟩ := List.any_eq_true.mp hany
        rw [Bool.and_eq_true, Bool.and_eq_true, beq_iff_eq, beq_iff_eq] at htest
        exact hnew (List.mem_map.mpr ⟨row, hrow, htest.1.2⟩)
      obtain ⟨hmay, hkept⟩ := (mayLeave_deleteAll db victims target.id other).mp hold
      have hcount := holders_deleteAll hvalid h.pruned.distinct (h.legal htargets) other
      rw [holders_upsertBatch hnew]
      by_contra hmore
      exact h.exhausted hsome target.id (List.mem_map_of_mem htarget) other
        ⟨hmay, hkept, by omega⟩

end

/-! ## the whole task -/

theorem holders_uniqueIds {expertId : String}
    (h : expertId ∈ uniqueIds settings db deadHostname) :
    holders settings db deadHostname expertId = 0 := by
  obtain ⟨row, hrow, rfl⟩ := List.mem_map.mp h
  exact of_decide_eq_true (List.mem_filter.mp hrow).2

theorem uniqueIds_nodup
    (hone : ((lostRows db deadHostname).map Expert.expertId).Nodup) :
    (uniqueIds settings db deadHostname).Nodup :=
  hone.sublist (List.filter_sublist.map _)

/-- **Where the experts of a lost worker go.**  The task alone comes to one end.  No target gets
more rows than it may have, and no expert loses its last active replica.  If the lost node has one
row for each expert, there is a target and the instance exists, each of its experts without another
active replica is assigned, placed or reported, once; and with one row for each expert on the
targets as well, an expert is reported only when they are full and nothing may be evicted. -/
theorem recovery_settles (settings : Settings) (deadHostname : String) (loading : List String)
    {db : Database} (hvalid : db.Valid) : ∃ settled db',
    Recovery.Settling settings deadHostname loading (db, .lookup) settled (db', .done) ∧
    (∀ settled' end', Recovery.Settling settings deadHostname loading (db, .lookup) settled'
      (end', .done) → settled' = settled ∧ end' = db') ∧
    (((lostRows db deadHostname).map Expert.expertId).Nodup →
      recoveryTargets settings db deadHostname loading ≠ [] →
      db.instanceByName settings.instanceName ≠ none →
      EachSettled settings deadHostname loading db settled db') ∧
    WithinCapacity (recoveryTargets settings db deadHostname loading) db db' ∧
    StillHeld settings deadHostname db db' ∧
    (((lostRows db deadHostname).map Expert.expertId).Nodup →
      (∀ target ∈ recoveryTargets settings db deadHostname loading,
        ((db.expertsByNode target.id).map Expert.expertId).Nodup) →
      NothingLeft settings deadHostname (recoveryTargets settings db deadHostname loading) settled
        db') := by
  rcases @settling_lookup settings deadHostname loading _
    hvalid with ⟨hrun, hover⟩ | ⟨hsome, instanceId, hrun⟩
  · refine ⟨[], db, hrun, fun _ _ hother => hother.unique hrun, fun _ htarget hinstance row hrow
      hzero => ?_, fun _ _ => Nat.le_max_right _ _, fun _ hpos => hpos,
      fun _ _ _ hleft => absurd hleft List.not_mem_nil⟩
    rcases hover with hnone | hnone | hnone
    · have hmem : row.expertId ∈ uniqueIds settings db deadHostname :=
        List.mem_map_of_mem (List.mem_filter.mpr ⟨hrow, decide_eq_true hzero⟩)
      rw [hnone] at hmem
      exact absurd hmem List.not_mem_nil
    · exact absurd hnone htarget
    · exact absurd hnone hinstance
  · have htargets : recoveryTargets settings db deadHostname loading ⊆
        survivors settings db deadHostname := List.filter_subset_self _
    have hids : ((recoveryTargets settings db deadHostname loading).map Node.id).Nodup :=
      (survivors_ids hvalid).sublist (List.filter_sublist.map _)
    obtain ⟨victims, placements, direct, left, hspec, hplan⟩ :=
      @settling_plan settings deadHostname loading _
        hvalid _ hids hsome (uniqueIds settings db deadHostname) instanceId
    have hwhole := hrun.trans hplan
    refine ⟨_, _, hwhole, fun _ _ hother => hother.unique hwhole, fun hone _ _ row hrow hzero => ?_,
      hspec.withinCapacity, hspec.stillHeld hvalid htargets, fun hone htwo => ?_⟩
    · exact hspec.settledOnce htargets (uniqueIds_nodup hone)
        (List.mem_map_of_mem (List.mem_filter.mpr ⟨hrow, decide_eq_true hzero⟩)) hzero
    · exact hspec.nothingLeft hvalid htargets (uniqueIds_nodup hone)
        (fun _ hmem => holders_uniqueIds hmem) htwo

end

/-! ## two rows of one expert, and nowhere to go -/

def placeSettings : Settings := ⟨10, "inst", "m", (0, 1), 2, 1⟩

def placeNode (id : Nat) (hostname : String) (maximum : Int) : Node :=
  ⟨id, hostname, "cuda:0", (∅ : NodeConfig).insert "max_experts" (.number maximum), some 5⟩

/-- worker-a is lost, and may be active still -/
def placeDatabase (maximum : Int) (experts : List Expert) (instances : List Instance) : Database :=
  { now := 6
    nodes := [placeNode 1 "worker-a" 2, placeNode 2 "worker-b" maximum, placeNode 3 "worker-c" 1]
    nextNodeId := 4
    experts := experts
    instances := instances
    nextInstanceId := 3
    models := [⟨1, "m"⟩] }

theorem placeDatabase_valid (maximum : Int) (experts : List Expert) (instances : List Instance) :
    (placeDatabase maximum experts instances).Valid :=
  ⟨by simp [placeDatabase, placeNode], by simp [placeDatabase, placeNode],
    by simp [placeDatabase, placeNode]⟩

def lostExpert (instanceId : Nat) (expertId : String) : Expert :=
  ⟨instanceId, 1, expertId, 0, .loaded⟩

/-- three experts are lost with worker-a; worker-b has one free slot and a row that worker-c has as
well, and worker-c is full -/
def crowdedDatabase : Database :=
  placeDatabase 2 [lostExpert 1 "m/l0-e0", lostExpert 1 "m/l0-e1", lostExpert 1 "m/l0-e2",
    ⟨1, 2, "m/l1-e0", 0, .loaded⟩, ⟨1, 3, "m/l1-e0", 0, .loaded⟩] [⟨1, 1, "inst"⟩]

/-- the next `n` statements, with what they settle -/
def settle (settings : Settings) (deadHostname : String) (loading : List String) :
    Nat → Database × Recovery → List Settlement × (Database × Recovery)
  | 0, x => ([], x)
  | n + 1, x =>
    match x.2.step settings deadHostname loading x.1 with
    | none => ([], x)
    | some y =>
      let r := settle settings deadHostname loading n y
      (x.2.settlements ++ r.1, r.2)

theorem settling_settle (settings : Settings) (deadHostname : String) (loading : List String)
    (n : Nat) (x : Database × Recovery) :
    Recovery.Settling settings deadHostname loading x (settle settings deadHostname loading n x).1
      (settle settings deadHostname loading n x).2 := by
  induction n generalizing x with
  | zero => exact .refl x
  | succ n ih =>
    unfold settle
    cases hstep : x.2.step settings deadHostname loading x.1 with
    | none => exact .refl x
    | some y => exact .step hstep (ih y)

theorem done_of_step {settings : Settings} {deadHostname : String} {loading : List String}
    {db : Database} {phase : Recovery}
    (h : phase.step settings deadHostname loading db = none) : phase = .done := by
  unfold Recovery.step at h
  cases phase with
  | done => rfl
  | _ => grind

/-- the first expert takes the free slot, and then the row that is replicated leaves for the second -/
theorem crowded_settles : ∃ db', Recovery.Settling placeSettings "worker-a" []
    (crowdedDatabase, .lookup)
    [.unplaced "m/l0-e2", .placed 2 "m/l0-e1", .assigned 2 "m/l0-e0"] (db', .done) := by
  have hplan : Recovery.plan ["m/l0-e0", "m/l0-e1", "m/l0-e2"] 1
      [(placeNode 2 "worker-b" 2, 1), (placeNode 3 "worker-c" 1, 0)] =
        .evictActive ⟨[placeNode 2 "worker-b" 2, placeNode 3 "worker-c" 1], 1,
          [recoveredExpert 1 (placeNode 2 "worker-b" 2) "m/l0-e0"], ["m/l0-e1", "m/l0-e2"]⟩ := by
    simp [Recovery.plan, planDirect, sortCapacity, List.mergeSort,
      List.MergeSort.Internal.splitInTwo]
  set evicting : Evicting := ⟨[placeNode 2 "worker-b" 2, placeNode 3 "worker-c" 1], 1,
    [recoveredExpert 1 (placeNode 2 "worker-b" 2) "m/l0-e0"], ["m/l0-e1", "m/l0-e2"]⟩ with hevicting
  -- up to the plan nothing is written
  have hread : settle placeSettings "worker-a" [] 12 (crowdedDatabase, .lookup) =
      ([], crowdedDatabase, .readCapacity ["m/l0-e0", "m/l0-e1", "m/l0-e2"] 1 []
        [(placeNode 2 "worker-b" 2, 1), (placeNode 3 "worker-c" 1, 0)]) := by
    rfl
  have hstart := settling_settle placeSettings "worker-a" [] 12 (crowdedDatabase, .lookup)
  rw [hread] at hstart
  have hplanned : Recovery.Settling placeSettings "worker-a" []
      (crowdedDatabase, .readCapacity ["m/l0-e0", "m/l0-e1", "m/l0-e2"] 1 []
        [(placeNode 2 "worker-b" 2, 1), (placeNode 3 "worker-c" 1, 0)]) []
      (crowdedDatabase, .evictActive evicting) := by
    refine .quiet rfl ?_ (.refl _)
    rw [Recovery.step, hplan]
  have hrest := settling_settle placeSettings "worker-a" [] 12
    (crowdedDatabase, .evictActive evicting)
  have hsettled : (settle placeSettings "worker-a" [] 12
      (crowdedDatabase, .evictActive evicting)).1 =
        [.unplaced "m/l0-e2", .placed 2 "m/l0-e1", .assigned 2 "m/l0-e0"] := by
    decide +kernel
  have hover : ((settle placeSettings "worker-a" [] 12
      (crowdedDatabase, .evictActive evicting)).2.2.step placeSettings "worker-a" []
        (settle placeSettings "worker-a" [] 12
          (crowdedDatabase, .evictActive evicting)).2.1).isNone = true := by
    decide +kernel
  rw [hsettled] at hrest
  generalize (settle placeSettings "worker-a" [] 12
    (crowdedDatabase, .evictActive evicting)).2 = y at hrest hover
  obtain ⟨db', phase⟩ := y
  cases done_of_step (Option.isNone_iff_eq_none.mp hover)
  exact ⟨db', (hstart.trans hplanned).trans hrest⟩

theorem recovery_settles_one : ∃ db', let settled : List Settlement :=
      [.unplaced "m/l0-e2", .placed 2 "m/l0-e1", .assigned 2 "m/l0-e0"]
    Recovery.Settling placeSettings "worker-a" [] (crowdedDatabase, .lookup) settled (db', .done) ∧
    EachSettled placeSettings "worker-a" [] crowdedDatabase settled db' ∧
    NothingLeft placeSettings "worker-a"
      (recoveryTargets placeSettings crowdedDatabase "worker-a" []) settled db' := by
  obtain ⟨settled, db', hrun, hunique, heach, _, _, hleft⟩ :=
    recovery_settles placeSettings "worker-a" []
      (placeDatabase_valid 2 _ _ : crowdedDatabase.Valid)
  obtain ⟨end', hcrowded⟩ := crowded_settles
  obtain ⟨rfl, rfl⟩ := hunique _ _ hcrowded
  exact ⟨end', hrun, heach (by decide) (by decide) (by decide), hleft (by decide) (by decide)⟩

/-- the lost node has a row of the expert for two instances -/
def twiceDatabase : Database :=
  placeDatabase 1 [lostExpert 1 "m/l0-e0", lostExpert 2 "m/l0-e0"] [⟨1, 1, "inst"⟩, ⟨2, 1, "other"⟩]

/-- the first target has a row of an expert for two instances, and the other one still loads -/
def doubledDatabase : Database :=
  placeDatabase 2 [lostExpert 1 "m/l0-e0", lostExpert 1 "m/l0-e1",
      ⟨1, 2, "m/l1-e0", 0, .loaded⟩, ⟨2, 2, "m/l1-e0", 0, .loaded⟩, ⟨1, 3, "m/l1-e0", 0, .loaded⟩]
    [⟨1, 1, "inst"⟩, ⟨2, 1, "other"⟩]

/-- both rows of the lost node are assigned -/
theorem twiceDatabase_settled : ∃ settled db',
    Recovery.Settling placeSettings "worker-a" [] (twiceDatabase, .lookup) settled (db', .done) ∧
    ¬ EachSettled placeSettings "worker-a" [] twiceDatabase settled db' := by
  have hplan : ∀ instanceId, Recovery.plan ["m/l0-e0", "m/l0-e0"] instanceId
      [(placeNode 2 "worker-b" 1, 1), (placeNode 3 "worker-c" 1, 1)] = .assigning
        [recoveredExpert instanceId (placeNode 2 "worker-b" 1) "m/l0-e0",
          recoveredExpert instanceId (placeNode 3 "worker-c" 1) "m/l0-e0"] := by
    intro instanceId
    simp [Recovery.plan, planDirect, sortCapacity, List.mergeSort,
      List.MergeSort.Internal.splitInTwo]
  have hunique : uniqueIds placeSettings twiceDatabase "worker-a" = ["m/l0-e0", "m/l0-e0"] := by
    decide
  have hfree : freeSlots twiceDatabase
      (recoveryTargets placeSettings twiceDatabase "worker-a" []) =
        [(placeNode 2 "worker-b" 1, 1), (placeNode 3 "worker-c" 1, 1)] := by
    rfl
  rcases @settling_lookup placeSettings "worker-a" [] twiceDatabase
    (placeDatabase_valid 1 _ _) with ⟨_, hover⟩ | ⟨_, instanceId, hrun⟩
  · rcases hover with hnone | hnone | hnone <;> exact absurd hnone (by decide)
  · rw [hunique, hfree, hplan] at hrun
    exact ⟨_, _, hrun.trans (settling_assigning _ _), fun heach =>
      absurd (heach (lostExpert 1 "m/l0-e0") (by decide) (by decide)).once
        (by simp [recoveredExpert, lostExpert, Settlement.expertId])⟩

/-- a call that settles nothing, for an expert that has no other replica -/
theorem not_eachSettled_nil {settings : Settings} {deadHostname : String} {loading : List String}
    {db db' : Database} (hsome : uniqueIds settings db deadHostname ≠ []) :
    ¬ EachSettled settings deadHostname loading db [] db' := by
  obtain ⟨expertId, hmem⟩ := List.exists_mem_of_ne_nil _ hsome
  obtain ⟨row, hrow, _⟩ := List.mem_map.mp hmem
  obtain ⟨hlost, hzero⟩ := List.mem_filter.mp hrow
  exact fun heach => absurd (heach row hlost (of_decide_eq_true hzero)).once Nat.zero_ne_one

/-- one victim frees both slots of the target, and the second expert is reported all the same -/
theorem doubledDatabase_settled : ∃ settled db',
    Recovery.Settling placeSettings "worker-a" ["worker-c"] (doubledDatabase, .lookup) settled
      (db', .done) ∧
    ¬ NothingLeft placeSettings "worker-a"
      (recoveryTargets placeSettings doubledDatabase "worker-a" ["worker-c"]) settled db' := by
  have hvalid : doubledDatabase.Valid := placeDatabase_valid 2 _ _
  have htargets : recoveryTargets placeSettings doubledDatabase "worker-a" ["worker-c"] =
      [placeNode 2 "worker-b" 2] := rfl
  have hunique : uniqueIds placeSettings doubledDatabase "worker-a" = ["m/l0-e0", "m/l0-e1"] := by
    decide
  rcases @settling_lookup placeSettings "worker-a" ["worker-c"] _
    hvalid with ⟨_, hover⟩ | ⟨hsome, instanceId, hrun⟩
  · rcases hover with hnone | hnone | hnone <;> exact absurd hnone (by decide)
  · obtain ⟨victims, placements, direct, left, hspec, hplan⟩ :=
      @settling_plan placeSettings "worker-a" ["worker-c"] _ hvalid
        [placeNode 2 "worker-b" 2] (by decide)
        (by decide) ["m/l0-e0", "m/l0-e1"] instanceId
    rw [htargets, hunique] at hrun
    refine ⟨_, _, hrun.trans hplan, fun hnothing => ?_⟩
    rw [htargets] at hnothing
    have hnode : ∀ row ∈ placements ++ direct, row.nodeId = 2 := fun row hrow =>
      List.mem_singleton.mp (hspec.written row hrow).1
    have hdirect : direct = [] := by
      refine List.eq_nil_iff_forall_not_mem.mpr fun row hrow => ?_
      have hfits := hspec.fits _ (List.mem_singleton_self _)
      have hpos : 0 < countOn 2 direct := List.length_pos_of_mem (List.mem_filter.mpr
        ⟨hrow, decide_eq_true (hnode row (List.mem_append_right _ hrow))⟩)
      exact absurd (Nat.lt_of_lt_of_le hpos hfits) (by decide)
    have hvictim : ∀ victim ∈ victims, victim = (2, "m/l1-e0") := by
      intro victim hmem
      obtain ⟨hid, hmay⟩ := hspec.pruned.legal victim hmem
      obtain ⟨row, hrow, htest⟩ := List.any_eq_true.mp hmay
      rw [Bool.and_eq_true, Bool.and_eq_true, beq_iff_eq, beq_iff_eq] at htest
      have hone : ∀ row ∈ doubledDatabase.experts, row.nodeId = 2 → row.expertId = "m/l1-e0" := by
        decide
      have htwo := List.mem_singleton.mp hid
      exact Prod.ext htwo (htest.1.2.symm.trans (hone row hrow (htest.1.1.trans htwo)))
    have hlength : victims.length ≤ 1 := (hspec.pruned.distinct.subperm fun victim hmem =>
      List.mem_singleton.mpr (hvictim victim hmem)).length_le
    have hplaced : placements.length = victims.length := by
      have hslots := congrArg List.length hspec.slots
      rwa [List.length_map, List.length_map, eq_comm] at hslots
    have hleft : left ≠ [] := by
      intro hnil
      have hcount := hspec.perm.length_eq
      rw [hnil, hdirect, List.nil_append, List.append_nil, List.length_map, hplaced] at hcount
      rw [hcount] at hlength
      exact absurd hlength (by decide)
    obtain ⟨expertId, hmem⟩ := List.exists_mem_of_ne_nil _ hleft
    have hfull := (hnothing expertId (mem_settledBy_unplaced.mpr hmem) _
      (List.mem_singleton_self _)).1
    have hevicted : (2, "m/l1-e0") ∈ victims := by
      by_contra hnot
      have hempty : victims = [] := List.eq_nil_iff_forall_not_mem.mpr fun victim hin =>
        hnot (hvictim victim hin ▸ hin)
      rw [hempty] at hspec
      exact hspec.exhausted hleft 2 (by decide) "m/l1-e0"
        ⟨by decide, List.not_mem_nil, by decide⟩
    have hgone : (deleteAll doubledDatabase victims).rows 2 = 0 := by
      rw [rows_deleteAll]
      refine List.length_eq_zero_iff.mpr (List.filter_eq_nil_iff.mpr fun row hrow => ?_)
      obtain ⟨hmem, hid⟩ := List.mem_filter.mp hrow
      have hone : ∀ row ∈ doubledDatabase.experts, row.nodeId = 2 → row.expertId = "m/l1-e0" := by
        decide
      rw [hone row hmem (of_decide_eq_true hid), decide_eq_true_iff, not_not]
      exact hevicted
    have hwritten := Database.rows_upsertBatch_le (deleteAll doubledDatabase victims)
      (placements ++ direct) 2
    have hle : (placements.filter fun row => row.nodeId = 2).length ≤ placements.length :=
      List.length_filter_le _ _
    rw [hgone, hdirect, List.append_nil] at hwritten
    have htwo : 2 ≤ ((deleteAll doubledDatabase victims).expertUpsertBatch
        (placements ++ direct)).rows 2 := hfull
    rw [hdirect, List.append_nil] at htwo
    omega

/-- the instance is missing, or every other node still loads: nothing is assigned and nothing is
reported; two rows of one expert on the lost node are assigned twice; and two rows of one expert on
a target leave a free slot there, with an expert reported -/
theorem recovery_settles_twice :
    (∃ settled db', Recovery.Settling placeSettings "worker-a" [] (twiceDatabase, .lookup) settled
      (db', .done) ∧ ¬ EachSettled placeSettings "worker-a" [] twiceDatabase settled db') ∧
    (∃ settled db', Recovery.Settling placeSettings "worker-a" []
      (placeDatabase 1 [lostExpert 1 "m/l0-e0"] [], .lookup) settled (db', .done) ∧
      ¬ EachSettled placeSettings "worker-a" [] (placeDatabase 1 [lostExpert 1 "m/l0-e0"] [])
        settled db') ∧
    (∃ settled db', Recovery.Settling placeSettings "worker-a" ["worker-b", "worker-c"]
      (placeDatabase 1 [lostExpert 1 "m/l0-e0"] [⟨1, 1, "inst"⟩], .lookup) settled (db', .done) ∧
      ¬ EachSettled placeSettings "worker-a" ["worker-b", "worker-c"]
        (placeDatabase 1 [lostExpert 1 "m/l0-e0"] [⟨1, 1, "inst"⟩]) settled db') ∧
    ∃ settled db', Recovery.Settling placeSettings "worker-a" ["worker-c"]
      (doubledDatabase, .lookup) settled (db', .done) ∧
      ¬ NothingLeft placeSettings "worker-a"
        (recoveryTargets placeSettings doubledDatabase "worker-a" ["worker-c"]) settled db' := by
  refine ⟨twiceDatabase_settled,
    ⟨[], placeDatabase 1 [lostExpert 1 "m/l0-e0"] [], ?_, not_eachSettled_nil (by decide)⟩,
    ⟨[], placeDatabase 1 [lostExpert 1 "m/l0-e0"] [⟨1, 1, "inst"⟩], ?_,
      not_eachSettled_nil (by decide)⟩, doubledDatabase_settled⟩
  · exact .quiet rfl rfl (.quiet rfl rfl (.quiet rfl rfl (.quiet rfl rfl (.quiet rfl rfl
      (.quiet rfl rfl (.quiet rfl rfl (.quiet rfl rfl (.refl _))))))))
  · exact .quiet rfl rfl (.quiet rfl rfl (.quiet rfl rfl (.quiet rfl rfl (.quiet rfl rfl
      (.refl _)))))

end ExpertKit.Elastic

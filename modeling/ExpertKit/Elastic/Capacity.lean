import ExpertKit.Elastic.Progressive
import ExpertKit.Lib.Steps

/-!
# Elasticity: assignments against reported capacity

Any number of recoveries and progressive assignments run at once.  A recovery counts the free slots of
its targets, plans, and writes later; a progressive assignment clears the rows of its node and inserts
the new ones later.  Between the count and the write the task *reserves* the node: the plan is right
only while no other task inserts rows there.

* `Task`, `Pool`, `Pool.step`       the tasks and their interleavings;
* `Task.reserves`, `Task.inserts`   the nodes a task has planned for, and those it writes next;
* `Shrinks`                         what the other statements do to the rows of a node;
* `planDirect_le`, `planEviction_spec`   the plans fit what was read;
* `capacity_respected`              no node exceeds its capacity in a run where no task inserts rows
                                    on a node that another one reserves.
-/

set_option linter.unusedSectionVars false

namespace ExpertKit.Elastic
open Std

/-! ## tasks -/

inductive Task where
  | recovery (deadHostname : String) (phase : Recovery)
  | progressive (hostname : String) (phase : Progressive)

def Task.step (settings : Settings) (x : Shared) : Task → Option (Shared × Task)
  | .recovery deadHostname phase =>
    (phase.step settings deadHostname x.loading x.db).map fun r =>
      ({ x with db := r.1 }, .recovery deadHostname r.2)
  | .progressive hostname phase =>
    (phase.step settings hostname x).map fun r => (r.1, .progressive hostname r.2)

/-- the task has not run yet -/
def Task.Fresh : Task → Prop
  | .recovery _ phase => phase = .lookup
  | .progressive _ phase => phase = .lookup

structure Pool where
  shared : Shared
  tasks : List Task

inductive PoolStep where
  /-- one statement of one task -/
  | run (task : Nat)
  /-- time passes -/
  | tick (seconds : Nat)
  /-- a heartbeat of a node -/
  | seen (hostname : String)

def Pool.step (settings : Settings) (x : Pool) : PoolStep → Option Pool
  | .run i =>
    (x.tasks[i]?).bind fun task => (task.step settings x.shared).map fun r =>
      ⟨r.1, x.tasks.set i r.2⟩
  | .tick seconds =>
    some { x with shared.db := { x.shared.db with now := x.shared.db.now + seconds } }
  | .seen hostname => some { x with shared.db := x.shared.db.nodeUpdateSeen hostname }

/-! ## reservations -/

/-- rows of the list on the node -/
def countOn (nodeId : Nat) (experts : List Expert) : Nat :=
  (experts.filter fun expert => expert.nodeId = nodeId).length

/-- the nodes whose free slots the rest of the task relies on -/
def Recovery.reserves (nodeId : Nat) : Recovery → Bool
  | .readCapacity _ _ _ capacity => (capacity.map fun entry => entry.1.id).contains nodeId
  | .evictActive e => (e.targets.map Node.id).contains nodeId
  | .evictRead e _ _ _ => (e.targets.map Node.id).contains nodeId
  | .evictCount e _ _ _ _ _ _ => (e.targets.map Node.id).contains nodeId
  | .deleting _ placements direct => decide (0 < countOn nodeId placements + countOn nodeId direct)
  | .placing placements direct => decide (0 < countOn nodeId placements + countOn nodeId direct)
  | .assigning direct => decide (0 < countOn nodeId direct)
  | _ => false

def Progressive.reserves (nodeId : Nat) : Progressive → Bool
  | .readInstance node => node.id == nodeId
  | .readModel node => node.id == nodeId
  | .createInstance node _ => node.id == nodeId
  | .acquire node _ _ => node.id == nodeId
  | .readActive node _ _ => node.id == nodeId
  | .countReplicas node _ _ _ _ _ => node.id == nodeId
  | .inserting _ _ _ rest => decide (0 < countOn nodeId rest)
  | _ => false

def Task.reserves (nodeId : Nat) : Task → Bool
  | .recovery _ phase => phase.reserves nodeId
  | .progressive _ phase => phase.reserves nodeId

/-- the rows that the next statement of the task inserts -/
def Recovery.inserts : Recovery → List Expert
  | .placing placements _ => placements
  | .assigning direct => direct
  | _ => []

def Progressive.inserts : Progressive → List Expert
  | .inserting _ _ _ (expert :: _) => [expert]
  | _ => []

def Task.inserts : Task → List Expert
  | .recovery _ phase => phase.inserts
  | .progressive _ phase => phase.inserts

/-- no other task reserves a node on which this step inserts rows -/
def Pool.exclusive (x : Pool) : PoolStep → Bool
  | .run i => (x.tasks[i]?).all fun task => task.inserts.all fun expert =>
      (List.range x.tasks.length).all fun j =>
        j == i || (x.tasks[j]?).all fun other => !other.reserves expert.nodeId
  | _ => true

theorem Pool.exclusive_run {x : Pool} {i j : Nat} {task other : Task} {expert : Expert}
    (h : x.exclusive (.run i) = true) (hi : x.tasks[i]? = some task)
    (hexpert : expert ∈ task.inserts) (hj : x.tasks[j]? = some other) (hji : j ≠ i) :
    other.reserves expert.nodeId = false := by
  simp only [Pool.exclusive, hi, Option.all_some, List.all_eq_true, List.mem_range] at h
  have hlt : j < x.tasks.length := (List.getElem?_eq_some_iff.mp hj).1
  have hother := h expert hexpert j hlt
  simpa [hj, hji] using hother

/-! ## rows by identifier -/

/-- the rows of the node whose identifier passes the test -/
def Database.rowsWhere (db : Database) (nodeId : Nat) (q : String → Bool) : Nat :=
  ((db.expertsByNode nodeId).filter fun expert => q expert.expertId).length

/-- no row of the node is added -/
def Shrinks (nodeId : Nat) (db db' : Database) : Prop :=
  ∀ q, db'.rowsWhere nodeId q ≤ db.rowsWhere nodeId q

theorem rowsWhere_true (db : Database) (nodeId : Nat) :
    db.rowsWhere nodeId (fun _ => true) = db.rows nodeId := by
  simp [Database.rowsWhere, Database.rows]

theorem rowsWhere_le_rows (db : Database) (nodeId : Nat) (q : String → Bool) :
    db.rowsWhere nodeId q ≤ db.rows nodeId :=
  List.length_filter_le _ _

theorem Shrinks.rows {nodeId : Nat} {db db' : Database} (h : Shrinks nodeId db db') :
    db'.rows nodeId ≤ db.rows nodeId := by
  have hall := h fun _ => true
  rwa [rowsWhere_true, rowsWhere_true] at hall

theorem Shrinks.refl (nodeId : Nat) (db : Database) : Shrinks nodeId db db := fun _ => Nat.le_refl _

theorem Shrinks.of_experts {nodeId : Nat} {db db' : Database} (h : db'.experts = db.experts) :
    Shrinks nodeId db db' := by
  intro q
  simp only [Database.rowsWhere, Database.expertsByNode, h]
  exact Nat.le_refl _

theorem Shrinks.of_sublist {nodeId : Nat} {db db' : Database}
    (h : db'.experts.Sublist db.experts) : Shrinks nodeId db db' := by
  intro q
  exact ((h.filter _).filter _).length_le

/-- a statement that rewrites the states keeps the rows -/
theorem Shrinks.of_map {nodeId : Nat} {db : Database} (f : Expert → Expert)
    (hnode : ∀ expert, (f expert).nodeId = expert.nodeId)
    (hid : ∀ expert, (f expert).expertId = expert.expertId) :
    Shrinks nodeId db { db with experts := db.experts.map f } := by
  intro q
  unfold Database.rowsWhere Database.expertsByNode
  simp only [List.filter_map, List.length_map, Function.comp_def, hnode, hid]
  exact Nat.le_refl _

theorem shrinks_upsert {nodeId : Nat} (db : Database) {expert : Expert}
    (h : expert.nodeId ≠ nodeId) : Shrinks nodeId db (db.expertUpsert expert) := by
  intro q
  unfold Database.expertUpsert
  split_ifs
  · exact Nat.le_refl _
  · unfold Database.rowsWhere Database.expertsByNode
    simp [List.filter_append, h]

theorem Shrinks.trans {nodeId : Nat} {db db' db'' : Database} (h : Shrinks nodeId db db')
    (h' : Shrinks nodeId db' db'') : Shrinks nodeId db db'' :=
  fun q => (h' q).trans (h q)

theorem shrinks_upsertBatch {nodeId : Nat} (db : Database) {experts : List Expert}
    (h : ∀ expert ∈ experts, expert.nodeId ≠ nodeId) :
    Shrinks nodeId db (db.expertUpsertBatch experts) := by
  unfold Database.expertUpsertBatch
  induction experts generalizing db with
  | nil => exact .refl nodeId db
  | cons expert experts ih =>
    have hhead := shrinks_upsert db (h expert List.mem_cons_self)
    exact hhead.trans (ih (db.expertUpsert expert) fun e he => h e (List.mem_cons_of_mem _ he))

/-! ## the plans -/

/-- the free slots of the node in a capacity list -/
def slots (nodeId : Nat) (capacity : List (Node × Nat)) : Nat :=
  ((capacity.filter fun entry => entry.1.id = nodeId).map Prod.snd).sum

theorem slots_cons (nodeId : Nat) (entry : Node × Nat) (capacity : List (Node × Nat)) :
    slots nodeId (entry :: capacity) =
      (if entry.1.id = nodeId then entry.2 else 0) + slots nodeId capacity := by
  unfold slots
  by_cases h : entry.1.id = nodeId <;> simp [h]

theorem slots_append (nodeId : Nat) (capacity more : List (Node × Nat)) :
    slots nodeId (capacity ++ more) = slots nodeId capacity + slots nodeId more := by
  unfold slots
  simp

theorem slots_sortCapacity (nodeId : Nat) (capacity : List (Node × Nat)) :
    slots nodeId (sortCapacity capacity) = slots nodeId capacity := by
  unfold slots sortCapacity
  exact (((List.mergeSort_perm capacity _).filter _).map _).sum_nat

theorem slots_eq_zero {nodeId : Nat} {capacity : List (Node × Nat)}
    (h : nodeId ∉ capacity.map fun entry => entry.1.id) : slots nodeId capacity = 0 := by
  have hnone : (capacity.filter fun entry => entry.1.id = nodeId) = [] := by
    apply List.filter_eq_nil_iff.mpr
    intro entry hentry he
    exact h (List.mem_map.mpr ⟨entry, hentry, of_decide_eq_true he⟩)
  unfold slots
  rw [hnone]
  rfl

theorem countOn_cons (nodeId : Nat) (expert : Expert) (experts : List Expert) :
    countOn nodeId (expert :: experts) =
      (if expert.nodeId = nodeId then 1 else 0) + countOn nodeId experts := by
  unfold countOn
  by_cases h : expert.nodeId = nodeId <;> simp [h, Nat.add_comm]

/-- the greedy assignment uses free slots only -/
theorem planDirect_le (instanceId nodeId : Nat) (unique : List String)
    (capacity : List (Node × Nat)) :
    countOn nodeId (planDirect instanceId unique capacity).1 ≤ slots nodeId capacity := by
  induction unique generalizing capacity with
  | nil => simp [planDirect, countOn]
  | cons expertId unique ih =>
    rw [← slots_sortCapacity nodeId capacity]
    unfold planDirect
    cases hsort : sortCapacity capacity with
    | nil => exact ih []
    | cons entry others =>
      obtain ⟨target, rem⟩ := entry
      simp only
      split_ifs with hrem
      · have hrest := ih ((target, rem - 1) :: others)
        rw [slots_cons] at hrest ⊢
        rw [countOn_cons]
        by_cases htarget : target.id = nodeId
        · simp only [recoveredExpert, htarget, if_true] at hrest ⊢
          omega
        · simp only [recoveredExpert, htarget, if_false] at hrest ⊢
          omega
      · exact ih ((target, rem) :: others)

theorem findVictim_spec {index : EvictionIndex} {evicted : List (Nat × String)}
    {targets : List Node} {node : Node} {victim : Expert}
    (h : findVictim index evicted targets = some (node, victim)) :
    node ∈ targets ∧ (∃ experts, index.nodeExperts[node.id]? = some experts ∧ victim ∈ experts) ∧
      (node.id, victim.expertId) ∉ evicted := by
  induction targets with
  | nil => cases h
  | cons first targets ih =>
    unfold findVictim at h
    split at h
    · obtain ⟨hmem, hrest⟩ := ih h
      exact ⟨List.mem_cons_of_mem _ hmem, hrest⟩
    · rename_i experts hexperts
      split at h
      · obtain ⟨hmem, hrest⟩ := ih h
        exact ⟨List.mem_cons_of_mem _ hmem, hrest⟩
      · rename_i first' rest hcandidates
        cases h
        have hvictim : victim ∈ evictionCandidates index evicted node experts := by
          rw [hcandidates]
          exact List.mem_cons_self
        unfold evictionCandidates at hvictim
        rw [List.mem_mergeSort, List.mem_filter] at hvictim
        obtain ⟨hmem, hfilter⟩ := hvictim
        simp only [Bool.and_eq_true, decide_eq_true_eq] at hfilter
        exact ⟨List.mem_cons_self, ⟨experts, hexperts, hmem⟩, hfilter.2⟩

/-- every placement takes the slot of a victim of its own, read on the same node -/
structure EvictionSpec (targets : List Node) (nodeExperts : ExtTreeMap Nat (List Expert))
    (evicted victims : List (Nat × String)) (placements : List Expert) : Prop where
  slots : victims.map Prod.fst = placements.map Expert.nodeId
  distinct : victims.Nodup
  new : ∀ victim ∈ victims, victim ∉ evicted
  read : ∀ victim ∈ victims, (∃ node ∈ targets, node.id = victim.1) ∧
    ∃ experts, nodeExperts[victim.1]? = some experts ∧ victim.2 ∈ experts.map Expert.expertId

theorem planEviction_spec (instanceId : Nat) (targets : List Node) (unplaced : List String)
    (index : EvictionIndex) (evicted : List (Nat × String)) :
    EvictionSpec targets index.nodeExperts evicted
      (planEviction instanceId targets unplaced index evicted).1
      (planEviction instanceId targets unplaced index evicted).2 := by
  induction unplaced generalizing index evicted with
  | nil => exact ⟨rfl, List.nodup_nil, by simp [planEviction], by simp [planEviction]⟩
  | cons expertId unplaced ih =>
    unfold planEviction
    cases hv : findVictim index evicted targets with
    | none => exact ih index evicted
    | some pair =>
      obtain ⟨node, victim⟩ := pair
      obtain ⟨hmem, ⟨experts, hexperts, hvictim⟩, hnew⟩ := findVictim_spec hv
      obtain ⟨hslots, hdistinct, hnews, hread⟩ := ih { index with
        replicaCounts := index.replicaCounts.insert victim.expertId
          (index.count victim.expertId - 1) } ((node.id, victim.expertId) :: evicted)
      refine ⟨?_, ?_, ?_, ?_⟩
      · simp only [List.map_cons, recoveredExpert, hslots]
      · refine List.nodup_cons.mpr ⟨?_, hdistinct⟩
        intro h
        exact hnews _ h List.mem_cons_self
      · intro v hv'
        rcases List.mem_cons.mp hv' with rfl | hv'
        · exact hnew
        · exact fun h => hnews v hv' (List.mem_cons_of_mem _ h)
      · intro v hv'
        rcases List.mem_cons.mp hv' with rfl | hv'
        · exact ⟨⟨node, hmem, rfl⟩, experts, hexperts, List.mem_map.mpr ⟨victim, hvictim, rfl⟩⟩
        · exact hread v hv'

/-- distinct victims free at least as many rows as there are victims -/
theorem length_filter_victims {nodeId : Nat} {victims : List (Nat × String)}
    {experts : List Expert} (hdistinct : victims.Nodup)
    (hread : ∀ victim ∈ victims, victim.1 = nodeId →
      victim.2 ∈ experts.map Expert.expertId) :
    (experts.filter fun expert => (nodeId, expert.expertId) ∉ victims).length +
      (victims.filter fun victim => victim.1 = nodeId).length ≤ experts.length := by
  have hsplit := List.length_eq_length_filter_add (l := experts)
    fun expert => decide ((nodeId, expert.expertId) ∉ victims)
  have hmine : ((victims.filter fun victim => victim.1 = nodeId).map Prod.snd).Nodup := by
    refine List.Nodup.map_on ?_ (hdistinct.filter _)
    intro a ha b hb hab
    have ha' := of_decide_eq_true (List.mem_filter.mp ha).2
    have hb' := of_decide_eq_true (List.mem_filter.mp hb).2
    exact Prod.ext (ha'.trans hb'.symm) hab
  have hsub : ((victims.filter fun victim => victim.1 = nodeId).map Prod.snd) ⊆
      (experts.filter fun expert => !decide ((nodeId, expert.expertId) ∉ victims)).map
        Expert.expertId := by
    intro id hid
    obtain ⟨victim, hvictim, rfl⟩ := List.mem_map.mp hid
    obtain ⟨hmem, hnode⟩ := List.mem_filter.mp hvictim
    have hnode' := of_decide_eq_true hnode
    obtain ⟨expert, hexpert, he⟩ := List.mem_map.mp (hread victim hmem hnode')
    refine List.mem_map.mpr ⟨expert, List.mem_filter.mpr ⟨hexpert, ?_⟩, he⟩
    have hin : (nodeId, expert.expertId) ∈ victims := by
      rw [he, ← hnode']
      exact hmem
    simpa using hin
  have hle := (List.subperm_of_subset hmine hsub).length_le
  rw [List.length_map, List.length_map] at hle
  omega

/-! ## plans that fit -/

section
variable {m : Nat → Nat}

/-- distinct nodes with the capacity that `m` gives their ids -/
structure Targets (m : Nat → Nat) (nodes : List Node) : Prop where
  distinct : (nodes.map Node.id).Nodup
  capacity : ∀ node ∈ nodes, maxExperts node = m node.id

theorem Targets.sublist {nodes nodes' : List Node} (h : Targets m nodes)
    (hs : nodes'.Sublist nodes) : Targets m nodes' :=
  ⟨h.distinct.sublist (hs.map _), fun node hnode => h.capacity node (hs.subset hnode)⟩

/-- the rows that were read cover the rows that are there, whatever their identifiers -/
def Covers (db : Database) (nodeId : Nat) (experts : List Expert) : Prop :=
  ∀ q : String → Bool, db.rowsWhere nodeId q ≤
    (experts.filter fun expert => q expert.expertId).length

theorem Covers.shrinks {db db' : Database} {nodeId : Nat} {experts : List Expert}
    (h : Covers db nodeId experts) (hs : Shrinks nodeId db db') : Covers db' nodeId experts :=
  fun q => (hs q).trans (h q)

/-- the direct assignments fit the free slots of every target -/
structure DirectFits (m : Nat → Nat) (db : Database) (e : Evicting) : Prop where
  fits : ∀ n ∈ e.targets.map Node.id, db.rows n + countOn n e.direct ≤ m n
  targets : ∀ n, 0 < countOn n e.direct → n ∈ e.targets.map Node.id

/-- what was read about one target, beside the direct assignments -/
def ReadFits (m : Nat → Nat) (db : Database) (e : Evicting) (nodeId : Nat)
    (experts : List Expert) : Prop :=
  nodeId ∈ e.targets.map Node.id ∧ Covers db nodeId experts ∧
    experts.length + countOn nodeId e.direct ≤ m nodeId

def IndexFits (m : Nat → Nat) (db : Database) (e : Evicting) (index : EvictionIndex) : Prop :=
  ∀ nodeId experts, index.nodeExperts[nodeId]? = some experts → ReadFits m db e nodeId experts

/-- the rows of the node that no remaining victim names -/
def rowsOutside (db : Database) (victims : List (Nat × String)) (nodeId : Nat) : Nat :=
  db.rowsWhere nodeId (outside victims nodeId)

/-- the plan of a recovery still fits -/
def Recovery.Fits (m : Nat → Nat) (db : Database) : Recovery → Prop
  | .checkLoading _ _ rest targets => Targets m (targets ++ rest)
  | .findUnique _ targets _ _ => Targets m targets
  | .readInstance targets _ => Targets m targets
  | .readCapacity _ _ rest capacity =>
    Targets m (capacity.map Prod.fst ++ rest) ∧
      ∀ n ∈ capacity.map fun entry => entry.1.id, db.rows n + slots n capacity ≤ m n
  | .evictActive e => DirectFits m db e
  | .evictRead e _ rest index =>
    DirectFits m db e ∧ rest ⊆ e.targets ∧ IndexFits m db e index
  | .evictCount e _ node experts _ rest index =>
    DirectFits m db e ∧ rest ⊆ e.targets ∧ IndexFits m db e index ∧
      ReadFits m db e node.id experts
  | .deleting victims placements direct =>
    ∀ n, 0 < countOn n placements + countOn n direct →
      rowsOutside db victims n + countOn n placements + countOn n direct ≤ m n
  | .placing placements direct =>
    ∀ n, 0 < countOn n placements + countOn n direct →
      db.rows n + countOn n placements + countOn n direct ≤ m n
  | .assigning direct => ∀ n, 0 < countOn n direct → db.rows n + countOn n direct ≤ m n
  | _ => True

/-- the node was cleared, and what is still to insert fits -/
def Progressive.Fits (m : Nat → Nat) (settings : Settings) (db : Database) : Progressive → Prop
  | .readStale node => maxExperts node = m node.id
  | .clearStale node => maxExperts node = m node.id
  | .readInstance node => maxExperts node = m node.id ∧ db.rows node.id = 0
  | .readModel node => maxExperts node = m node.id ∧ db.rows node.id = 0
  | .createInstance node _ => maxExperts node = m node.id ∧ db.rows node.id = 0
  | .acquire node _ target => target * layerCount settings ≤ m node.id ∧ db.rows node.id = 0
  | .readActive node _ target => target * layerCount settings ≤ m node.id ∧ db.rows node.id = 0
  | .countReplicas node _ target _ _ _ =>
    target * layerCount settings ≤ m node.id ∧ db.rows node.id = 0
  | .inserting _ _ _ rest => ∀ n, 0 < countOn n rest → db.rows n + countOn n rest ≤ m n
  | _ => True

def Task.Fits (m : Nat → Nat) (settings : Settings) (db : Database) : Task → Prop
  | .recovery _ phase => phase.Fits m db
  | .progressive _ phase => phase.Fits m settings db

/-! ## other tasks -/

theorem DirectFits.shrinks {db db' : Database} {e : Evicting} (h : DirectFits m db e)
    (hs : ∀ n ∈ e.targets.map Node.id, Shrinks n db db') : DirectFits m db' e := by
  refine ⟨?_, h.targets⟩
  intro n hn
  have hrows := (hs n hn).rows
  have hfits := h.fits n hn
  omega

theorem ReadFits.shrinks {db db' : Database} {e : Evicting} {nodeId : Nat}
    {experts : List Expert} (h : ReadFits m db e nodeId experts)
    (hs : ∀ n ∈ e.targets.map Node.id, Shrinks n db db') : ReadFits m db' e nodeId experts :=
  ⟨h.1, h.2.1.shrinks (hs nodeId h.1), h.2.2⟩

theorem IndexFits.shrinks {db db' : Database} {e : Evicting} {index : EvictionIndex}
    (h : IndexFits m db e index) (hs : ∀ n ∈ e.targets.map Node.id, Shrinks n db db') :
    IndexFits m db' e index :=
  fun nodeId experts hx => (h nodeId experts hx).shrinks hs

/-- a statement that adds no row to a reserved node leaves the plan right -/
theorem Recovery.Fits.shrinks {db db' : Database} {phase : Recovery} (h : phase.Fits m db)
    (hs : ∀ n, phase.reserves n = true → Shrinks n db db') : phase.Fits m db' := by
  cases phase with
  | readCapacity unique instanceId rest capacity =>
    refine ⟨h.1, ?_⟩
    intro n hn
    have hrows := (hs n (List.contains_iff_mem.mpr hn)).rows
    have hfits := h.2 n hn
    omega
  | evictActive e => exact DirectFits.shrinks h fun n hn => hs n (List.contains_iff_mem.mpr hn)
  | evictRead e activeNodes rest index =>
    have hs' : ∀ n ∈ e.targets.map Node.id, Shrinks n db db' := fun n hn =>
      hs n (List.contains_iff_mem.mpr hn)
    exact ⟨h.1.shrinks hs', h.2.1, h.2.2.shrinks hs'⟩
  | evictCount e activeNodes node experts restExperts rest index =>
    have hs' : ∀ n ∈ e.targets.map Node.id, Shrinks n db db' := fun n hn =>
      hs n (List.contains_iff_mem.mpr hn)
    exact ⟨h.1.shrinks hs', h.2.1, h.2.2.1.shrinks hs', h.2.2.2.shrinks hs'⟩
  | deleting victims placements direct =>
    intro n hn
    have hrows := hs n (decide_eq_true hn) fun id => decide ((n, id) ∉ victims)
    have hfits := h n hn
    unfold rowsOutside outside at hfits ⊢
    omega
  | placing placements direct =>
    intro n hn
    have hrows := (hs n (decide_eq_true hn)).rows
    have hfits := h n hn
    omega
  | assigning direct =>
    intro n hn
    have hrows := (hs n (decide_eq_true hn)).rows
    have hfits := h n hn
    omega
  | lookup => exact h
  | readExperts dead => exact h
  | readActive deadExperts => exact h
  | checkLoading deadExperts activeNodes rest targets => exact h
  | findUnique activeNodes targets rest unique => exact h
  | readInstance targets unique => exact h
  | done => exact h

theorem Progressive.Fits.shrinks {settings : Settings} {db db' : Database} {phase : Progressive}
    (h : phase.Fits m settings db) (hs : ∀ n, phase.reserves n = true → Shrinks n db db') :
    phase.Fits m settings db' := by
  have hzero : ∀ {node : Node}, phase.reserves node.id = true → db.rows node.id = 0 →
      db'.rows node.id = 0 := by
    intro node hr h0
    have hrows := (hs node.id hr).rows
    omega
  cases phase with
  | readInstance node => exact ⟨h.1, hzero (beq_self_eq_true _) h.2⟩
  | readModel node => exact ⟨h.1, hzero (beq_self_eq_true _) h.2⟩
  | createInstance node modelId => exact ⟨h.1, hzero (beq_self_eq_true _) h.2⟩
  | acquire node instanceId target => exact ⟨h.1, hzero (beq_self_eq_true _) h.2⟩
  | readActive node instanceId target => exact ⟨h.1, hzero (beq_self_eq_true _) h.2⟩
  | countReplicas node instanceId target activeIds rest counts =>
    exact ⟨h.1, hzero (beq_self_eq_true _) h.2⟩
  | inserting node target indices rest =>
    intro n hn
    have hrows := (hs n (decide_eq_true hn)).rows
    have hfits := h n hn
    omega
  | lookup => exact h
  | readStale node => exact h
  | clearStale node => exact h
  | markLoading node target indices => exact h
  | promote node target indices => exact h
  | unmark => exact h
  | done => exact h

theorem Task.Fits.shrinks {settings : Settings} {db db' : Database} {task : Task}
    (h : task.Fits m settings db) (hs : ∀ n, task.reserves n = true → Shrinks n db db') :
    task.Fits m settings db' := by
  cases task with
  | recovery deadHostname phase => exact Recovery.Fits.shrinks h hs
  | progressive hostname phase => exact Progressive.Fits.shrinks h hs

/-! ## the task that runs -/

theorem countOn_eq_count (nodeId : Nat) (experts : List Expert) :
    countOn nodeId experts = (experts.map Expert.nodeId).count nodeId := by
  rw [List.count, List.countP_map, List.countP_eq_length_filter]
  rfl

theorem countOn_eq_zero {nodeId : Nat} {experts : List Expert} :
    countOn nodeId experts = 0 ↔ ∀ expert ∈ experts, expert.nodeId ≠ nodeId := by
  unfold countOn
  rw [List.length_eq_zero_iff, List.filter_eq_nil_iff]
  simp

theorem fits_plan {db : Database} {unique : List String} {instanceId : Nat}
    {capacity : List (Node × Nat)}
    (h : ∀ n ∈ capacity.map fun entry => entry.1.id, db.rows n + slots n capacity ≤ m n) :
    (Recovery.plan unique instanceId capacity).Fits m db := by
  have hmem : ∀ n, 0 < countOn n (planDirect instanceId unique capacity).1 →
      n ∈ capacity.map fun entry => entry.1.id := by
    intro n hn
    by_contra hnot
    have hle := planDirect_le instanceId n unique capacity
    rw [slots_eq_zero hnot] at hle
    omega
  have hfits : ∀ n ∈ capacity.map fun entry => entry.1.id,
      db.rows n + countOn n (planDirect instanceId unique capacity).1 ≤ m n := by
    intro n hn
    have hle := planDirect_le instanceId n unique capacity
    have hslots := h n hn
    omega
  have hids : ((capacity.map Prod.fst).map Node.id) = capacity.map fun entry => entry.1.id := by
    rw [List.map_map]
    rfl
  unfold Recovery.plan
  simp only
  split_ifs
  · exact fun n hn => hfits n (hmem n hn)
  · exact ⟨fun n hn => hfits n (hids ▸ hn), fun n hn => hids ▸ hmem n hn⟩

theorem fits_evict {db : Database} {e : Evicting} {index : EvictionIndex}
    (hdirect : DirectFits m db e) (hindex : IndexFits m db e index) :
    (Recovery.evict e index).Fits m db := by
  obtain ⟨hslots, hdistinct, _, hread⟩ :=
    planEviction_spec e.instanceId e.targets e.unplaced index []
  unfold Recovery.evict
  simp only
  split_ifs with hnone
  · exact fun n hn => hdirect.fits n (hdirect.targets n hn)
  · intro n hn
    generalize hr : planEviction e.instanceId e.targets e.unplaced index [] = r at *
    have hcount : countOn n r.2 = (r.1.filter fun victim => victim.1 = n).length := by
      rw [countOn_eq_count, ← hslots, List.count, List.countP_map, List.countP_eq_length_filter]
      rfl
    by_cases hvictims : (r.1.filter fun victim => victim.1 = n) = []
    · rw [hcount, hvictims] at hn ⊢
      simp only [List.length_nil] at hn ⊢
      have hfits := hdirect.fits n (hdirect.targets n (by omega))
      have hrows : rowsOutside db r.1 n ≤ db.rows n := rowsWhere_le_rows db n _
      omega
    · obtain ⟨victim, hvictim⟩ := List.exists_mem_of_ne_nil _ hvictims
      obtain ⟨hmem, hnode⟩ := List.mem_filter.mp hvictim
      have hnode' : victim.1 = n := of_decide_eq_true hnode
      obtain ⟨_, experts, hexperts, _⟩ := hread victim hmem
      rw [hnode'] at hexperts
      obtain ⟨_, hcovers, hfits⟩ := hindex n experts hexperts
      have houtside := hcovers fun id => decide ((n, id) ∉ r.1)
      have hlength : (experts.filter fun expert => (n, expert.expertId) ∉ r.1).length +
          (r.1.filter fun victim => victim.1 = n).length ≤ experts.length := by
        apply length_filter_victims hdistinct
        intro v hv hvn
        obtain ⟨_, experts', hexperts', hid⟩ := hread v hv
        rw [hvn, hexperts] at hexperts'
        cases hexperts'
        exact hid
      unfold rowsOutside outside
      omega

/-- removing a victim takes its rows out of the count -/
theorem rowsOutside_delete (db : Database) (nodeId : Nat) (victim : String)
    (victims : List (Nat × String)) (n : Nat) :
    rowsOutside (db.deleteExpertOnNode nodeId victim) victims n ≤
      rowsOutside db ((nodeId, victim) :: victims) n := by
  unfold rowsOutside outside Database.rowsWhere Database.expertsByNode Database.deleteExpertOnNode
  simp only [List.filter_filter, ← List.countP_eq_length_filter]
  apply List.countP_mono_left
  intro expert _ h
  simp only [Bool.and_eq_true, decide_eq_true_eq, Bool.not_eq_true', Bool.and_eq_false_iff,
    beq_eq_false_iff_ne] at h ⊢
  obtain ⟨hout, hnode, hother⟩ := h
  refine ⟨?_, hnode⟩
  intro hmem
  rcases List.mem_cons.mp hmem with heq | hmem
  · cases heq
    rcases hother with hother | hother
    · exact hother hnode
    · exact hother rfl
  · exact hout hmem

theorem rows_of_fits {db db' : Database} {experts : List Expert} {n : Nat}
    (hdb : db' = db.expertUpsertBatch experts) (rest : Nat)
    (h : 0 < countOn n experts + rest → db.rows n + countOn n experts + rest ≤ m n)
    (hn : 0 < rest) : db'.rows n + rest ≤ m n := by
  have hle : db'.rows n ≤ db.rows n + countOn n experts := by
    rw [hdb]
    exact db.rows_upsertBatch_le experts n
  have hfits := h (by omega)
  omega

/-- the nodes of the database, as the tasks may read them -/
def NodesFit (m : Nat → Nat) (db : Database) : Prop := Targets m db.nodes

theorem Recovery.step_fits {settings : Settings} {deadHostname : String} {loading : List String}
    {db db' : Database} {phase phase' : Recovery} (hnodes : NodesFit m db)
    (hbound : ∀ n, db.rows n ≤ m n) (h : phase.Fits m db)
    (hstep : phase.step settings deadHostname loading db = some (db', phase')) :
    phase'.Fits m db' := by
  cases phase with
  | lookup =>
    simp only [Recovery.step] at hstep
    split at hstep <;> cases hstep <;> trivial
  | readExperts dead =>
    simp only [Recovery.step] at hstep
    split_ifs at hstep <;> cases hstep <;> trivial
  | readActive deadExperts =>
    simp only [Recovery.step] at hstep
    split_ifs at hstep <;> cases hstep
    · trivial
    · exact hnodes.sublist ((List.filter_sublist).trans List.filter_sublist)
  | checkLoading deadExperts activeNodes rest targets =>
    have hfind : ∀ nodes, Targets m nodes →
        (Recovery.startFindUnique deadExperts activeNodes nodes).Fits m db := by
      intro nodes hnodes'
      unfold Recovery.startFindUnique
      split_ifs
      · trivial
      · exact hnodes'
    cases rest with
    | nil =>
      cases hstep
      exact hfind targets (h.sublist (List.sublist_append_left _ _))
    | cons node rest =>
      have hnext : Targets m ((if loading.contains node.hostname then targets
          else targets ++ [node]) ++ rest) := by
        split_ifs
        · exact h.sublist ((List.sublist_cons_self node rest).append_left targets)
        · rwa [List.append_assoc]
      simp only [Recovery.step] at hstep
      generalize (if loading.contains node.hostname then targets else targets ++ [node]) = next
        at hstep hnext
      split_ifs at hstep
      · cases hstep
        exact hfind next (hnext.sublist (List.sublist_append_left _ _))
      · cases hstep
        exact hnext
  | findUnique activeNodes targets rest unique =>
    cases rest with
    | nil =>
      simp only [Recovery.step] at hstep
      split_ifs at hstep <;> cases hstep
      · trivial
      · exact h
    | cons expert rest =>
      cases hstep
      exact h
  | readInstance targets unique =>
    simp only [Recovery.step] at hstep
    split at hstep <;> cases hstep
    · trivial
    · exact ⟨h, fun n hn => by cases hn⟩
  | readCapacity unique instanceId rest capacity =>
    obtain ⟨htargets, hfits⟩ := h
    cases rest with
    | nil =>
      cases hstep
      exact fits_plan hfits
    | cons node rest =>
      cases hstep
      refine ⟨by simpa using htargets, ?_⟩
      intro n hn
      rw [slots_append, slots_cons]
      rw [List.map_append, List.mem_append] at hn
      have hcapacity : maxExperts node = m node.id :=
        htargets.capacity node (by simp)
      have hnew : node.id ∉ capacity.map fun entry => entry.1.id := by
        have hd := htargets.distinct
        rw [List.map_append, List.map_cons, List.map_map] at hd
        exact fun hmem => (List.nodup_append.mp hd).2.2 node.id hmem node.id List.mem_cons_self rfl
      by_cases he : node.id = n
      · subst he
        have hrows := hbound node.id
        have hlen : (db.expertsByNode node.id).length = db.rows node.id := rfl
        rw [slots_eq_zero hnew, if_pos rfl]
        simp only [remainingSlots, hcapacity, hlen, slots, List.filter_nil, List.map_nil,
          List.sum_nil]
        omega
      · rw [if_neg he]
        have hold : n ∈ capacity.map fun entry => entry.1.id := by
          rcases hn with hn | hn
          · exact hn
          · simp only [List.map_cons, List.map_nil, List.mem_singleton] at hn
            exact absurd hn.symm he
        have hprev := hfits n hold
        simp only [slots, List.filter_nil, List.map_nil, List.sum_nil] at hprev ⊢
        omega
  | evictActive e =>
    cases hstep
    exact ⟨h, List.Subset.refl _, fun nodeId experts hx => by simp at hx⟩
  | evictRead e activeNodes rest index =>
    obtain ⟨hdirect, hrest, hindex⟩ := h
    cases rest with
    | nil =>
      cases hstep
      exact fits_evict hdirect hindex
    | cons node rest =>
      cases hstep
      have hmem : node.id ∈ e.targets.map Node.id :=
        List.mem_map.mpr ⟨node, hrest List.mem_cons_self, rfl⟩
      refine ⟨hdirect, fun x hx => hrest (List.mem_cons_of_mem _ hx), hindex, hmem, ?_, ?_⟩
      · exact fun q => Nat.le_refl _
      · exact hdirect.fits node.id hmem
  | evictCount e activeNodes node experts restExperts rest index =>
    obtain ⟨hdirect, hrest, hindex, hread⟩ := h
    cases restExperts with
    | nil =>
      cases hstep
      refine ⟨hdirect, hrest, ?_⟩
      intro nodeId experts' hx
      rw [Maps.getElem?_insert_eq] at hx
      split_ifs at hx with he
      · cases hx
        exact he ▸ hread
      · exact hindex nodeId experts' hx
    | cons expert restExperts =>
      simp only [Recovery.step] at hstep
      split_ifs at hstep <;> cases hstep
      · exact ⟨hdirect, hrest, hindex, hread⟩
      · exact ⟨hdirect, hrest, hindex, hread⟩
  | deleting victims placements direct =>
    cases victims with
    | nil =>
      cases hstep
      intro n hn
      have hfits := h n hn
      have hall : rowsOutside db [] n = db.rows n := by
        unfold rowsOutside outside
        simpa using rowsWhere_true db n
      omega
    | cons pair victims =>
      obtain ⟨nodeId, victim⟩ := pair
      cases hstep
      intro n hn
      have hfits := h n hn
      have hdelete := rowsOutside_delete db nodeId victim victims n
      omega
  | placing placements direct =>
    cases hstep
    exact fun n hn => rows_of_fits rfl (countOn n direct) (h n) hn
  | assigning direct =>
    cases hstep
    trivial
  | done => cases hstep

/-- only the rows that it inserts are added by a statement of a recovery -/
theorem Recovery.step_shrinks {settings : Settings} {deadHostname : String}
    {loading : List String} {db db' : Database} {phase phase' : Recovery}
    (hstep : phase.step settings deadHostname loading db = some (db', phase')) {n : Nat}
    (hn : countOn n phase.inserts = 0) : Shrinks n db db' := by
  rw [Recovery.step_db hstep]
  cases phase with
  | deleting victims placements direct =>
    cases victims with
    | nil => exact .refl n db
    | cons pair victims => exact .of_sublist List.filter_sublist
  | placing placements direct => exact shrinks_upsertBatch db (countOn_eq_zero.mp hn)
  | assigning direct => exact shrinks_upsertBatch db (countOn_eq_zero.mp hn)
  | _ => exact .refl n db

theorem length_assignedExperts (settings : Settings) (instanceId : Nat) (node : Node)
    (indices : List Nat) :
    (assignedExperts settings instanceId node indices).length =
      indices.length * layerCount settings := by
  simp [assignedExperts, objectKeys, List.length_flatMap]

/-- the rows of the assignment fit an empty node -/
theorem fits_startInserting {settings : Settings} {db : Database} {node : Node}
    {instanceId target : Nat} (counts : List Nat)
    (htarget : target * layerCount settings ≤ m node.id) (hrows : db.rows node.id = 0) :
    (Progressive.startInserting settings node instanceId target counts).Fits m settings db := by
  intro n hn
  generalize hindices : (prioritize counts settings.routedExperts).take target = indices at hn ⊢
  have hlength : indices.length ≤ target := by
    rw [← hindices]
    exact List.length_take_le _ _
  have hnode : node.id = n := by
    by_contra hne
    have hzero : countOn n (assignedExperts settings instanceId node indices) = 0 := by
      rw [countOn_eq_zero]
      intro expert hexpert
      obtain ⟨expertId, _, rfl⟩ := List.mem_map.mp hexpert
      exact hne
    omega
  subst hnode
  have hcount : countOn node.id (assignedExperts settings instanceId node indices) ≤
      target * layerCount settings :=
    calc countOn node.id (assignedExperts settings instanceId node indices)
        ≤ (assignedExperts settings instanceId node indices).length := List.length_filter_le _ _
      _ = indices.length * layerCount settings := length_assignedExperts _ _ _ _
      _ ≤ target * layerCount settings := Nat.mul_le_mul_right _ hlength
  omega

theorem fits_checkCapacity {settings : Settings} {db : Database} {node : Node}
    (instanceId : Nat) (hmax : maxExperts node = m node.id) (hrows : db.rows node.id = 0) :
    (Progressive.checkCapacity settings node instanceId).Fits m settings db := by
  unfold Progressive.checkCapacity
  simp only
  split_ifs
  · trivial
  · refine ⟨?_, hrows⟩
    unfold targetPerLayer
    split_ifs
    · simp
    · calc min settings.routedExperts (maxExperts node / layerCount settings) * layerCount settings
          ≤ maxExperts node / layerCount settings * layerCount settings :=
            Nat.mul_le_mul_right _ (Nat.min_le_right _ _)
        _ ≤ maxExperts node := Nat.div_mul_le_self _ _
        _ = m node.id := hmax

theorem instanceUpsert_experts (db : Database) (modelId : Nat) (name : String) :
    (db.instanceUpsert modelId name).experts = db.experts := by
  unfold Database.instanceUpsert
  split_ifs <;> rfl

theorem Progressive.step_fits {settings : Settings} {hostname : String} {x x' : Shared}
    {phase phase' : Progressive} (hnodes : NodesFit m x.db) (h : phase.Fits m settings x.db)
    (hstep : phase.step settings hostname x = some (x', phase')) :
    phase'.Fits m settings x'.db := by
  cases phase with
  | lookup =>
    simp only [Progressive.step] at hstep
    split at hstep
    · cases hstep
      trivial
    · rename_i node hnode
      cases hstep
      exact hnodes.capacity node (List.mem_of_find?_eq_some hnode)
  | readStale node =>
    simp only [Progressive.step] at hstep
    split_ifs at hstep with hempty <;> cases hstep
    · refine ⟨h, ?_⟩
      rw [Database.rows, List.isEmpty_iff.mp hempty]
      rfl
    · exact h
  | clearStale node =>
    cases hstep
    refine ⟨h, ?_⟩
    simp [Database.rows, Database.expertsByNode, Database.deleteExpertsByNode]
  | readInstance node =>
    simp only [Progressive.step] at hstep
    split at hstep <;> cases hstep
    · exact fits_checkCapacity _ h.1 h.2
    · exact h
  | readModel node =>
    simp only [Progressive.step] at hstep
    split at hstep <;> cases hstep
    · trivial
    · exact h
  | createInstance node modelId =>
    simp only [Progressive.step] at hstep
    split at hstep <;> cases hstep
    · trivial
    · refine fits_checkCapacity _ h.1 ?_
      rw [Database.rows, Database.expertsByNode, instanceUpsert_experts]
      exact h.2
  | acquire node instanceId target =>
    simp only [Progressive.step] at hstep
    split_ifs at hstep
    cases hstep
    exact h
  | readActive node instanceId target =>
    cases hstep
    exact h
  | countReplicas node instanceId target activeIds rest counts =>
    cases rest with
    | nil =>
      cases hstep
      exact fits_startInserting counts h.1 h.2
    | cons idx rest =>
      cases hstep
      exact h
  | inserting node target indices rest =>
    cases rest with
    | nil =>
      cases hstep
      trivial
    | cons expert rest =>
      cases hstep
      intro n hn
      have hfits := h n (by rw [countOn_cons]; omega)
      have hrows := x.db.rows_upsert_le expert n
      rw [countOn_cons] at hfits
      show (x.db.expertUpsert expert).rows n + countOn n rest ≤ m n
      split_ifs at hfits hrows <;> omega
  | markLoading node target indices =>
    cases hstep
    trivial
  | promote node target indices =>
    simp only [Progressive.step] at hstep
    split_ifs at hstep <;> cases hstep <;> trivial
  | unmark =>
    cases hstep
    trivial
  | done => cases hstep

theorem Progressive.step_shrinks {settings : Settings} {hostname : String} {x x' : Shared}
    {phase phase' : Progressive} (hstep : phase.step settings hostname x = some (x', phase'))
    {n : Nat} (hn : countOn n phase.inserts = 0) : Shrinks n x.db x'.db := by
  rw [Progressive.step_db hstep]
  cases phase with
  | clearStale node => exact .of_sublist List.filter_sublist
  | createInstance node modelId => exact .of_experts (instanceUpsert_experts _ _ _)
  | inserting node target indices rest =>
    cases rest with
    | nil => exact .refl n x.db
    | cons expert rest =>
      exact shrinks_upsert x.db (countOn_eq_zero.mp hn expert List.mem_cons_self)
  | promote node target indices =>
    simp only [Progressive.write]
    split_ifs
    · exact .refl n x.db
    · refine .of_map _ ?_ ?_ <;> intro expert <;> split_ifs <;> rfl
  | _ => exact .refl n x.db

/-! ## the pool -/

/-- every node is within its capacity and every plan fits -/
structure PoolFits (m : Nat → Nat) (settings : Settings) (x : Pool) : Prop where
  nodes : NodesFit m x.shared.db
  bound : ∀ n, x.shared.db.rows n ≤ m n
  tasks : ∀ (i : Nat) (task : Task), x.tasks[i]? = some task → task.Fits m settings x.shared.db

theorem Task.step_shrinks {settings : Settings} {x x' : Shared} {task task' : Task}
    (hstep : task.step settings x = some (x', task')) {n : Nat}
    (hn : countOn n task.inserts = 0) : Shrinks n x.db x'.db := by
  cases task with
  | recovery deadHostname phase =>
    obtain ⟨⟨db', phase'⟩, hphase, hr⟩ := Option.map_eq_some_iff.mp hstep
    cases hr
    exact Recovery.step_shrinks hphase hn
  | progressive hostname phase =>
    obtain ⟨⟨x'', phase'⟩, hphase, hr⟩ := Option.map_eq_some_iff.mp hstep
    cases hr
    exact Progressive.step_shrinks hphase hn

theorem Task.step_fits {settings : Settings} {x x' : Shared} {task task' : Task}
    (hnodes : NodesFit m x.db) (hbound : ∀ n, x.db.rows n ≤ m n) (h : task.Fits m settings x.db)
    (hstep : task.step settings x = some (x', task')) : task'.Fits m settings x'.db := by
  cases task with
  | recovery deadHostname phase =>
    obtain ⟨⟨db', phase'⟩, hphase, hr⟩ := Option.map_eq_some_iff.mp hstep
    cases hr
    exact Recovery.step_fits hnodes hbound h hphase
  | progressive hostname phase =>
    obtain ⟨⟨x'', phase'⟩, hphase, hr⟩ := Option.map_eq_some_iff.mp hstep
    cases hr
    exact Progressive.step_fits hnodes h hphase

/-- the rows of the next statement fit as well -/
theorem Task.Fits.inserts {settings : Settings} {x x' : Shared} {task task' : Task}
    (h : task.Fits m settings x.db) (hstep : task.step settings x = some (x', task')) {n : Nat}
    (hn : 0 < countOn n task.inserts) : x'.db.rows n ≤ m n := by
  cases task with
  | recovery deadHostname phase =>
    obtain ⟨⟨db', phase'⟩, hphase, hr⟩ := Option.map_eq_some_iff.mp hstep
    cases hr
    have hdb : db' = phase.write x.db := Recovery.step_db hphase
    show db'.rows n ≤ m n
    cases phase with
    | placing placements direct =>
      have hle : db'.rows n ≤ x.db.rows n + countOn n placements := by
        rw [hdb]
        exact x.db.rows_upsertBatch_le placements n
      have hpos : 0 < countOn n placements := hn
      have hfits := h n (by omega)
      omega
    | assigning direct =>
      have hle : db'.rows n ≤ x.db.rows n + countOn n direct := by
        rw [hdb]
        exact x.db.rows_upsertBatch_le direct n
      have hfits := h n hn
      omega
    | _ => cases hn
  | progressive hostname phase =>
    obtain ⟨⟨x'', phase'⟩, hphase, hr⟩ := Option.map_eq_some_iff.mp hstep
    cases hr
    have hdb : x''.db = phase.write settings x.db := Progressive.step_db hphase
    cases phase with
    | inserting node target indices rest =>
      cases rest with
      | nil => cases hn
      | cons expert rest =>
        have hle := x.db.rows_upsert_le expert n
        have hone : countOn n [expert] = if expert.nodeId = n then 1 else 0 := by
          rw [countOn_cons]
          simp [countOn]
        have hpos : 0 < countOn n [expert] := hn
        have hfits := h n (by rw [countOn_cons]; omega)
        rw [countOn_cons] at hfits
        rw [hdb]
        show (x.db.expertUpsert expert).rows n ≤ m n
        omega
    | _ => cases hn

theorem Task.step_nodes {settings : Settings} {x x' : Shared} {task task' : Task}
    (hstep : task.step settings x = some (x', task')) : x'.db.nodes = x.db.nodes := by
  cases task with
  | recovery deadHostname phase =>
    obtain ⟨⟨db', phase'⟩, hphase, hr⟩ := Option.map_eq_some_iff.mp hstep
    cases hr
    show db'.nodes = x.db.nodes
    rw [Recovery.step_db hphase]
    exact (Recovery.write_nodes x.db phase).1
  | progressive hostname phase =>
    obtain ⟨⟨x'', phase'⟩, hphase, hr⟩ := Option.map_eq_some_iff.mp hstep
    cases hr
    rw [Progressive.step_db hphase]
    exact (Progressive.write_nodes settings x.db phase).1

theorem PoolFits.run {settings : Settings} {x : Pool} (h : PoolFits m settings x) {i : Nat}
    {task task' : Task} {shared : Shared} (hi : x.tasks[i]? = some task)
    (hexclusive : x.exclusive (.run i) = true)
    (hstep : task.step settings x.shared = some (shared, task')) :
    PoolFits m settings ⟨shared, x.tasks.set i task'⟩ := by
  have hmine := h.tasks i task hi
  have hnodes : shared.db.nodes = x.shared.db.nodes := Task.step_nodes hstep
  refine ⟨?_, ?_, ?_⟩
  · unfold NodesFit
    rw [hnodes]
    exact h.nodes
  · intro n
    by_cases hn : countOn n task.inserts = 0
    · exact (Task.step_shrinks hstep hn).rows.trans (h.bound n)
    · exact hmine.inserts hstep (Nat.pos_of_ne_zero hn)
  · intro j other hj
    rw [List.getElem?_set] at hj
    split_ifs at hj with hji
    · cases hj
      exact Task.step_fits h.nodes h.bound hmine hstep
    · refine (h.tasks j other hj).shrinks ?_
      intro n hn
      refine Task.step_shrinks hstep (countOn_eq_zero.mpr ?_)
      intro expert hexpert he
      have hfree := Pool.exclusive_run hexclusive hi hexpert hj (Ne.symm hji)
      rw [he, hn] at hfree
      cases hfree

/-- the clock and the heartbeats change no row and no configuration -/
theorem PoolFits.of_eq {settings : Settings} {x : Pool} (h : PoolFits m settings x)
    {db : Database} (hnodes : NodesFit m db) (hexperts : db.experts = x.shared.db.experts) :
    PoolFits m settings { x with shared.db := db } := by
  refine ⟨hnodes, ?_, ?_⟩
  · intro n
    exact (Shrinks.of_experts hexperts).rows.trans (h.bound n)
  · exact fun i task hi => (h.tasks i task hi).shrinks fun n _ => .of_experts hexperts

theorem NodesFit.updateSeen {db : Database} (h : NodesFit m db) (hostname : String) :
    NodesFit m (db.nodeUpdateSeen hostname) := by
  have hids : (db.nodeUpdateSeen hostname).nodes.map Node.id = db.nodes.map Node.id := by
    simp only [Database.nodeUpdateSeen, Database.updateNode, List.map_map]
    apply List.map_congr_left
    intro node _
    simp only [Function.comp]
    split_ifs <;> rfl
  refine ⟨hids ▸ h.distinct, ?_⟩
  intro node hnode
  obtain ⟨before, hbefore, rfl⟩ := List.mem_map.mp hnode
  have hmax := h.capacity before hbefore
  split_ifs <;> exact hmax

theorem PoolFits.step {settings : Settings} {x x' : Pool} {l : PoolStep}
    (h : PoolFits m settings x) (hexclusive : x.exclusive l = true)
    (hstep : x.step settings l = some x') : PoolFits m settings x' := by
  cases l with
  | run i =>
    obtain ⟨task, hi, hrest⟩ := Option.bind_eq_some_iff.mp hstep
    obtain ⟨⟨shared, task'⟩, htask, hr⟩ := Option.map_eq_some_iff.mp hrest
    cases hr
    exact h.run hi hexclusive htask
  | tick seconds =>
    cases hstep
    exact h.of_eq h.nodes rfl
  | seen hostname =>
    cases hstep
    exact h.of_eq (h.nodes.updateSeen hostname) rfl

end

/-! ## every run -/

/-- distinct nodes, every node within the capacity it registered, and no task has run yet -/
structure Pool.Start (x : Pool) : Prop where
  ids : (x.shared.db.nodes.map Node.id).Nodup
  within : ∀ node ∈ x.shared.db.nodes, x.shared.db.rows node.id ≤ maxExperts node
  fresh : ∀ task ∈ x.tasks, task.Fresh

/-- the registered capacity by node id -/
def Database.capacityOf (db : Database) (nodeId : Nat) : Nat :=
  ((db.nodes.find? fun node => node.id = nodeId).map maxExperts).getD (db.rows nodeId)

theorem capacityOf_node {db : Database} (hids : (db.nodes.map Node.id).Nodup) {node : Node}
    (h : node ∈ db.nodes) : maxExperts node = db.capacityOf node.id := by
  have hsome : (db.nodes.find? fun other => other.id = node.id).isSome := by
    rw [List.find?_isSome]
    exact ⟨node, h, decide_eq_true rfl⟩
  obtain ⟨other, hother⟩ := Option.isSome_iff_exists.mp hsome
  have hid : other.id = node.id := by simpa using List.find?_some hother
  have heq : other = node :=
    List.inj_on_of_nodup_map hids (List.mem_of_find?_eq_some hother) h hid
  unfold Database.capacityOf
  rw [hother, heq]
  rfl

theorem Pool.Start.fits {settings : Settings} {x : Pool} (h : x.Start) :
    PoolFits x.shared.db.capacityOf settings x := by
  refine ⟨⟨h.ids, fun node hnode => capacityOf_node h.ids hnode⟩, ?_, ?_⟩
  · intro n
    unfold Database.capacityOf
    cases hfind : x.shared.db.nodes.find? fun node => node.id = n with
    | none => exact Nat.le_refl _
    | some node =>
      have hid : node.id = n := by simpa using List.find?_some hfind
      have hle := h.within node (List.mem_of_find?_eq_some hfind)
      rwa [hid] at hle
  · intro i task hi
    have hfresh := h.fresh task (List.mem_of_getElem? hi)
    cases task with
    | recovery deadHostname phase =>
      cases hfresh
      trivial
    | progressive hostname phase =>
      cases hfresh
      trivial

def exampleSettings : Settings := ⟨10, "main", "m", (0, 2), 1, 0⟩

def exampleNode (id : Nat) (hostname : String) (seen : Nat) : Node :=
  ⟨id, hostname, "cpu", (∅ : NodeConfig).insert "max_experts" (.number 2), some seen⟩

def exampleRow (nodeId idx : Nat) : Expert := ⟨1, nodeId, objectKey "m" 0 idx, 1, .loaded⟩

end ExpertKit.Elastic

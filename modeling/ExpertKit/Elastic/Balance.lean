import ExpertKit.Elastic.Coverage
import ExpertKit.Lib.Ledger

/-!
# Elasticity: balanced assignment

Workers join one after the other or at the same time, each with a `progressive_assign` task of its
own; no recovery runs and every joined worker stays active.

* `Joins`, `Joins.step`      the tasks, heartbeats, time, and changes of the state column;
* `Joins.placed`             the workers whose insertion phase is over, with their indices;
* `Joins.Inv`                the rows are those of the placed workers and of the holder of the lock;
* `Joins.Known`              the nodes that the tasks have read are those of the table;
* `progressive_balanced`     the replica counts differ by at most one, at every point;
* `layers_apart`             while one worker inserts, the layers differ.
-/

set_option linter.unusedSectionVars false

namespace ExpertKit.Elastic
open Std

/-! ## joining workers -/

structure Joins where
  shared : Shared
  /-- the task of each worker, by hostname -/
  tasks : List (String × Progressive)
  /-- recorded when an insertion phase ends -/
  placed : List (Node × List Nat)
deriving DecidableEq

inductive JoinStep where
  /-- a worker registers, and its task starts -/
  | join (hostname device : String) (config : NodeConfig)
  /-- one statement of one task -/
  | run (task : Nat)
  /-- time passes -/
  | tick (seconds : Nat)
  /-- a heartbeat of a node -/
  | seen (hostname : String)
  /-- the state column of the rows changes, as when a worker reports its experts -/
  | report (states : Expert → RowState)

/-- what the next statement of the task completes -/
def Progressive.completes : Progressive → List (Node × List Nat)
  | .inserting node _ indices [] => [(node, indices)]
  | _ => []

def Database.setStates (db : Database) (states : Expert → RowState) : Database :=
  { db with experts := db.experts.map fun expert => { expert with state := states expert } }

def Joins.step (settings : Settings) (x : Joins) : JoinStep → Option Joins
  | .join hostname device config =>
    if hostname ∈ x.tasks.map Prod.fst then none
    else some { x with
      shared.db := (x.shared.db.nodeUpsert hostname device config).nodeUpdateSeen hostname
      tasks := x.tasks ++ [(hostname, .lookup)] }
  | .run i =>
    (x.tasks[i]?).bind fun t => (t.2.step settings t.1 x.shared).map fun r =>
      ⟨r.1, x.tasks.set i (t.1, r.2), x.placed ++ t.2.completes⟩
  | .tick seconds =>
    some { x with shared.db := { x.shared.db with now := x.shared.db.now + seconds } }
  | .seen hostname => some { x with shared.db := x.shared.db.nodeUpdateSeen hostname }
  | .report states => some { x with shared.db := x.shared.db.setStates states }

/-- every joined worker is active -/
def Joins.allActive (settings : Settings) (x : Joins) : Bool :=
  x.tasks.all fun t =>
    (x.shared.db.activeNodes settings.nodeActiveThreshold).any fun node => node.hostname == t.1

/-- the step leaves every joined worker active -/
def Joins.keepsActive (settings : Settings) (x : Joins) (l : JoinStep) : Prop :=
  ∀ x', x.step settings l = some x' → x'.allActive settings = true

structure Joins.Start (x : Joins) : Prop where
  valid : x.shared.db.Valid
  rows : x.shared.db.experts = []
  unlocked : x.shared.assignLock = false
  tasks : x.tasks = []
  placed : x.placed = []

/-! ## replicas and rows -/

def rowPairs (db : Database) : List (Nat × String) :=
  db.experts.map fun expert => (expert.nodeId, expert.expertId)

theorem hasRow_iff {db : Database} {nodeId : Nat} {expertId : String} :
    hasRow db nodeId expertId = true ↔ (nodeId, expertId) ∈ rowPairs db := by
  unfold hasRow rowPairs
  rw [List.any_eq_true, List.mem_map]
  simp only [Bool.and_eq_true, beq_iff_eq, Prod.mk.injEq]

/-- nodes of the list with a row of the expert -/
def replicasIn (db : Database) (ids : List Nat) (expertId : String) : Nat :=
  ((db.nodeByExpert expertId).filter fun n => ids.contains n.id).length

/-- every row is on a node of the list -/
def RowsOn (db : Database) (ids : List Nat) : Prop :=
  ∀ pair ∈ rowPairs db, pair.1 ∈ ids ∧ ∃ node ∈ db.nodes, node.id = pair.1

/-- the replicas are the rows -/
theorem replicasIn_eq {db : Database} (hv : db.Valid) {ids : List Nat} (hon : RowsOn db ids)
    (hnd : (rowPairs db).Nodup) (expertId : String) :
    replicasIn db ids expertId = (rowPairs db).countP fun pair => pair.2 == expertId := by
  have hleft : (((db.nodeByExpert expertId).filter fun n => ids.contains n.id).map Node.id).Nodup :=
    hv.ids.sublist ((List.filter_sublist.trans List.filter_sublist).map _)
  have hright : (((rowPairs db).filter fun pair => pair.2 == expertId).map Prod.fst).Nodup := by
    refine List.Nodup.map_on ?_ (hnd.sublist List.filter_sublist)
    rintro ⟨n, id⟩ ha ⟨n', id'⟩ hb heq
    have h1 : id = expertId := by simpa using (List.mem_filter.mp ha).2
    have h2 : id' = expertId := by simpa using (List.mem_filter.mp hb).2
    exact Prod.ext heq (h1.trans h2.symm)
  have hmem : ∀ id, id ∈ ((db.nodeByExpert expertId).filter fun n => ids.contains n.id).map Node.id ↔
      id ∈ ((rowPairs db).filter fun pair => pair.2 == expertId).map Prod.fst := by
    intro id
    rw [List.mem_map, List.mem_map]
    constructor
    · rintro ⟨node, hnode, rfl⟩
      obtain ⟨hby, _⟩ := List.mem_filter.mp hnode
      have hrow := hasRow_iff.mp (List.mem_filter.mp hby).2
      exact ⟨_, List.mem_filter.mpr ⟨hrow, by simp⟩, rfl⟩
    · rintro ⟨pair, hpair, rfl⟩
      obtain ⟨hrow, hid⟩ := List.mem_filter.mp hpair
      obtain ⟨hin, node, hnode, heq⟩ := hon pair hrow
      have hhas : hasRow db node.id expertId = true := by
        rw [hasRow_iff, heq, ← show pair.2 = expertId by simpa using hid]
        exact hrow
      exact ⟨node, List.mem_filter.mpr ⟨List.mem_filter.mpr ⟨hnode, hhas⟩,
        by rw [heq]; exact List.contains_iff_mem.mpr hin⟩, heq⟩
  have hlength := ((List.perm_ext_iff_of_nodup hleft hright).mpr hmem).length_eq
  rw [List.length_map, List.length_map] at hlength
  rw [List.countP_eq_length_filter]
  exact hlength

/-! ## shares -/

/-- the rows of a placed worker -/
def block (settings : Settings) (p : Node × List Nat) : List (Nat × String) :=
  (objectKeys settings p.2).map fun id => (p.1.id, id)

/-- the rows that a task has inserted so far -/
def Progressive.inserted (settings : Settings) : Progressive → List (Nat × String)
  | .inserting node _ indices rest =>
    ((objectKeys settings indices).take ((objectKeys settings indices).length - rest.length)).map
      fun id => (node.id, id)
  | _ => []

/-- the placed workers that were given the index -/
def shares (placed : List (Node × List Nat)) (idx : Nat) : Nat :=
  placed.countP fun p => decide (idx ∈ p.2)

theorem shares_cons (p : Node × List Nat) (placed : List (Node × List Nat)) (idx : Nat) :
    shares (p :: placed) idx = shares placed idx + if idx ∈ p.2 then 1 else 0 := by
  unfold shares
  rw [List.countP_cons]
  simp only [decide_eq_true_eq]

theorem shares_append (placed : List (Node × List Nat)) (p : Node × List Nat) (idx : Nat) :
    shares (placed ++ [p]) idx = shares placed idx + if idx ∈ p.2 then 1 else 0 := by
  unfold shares
  rw [List.countP_append, List.countP_singleton]
  simp only [decide_eq_true_eq]

theorem countP_keys (settings : Settings) {indices : List Nat} (hnd : indices.Nodup) (nodeId : Nat)
    {layer : Nat} (hlayer : layer ∈ moeLayers settings) (idx : Nat) :
    ((objectKeys settings indices).map fun id => (nodeId, id)).countP
        (fun pair => pair.2 == objectKey settings.modelName layer idx) =
      if idx ∈ indices then 1 else 0 := by
  rw [List.countP_map]
  have hcount : (objectKeys settings indices).countP
      ((fun pair : Nat × String => pair.2 == objectKey settings.modelName layer idx) ∘
        fun id => (nodeId, id)) =
      (objectKeys settings indices).count (objectKey settings.modelName layer idx) := rfl
  rw [hcount, (nodup_objectKeys settings hnd).count]
  have hmem : objectKey settings.modelName layer idx ∈ objectKeys settings indices ↔
      idx ∈ indices := by
    unfold objectKeys
    rw [List.mem_flatMap]
    constructor
    · rintro ⟨idx', hidx', hkey⟩
      obtain ⟨layer', _, heq⟩ := List.mem_map.mp hkey
      exact (objectKey_inj heq).2 ▸ hidx'
    · intro hidx
      exact ⟨idx, hidx, List.mem_map_of_mem hlayer⟩
  simp only [hmem]

theorem countP_blocks (settings : Settings) {placed : List (Node × List Nat)}
    (hnd : ∀ p ∈ placed, p.2.Nodup) {layer : Nat} (hlayer : layer ∈ moeLayers settings)
    (idx : Nat) :
    (placed.flatMap (block settings)).countP
        (fun pair => pair.2 == objectKey settings.modelName layer idx) = shares placed idx := by
  induction placed with
  | nil => rfl
  | cons p rest ih =>
    have hp := countP_keys settings (hnd p List.mem_cons_self) p.1.id hlayer idx
    rw [List.flatMap_cons, List.countP_append, block, hp,
      ih fun q hq => hnd q (List.mem_cons_of_mem _ hq), shares_cons, Nat.add_comm]

theorem length_objectKeys (settings : Settings) (indices : List Nat) :
    (objectKeys settings indices).length = indices.length * layerCount settings := by
  unfold objectKeys
  simp [List.length_flatMap]

/-! ## the invariant -/

/-- the phases under `ASSIGN_LOCK` -/
def Progressive.holdsLock : Progressive → Bool
  | .readActive _ _ _ => true
  | .countReplicas _ _ _ _ _ _ => true
  | .inserting _ _ _ _ => true
  | _ => false

/-- the insertion phase is not over -/
def Progressive.early : Progressive → Bool
  | .markLoading _ _ _ => false
  | .promote _ _ _ => false
  | .unmark => false
  | .done => false
  | _ => true

/-- the node that the task looked up -/
def Database.Names (db : Database) (hostname : String) (node : Node) : Prop :=
  node.hostname = hostname ∧ db.Own hostname node.id

def targetOf (settings : Settings) (node : Node) : Nat :=
  targetPerLayer (maxExperts node) (layerCount settings) settings.routedExperts

def shareCounts (settings : Settings) (placed : List (Node × List Nat)) : List Nat :=
  (List.range settings.routedExperts).map (shares placed)

/-- the indices that the next worker is given -/
def nextIndices (settings : Settings) (placed : List (Node × List Nat)) (node : Node) : List Nat :=
  (prioritize (shareCounts settings placed) settings.routedExperts).take (targetOf settings node)

def Progressive.Fair (settings : Settings) (db : Database) (placed : List (Node × List Nat))
    (hostname : String) : Progressive → Prop
  | .readStale node => db.Names hostname node
  | .clearStale _ => False
  | .readInstance node => db.Names hostname node
  | .readModel node => db.Names hostname node
  | .createInstance node _ => db.Names hostname node
  | .acquire node _ target =>
    db.Names hostname node ∧ target = targetOf settings node ∧ target ≠ 0
  | .readActive node _ target =>
    db.Names hostname node ∧ target = targetOf settings node ∧ target ≠ 0
  | .countReplicas node _ target ids rest counts =>
    db.Names hostname node ∧ target = targetOf settings node ∧ target ≠ 0 ∧
      (∀ p ∈ placed, p.1.id ∈ ids) ∧
      counts ++ rest.map (shares placed) = shareCounts settings placed
  | .inserting node target indices rest =>
    db.Names hostname node ∧ target = targetOf settings node ∧ target ≠ 0 ∧
      indices = nextIndices settings placed node ∧
      rest.map Expert.expertId = (objectKeys settings indices).drop
        ((objectKeys settings indices).length - rest.length) ∧
      rest.length ≤ (objectKeys settings indices).length ∧ ∀ e ∈ rest, e.nodeId = node.id
  | .markLoading node _ _ => node.hostname = hostname ∧ ∃ p ∈ placed, p.1 = node
  | .promote node _ _ => node.hostname = hostname ∧ ∃ p ∈ placed, p.1 = node
  | .unmark => ∃ p ∈ placed, p.1.hostname = hostname
  | _ => True

/-- a placed worker has the indices it had room for -/
structure Placed (settings : Settings) (db : Database) (names : List String)
    (p : Node × List Nat) : Prop where
  own : db.Own p.1.hostname p.1.id
  named : p.1.hostname ∈ names
  distinct : p.2.Nodup
  routed : ∀ idx ∈ p.2, idx < settings.routedExperts
  length : p.2.length = targetOf settings p.1

structure Joins.Inv (settings : Settings) (x : Joins) : Prop where
  valid : x.shared.db.Valid
  names : (x.tasks.map Prod.fst).Nodup
  lock : x.tasks.countP (fun t => t.2.holdsLock) = if x.shared.assignLock then 1 else 0
  rows : rowPairs x.shared.db = x.placed.flatMap (block settings) ++
    x.tasks.flatMap fun t => t.2.inserted settings
  fair : ∀ (i : Nat) (t : String × Progressive), x.tasks[i]? = some t →
    t.2.Fair settings x.shared.db x.placed t.1
  unplaced : ∀ (i : Nat) (t : String × Progressive), x.tasks[i]? = some t → t.2.early = true →
    t.1 ∉ x.placed.map fun p => p.1.hostname
  placed : ∀ p ∈ x.placed, Placed settings x.shared.db (x.tasks.map Prod.fst) p
  apart : (x.placed.map fun p => p.1.hostname).Nodup
  balanced : ∀ i < settings.routedExperts, ∀ j < settings.routedExperts,
    shares x.placed i ≤ shares x.placed j + 1

theorem Joins.Start.inv {settings : Settings} {x : Joins} (h : x.Start) : x.Inv settings := by
  obtain ⟨hv, hrows, hlock, htasks, hplaced⟩ := h
  refine ⟨hv, ?_, ?_, ?_, ?_, ?_, ?_, ?_, ?_⟩
  · rw [htasks]
    exact List.nodup_nil
  · rw [htasks, hlock]
    rfl
  · rw [rowPairs, hrows, htasks, hplaced]
    rfl
  · intro i t ht
    rw [htasks] at ht
    simp at ht
  · intro i t ht
    rw [htasks] at ht
    simp at ht
  · intro p hp
    rw [hplaced] at hp
    exact absurd hp List.not_mem_nil
  · rw [hplaced]
    exact List.nodup_nil
  · intro i _ j _
    rw [hplaced]
    exact Nat.zero_le _

theorem inserted_of_free {settings : Settings} {phase : Progressive}
    (h : phase.holdsLock = false) : phase.inserted settings = [] := by
  cases phase with
  | inserting node target indices rest => cases h
  | _ => rfl

/-! ## statements that leave the rows on their nodes -/

structure SameRows (db db' : Database) : Prop where
  valid : db.Valid → db'.Valid
  own : ∀ hostname id, db.Own hostname id → db'.Own hostname id
  rows : rowPairs db' = rowPairs db

theorem SameRows.of_nodes {db db' : Database} (hnodes : db'.nodes = db.nodes)
    (hnext : db'.nextNodeId = db.nextNodeId) (hrows : rowPairs db' = rowPairs db) :
    SameRows db db' :=
  ⟨(@Extends.of_nodes "" _ _ hnodes hnext).valid,
    fun hostname => (@Extends.of_nodes hostname _ _ hnodes hnext).own, hrows⟩

theorem SameRows.setStates (db : Database) (states : Expert → RowState) :
    SameRows db (db.setStates states) :=
  .of_nodes rfl rfl (by rw [rowPairs, Database.setStates, List.map_map]; rfl)

theorem SameRows.updateNode (db : Database) (hostname : String) (f : Node → Node)
    (hid : ∀ node, (f node).id = node.id) (hname : ∀ node, (f node).hostname = node.hostname) :
    SameRows db (db.updateNode hostname f) := by
  have hextends : ∀ host, Extends host db (db.updateNode hostname f) :=
    fun host => .updateNode db hostname f hid hname
  exact ⟨(hextends hostname).valid, fun host => (hextends host).own, rfl⟩

theorem SameRows.nodeUpdateSeen (db : Database) (hostname : String) :
    SameRows db (db.nodeUpdateSeen hostname) :=
  .updateNode db hostname _ (fun _ => rfl) fun _ => rfl

theorem SameRows.nodeUpsert (db : Database) (hostname device : String) (config : NodeConfig) :
    SameRows db (db.nodeUpsert hostname device config) := by
  refine ⟨(Extends.nodeUpsert db device config).valid, ?_, ?_⟩
  · intro host id hown
    unfold Database.nodeUpsert
    split_ifs
    · have hs : SameRows db (db.updateNode hostname fun node =>
          { node with device := device, config := config }) :=
        .updateNode db hostname _ (fun _ => rfl) fun _ => rfl
      exact hs.own host id hown
    · obtain ⟨node, hnode, hname, hid⟩ := hown
      exact ⟨node, List.mem_append_left _ hnode, hname, hid⟩
  · unfold Database.nodeUpsert
    split_ifs <;> rfl

theorem SameRows.trans {db db' db'' : Database} (h : SameRows db db') (h' : SameRows db' db'') :
    SameRows db db'' :=
  ⟨h'.valid ∘ h.valid, fun hostname id => h'.own hostname id ∘ h.own hostname id,
    h'.rows.trans h.rows⟩

theorem Progressive.Fair.mono {settings : Settings} {db db' : Database}
    {placed : List (Node × List Nat)} {hostname : String} {phase : Progressive}
    (hown : ∀ hostname id, db.Own hostname id → db'.Own hostname id)
    (h : phase.Fair settings db placed hostname) : phase.Fair settings db' placed hostname := by
  have hnames : ∀ node, db.Names hostname node → db'.Names hostname node :=
    fun node hn => ⟨hn.1, hown _ _ hn.2⟩
  cases phase with
  | clearStale node => exact h
  | readStale node => exact hnames node h
  | readInstance node => exact hnames node h
  | readModel node => exact hnames node h
  | createInstance node modelId => exact hnames node h
  | acquire node instanceId target => exact ⟨hnames node h.1, h.2⟩
  | readActive node instanceId target => exact ⟨hnames node h.1, h.2⟩
  | countReplicas node instanceId target ids rest counts => exact ⟨hnames node h.1, h.2⟩
  | inserting node target indices rest => exact ⟨hnames node h.1, h.2⟩
  | _ => exact h

theorem Placed.mono {settings : Settings} {db db' : Database} {names names' : List String}
    {p : Node × List Nat} (h : Placed settings db names p)
    (hown : ∀ hostname id, db.Own hostname id → db'.Own hostname id) (hnames : names ⊆ names') :
    Placed settings db' names' p :=
  ⟨hown _ _ h.own, hnames h.named, h.distinct, h.routed, h.length⟩

/-- a step of the surroundings -/
theorem Joins.Inv.env {settings : Settings} {x : Joins} (h : x.Inv settings) {db' : Database}
    (hs : SameRows x.shared.db db') : Joins.Inv settings { x with shared.db := db' } :=
  ⟨hs.valid h.valid, h.names, h.lock, hs.rows.trans h.rows,
    fun i t ht => (h.fair i t ht).mono hs.own, h.unplaced,
    fun p hp => (h.placed p hp).mono hs.own (List.Subset.refl _), h.apart, h.balanced⟩

theorem Joins.Inv.join {settings : Settings} {x : Joins} (h : x.Inv settings) {hostname : String}
    (hnew : hostname ∉ x.tasks.map Prod.fst) {db' : Database} (hs : SameRows x.shared.db db') :
    Joins.Inv settings
      { x with shared.db := db', tasks := x.tasks ++ [(hostname, .lookup)] } := by
  have henv := h.env hs
  refine ⟨henv.valid, ?_, ?_, ?_, ?_, ?_, ?_, h.apart, h.balanced⟩
  · rw [List.map_append, List.nodup_append]
    refine ⟨h.names, List.nodup_singleton _, ?_⟩
    intro a ha b hb heq
    have hname : b = hostname := List.mem_singleton.mp hb
    rw [← hname, ← heq] at hnew
    exact hnew ha
  · rw [List.countP_append, h.lock]
    rfl
  · rw [List.flatMap_append]
    exact henv.rows.trans (by rw [List.flatMap_singleton]; simp [Progressive.inserted])
  · intro i t ht
    rcases Ledger.getElem?_concat_cases ht with ⟨_, rfl⟩ | ⟨_, hold⟩
    · trivial
    · exact henv.fair i t hold
  · intro i t ht hearly
    rcases Ledger.getElem?_concat_cases ht with ⟨_, rfl⟩ | ⟨_, hold⟩
    · intro hmem
      obtain ⟨p, hp, heq⟩ := List.mem_map.mp hmem
      have hnamed := (h.placed p hp).named
      rw [show p.1.hostname = hostname from heq] at hnamed
      exact hnew hnamed
    · exact h.unplaced i t hold hearly
  · intro p hp
    refine (h.placed p hp).mono hs.own ?_
    rw [List.map_append]
    exact List.subset_append_left _ _

/-! ## the least replicated first -/

section
variable {settings : Settings} {placed : List (Node × List Nat)} {node : Node} {i j : Nat}

theorem getD_shareCounts (hi : i < settings.routedExperts) :
    (shareCounts settings placed).getD i 0 = shares placed i := by
  unfold shareCounts
  rw [List.getD_eq_getElem?_getD, List.getElem?_map, List.getElem?_range hi]
  rfl

theorem le_of_before (hi : i < settings.routedExperts) (hj : j < settings.routedExperts)
    (h : before (shareCounts settings placed) i j = true) : shares placed i ≤ shares placed j := by
  have hlt := of_decide_eq_true h
  rw [getD_shareCounts hi, getD_shareCounts hj] at hlt
  omega

theorem nextIndices_nodup (settings : Settings) (placed : List (Node × List Nat)) (node : Node) :
    (nextIndices settings placed node).Nodup :=
  (nodup_prioritize _ _).sublist (List.take_sublist _ _)

theorem lt_of_mem_nextIndices (h : i ∈ nextIndices settings placed node) :
    i < settings.routedExperts := (mem_take_prioritize.mp h).1

theorem length_nextIndices (settings : Settings) (placed : List (Node × List Nat)) (node : Node) :
    (nextIndices settings placed node).length = targetOf settings node := by
  have hlength : (prioritize (shareCounts settings placed) settings.routedExperts).length =
      settings.routedExperts := by
    unfold prioritize
    rw [List.length_mergeSort, List.length_range]
  have hle : targetOf settings node ≤ settings.routedExperts := by
    unfold targetOf targetPerLayer
    split_ifs
    · exact Nat.zero_le _
    · exact Nat.min_le_left _ _
  unfold nextIndices
  rw [List.length_take, hlength, Nat.min_eq_left hle]

/-- what is left out has as many replicas at least -/
theorem shares_le_of_taken (hi : i ∈ nextIndices settings placed node)
    (hj : j < settings.routedExperts) (hnot : j ∉ nextIndices settings placed node) :
    shares placed i ≤ shares placed j := by
  have hperm : (prioritize (shareCounts settings placed) settings.routedExperts).Perm
      (List.range settings.routedExperts) := List.mergeSort_perm _ _
  have hsplit := List.take_append_drop (targetOf settings node)
    (prioritize (shareCounts settings placed) settings.routedExperts)
  have hsorted := prioritize_sorted (shareCounts settings placed) settings.routedExperts
  rw [← hsplit, List.pairwise_append] at hsorted
  have hmem : j ∈ prioritize (shareCounts settings placed) settings.routedExperts :=
    hperm.mem_iff.mpr (List.mem_range.mpr hj)
  rw [← hsplit] at hmem
  rcases List.mem_append.mp hmem with hin | hin
  · exact absurd hin hnot
  · exact le_of_before (lt_of_mem_nextIndices hi) hj (hsorted.2.2 i hi j hin)

/-- the same within the rows inserted so far -/
theorem shares_le_of_inserted {layer layer' m : Nat} (hlayer : layer' ∈ moeLayers settings)
    (hi : objectKey settings.modelName layer i ∈
      (objectKeys settings (nextIndices settings placed node)).take m)
    (hj : j < settings.routedExperts)
    (hnot : objectKey settings.modelName layer' j ∉
      (objectKeys settings (nextIndices settings placed node)).take m) :
    shares placed i ≤ shares placed j := by
  have hmem : ∀ idx id, id ∈ ((List.range' settings.moeLayers.1 (layerCount settings)).map fun l =>
      objectKey settings.modelName l idx) → ∀ l k, id = objectKey settings.modelName l k →
        k = idx := by
    intro idx id hid l k heq
    obtain ⟨l', _, rfl⟩ := List.mem_map.mp hid
    exact (objectKey_inj heq).2.symm
  have hindex : i ∈ nextIndices settings placed node := by
    obtain ⟨idx, hidx, hid⟩ := List.mem_flatMap.mp (List.mem_of_mem_take hi)
    rw [hmem idx _ hid layer i rfl]
    exact hidx
  by_cases hin : j ∈ nextIndices settings placed node
  · have hsorted : (nextIndices settings placed node).Pairwise fun a b =>
        shares placed a ≤ shares placed b := by
      refine List.Pairwise.imp_of_mem ?_ ((prioritize_sorted (shareCounts settings placed)
        settings.routedExperts).sublist (List.take_sublist (targetOf settings node) _))
      exact fun ha hb hab =>
        le_of_before (lt_of_mem_nextIndices ha) (lt_of_mem_nextIndices hb) hab
    have hkeys : (objectKeys settings (nextIndices settings placed node)).Pairwise fun a b =>
        ∀ l k l' k', a = objectKey settings.modelName l k →
          b = objectKey settings.modelName l' k' → shares placed k ≤ shares placed k' := by
      unfold objectKeys
      rw [List.pairwise_flatMap]
      refine ⟨fun idx _ => ?_, hsorted.imp ?_⟩
      · refine List.pairwise_of_forall_mem_list fun a ha b hb l k l' k' h1 h2 => ?_
        rw [hmem idx a ha l k h1, hmem idx b hb l' k' h2]
      · intro idx idx' hle a ha b hb l k l' k' h1 h2
        rw [hmem idx a ha l k h1, hmem idx' b hb l' k' h2]
        exact hle
    have hall : objectKey settings.modelName layer' j ∈
        objectKeys settings (nextIndices settings placed node) :=
      List.mem_flatMap.mpr ⟨j, hin, List.mem_map_of_mem hlayer⟩
    rw [← List.take_append_drop m (objectKeys settings _), List.pairwise_append] at hkeys
    rw [← List.take_append_drop m (objectKeys settings _)] at hall
    rcases List.mem_append.mp hall with hbefore | hafter
    · exact absurd hbefore hnot
    · exact hkeys.2.2 _ hi _ hafter _ _ _ _ rfl rfl
  · exact shares_le_of_taken hindex hj hin

end

/-! ## the steps of a task -/

section
variable {settings : Settings} {x : Joins} {i : Nat} {hostname : String}
  {phase phase' : Progressive}

/-- the rows of a worker that is not placed yet are those its task inserted -/
theorem Joins.Inv.pair_cases (h : x.Inv settings) {pair : Nat × String}
    (hpair : pair ∈ rowPairs x.shared.db) :
    (∃ p ∈ x.placed, pair ∈ block settings p) ∨
      ∃ t ∈ x.tasks, pair ∈ t.2.inserted settings := by
  rw [h.rows] at hpair
  rcases List.mem_append.mp hpair with hin | hin
  · exact .inl (List.mem_flatMap.mp hin)
  · exact .inr (List.mem_flatMap.mp hin)

theorem block_fst {p : Node × List Nat} {pair : Nat × String} (h : pair ∈ block settings p) :
    pair.1 = p.1.id := by
  obtain ⟨id, _, rfl⟩ := List.mem_map.mp h
  rfl

theorem inserted_fst {pair : Nat × String} (h : pair ∈ phase.inserted settings) :
    ∃ node target indices rest, phase = .inserting node target indices rest ∧
      pair.1 = node.id := by
  cases phase with
  | inserting node target indices rest =>
    obtain ⟨id, _, rfl⟩ := List.mem_map.mp h
    exact ⟨node, target, indices, rest, rfl, rfl⟩
  | _ => exact absurd h List.not_mem_nil

/-- hostnames tell node ids apart -/
theorem names_of_id {db : Database} (hv : db.Valid) {host host' : String} {id : Nat}
    (h : db.Own host id) (h' : db.Own host' id) : host = host' := by
  obtain ⟨node, hnode, hname, hid⟩ := h
  obtain ⟨node', hnode', hname', hid'⟩ := h'
  have heq : node = node' := List.inj_on_of_nodup_map hv.ids hnode hnode' (hid.trans hid'.symm)
  rw [← hname, ← hname', heq]

/-- the hostname identifies the task -/
theorem Joins.Inv.task_unique (h : x.Inv settings) {j : Nat} {t t' : String × Progressive}
    (hi : x.tasks[i]? = some t) (hj : x.tasks[j]? = some t') (hname : t.1 = t'.1) : i = j := by
  have hi' : (x.tasks.map Prod.fst)[i]? = some t.1 := by rw [List.getElem?_map, hi]; rfl
  have hj' : (x.tasks.map Prod.fst)[j]? = some t.1 := by rw [List.getElem?_map, hj, hname]; rfl
  obtain ⟨hilt, higet⟩ := List.getElem?_eq_some_iff.mp hi'
  obtain ⟨hjlt, hjget⟩ := List.getElem?_eq_some_iff.mp hj'
  exact (List.Nodup.getElem_inj_iff h.names).mp (higet.trans hjget.symm)

/-- before its insertion phase a worker has no rows -/
theorem Joins.Inv.no_rows (h : x.Inv settings) (hi : x.tasks[i]? = some (hostname, phase))
    (hearly : phase.early = true) (hnot : phase.inserted settings = []) {node : Node}
    (hn : x.shared.db.Names hostname node) :
    ∀ pair ∈ rowPairs x.shared.db, pair.1 ≠ node.id := by
  intro pair hpair hid
  rcases h.pair_cases hpair with ⟨p, hp, hin⟩ | ⟨t, ht, hin⟩
  · have hown := (h.placed p hp).own
    rw [← block_fst hin, hid] at hown
    have hname := names_of_id h.valid hown hn.2
    exact h.unplaced i _ hi hearly (List.mem_map.mpr ⟨p, hp, hname⟩)
  · obtain ⟨node', target, indices, rest, hphase, hfst⟩ := inserted_fst hin
    obtain ⟨j, hj⟩ := List.mem_iff_getElem?.mp ht
    have hfair := h.fair j t hj
    rw [hphase] at hfair
    have hown := hfair.1.2
    rw [← hfst, hid] at hown
    have hij := h.task_unique hi hj (names_of_id h.valid hn.2 hown)
    subst hij
    rw [hi] at hj
    cases hj
    rw [hnot] at hin
    exact absurd hin List.not_mem_nil

theorem map_fst_set (hi : x.tasks[i]? = some (hostname, phase)) (phase' : Progressive) :
    (x.tasks.set i (hostname, phase')).map Prod.fst = x.tasks.map Prod.fst := by
  have hself : (x.tasks.map Prod.fst)[i]? = some hostname := by
    rw [List.getElem?_map, hi]
    rfl
  obtain ⟨hlt, hget⟩ := List.getElem?_eq_some_iff.mp hself
  rw [List.map_set]
  show (x.tasks.map Prod.fst).set i hostname = x.tasks.map Prod.fst
  rw [← hget]
  exact List.set_getElem_self hlt

/-- the task goes on; rows and placed workers stay -/
theorem Joins.Inv.move (h : x.Inv settings) (hi : x.tasks[i]? = some (hostname, phase))
    {shared : Shared} (hs : SameRows x.shared.db shared.db)
    (hinserted : phase'.inserted settings = phase.inserted settings)
    (hearly : phase'.early = true → phase.early = true)
    (hlock : (if shared.assignLock then 1 else 0) + (if phase.holdsLock then 1 else 0) =
      (if x.shared.assignLock then 1 else 0) + if phase'.holdsLock then 1 else 0)
    (hfair : phase'.Fair settings shared.db x.placed hostname) :
    Joins.Inv settings ⟨shared, x.tasks.set i (hostname, phase'), x.placed⟩ := by
  have hnames := map_fst_set hi phase'
  refine ⟨hs.valid h.valid, ?_, ?_, ?_, ?_, ?_, ?_, h.apart, h.balanced⟩
  · rw [hnames]
    exact h.names
  · have hcount := Ledger.countP_set hi (hostname, phase') fun t => t.2.holdsLock
    have hheld := h.lock
    simp only at hcount
    show (x.tasks.set i (hostname, phase')).countP (fun t => t.2.holdsLock) =
      if shared.assignLock then 1 else 0
    omega
  · rw [Ledger.flatMap_set_same hi (f := fun t => t.2.inserted settings) hinserted]
    exact hs.rows.trans h.rows
  · intro j t ht
    rcases Ledger.getElem?_set_cases ht with ⟨_, rfl⟩ | ⟨_, hold⟩
    · exact hfair
    · exact (h.fair j t hold).mono hs.own
  · intro j t ht he
    rcases Ledger.getElem?_set_cases ht with ⟨_, rfl⟩ | ⟨_, hold⟩
    · exact h.unplaced i (hostname, phase) hi (hearly he)
    · exact h.unplaced j t hold he
  · intro p hp
    exact (h.placed p hp).mono hs.own (by rw [hnames]; exact List.Subset.refl _)

/-- the other tasks wait for the lock, or are past it -/
theorem Joins.Inv.others (h : x.Inv settings) (hi : x.tasks[i]? = some (hostname, phase))
    (hholds : phase.holdsLock = true) {j : Nat} {t : String × Progressive} (hj : x.tasks[j]? = some t)
    (hne : j ≠ i) : t.2.holdsLock = false := by
  cases hcase : t.2.holdsLock with
  | false => rfl
  | true =>
    have hle : x.tasks.countP (fun t => t.2.holdsLock) ≤ 1 := by
      rw [h.lock]
      split_ifs <;> omega
    exact absurd (Ledger.eq_of_countP_le_one hle hj hcase hi hholds) hne

theorem Joins.Inv.rows_of_holder (h : x.Inv settings) (hi : x.tasks[i]? = some (hostname, phase))
    (hholds : phase.holdsLock = true) (phase' : Progressive) :
    rowPairs x.shared.db = x.placed.flatMap (block settings) ++ phase.inserted settings ∧
      (x.tasks.set i (hostname, phase')).flatMap (fun t => t.2.inserted settings) =
        phase'.inserted settings := by
  obtain ⟨h1, h2⟩ := Ledger.flatMap_set hi (hostname, phase') (fun t => t.2.inserted settings)
    fun j t hne hj => inserted_of_free (h.others hi hholds hj hne)
  rw [h.rows, h1]
  exact ⟨rfl, h2⟩

theorem Progressive.Fair.of_free {db : Database} {placed placed' : List (Node × List Nat)}
    (hfree : phase.holdsLock = false) (hsub : placed ⊆ placed')
    (h : phase.Fair settings db placed hostname) : phase.Fair settings db placed' hostname := by
  cases phase with
  | markLoading node target indices =>
    obtain ⟨hname, p, hp, hnode⟩ := h
    exact ⟨hname, p, hsub hp, hnode⟩
  | promote node target indices =>
    obtain ⟨hname, p, hp, hnode⟩ := h
    exact ⟨hname, p, hsub hp, hnode⟩
  | unmark =>
    obtain ⟨p, hp, hname⟩ := h
    exact ⟨p, hsub hp, hname⟩
  | readActive node instanceId target => cases hfree
  | countReplicas node instanceId target ids rest counts => cases hfree
  | inserting node target indices rest => cases hfree
  | _ => exact h

/-- the next row of the holder of the lock -/
theorem Joins.Inv.insert (h : x.Inv settings) {node : Node} {target : Nat} {indices : List Nat}
    {expert : Expert} {rest : List Expert}
    (hi : x.tasks[i]? = some (hostname, .inserting node target indices (expert :: rest))) :
    Joins.Inv settings ⟨{ x.shared with db := x.shared.db.expertUpsert expert },
      x.tasks.set i (hostname, .inserting node target indices rest), x.placed⟩ := by
  obtain ⟨hn, htarget, hpos, hindices, hids, hlen, hnodes⟩ := h.fair i _ hi
  obtain ⟨hrows, hset⟩ := h.rows_of_holder hi rfl (.inserting node target indices rest)
  have hnode : expert.nodeId = node.id := hnodes expert List.mem_cons_self
  have hnd : (objectKeys settings indices).Nodup := by
    rw [hindices]
    exact nodup_objectKeys settings ((nodup_prioritize _ _).sublist (List.take_sublist _ _))
  generalize hkeys : objectKeys settings indices = keys at hids hlen hnd
  rw [List.length_cons] at hids hlen
  have hlt : keys.length - (rest.length + 1) < keys.length := by omega
  have hsucc : keys.length - (rest.length + 1) + 1 = keys.length - rest.length := by omega
  have hdrop := List.drop_eq_getElem_cons hlt
  rw [hdrop, List.map_cons, List.cons.injEq, hsucc] at hids
  obtain ⟨hid, hrest⟩ := hids
  -- the row is a new one: other workers have other nodes, and no identifier comes twice
  have hnew : expert.expertId ∉ keys.take (keys.length - (rest.length + 1)) := by
    intro hin
    refine List.disjoint_take_drop hnd (Nat.le_refl _) hin ?_
    rw [hdrop, hid]
    exact List.mem_cons_self
  have hfresh : x.shared.db.experts.any expert.sameKey = false := by
    rw [List.any_eq_false]
    intro row hrow hkey
    simp only [Expert.sameKey, Bool.and_eq_true, beq_iff_eq] at hkey
    obtain ⟨⟨_, hrowNode⟩, hrowId⟩ := hkey
    have hpair : (row.nodeId, row.expertId) ∈ rowPairs x.shared.db := List.mem_map_of_mem hrow
    rw [hrows, ← hrowNode, ← hrowId, hnode] at hpair
    rcases List.mem_append.mp hpair with hin | hin
    · obtain ⟨p, hp, hblock⟩ := List.mem_flatMap.mp hin
      have hown := (h.placed p hp).own
      rw [← block_fst hblock] at hown
      exact h.unplaced i _ hi rfl (List.mem_map.mpr ⟨p, hp, names_of_id h.valid hown hn.2⟩)
    · simp only [Progressive.inserted, hkeys, List.length_cons, List.mem_map, Prod.mk.injEq,
        true_and, exists_eq_right] at hin
      exact hnew hin
  have hdb : x.shared.db.expertUpsert expert =
      { x.shared.db with experts := x.shared.db.experts ++ [expert] } := by
    unfold Database.expertUpsert
    rw [hfresh]
    rfl
  rw [hdb]
  have hnames := map_fst_set hi (.inserting node target indices rest)
  refine ⟨⟨h.valid.ids, h.valid.hostnames, h.valid.fresh⟩, ?_, ?_, ?_, ?_, ?_, ?_, h.apart,
    h.balanced⟩
  · rw [hnames]
    exact h.names
  · have hcount := Ledger.countP_set hi (hostname, .inserting node target indices rest)
      fun t => t.2.holdsLock
    have hheld := h.lock
    simp only [Progressive.holdsLock] at hcount hheld ⊢
    omega
  · rw [hset]
    have hadd : rowPairs { x.shared.db with experts := x.shared.db.experts ++ [expert] } =
        rowPairs x.shared.db ++ [(node.id, expert.expertId)] := by
      rw [rowPairs, List.map_append, ← hnode]
      rfl
    have htake : keys.take (keys.length - rest.length) =
        keys.take (keys.length - (rest.length + 1)) ++ [expert.expertId] := by
      rw [← hsucc, hid, List.take_succ_eq_append_getElem hlt]
    rw [hadd, hrows, Progressive.inserted, Progressive.inserted, hkeys, List.length_cons, htake,
      List.map_append, List.append_assoc]
    rfl
  · intro j t ht
    rcases Ledger.getElem?_set_cases ht with ⟨_, rfl⟩ | ⟨_, hold⟩
    · refine ⟨hn, htarget, hpos, hindices, ?_, ?_, fun e he => hnodes e (List.mem_cons_of_mem _ he)⟩
      · rw [hkeys]
        exact hrest
      · rw [hkeys]
        omega
    · exact (h.fair j t hold).mono fun _ _ hown => hown
  · intro j t ht he
    rcases Ledger.getElem?_set_cases ht with ⟨_, rfl⟩ | ⟨_, hold⟩
    · have hout := h.unplaced i _ hi rfl
      exact hout
    · exact h.unplaced j t hold he
  · intro p hp
    exact (h.placed p hp).mono (fun _ _ hown => hown) (by rw [hnames]; exact List.Subset.refl _)

/-- the lock is released: the worker is placed -/
theorem Joins.Inv.release (h : x.Inv settings) {node : Node} {target : Nat} {indices : List Nat}
    (hi : x.tasks[i]? = some (hostname, .inserting node target indices [])) :
    Joins.Inv settings ⟨{ x.shared with assignLock := false },
      x.tasks.set i (hostname, .markLoading node target indices),
      x.placed ++ [(node, indices)]⟩ := by
  obtain ⟨hn, htarget, hpos, hindices, hids, hlen, hnodes⟩ := h.fair i _ hi
  obtain ⟨hrows, hset⟩ := h.rows_of_holder hi rfl (.markLoading node target indices)
  have hnames := map_fst_set hi (.markLoading node target indices)
  have hmem : hostname ∈ x.tasks.map Prod.fst :=
    List.mem_map.mpr ⟨_, List.mem_of_getElem? hi, rfl⟩
  have hout := h.unplaced i _ hi rfl
  refine ⟨h.valid, ?_, ?_, ?_, ?_, ?_, ?_, ?_, ?_⟩
  · rw [hnames]
    exact h.names
  · have hcount := Ledger.countP_set hi (hostname, .markLoading node target indices)
      fun t => t.2.holdsLock
    have hheld := h.lock
    have hle : (if x.shared.assignLock = true then 1 else 0) ≤ 1 := by split_ifs <;> omega
    simp only [Progressive.holdsLock] at hcount hheld ⊢
    simp only [if_true, Bool.false_eq_true, if_false] at hcount ⊢
    omega
  · have hnone : (Progressive.markLoading node target indices).inserted settings = [] := rfl
    rw [hset, hnone, List.append_nil, List.flatMap_append, List.flatMap_singleton]
    show rowPairs x.shared.db = _
    rw [hrows, Progressive.inserted, List.length_nil, Nat.sub_zero, List.take_length]
    rfl
  · intro j t ht
    rcases Ledger.getElem?_set_cases ht with ⟨_, rfl⟩ | ⟨hne, hold⟩
    · exact ⟨hn.1, (node, indices), List.mem_append_right _ (List.mem_singleton_self _), rfl⟩
    · exact (h.fair j t hold).of_free (h.others hi rfl hold (Ne.symm hne))
        (List.subset_append_left _ _)
  · intro j t ht he
    rcases Ledger.getElem?_set_cases ht with ⟨_, rfl⟩ | ⟨hne, hold⟩
    · cases he
    · rw [List.map_append, List.mem_append]
      rintro (hin | hin)
      · exact h.unplaced j t hold he hin
      · rw [List.map_singleton, List.mem_singleton] at hin
        exact hne (h.task_unique hi hold (hn.1.symm.trans hin.symm))
  · intro p hp
    rw [hnames]
    rcases List.mem_append.mp hp with hp | hp
    · exact h.placed p hp
    · rw [List.mem_singleton.mp hp]
      refine ⟨hn.1 ▸ hn.2, hn.1 ▸ hmem, ?_, ?_, ?_⟩
      · rw [hindices]
        exact nextIndices_nodup settings x.placed node
      · intro idx hidx
        exact lt_of_mem_nextIndices (hindices ▸ hidx)
      · rw [hindices]
        exact length_nextIndices settings x.placed node
  · rw [List.map_append, List.nodup_append]
    refine ⟨h.apart, List.nodup_singleton _, ?_⟩
    intro a ha b hb heq
    rw [List.map_singleton, List.mem_singleton] at hb
    rw [heq, hb, hn.1] at ha
    exact hout ha
  · intro k hk l hl
    have hkl := h.balanced k hk l hl
    rw [shares_append, shares_append]
    simp only [hindices]
    split_ifs with hin hout'
    · omega
    · have hle := shares_le_of_taken hin hl hout'
      omega
    · omega
    · exact hkl

/-- no row is being inserted, or one task holds the lock -/
theorem Joins.Inv.inserted_cases (h : x.Inv settings) :
    x.tasks.flatMap (fun t => t.2.inserted settings) = [] ∨
      ∃ (i : Nat) (hostname : String) (node : Node) (target : Nat) (indices : List Nat)
        (rest : List Expert),
        x.tasks[i]? = some (hostname, Progressive.inserting node target indices rest) ∧
        x.tasks.flatMap (fun t => t.2.inserted settings) =
          (Progressive.inserting node target indices rest).inserted settings := by
  by_cases hex : ∃ (i : Nat) (t : String × Progressive), x.tasks[i]? = some t ∧
      ∃ node target indices rest, t.2 = .inserting node target indices rest
  · obtain ⟨i, ⟨hostname, phase⟩, hi, node, target, indices, rest, hphase⟩ := hex
    simp only at hphase
    subst hphase
    obtain ⟨h1, _⟩ := Ledger.flatMap_set hi (hostname, .done) (fun t => t.2.inserted settings)
      fun j t hne hj => inserted_of_free (h.others hi rfl hj hne)
    exact .inr ⟨i, hostname, node, target, indices, rest, hi, h1⟩
  · refine .inl (List.flatMap_eq_nil_iff.mpr fun t ht => ?_)
    obtain ⟨i, hi⟩ := List.mem_iff_getElem?.mp ht
    obtain ⟨hostname, phase⟩ := t
    cases phase with
    | inserting node target indices rest => exact absurd ⟨i, _, hi, _, _, _, _, rfl⟩ hex
    | _ => rfl

/-- every row belongs to a joined worker -/
theorem Joins.Inv.owned (h : x.Inv settings) {pair : Nat × String}
    (hpair : pair ∈ rowPairs x.shared.db) :
    ∃ t ∈ x.tasks, x.shared.db.Own t.1 pair.1 := by
  rcases h.pair_cases hpair with ⟨p, hp, hin⟩ | ⟨t, ht, hin⟩
  · obtain ⟨t, ht, hname⟩ := List.mem_map.mp (h.placed p hp).named
    refine ⟨t, ht, ?_⟩
    rw [hname, block_fst hin]
    exact (h.placed p hp).own
  · obtain ⟨node, target, indices, rest, hphase, hfst⟩ := inserted_fst hin
    obtain ⟨j, hj⟩ := List.mem_iff_getElem?.mp ht
    have hfair := h.fair j t hj
    rw [hphase] at hfair
    exact ⟨t, ht, hfst ▸ hfair.1.2⟩

theorem nodup_pairs {keys : List String} (hnd : keys.Nodup) (id : Nat) :
    (keys.map fun key => (id, key)).Nodup :=
  hnd.map fun _ _ heq => (Prod.mk.inj heq).2

theorem Joins.Inv.nodup (h : x.Inv settings) : (rowPairs x.shared.db).Nodup := by
  have hkeys : ∀ indices : List Nat, indices.Nodup → (objectKeys settings indices).Nodup :=
    fun indices => nodup_objectKeys settings
  rw [h.rows, List.nodup_append]
  refine ⟨?_, ?_, ?_⟩
  · rw [List.nodup_flatMap]
    refine ⟨fun p hp => nodup_pairs (hkeys _ (h.placed p hp).distinct) p.1.id, ?_⟩
    refine List.Pairwise.imp_of_mem ?_ (List.pairwise_map.mp h.apart)
    intro p q hp hq hne pair hin hin'
    have hown := (h.placed p hp).own
    rw [← block_fst hin, block_fst hin'] at hown
    exact hne (names_of_id h.valid hown (h.placed q hq).own)
  · rcases h.inserted_cases with hnil | ⟨i, hostname, node, target, indices, rest, hi, heq⟩
    · rw [hnil]
      exact List.nodup_nil
    · rw [heq]
      have hindices := (h.fair i _ hi).2.2.2.1
      refine nodup_pairs ((hkeys _ ?_).sublist (List.take_sublist _ _)) node.id
      rw [hindices]
      exact nextIndices_nodup settings x.placed node
  · intro pair hin pair' hin' heq
    subst heq
    obtain ⟨p, hp, hblock⟩ := List.mem_flatMap.mp hin
    obtain ⟨t, ht, hinserted⟩ := List.mem_flatMap.mp hin'
    obtain ⟨node, target, indices, rest, hphase, hfst⟩ := inserted_fst hinserted
    obtain ⟨j, hj⟩ := List.mem_iff_getElem?.mp ht
    have hfair := h.fair j t hj
    rw [hphase] at hfair
    have hown := (h.placed p hp).own
    rw [← block_fst hblock, hfst] at hown
    exact h.unplaced j t hj (by rw [hphase]; rfl)
      (List.mem_map.mpr ⟨p, hp, names_of_id h.valid hown hfair.1.2⟩)

theorem first_mem_moeLayers {node : Node} (h : targetOf settings node ≠ 0) :
    settings.moeLayers.1 ∈ moeLayers settings := by
  have hcount : layerCount settings ≠ 0 := by
    intro hzero
    rw [targetOf, targetPerLayer, if_pos hzero] at h
    exact h rfl
  unfold moeLayers
  rw [List.mem_range'_1]
  omega

/-- under the lock the sampled layer shows the shares -/
theorem Joins.Inv.countReplicas (h : x.Inv settings) {node : Node} {instanceId target : Nat}
    {ids rest counts : List Nat}
    (hi : x.tasks[i]? = some (hostname, .countReplicas node instanceId target ids rest counts))
    (idx : Nat) : replicaCount settings x.shared.db ids idx = shares x.placed idx := by
  obtain ⟨hn, htarget, hpos, hids, _⟩ := h.fair i _ hi
  obtain ⟨hrows, _⟩ := h.rows_of_holder hi rfl .done
  rw [show (Progressive.countReplicas node instanceId target ids rest counts).inserted settings = []
    from rfl, List.append_nil] at hrows
  have hon : RowsOn x.shared.db ids := by
    intro pair hpair
    rw [hrows] at hpair
    obtain ⟨p, hp, hin⟩ := List.mem_flatMap.mp hpair
    obtain ⟨row, hrow, _, hid⟩ := (h.placed p hp).own
    rw [block_fst hin]
    exact ⟨hids p hp, row, hrow, hid⟩
  have hcount := replicasIn_eq h.valid hon h.nodup
    (objectKey settings.modelName settings.moeLayers.1 idx)
  rw [hrows, countP_blocks settings (fun p hp => (h.placed p hp).distinct)
    (first_mem_moeLayers (htarget ▸ hpos))] at hcount
  exact hcount

theorem fair_checkCapacity {db : Database} {placed : List (Node × List Nat)} {node : Node}
    (instanceId : Nat) (hn : db.Names hostname node) :
    (Progressive.checkCapacity settings node instanceId).Fair settings db placed hostname ∧
      (Progressive.checkCapacity settings node instanceId).inserted settings = [] ∧
      (Progressive.checkCapacity settings node instanceId).holdsLock = false := by
  unfold Progressive.checkCapacity
  simp only
  split_ifs with hzero
  · exact ⟨trivial, rfl, rfl⟩
  · exact ⟨⟨hn, rfl, hzero⟩, rfl, rfl⟩

theorem fair_startInserting {db : Database} {placed : List (Node × List Nat)} {node : Node}
    (instanceId : Nat) {target : Nat} {counts : List Nat} (hn : db.Names hostname node)
    (htarget : target = targetOf settings node) (hpos : target ≠ 0)
    (hcounts : counts = shareCounts settings placed) :
    (Progressive.startInserting settings node instanceId target counts).Fair settings db placed
        hostname ∧
      (Progressive.startInserting settings node instanceId target counts).inserted settings = [] := by
  subst htarget hcounts
  have hlength : (assignedExperts settings instanceId node
      (nextIndices settings placed node)).length =
        (objectKeys settings (nextIndices settings placed node)).length := List.length_map _
  have hstart : Progressive.startInserting settings node instanceId (targetOf settings node)
      (shareCounts settings placed) = .inserting node (targetOf settings node)
        (nextIndices settings placed node)
        (assignedExperts settings instanceId node (nextIndices settings placed node)) := rfl
  rw [hstart]
  refine ⟨⟨hn, rfl, hpos, rfl, ?_, Nat.le_of_eq hlength, ?_⟩, ?_⟩
  · rw [hlength, Nat.sub_self, List.drop_zero, assignedExperts, List.map_map]
    exact List.map_id _
  · intro e he
    obtain ⟨id, _, rfl⟩ := List.mem_map.mp he
    rfl
  · rw [Progressive.inserted, hlength, Nat.sub_self, List.take_zero, List.map_nil]

theorem SameRows.refl (db : Database) : SameRows db db := ⟨id, fun _ _ => id, rfl⟩

theorem SameRows.instanceUpsert (db : Database) (modelId : Nat) (name : String) :
    SameRows db (db.instanceUpsert modelId name) := by
  unfold Database.instanceUpsert
  split_ifs
  · exact .refl db
  · exact .of_nodes rfl rfl rfl

theorem SameRows.promote (db : Database) (nodeId : Nat) (expertIds : List String) :
    SameRows db (db.promoteExpertsToPending nodeId expertIds) := by
  refine .of_nodes rfl rfl ?_
  rw [rowPairs, Database.promoteExpertsToPending, List.map_map]
  refine List.map_congr_left fun e _ => ?_
  simp only [Function.comp_apply]
  split_ifs <;> rfl

/-- an active worker's node id is among the active ones -/
theorem mem_activeIds (h : x.Inv settings) (hactive : x.allActive settings = true)
    {t : String × Progressive} (ht : t ∈ x.tasks) {id : Nat} (hown : x.shared.db.Own t.1 id) :
    id ∈ activeIds settings x.shared.db := by
  have hany := List.all_eq_true.mp hactive t ht
  obtain ⟨node, hnode, hname⟩ := List.any_eq_true.mp hany
  have hin : x.shared.db.Own t.1 node.id :=
    ⟨node, (List.mem_filter.mp hnode).1, by simpa using hname, rfl⟩
  rw [own_unique h.valid hown hin]
  exact List.mem_map_of_mem hnode

theorem Joins.Inv.run (h : x.Inv settings) (hactive : x.allActive settings = true)
    (hi : x.tasks[i]? = some (hostname, phase)) {shared : Shared}
    (hs : phase.step settings hostname x.shared = some (shared, phase')) :
    Joins.Inv settings ⟨shared, x.tasks.set i (hostname, phase'), x.placed ++ phase.completes⟩ := by
  have hfair := h.fair i _ hi
  cases phase with
  | lookup =>
    rw [show Progressive.lookup.completes = [] from rfl, List.append_nil]
    simp only [Progressive.step] at hs
    split at hs
    · cases hs
      exact h.move hi (.refl _) rfl (fun he => rfl) rfl trivial
    · rename_i node hnode
      cases hs
      refine h.move hi (.refl _) rfl (fun he => rfl) rfl ?_
      exact ⟨by simpa using List.find?_some hnode, own_of_nodeByHostname hnode⟩
  | readStale node =>
    rw [show (Progressive.readStale node).completes = [] from rfl, List.append_nil]
    simp only [Progressive.step] at hs
    split_ifs at hs with hempty
    · cases hs
      exact h.move hi (.refl _) rfl (fun he => rfl) rfl hfair
    · have hnone : x.shared.db.expertsByNode node.id = [] := by
        refine List.filter_eq_nil_iff.mpr fun e he => ?_
        have hpair : (e.nodeId, e.expertId) ∈ rowPairs x.shared.db := List.mem_map_of_mem he
        simpa using h.no_rows hi rfl rfl hfair _ hpair
      exact absurd (List.isEmpty_iff.mpr hnone) hempty
  | clearStale node => exact hfair.elim
  | readInstance node =>
    rw [show (Progressive.readInstance node).completes = [] from rfl, List.append_nil]
    simp only [Progressive.step] at hs
    split at hs
    · rename_i row _
      cases hs
      obtain ⟨hf, hi', hl⟩ := @fair_checkCapacity settings _ _ x.placed _ row.id hfair
      exact h.move hi (.refl _) hi' (fun _ => rfl) (by rw [hl]; rfl) hf
    · cases hs
      exact h.move hi (.refl _) rfl (fun _ => rfl) rfl hfair
  | readModel node =>
    rw [show (Progressive.readModel node).completes = [] from rfl, List.append_nil]
    simp only [Progressive.step] at hs
    split at hs
    · cases hs
      exact h.move hi (.refl _) rfl (fun _ => rfl) rfl trivial
    · cases hs
      exact h.move hi (.refl _) rfl (fun _ => rfl) rfl hfair
  | createInstance node modelId =>
    rw [show (Progressive.createInstance node modelId).completes = [] from rfl, List.append_nil]
    have hsame := SameRows.instanceUpsert x.shared.db modelId settings.instanceName
    simp only [Progressive.step] at hs
    split at hs
    · cases hs
      exact h.move hi hsame rfl (fun _ => rfl) rfl trivial
    · rename_i row _
      cases hs
      obtain ⟨hf, hi', hl⟩ := @fair_checkCapacity settings _ _ x.placed _ row.id
        (⟨hfair.1, hsame.own _ _ hfair.2⟩ : Database.Names _ hostname node)
      exact h.move hi hsame hi' (fun _ => rfl) (by rw [hl]; rfl) hf
  | acquire node instanceId target =>
    rw [show (Progressive.acquire node instanceId target).completes = [] from rfl, List.append_nil]
    simp only [Progressive.step] at hs
    split_ifs at hs with hheld
    cases hs
    exact h.move hi (.refl _) rfl (fun _ => rfl) (by simp [hheld, Progressive.holdsLock]) hfair
  | readActive node instanceId target =>
    rw [show (Progressive.readActive node instanceId target).completes = [] from rfl, List.append_nil]
    cases hs
    refine h.move hi (.refl _) rfl (fun _ => rfl) rfl ⟨hfair.1, hfair.2.1, hfair.2.2, ?_, rfl⟩
    intro p hp
    obtain ⟨t, ht, hname⟩ := List.mem_map.mp (h.placed p hp).named
    exact mem_activeIds h hactive ht (hname ▸ (h.placed p hp).own)
  | countReplicas node instanceId target ids rest counts =>
    rw [show (Progressive.countReplicas node instanceId target ids rest counts).completes = []
      from rfl, List.append_nil]
    obtain ⟨hn, htarget, hpos, hids, hcounts⟩ := hfair
    cases rest with
    | nil =>
      cases hs
      rw [List.map_nil, List.append_nil] at hcounts
      obtain ⟨hf, hi'⟩ := fair_startInserting instanceId hn htarget hpos hcounts
      exact h.move hi (.refl _) hi' (fun _ => rfl) rfl hf
    | cons idx rest =>
      have hcount := h.countReplicas hi idx
      cases hs
      refine h.move hi (.refl _) rfl (fun _ => rfl) rfl ⟨hn, htarget, hpos, hids, ?_⟩
      rw [← hcounts, List.append_assoc, List.map_cons, ← hcount]
      rfl
  | inserting node target indices rest =>
    cases rest with
    | nil =>
      cases hs
      exact h.release hi
    | cons expert rest =>
      cases hs
      rw [show (Progressive.inserting node target indices (expert :: rest)).completes = [] from rfl,
        List.append_nil]
      exact h.insert hi
  | markLoading node target indices =>
    cases hs
    rw [show (Progressive.markLoading node target indices).completes = [] from rfl,
      List.append_nil]
    exact h.move hi (.refl _) rfl id rfl hfair
  | promote node target indices =>
    rw [show (Progressive.promote node target indices).completes = [] from rfl, List.append_nil]
    simp only [Progressive.step] at hs
    split_ifs at hs
    · cases hs
      obtain ⟨hname, p, hp, hnode⟩ := hfair
      exact h.move hi (.refl _) rfl id rfl ⟨p, hp, hnode ▸ hname⟩
    · cases hs
      exact h.move hi (.promote _ _ _) rfl id rfl hfair
  | unmark =>
    cases hs
    rw [show Progressive.unmark.completes = [] from rfl, List.append_nil]
    exact h.move hi (.refl _) rfl id rfl trivial
  | done => cases hs

end

theorem Joins.Inv.step {settings : Settings} {x x' : Joins} (h : x.Inv settings)
    (hactive : x.allActive settings = true) {l : JoinStep} (hs : x.step settings l = some x') :
    x'.Inv settings := by
  cases l with
  | join hostname device config =>
    simp only [Joins.step] at hs
    split_ifs at hs with hmem
    cases hs
    exact h.join hmem ((SameRows.nodeUpsert _ hostname device config).trans
      (.nodeUpdateSeen _ hostname))
  | run i =>
    obtain ⟨⟨hostname, phase⟩, hi, hs⟩ := Option.bind_eq_some_iff.mp hs
    obtain ⟨⟨shared, phase'⟩, hstep, rfl⟩ := Option.map_eq_some_iff.mp hs
    exact h.run hactive hi hstep
  | tick seconds =>
    cases hs
    exact h.env (.of_nodes rfl rfl rfl)
  | seen hostname =>
    cases hs
    exact h.env (.nodeUpdateSeen _ hostname)
  | report states =>
    cases hs
    exact h.env (.setStates _ states)

theorem joins_inv {settings : Settings} {start x : Joins} (h0 : start.Start)
    (h : Steps.Reach (Joins.step settings) (Joins.keepsActive settings) start x) :
    x.Inv settings ∧ x.allActive settings = true := by
  refine h.invariant (P := fun x => x.Inv settings ∧ x.allActive settings = true) ⟨h0.inv, ?_⟩ ?_
  · rw [Joins.allActive, h0.tasks]
    rfl
  · intro y l y' hy hok hs
    exact ⟨hy.1.step hy.2 hs, hok y' hs⟩

/-! ## balance -/

/-- the active nodes with a row of the expert -/
def replicas (settings : Settings) (db : Database) (layer idx : Nat) : Nat :=
  replicasIn db (activeIds settings db) (objectKey settings.modelName layer idx)

section
variable {settings : Settings} {x : Joins}

theorem Joins.Inv.replicas_eq (h : x.Inv settings) (hactive : x.allActive settings = true)
    {layer : Nat} (hlayer : layer ∈ moeLayers settings) (idx : Nat) :
    replicas settings x.shared.db layer idx = shares x.placed idx +
      (x.tasks.flatMap fun t => t.2.inserted settings).countP
        fun pair => pair.2 == objectKey settings.modelName layer idx := by
  have hon : RowsOn x.shared.db (activeIds settings x.shared.db) := by
    intro pair hpair
    obtain ⟨t, ht, hown⟩ := h.owned hpair
    have hin := mem_activeIds h hactive ht hown
    obtain ⟨row, hrow, _, hid⟩ := hown
    exact ⟨hin, row, hrow, hid⟩
  rw [replicas, replicasIn_eq h.valid hon h.nodup, h.rows, List.countP_append,
    countP_blocks settings (fun p hp => (h.placed p hp).distinct) hlayer]

theorem Joins.Inv.balance (h : x.Inv settings) (hactive : x.allActive settings = true)
    {layer layer' i j : Nat} (hlayer : layer ∈ moeLayers settings)
    (hlayer' : layer' ∈ moeLayers settings) (hi : i < settings.routedExperts)
    (hj : j < settings.routedExperts) :
    replicas settings x.shared.db layer i ≤ replicas settings x.shared.db layer' j + 1 := by
  have hij := h.balanced i hi j hj
  rw [h.replicas_eq hactive hlayer, h.replicas_eq hactive hlayer']
  rcases h.inserted_cases with hnil | ⟨k, hostname, node, target, indices, rest, hk, heq⟩
  · rw [hnil, List.countP_nil, List.countP_nil]
    exact hij
  · have hindices := (h.fair k _ hk).2.2.2.1
    have hcount : ∀ id, ((Progressive.inserting node target indices rest).inserted settings).countP
        (fun pair => pair.2 == id) = if id ∈ (objectKeys settings indices).take
          ((objectKeys settings indices).length - rest.length) then 1 else 0 := by
      intro id
      have hnd : (objectKeys settings indices).Nodup := by
        rw [hindices]
        exact nodup_objectKeys settings (nextIndices_nodup settings x.placed node)
      rw [Progressive.inserted, List.countP_map,
        ← (hnd.sublist (List.take_sublist _ _)).count]
      rfl
    rw [heq, hcount, hcount]
    rw [hindices]
    split_ifs with hin hout
    · omega
    · have hle := shares_le_of_inserted hlayer' hin hj hout
      omega
    · omega
    · exact hij

/-- between two insertion phases the layers are alike -/
theorem Joins.Inv.layers_alike (h : x.Inv settings)
    (hidle : x.tasks.flatMap (fun t => t.2.inserted settings) = []) {layer layer' : Nat}
    (hlayer : layer ∈ moeLayers settings) (hlayer' : layer' ∈ moeLayers settings) (idx : Nat) :
    x.shared.db.nodeByExpert (objectKey settings.modelName layer idx) =
      x.shared.db.nodeByExpert (objectKey settings.modelName layer' idx) := by
  have hrow : ∀ l ∈ moeLayers settings, ∀ id,
      hasRow x.shared.db id (objectKey settings.modelName l idx) = true ↔
        ∃ p ∈ x.placed, p.1.id = id ∧ idx ∈ p.2 := by
    intro l hl id
    rw [hasRow_iff, h.rows, hidle, List.append_nil, List.mem_flatMap]
    constructor
    · rintro ⟨p, hp, hin⟩
      obtain ⟨key, hkey, heq⟩ := List.mem_map.mp hin
      obtain ⟨hid, rfl⟩ := Prod.mk.inj heq
      obtain ⟨idx', hidx', hmem⟩ := List.mem_flatMap.mp hkey
      obtain ⟨l', _, hkey'⟩ := List.mem_map.mp hmem
      exact ⟨p, hp, hid, (objectKey_inj hkey').2 ▸ hidx'⟩
    · rintro ⟨p, hp, rfl, hidx⟩
      exact ⟨p, hp, List.mem_map_of_mem
        (List.mem_flatMap.mpr ⟨idx, hidx, List.mem_map_of_mem hl⟩)⟩
  unfold Database.nodeByExpert
  refine List.filter_congr fun node _ => ?_
  exact Bool.eq_iff_iff.mpr ((hrow layer hlayer node.id).trans (hrow layer' hlayer' node.id).symm)

/-- a placed worker has one row for each of its indices and layers -/
theorem Joins.Inv.rows_placed (h : x.Inv settings) {p : Node × List Nat} (hp : p ∈ x.placed) :
    x.shared.db.rows p.1.id = targetOf settings p.1 * layerCount settings := by
  have hmem : ∀ pair, pair ∈ (rowPairs x.shared.db).filter (fun pair => pair.1 = p.1.id) ↔
      pair ∈ block settings p := by
    intro pair
    rw [List.mem_filter, decide_eq_true_iff]
    constructor
    · rintro ⟨hpair, hid⟩
      rcases h.pair_cases hpair with ⟨q, hq, hin⟩ | ⟨t, ht, hin⟩
      · have hown := (h.placed q hq).own
        rw [← block_fst hin, hid] at hown
        have heq : q = p := List.inj_on_of_nodup_map h.apart hq hp
          (names_of_id h.valid hown (h.placed p hp).own)
        exact heq ▸ hin
      · obtain ⟨node, target, indices, rest, hphase, hfst⟩ := inserted_fst hin
        obtain ⟨j, hj⟩ := List.mem_iff_getElem?.mp ht
        have hfair := h.fair j t hj
        rw [hphase] at hfair
        have hown := hfair.1.2
        rw [← hfst, hid] at hown
        exact absurd (List.mem_map.mpr ⟨p, hp, names_of_id h.valid (h.placed p hp).own hown⟩)
          (h.unplaced j t hj (by rw [hphase]; rfl))
    · intro hin
      refine ⟨?_, block_fst hin⟩
      rw [h.rows]
      exact List.mem_append_left _ (List.mem_flatMap.mpr ⟨p, hp, hin⟩)
  have hblock : (block settings p).Nodup :=
    nodup_pairs (nodup_objectKeys settings (h.placed p hp).distinct) p.1.id
  have hperm := (List.perm_ext_iff_of_nodup (h.nodup.sublist List.filter_sublist) hblock).mpr hmem
  have hlength : (block settings p).length = targetOf settings p.1 * layerCount settings := by
    rw [block, List.length_map, length_objectKeys, (h.placed p hp).length]
  have hrows : x.shared.db.rows p.1.id =
      ((rowPairs x.shared.db).filter fun pair => pair.1 = p.1.id).length := by
    rw [rowPairs, List.filter_map, List.length_map]
    rfl
  rw [hrows, hperm.length_eq, hlength]

theorem targetOf_le (settings : Settings) (node : Node) :
    targetOf settings node * layerCount settings ≤ maxExperts node := by
  unfold targetOf targetPerLayer
  split_ifs with hzero
  · rw [hzero, Nat.mul_zero]
    exact Nat.zero_le _
  · exact (Nat.mul_le_mul_right _ (Nat.min_le_right _ _)).trans (Nat.div_mul_le_self _ _)

end

/-! ## the nodes that the tasks have read -/

/-- the row of the worker has the id and the configuration of the node -/
def Database.Shows (db : Database) (node : Node) : Prop :=
  ∃ row, db.nodeByHostname node.hostname = some row ∧ row.id = node.id ∧ row.config = node.config

/-- the node that an early task has read -/
def Progressive.node : Progressive → Option Node
  | .readStale node | .clearStale node | .readInstance node | .readModel node
  | .createInstance node _ | .acquire node _ _ | .readActive node _ _
  | .countReplicas node _ _ _ _ _ | .inserting node _ _ _ => some node
  | _ => none

/-- a task that has ended placed its worker, or found no model, or no room for one expert on all
layers -/
structure Progressive.Known (settings : Settings) (db : Database) (placed : List (Node × List Nat))
    (hostname : String) (phase : Progressive) : Prop where
  joined : ∃ row, db.nodeByHostname hostname = some row
  read : ∀ node, phase.node = some node → node.hostname = hostname ∧ db.Shows node
  ended : phase = .done → (∃ p ∈ placed, p.1.hostname = hostname) ∨
    db.modelByName settings.modelName = none ∨
    ∃ row, db.nodeByHostname hostname = some row ∧ targetOf settings row = 0

structure Joins.Known (settings : Settings) (x : Joins) : Prop where
  tasks : ∀ t ∈ x.tasks, t.2.Known settings x.shared.db x.placed t.1
  placed : ∀ p ∈ x.placed, x.shared.db.Shows p.1

/-- the row of the worker keeps its id and its configuration -/
def KeepsRow (hostname : String) (db db' : Database) : Prop :=
  ∀ row, db.nodeByHostname hostname = some row →
    ∃ row', db'.nodeByHostname hostname = some row' ∧ row'.id = row.id ∧ row'.config = row.config

section
variable {settings : Settings} {db db' : Database} {hostname : String}

theorem KeepsRow.of_nodes (h : db'.nodes = db.nodes) : KeepsRow hostname db db' := by
  intro row hrow
  refine ⟨row, ?_, rfl, rfl⟩
  unfold Database.nodeByHostname at hrow ⊢
  rw [h]
  exact hrow

theorem KeepsRow.nodeUpdateSeen (host : String) :
    KeepsRow hostname db (db.nodeUpdateSeen host) := by
  intro row hrow
  unfold Database.nodeUpdateSeen
  by_cases hname : host = hostname
  · subst hname
    rw [nodeByHostname_updateNode]
    · rw [hrow]
      exact ⟨_, rfl, rfl, rfl⟩
    · exact fun _ => rfl
  · rw [nodeByHostname_updateNode_other _ hname]
    · exact ⟨row, hrow, rfl, rfl⟩
    · exact fun _ => rfl

/-- another worker joins -/
theorem KeepsRow.nodeUpsert {host : String} (hne : host ≠ hostname) (device : String)
    (config : NodeConfig) : KeepsRow hostname db (db.nodeUpsert host device config) := by
  intro row hrow
  refine ⟨row, ?_, rfl, rfl⟩
  unfold Database.nodeUpsert
  split_ifs
  · rw [nodeByHostname_updateNode_other _ hne]
    · exact hrow
    · exact fun _ => rfl
  · unfold Database.nodeByHostname at hrow ⊢
    rw [List.find?_append, hrow]
    rfl

theorem KeepsRow.trans {db'' : Database} (h : KeepsRow hostname db db')
    (h' : KeepsRow hostname db' db'') : KeepsRow hostname db db'' := by
  intro row hrow
  obtain ⟨row1, hrow1, hid1, hconfig1⟩ := h row hrow
  obtain ⟨row2, hrow2, hid2, hconfig2⟩ := h' row1 hrow1
  exact ⟨row2, hrow2, hid2.trans hid1, hconfig2.trans hconfig1⟩

theorem Database.Shows.mono {node : Node} (h : db.Shows node)
    (hkeep : KeepsRow node.hostname db db') : db'.Shows node := by
  obtain ⟨row, hrow, hid, hconfig⟩ := h
  obtain ⟨row', hrow', hid', hconfig'⟩ := hkeep row hrow
  exact ⟨row', hrow', hid'.trans hid, hconfig'.trans hconfig⟩

theorem targetOf_congr {node node' : Node} (h : node'.config = node.config) :
    targetOf settings node' = targetOf settings node := by
  unfold targetOf maxExperts
  rw [h]

theorem Progressive.Known.mono {placed placed' : List (Node × List Nat)} {phase : Progressive}
    (h : phase.Known settings db placed hostname) (hkeep : KeepsRow hostname db db')
    (hmodels : db'.models = db.models) (hsub : placed ⊆ placed') :
    phase.Known settings db' placed' hostname := by
  refine ⟨?_, ?_, ?_⟩
  · obtain ⟨row, hrow⟩ := h.joined
    obtain ⟨row', hrow', _⟩ := hkeep row hrow
    exact ⟨row', hrow'⟩
  · intro node hnode
    obtain ⟨hname, hshows⟩ := h.read node hnode
    exact ⟨hname, hshows.mono (hname ▸ hkeep)⟩
  · intro hdone
    rcases h.ended hdone with ⟨p, hp, hname⟩ | hmodel | ⟨row, hrow, hzero⟩
    · exact .inl ⟨p, hsub hp, hname⟩
    · refine .inr (.inl ?_)
      unfold Database.modelByName at hmodel ⊢
      rw [hmodels]
      exact hmodel
    · obtain ⟨row', hrow', _, hconfig⟩ := hkeep row hrow
      exact .inr (.inr ⟨row', hrow', (targetOf_congr hconfig).trans hzero⟩)

/-- the task goes on with the node it has read -/
theorem Progressive.Known.goOn {placed : List (Node × List Nat)} {phase phase' : Progressive}
    (h : phase.Known settings db placed hostname)
    (hnode : phase'.node = none ∨ phase'.node = phase.node) (hdone : phase' ≠ .done) :
    phase'.Known settings db placed hostname := by
  refine ⟨h.joined, ?_, fun he => absurd he hdone⟩
  intro node hn
  rcases hnode with hnone | hsame
  · rw [hnone] at hn
    cases hn
  · exact h.read node (hsame ▸ hn)

theorem known_checkCapacity {placed : List (Node × List Nat)} {phase : Progressive} {node : Node}
    (instanceId : Nat) (h : phase.Known settings db placed hostname)
    (hnode : phase.node = some node) :
    (Progressive.checkCapacity settings node instanceId).Known settings db placed hostname := by
  unfold Progressive.checkCapacity
  simp only
  split_ifs with hzero
  · obtain ⟨rfl, row, hrow, _, hconfig⟩ := h.read node hnode
    refine ⟨h.joined, fun _ hn => (by cases hn), fun _ => .inr (.inr ⟨row, hrow, ?_⟩)⟩
    exact (targetOf_congr hconfig).trans hzero
  · exact h.goOn (.inr hnode.symm) (by simp)

end

section
variable {settings : Settings} {x : Joins} {i : Nat} {hostname : String}
  {phase phase' : Progressive}

/-- a statement of a task leaves the nodes and the models alone -/
theorem Progressive.write_keeps (settings : Settings) (db : Database) (phase : Progressive)
    (hostname : String) : KeepsRow hostname db (phase.write settings db) ∧
      (phase.write settings db).models = db.models := by
  refine ⟨.of_nodes (phase.write_nodes settings db).1, ?_⟩
  cases phase with
  | createInstance node modelId =>
    simp only [write, Database.instanceUpsert]
    split_ifs <;> rfl
  | inserting node target indices rest =>
    cases rest with
    | nil => rfl
    | cons expert rest =>
      simp only [write, Database.expertUpsert]
      split_ifs <;> rfl
  | promote node target indices =>
    simp only [write]
    split_ifs <;> rfl
  | _ => rfl

/-- the phase after a statement, in the database before it -/
theorem Progressive.Known.next {shared shared' : Shared} {placed : List (Node × List Nat)}
    (h : phase.Known settings shared.db placed hostname)
    (hplaced : phase = .unmark → ∃ p ∈ placed, p.1.hostname = hostname)
    (hs : phase.step settings hostname shared = some (shared', phase')) :
    phase'.Known settings shared.db placed hostname := by
  cases phase with
  | lookup =>
    obtain ⟨row, hrow⟩ := h.joined
    simp only [step, hrow] at hs
    cases hs
    refine ⟨h.joined, ?_, fun hd => by cases hd⟩
    rintro node ⟨⟩
    have hname : row.hostname = hostname := by simpa using List.find?_some hrow
    exact ⟨hname, row, hname ▸ hrow, rfl, rfl⟩
  | readStale node =>
    simp only [step] at hs
    split_ifs at hs
    · cases hs
      exact h.goOn (.inr rfl) (by simp)
    · cases hs
      exact h.goOn (.inr rfl) (by simp)
  | clearStale node =>
    cases hs
    exact h.goOn (.inr rfl) (by simp)
  | readInstance node =>
    simp only [step] at hs
    split at hs
    · cases hs
      exact known_checkCapacity _ h rfl
    · cases hs
      exact h.goOn (.inr rfl) (by simp)
  | readModel node =>
    simp only [step] at hs
    split at hs
    · rename_i hmodel
      cases hs
      exact ⟨h.joined, fun _ hn => (by cases hn), fun _ => .inr (.inl hmodel)⟩
    · cases hs
      exact h.goOn (.inr rfl) (by simp)
  | createInstance node modelId =>
    simp only [step] at hs
    split at hs
    · -- the row that the statement has just written is there
      rename_i hnone
      exfalso
      unfold Database.instanceUpsert at hnone
      split_ifs at hnone with hsome
      · rw [hnone] at hsome
        cases hsome
      · unfold Database.instanceByName at hnone
        rw [List.find?_eq_none] at hnone
        exact hnone ⟨_, modelId, settings.instanceName⟩
          (List.mem_append_right _ (List.mem_singleton_self _)) (by simp)
    · cases hs
      exact known_checkCapacity _ h rfl
  | acquire node instanceId target =>
    simp only [step] at hs
    split_ifs at hs
    cases hs
    exact h.goOn (.inr rfl) (by simp)
  | readActive node instanceId target =>
    cases hs
    exact h.goOn (.inr rfl) (by simp)
  | countReplicas node instanceId target ids rest counts =>
    cases rest with
    | nil =>
      cases hs
      exact h.goOn (.inr rfl) (by simp [startInserting])
    | cons idx rest =>
      cases hs
      exact h.goOn (.inr rfl) (by simp)
  | inserting node target indices rest =>
    cases rest with
    | nil =>
      cases hs
      exact h.goOn (.inl rfl) (by simp)
    | cons expert rest =>
      cases hs
      exact h.goOn (.inr rfl) (by simp)
  | markLoading node target indices =>
    cases hs
    exact h.goOn (.inl rfl) (by simp)
  | promote node target indices =>
    simp only [step] at hs
    split_ifs at hs
    · cases hs
      exact h.goOn (.inl rfl) (by simp)
    · cases hs
      exact h.goOn (.inl rfl) (by simp)
  | unmark =>
    cases hs
    exact ⟨h.joined, fun _ hn => (by cases hn), fun _ => .inl (hplaced rfl)⟩
  | done => cases hs

theorem completes_read {p : Node × List Nat} (h : p ∈ phase.completes) :
    phase.node = some p.1 := by
  cases phase with
  | inserting node target indices rest =>
    cases rest with
    | nil =>
      rw [List.mem_singleton.mp h]
      rfl
    | cons expert rest => cases h
  | _ => cases h

theorem Joins.Known.run (h : x.Known settings) (hinv : x.Inv settings)
    (hi : x.tasks[i]? = some (hostname, phase)) {shared : Shared}
    (hs : phase.step settings hostname x.shared = some (shared, phase')) :
    Joins.Known settings
      ⟨shared, x.tasks.set i (hostname, phase'), x.placed ++ phase.completes⟩ := by
  have hdb := Progressive.step_db hs
  have hkeep := fun host => (phase.write_keeps settings x.shared.db host).1
  have hmodels := (phase.write_keeps settings x.shared.db hostname).2
  have htask := h.tasks _ (List.mem_of_getElem? hi)
  have hplaced : phase = .unmark → ∃ p ∈ x.placed, p.1.hostname = hostname := by
    rintro rfl
    exact hinv.fair i _ hi
  have hsub : x.placed ⊆ x.placed ++ phase.completes := List.subset_append_left _ _
  refine ⟨?_, ?_⟩
  · intro t ht
    show t.2.Known settings shared.db _ t.1
    rw [hdb]
    rcases List.mem_or_eq_of_mem_set ht with hold | rfl
    · exact (h.tasks t hold).mono (hkeep t.1) hmodels hsub
    · exact (htask.next hplaced hs).mono (hkeep hostname) hmodels hsub
  · intro p hp
    show shared.db.Shows p.1
    rw [hdb]
    rcases List.mem_append.mp hp with hp | hp
    · exact (h.placed p hp).mono (hkeep p.1.hostname)
    · exact (htask.read p.1 (completes_read hp)).2.mono (hkeep p.1.hostname)

/-- a step of the surroundings -/
theorem Joins.Known.env (h : x.Known settings) {db' : Database}
    (hkeep : ∀ hostname, KeepsRow hostname x.shared.db db')
    (hmodels : db'.models = x.shared.db.models) :
    Joins.Known settings { x with shared.db := db' } :=
  ⟨fun t ht => (h.tasks t ht).mono (hkeep t.1) hmodels (List.Subset.refl _),
    fun p hp => (h.placed p hp).mono (hkeep p.1.hostname)⟩

theorem Joins.Known.join (h : x.Known settings) (hinv : x.Inv settings)
    (hnew : hostname ∉ x.tasks.map Prod.fst) (device : String) (config : NodeConfig) :
    Joins.Known settings { x with
      shared.db := (x.shared.db.nodeUpsert hostname device config).nodeUpdateSeen hostname
      tasks := x.tasks ++ [(hostname, .lookup)] } := by
  have hkeep : ∀ host, host ∈ x.tasks.map Prod.fst → KeepsRow host x.shared.db
      ((x.shared.db.nodeUpsert hostname device config).nodeUpdateSeen hostname) := by
    intro host hhost
    refine (KeepsRow.nodeUpsert ?_ device config).trans (.nodeUpdateSeen hostname)
    rintro rfl
    exact hnew hhost
  have hmodels : ((x.shared.db.nodeUpsert hostname device config).nodeUpdateSeen hostname).models
      = x.shared.db.models := by
    show (x.shared.db.nodeUpsert hostname device config).models = _
    unfold Database.nodeUpsert
    split_ifs <;> rfl
  refine ⟨?_, fun p hp => (h.placed p hp).mono (hkeep _ (hinv.placed p hp).named)⟩
  intro t ht
  rcases List.mem_append.mp ht with hold | hnew'
  · exact (h.tasks t hold).mono (hkeep t.1 (List.mem_map_of_mem hold)) hmodels
      (List.Subset.refl _)
  · rw [List.mem_singleton.mp hnew']
    refine ⟨?_, fun node hn => (by cases hn), fun hd => by cases hd⟩
    have hrow : ∃ row, (x.shared.db.nodeUpsert hostname device config).nodeByHostname hostname
        = some row := by
      unfold Database.nodeUpsert
      split_ifs with hsome
      · obtain ⟨row, hrow⟩ := Option.isSome_iff_exists.mp hsome
        rw [nodeByHostname_updateNode]
        · rw [hrow]
          exact ⟨_, rfl⟩
        · exact fun _ => rfl
      · rw [Bool.not_eq_true, Option.isSome_eq_false_iff, Option.isNone_iff_eq_none] at hsome
        unfold Database.nodeByHostname at hsome ⊢
        rw [List.find?_append, hsome]
        exact ⟨⟨x.shared.db.nextNodeId, hostname, device, config, none⟩, by simp⟩
    obtain ⟨row, hrow⟩ := hrow
    obtain ⟨row', hrow', _⟩ := KeepsRow.nodeUpdateSeen hostname row hrow
    exact ⟨row', hrow'⟩

theorem Joins.Known.step {x' : Joins} (h : x.Known settings) (hinv : x.Inv settings)
    {l : JoinStep} (hs : x.step settings l = some x') : x'.Known settings := by
  cases l with
  | join hostname device config =>
    simp only [Joins.step] at hs
    split_ifs at hs with hmem
    cases hs
    exact h.join hinv hmem device config
  | run i =>
    obtain ⟨⟨hostname, phase⟩, hi, hs⟩ := Option.bind_eq_some_iff.mp hs
    obtain ⟨⟨shared, phase'⟩, hstep, rfl⟩ := Option.map_eq_some_iff.mp hs
    exact h.run hinv hi hstep
  | tick seconds =>
    cases hs
    exact h.env (fun _ => .of_nodes rfl) rfl
  | seen hostname =>
    cases hs
    exact h.env (fun _ => .nodeUpdateSeen hostname) rfl
  | report states =>
    cases hs
    exact h.env (fun _ => .of_nodes rfl) rfl

theorem joins_known {start : Joins} (h0 : start.Start)
    (h : Steps.Reach (Joins.step settings) (Joins.keepsActive settings) start x) :
    x.Known settings := by
  have hstart : start.Known settings := by
    refine ⟨?_, ?_⟩
    · rw [h0.tasks]
      exact fun t ht => absurd ht List.not_mem_nil
    · rw [h0.placed]
      exact fun p hp => absurd hp List.not_mem_nil
  have hempty : start.allActive settings = true := by
    rw [Joins.allActive, h0.tasks]
    rfl
  refine (h.invariant (P := fun x => (x.Inv settings ∧ x.allActive settings = true) ∧
    x.Known settings) ⟨⟨h0.inv, hempty⟩, hstart⟩ ?_).2
  intro y l y' hy hok hs
  exact ⟨⟨hy.1.1.step hy.1.2 hs, hok y' hs⟩, hy.2.step hy.1.1 hs⟩

/-- a worker that is not placed and whose task inserts nothing has no rows -/
theorem Joins.Inv.no_rows_unplaced (h : x.Inv settings) {t : String × Progressive} (ht : t ∈ x.tasks)
    (hnone : t.2.inserted settings = []) (hunplaced : ∀ p ∈ x.placed, p.1.hostname ≠ t.1)
    {id : Nat} (hown : x.shared.db.Own t.1 id) : x.shared.db.rows id = 0 := by
  have hrows : ∀ pair ∈ rowPairs x.shared.db, pair.1 ≠ id := by
    rintro pair hpair rfl
    rcases h.pair_cases hpair with ⟨p, hp, hin⟩ | ⟨t', ht', hin⟩
    · have hown' := (h.placed p hp).own
      rw [← block_fst hin] at hown'
      exact hunplaced p hp (names_of_id h.valid hown' hown)
    · obtain ⟨node, target, indices, rest, hphase, hfst⟩ := inserted_fst hin
      obtain ⟨j, hj⟩ := List.mem_iff_getElem?.mp ht'
      obtain ⟨k, hk⟩ := List.mem_iff_getElem?.mp ht
      have hfair := h.fair j t' hj
      rw [hphase] at hfair
      have hown' := hfair.1.2
      rw [← hfst] at hown'
      have hjk := h.task_unique hj hk (names_of_id h.valid hown' hown)
      subst hjk
      rw [hj] at hk
      cases hk
      rw [hnone] at hin
      exact absurd hin List.not_mem_nil
  unfold Database.rows Database.expertsByNode
  rw [List.length_eq_zero_iff, List.filter_eq_nil_iff]
  intro e he
  simpa using hrows (e.nodeId, e.expertId) (List.mem_map_of_mem he)

end

/-- the insertion phase of the task is over, or the task has ended without one -/
def Progressive.pastInsertion : Progressive → Bool
  | .markLoading _ _ _ => true
  | .promote _ _ _ => true
  | .unmark => true
  | .done => true
  | _ => false

def Progressive.isInserting : Progressive → Bool
  | .inserting _ _ _ _ => true
  | _ => false

/-- the rows of the worker: its full share, at most its capacity -/
def FullShare (settings : Settings) (db : Database) (hostname : String) : Prop :=
  ∃ row, db.nodeByHostname hostname = some row ∧
    db.rows row.id = targetPerLayer (maxExperts row) (layerCount settings)
      settings.routedExperts * layerCount settings ∧
    db.rows row.id ≤ maxExperts row

section
variable {settings : Settings} {x : Joins}

theorem Joins.Inv.fullShare_placed (h : x.Inv settings) (hk : x.Known settings)
    {p : Node × List Nat} (hp : p ∈ x.placed) :
    FullShare settings x.shared.db p.1.hostname := by
  obtain ⟨row, hrow, hid, hconfig⟩ := hk.placed p hp
  have hrows := h.rows_placed hp
  rw [← hid, ← targetOf_congr hconfig] at hrows
  exact ⟨row, hrow, hrows, hrows ▸ targetOf_le settings row⟩

/-- the full share is nothing where there is no room for one expert on all layers -/
theorem Joins.Inv.fullShare_none (h : x.Inv settings) {t : String × Progressive} (ht : t ∈ x.tasks)
    (hnone : t.2.inserted settings = []) (hunplaced : ∀ p ∈ x.placed, p.1.hostname ≠ t.1)
    {row : Node} (hrow : x.shared.db.nodeByHostname t.1 = some row)
    (hzero : targetOf settings row = 0) : FullShare settings x.shared.db t.1 := by
  have hrows := h.no_rows_unplaced ht hnone hunplaced (own_of_nodeByHostname hrow)
  have htarget : targetPerLayer (maxExperts row) (layerCount settings) settings.routedExperts = 0 :=
    hzero
  refine ⟨row, hrow, ?_, ?_⟩
  · rw [hrows, htarget, Nat.zero_mul]
  · rw [hrows]
    exact Nat.zero_le _

theorem Joins.Inv.fullShare (h : x.Inv settings) (hk : x.Known settings)
    {t : String × Progressive} (ht : t ∈ x.tasks) (hpast : t.2.pastInsertion = true) :
    FullShare settings x.shared.db t.1 ∨
      (t.2 = .done ∧ x.shared.db.modelByName settings.modelName = none) := by
  obtain ⟨i, hi⟩ := List.mem_iff_getElem?.mp ht
  have hfair := h.fair i t hi
  by_cases hex : ∃ p ∈ x.placed, p.1.hostname = t.1
  · obtain ⟨p, hp, hname⟩ := hex
    exact .inl (hname ▸ h.fullShare_placed hk hp)
  · cases hphase : t.2 with
    | markLoading node target indices =>
      rw [hphase] at hfair
      obtain ⟨hname, p, hp, hnode⟩ := hfair
      exact absurd ⟨p, hp, hnode ▸ hname⟩ hex
    | promote node target indices =>
      rw [hphase] at hfair
      obtain ⟨hname, p, hp, hnode⟩ := hfair
      exact absurd ⟨p, hp, hnode ▸ hname⟩ hex
    | unmark =>
      rw [hphase] at hfair
      exact absurd hfair hex
    | done =>
      rcases (hk.tasks t ht).ended hphase with hplaced | hmodel | ⟨row, hrow, hzero⟩
      · exact absurd hplaced hex
      · exact .inr ⟨rfl, hmodel⟩
      · refine .inl (h.fullShare_none ht (by rw [hphase]; rfl) ?_ hrow hzero)
        exact fun p hp hname => hex ⟨p, hp, hname⟩
    | _ =>
      rw [hphase] at hpast
      cases hpast

end

/-- **Balanced assignment.**  However workers join and their tasks interleave: the replica counts of
any two experts differ by at most one at every point, no expert has a second replica while another has
none, the layers have the same replicas whenever no insertion is under way, and every worker whose
insertion phase is over has its full share and no more than its capacity, unless its task ended for
want of the model. -/
theorem progressive_balanced {settings : Settings} {start x : Joins} (h0 : start.Start)
    (h : Steps.Reach (Joins.step settings) (Joins.keepsActive settings) start x) :
    (∀ layer ∈ moeLayers settings, ∀ layer' ∈ moeLayers settings,
      ∀ i < settings.routedExperts, ∀ j < settings.routedExperts,
        replicas settings x.shared.db layer i ≤ replicas settings x.shared.db layer' j + 1 ∧
        (2 ≤ replicas settings x.shared.db layer i →
          replicas settings x.shared.db layer' j ≠ 0)) ∧
    ((∀ t ∈ x.tasks, t.2.isInserting = false) →
      ∀ layer ∈ moeLayers settings, ∀ layer' ∈ moeLayers settings, ∀ i,
        x.shared.db.nodeByExpert (objectKey settings.modelName layer i) =
          x.shared.db.nodeByExpert (objectKey settings.modelName layer' i)) ∧
    ∀ t ∈ x.tasks, t.2.pastInsertion = true →
      (∃ row, x.shared.db.nodeByHostname t.1 = some row ∧
        x.shared.db.rows row.id = targetPerLayer (maxExperts row) (layerCount settings)
          settings.routedExperts * layerCount settings ∧
        x.shared.db.rows row.id ≤ maxExperts row) ∨
      (t.2 = .done ∧ x.shared.db.modelByName settings.modelName = none) := by
  obtain ⟨hinv, hactive⟩ := joins_inv h0 h
  refine ⟨?_, ?_, fun t ht hpast => hinv.fullShare (joins_known h0 h) ht hpast⟩
  · intro layer hlayer layer' hlayer' i hi j hj
    have hle := hinv.balance hactive hlayer hlayer' hi hj
    exact ⟨hle, fun htwo => by omega⟩
  · intro hidle layer hlayer layer' hlayer' i
    refine hinv.layers_alike (List.flatMap_eq_nil_iff.mpr fun t ht => ?_) hlayer hlayer' i
    have hnot := hidle t ht
    cases hphase : t.2 with
    | inserting node target indices rest =>
      rw [hphase] at hnot
      cases hnot
    | _ => rfl

def capacityConfig (slots : Nat) : NodeConfig :=
  (∅ : NodeConfig).insert "max_experts" (.number slots)

/-- two layers of three experts -/
def joinSettings : Settings := { exampleSettings with routedExperts := 3 }

def joiningNode (id : Nat) (hostname : String) (slots : Nat) : Node :=
  ⟨id, hostname, "cpu", capacityConfig slots, some 100⟩

/-- a cluster of `joinSettings` with the node rows and the expert rows -/
def cluster (nodes : List Node) (experts : List Expert) (assignLock : Bool)
    (tasks : List (String × Progressive)) (placed : List (Node × List Nat)) : Joins where
  shared := ⟨⟨100, nodes, nodes.length + 1, experts, [⟨1, 1, "main"⟩], 2, [⟨1, "m"⟩]⟩,
    assignLock, []⟩
  tasks := tasks
  placed := placed

/-- no worker has joined yet -/
def emptyCluster : Joins := cluster [] [] false [] []

theorem emptyCluster_start : emptyCluster.Start :=
  ⟨⟨by decide, by decide, by decide⟩, rfl, rfl, rfl, rfl⟩

/-- `worker-a` has room for two experts on each layer, `worker-b` for one -/
def workerA : Node := joiningNode 1 "worker-a" 4

def workerB : Node := joiningNode 2 "worker-b" 3

/-- both tasks have read their nodes, and that of `worker-a` has counted the replicas -/
def firstCounted : Joins :=
  cluster [workerA, workerB] [] true
    [("worker-a", .countReplicas workerA 1 2 [1, 2] [] [0, 0, 0]),
      ("worker-b", .acquire workerB 1 1)] []

def rowsOfA : List Expert := assignedExperts joinSettings 1 workerA [0, 1]

/-- `worker-a` is placed, and the task of `worker-b` has counted the replicas -/
def secondCounted : Joins :=
  cluster [workerA, workerB] rowsOfA true
    [("worker-a", .markLoading workerA 2 [0, 1]),
      ("worker-b", .countReplicas workerB 1 1 [1, 2] [] [1, 1, 0])] [(workerA, [0, 1])]

/-- the task of `worker-b` is about to insert its rows -/
def secondInserting : Joins :=
  cluster [workerA, workerB] rowsOfA true
    [("worker-a", .markLoading workerA 2 [0, 1]),
      ("worker-b", .inserting workerB 1 [2] (assignedExperts joinSettings 1 workerB [2]))]
    [(workerA, [0, 1])]

def staysActive (x : Joins) (l : JoinStep) : Bool :=
  (x.step joinSettings l).all (Joins.allActive joinSettings)

theorem prioritize_fresh : prioritize [0, 0, 0] 3 = [0, 1, 2] := by
  have hrange : List.range 3 = [0, 1, 2] := rfl
  simp [prioritize, hrange, List.mergeSort, List.MergeSort.Internal.splitInTwo, compare,
    compareOfLessAndEq]

theorem prioritize_second : prioritize [1, 1, 0] 3 = [2, 0, 1] := by
  have hrange : List.range 3 = [0, 1, 2] := rfl
  simp [prioritize, hrange, List.mergeSort, List.MergeSort.Internal.splitInTwo, compare,
    compareOfLessAndEq]

theorem secondInserting_reached :
    Steps.Reach (Joins.step joinSettings) (fun x l => staysActive x l = true) emptyCluster
      secondInserting := by
  have hstart : ∀ counts node target, Progressive.startInserting joinSettings node 1 target counts =
      .inserting node target ((prioritize counts 3).take target)
        (assignedExperts joinSettings 1 node ((prioritize counts 3).take target)) :=
    fun _ _ _ => rfl
  have hcounted : Steps.run (Joins.step joinSettings) staysActive emptyCluster
      ([.join "worker-a" "cpu" (capacityConfig 4), .join "worker-b" "cpu" (capacityConfig 3)] ++
        List.replicate 3 (.run 1) ++ List.replicate 8 (.run 0)) = some firstCounted := by
    decide +kernel
  have hfirst : firstCounted.step joinSettings (.run 0) = some (cluster [workerA, workerB] [] true
      [("worker-a", .inserting workerA 2 [0, 1] rowsOfA), ("worker-b", .acquire workerB 1 1)]
      []) := by
    show some (Joins.mk _ [("worker-a", Progressive.startInserting joinSettings workerA 1 2
      [0, 0, 0]), _] _) = _
    rw [hstart, prioritize_fresh]
    rfl
  have hsecond : secondCounted.step joinSettings (.run 1) = some secondInserting := by
    show some (Joins.mk _ [_, ("worker-b", Progressive.startInserting joinSettings workerB 1 1
      [1, 1, 0])] _) = _
    rw [hstart, prioritize_second]
    rfl
  have hmiddle : Steps.run (Joins.step joinSettings) staysActive (cluster [workerA, workerB] [] true
      [("worker-a", .inserting workerA 2 [0, 1] rowsOfA), ("worker-b", .acquire workerB 1 1)] [])
      (List.replicate 5 (.run 0) ++ List.replicate 5 (.run 1)) = some secondCounted := by
    decide +kernel
  have hreach := Steps.Reach.refl.of_run hcounted
  have hreach' := Steps.Reach.of_run (.step (.run 0) hreach ?_ hfirst) hmiddle
  · refine .step (.run 1) hreach' ?_ hsecond
    rw [staysActive, hsecond]
    decide +kernel
  · rw [staysActive, hfirst]
    decide +kernel

theorem keepsActive_of_staysActive {start x : Joins}
    (h : Steps.Reach (Joins.step joinSettings) (fun x l => staysActive x l = true) start x) :
    Steps.Reach (Joins.step joinSettings) (Joins.keepsActive joinSettings) start x := by
  refine h.mono fun y l hall y' hy => ?_
  rw [staysActive, hy] at hall
  exact hall

/-- both workers are past their insertion phases, the second task has ended -/
theorem progressive_balanced_two :
    ∃ x : Joins, (∀ t ∈ x.tasks, t.2.pastInsertion = true) ∧
      (x.tasks.map Prod.fst = ["worker-a", "worker-b"]) ∧
      (∀ i < 3, ∀ j < 3,
        replicas joinSettings x.shared.db 0 i ≤ replicas joinSettings x.shared.db 1 j + 1) ∧
      ∀ t ∈ x.tasks, ∃ row, x.shared.db.nodeByHostname t.1 = some row ∧
        x.shared.db.rows row.id = targetPerLayer (maxExperts row) 2 3 * 2 ∧
        x.shared.db.rows row.id ≤ maxExperts row := by
  have hrun : ∃ x : Joins, Steps.run (Joins.step joinSettings) staysActive secondInserting
      (List.replicate 7 (.run 1)) = some x ∧
        (decide (x.tasks.map Prod.fst = ["worker-a", "worker-b"])
          && decide (x.shared.db.modelByName "m" = some ⟨1, "m"⟩)
          && x.tasks.all fun t => t.2.pastInsertion) = true :=
    (Option.any_eq_true _ _).mp (by decide +kernel)
  obtain ⟨x, hx, hp⟩ := hrun
  simp only [Bool.and_eq_true, decide_eq_true_eq, List.all_eq_true] at hp
  obtain ⟨⟨hnames, hmodel⟩, hpast⟩ := hp
  obtain ⟨hbalance, _, hshare⟩ := progressive_balanced emptyCluster_start
    (keepsActive_of_staysActive (secondInserting_reached.of_run hx))
  refine ⟨x, hpast, hnames, fun i hi j hj =>
    (hbalance 0 (by decide) 1 (by decide) i hi j hj).1, fun t ht => ?_⟩
  refine (hshare t ht (hpast t ht)).resolve_right ?_
  rintro ⟨_, hnone⟩
  rw [show joinSettings.modelName = "m" from rfl, hmodel] at hnone
  cases hnone

/-- one worker is past its insertion phase and another inserts its rows one by one: an expert has a
replica more on the first layer than on the second -/
theorem layers_apart :
    ¬ ∀ (settings : Settings) (start x : Joins), start.Start →
      Steps.Reach (Joins.step settings) (Joins.keepsActive settings) start x →
      (∃ t ∈ x.tasks, t.2.pastInsertion = true) →
      ∀ layer ∈ moeLayers settings, ∀ layer' ∈ moeLayers settings, ∀ i,
        x.shared.db.nodeByExpert (objectKey settings.modelName layer i) =
          x.shared.db.nodeByExpert (objectKey settings.modelName layer' i) := by
  have hrun : ∃ x : Joins, Steps.run (Joins.step joinSettings) staysActive secondInserting
      [.run 1] = some x ∧
        (x.tasks.any (fun t => t.2.pastInsertion)
          && decide (x.shared.db.nodeByExpert (objectKey "m" 0 2) ≠
            x.shared.db.nodeByExpert (objectKey "m" 1 2))) = true :=
    (Option.any_eq_true _ _).mp (by decide +kernel)
  obtain ⟨x, hx, hp⟩ := hrun
  rw [Bool.and_eq_true, decide_eq_true_eq, List.any_eq_true] at hp
  intro h
  exact hp.2 (h joinSettings emptyCluster x emptyCluster_start
    (keepsActive_of_staysActive (secondInserting_reached.of_run hx)) hp.1 0 (by decide) 1 (by decide)
    2)

end ExpertKit.Elastic

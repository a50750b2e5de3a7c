import ExpertKit.Elastic.Footprint
import ExpertKit.Lib.Ranks

/-!
# Elasticity: which experts the assignment covers

`progressive_assign` on its own, from `node_by_hostname` to the last inserted row.  The replicas of an
index are counted on the first MoE layer only.

* `covered`, `lacking`      rows on active nodes, and the indices that miss one on some layer;
* `Progressive.Alone`       the task without any other;
* `alone_inserted`          the rows after the insertion phase;
* `progressive_fills_iff`   when every gap is filled.
-/

set_option linter.unusedSectionVars false

namespace ExpertKit.Elastic
open Std

/-! ## coverage -/

def moeLayers (settings : Settings) : List Nat :=
  List.range' settings.moeLayers.1 (layerCount settings)

/-- an active node has a row of the expert -/
def covered (settings : Settings) (db : Database) (layer idx : Nat) : Bool :=
  (db.activeNodes settings.nodeActiveThreshold).any fun node =>
    db.experts.any fun expert =>
      expert.nodeId == node.id && expert.expertId == objectKey settings.modelName layer idx

/-- the expert indices that lack a row on an active node in some layer -/
def lacking (settings : Settings) (db : Database) : List Nat :=
  (List.range settings.routedExperts).filter fun idx =>
    (moeLayers settings).any fun layer => !covered settings db layer idx

def AllCovered (settings : Settings) (db : Database) : Prop :=
  ∀ layer ∈ moeLayers settings, ∀ idx < settings.routedExperts,
    covered settings db layer idx = true

/-- `node_by_expert` within the active nodes, on the sampled layer -/
def replicaCount (settings : Settings) (db : Database) (activeIds : List Nat) (idx : Nat) : Nat :=
  ((db.nodeByExpert (objectKey settings.modelName settings.moeLayers.1 idx)).filter
    fun n => activeIds.contains n.id).length

def replicaCounts (settings : Settings) (db : Database) (activeIds : List Nat) : List Nat :=
  (List.range settings.routedExperts).map (replicaCount settings db activeIds)

def activeIds (settings : Settings) (db : Database) : List Nat :=
  (db.activeNodes settings.nodeActiveThreshold).map Node.id

/-! ## the order of the indices -/

/-- fewer replicas first, then the index order -/
def before (counts : List Nat) (a b : Nat) : Bool :=
  decide (counts.getD a 0 < counts.getD b 0 ∨ counts.getD a 0 = counts.getD b 0 ∧ a < b)

theorem before_asymm (counts : List Nat) (a b : Nat) (h : before counts a b = true) :
    before counts b a = false := by
  have hlt := of_decide_eq_true h
  refine decide_eq_false ?_
  omega

theorem prioritize_sorted (counts : List Nat) (routedExperts : Nat) :
    (prioritize counts routedExperts).Pairwise fun a b => before counts a b = true := by
  have hle : ∀ a b : Nat, ((compare (counts.getD a 0) (counts.getD b 0)).then (compare a b)).isLE =
      decide (toLex (counts.getD a 0, a) ≤ toLex (counts.getD b 0, b)) := by
    intro a b
    rw [Bool.eq_iff_iff, Ordering.isLE_then_iff_and, decide_eq_true_iff, Prod.Lex.toLex_le_toLex,
      Nat.isLE_compare, Nat.isLE_compare, Nat.compare_eq_lt]
    simp only
    omega
  have hsorted : (prioritize counts routedExperts).Pairwise fun a b =>
      ((compare (counts.getD a 0) (counts.getD b 0)).then (compare a b)).isLE = true := by
    refine List.pairwise_mergeSort ?_ ?_ _
    · intro a b c hab hbc
      rw [hle, decide_eq_true_iff] at *
      exact hab.trans hbc
    · intro a b
      rw [hle, hle, Bool.or_eq_true, decide_eq_true_iff, decide_eq_true_iff]
      exact le_total _ _
  refine (hsorted.and (nodup_prioritize counts routedExperts)).imp ?_
  rintro a b ⟨hab, hne⟩
  rw [hle, decide_eq_true_iff, Prod.Lex.toLex_le_toLex] at hab
  simp only at hab
  refine decide_eq_true ?_
  omega

/-- which indices are among the first ones -/
theorem mem_take_prioritize {counts : List Nat} {routedExperts idx target : Nat} :
    idx ∈ (prioritize counts routedExperts).take target ↔ idx < routedExperts ∧
      Ranks.rank (before counts) (List.range routedExperts) idx < target := by
  have hperm : (prioritize counts routedExperts).Perm (List.range routedExperts) :=
    List.mergeSort_perm _ _
  rw [Ranks.mem_take_iff (before_asymm counts) (prioritize_sorted counts routedExperts),
    Ranks.rank_perm hperm, hperm.mem_iff, List.mem_range]

/-! ## the task alone -/

/-- one statement after the other, and no other task in between -/
def Progressive.Alone (settings : Settings) (hostname : String) :
    Shared × Progressive → Shared × Progressive → Prop :=
  Relation.ReflTransGen fun a b => a.2.step settings hostname a.1 = some b

section
variable {settings : Settings} {hostname : String}

theorem Progressive.Alone.step {x : Shared} {phase : Progressive} {b c : Shared × Progressive}
    (h : phase.step settings hostname x = some b) (hrest : Progressive.Alone settings hostname b c) :
    Progressive.Alone settings hostname (x, phase) c :=
  Relation.ReflTransGen.head h hrest

theorem alone_countReplicas (x : Shared) (node : Node) (instanceId target : Nat)
    (activeIds rest counts : List Nat) :
    Progressive.Alone settings hostname
      (x, .countReplicas node instanceId target activeIds rest counts)
      (x, .startInserting settings node instanceId target
        (counts ++ rest.map (replicaCount settings x.db activeIds))) := by
  induction rest generalizing counts with
  | nil =>
    rw [List.map_nil, List.append_nil]
    exact .step rfl .refl
  | cons idx rest ih =>
    have hrest := ih (counts ++ [replicaCount settings x.db activeIds idx])
    rw [List.append_assoc] at hrest
    exact .step rfl hrest

theorem alone_inserting (x : Shared) (node : Node) (target : Nat) (indices : List Nat)
    (rest : List Expert) :
    Progressive.Alone settings hostname (x, .inserting node target indices rest)
      ({ x with db := x.db.expertUpsertBatch rest, assignLock := false },
        .markLoading node target indices) := by
  induction rest generalizing x with
  | nil => exact .step rfl .refl
  | cons expert rest ih => exact .step rfl (ih { x with db := x.db.expertUpsert expert })

/-- the database when the lock is taken: the rows of an earlier run are gone -/
def prepared (settings : Settings) (db : Database) (node : Node) : Database :=
  let db := db.deleteExpertsByNode node.id
  match db.instanceByName settings.instanceName with
  | some _ => db
  | none =>
    match db.modelByName settings.modelName with
    | none => db
    | some model => db.instanceUpsert model.id settings.instanceName

/-- the instance exists, or the model for which it is created -/
def HasInstance (settings : Settings) (db : Database) : Prop :=
  (db.instanceByName settings.instanceName).isSome ∨ (db.modelByName settings.modelName).isSome

theorem deleteExpertsByNode_of_empty {db : Database} {nodeId : Nat}
    (h : (db.expertsByNode nodeId).isEmpty = true) : db.deleteExpertsByNode nodeId = db := by
  have hnone := List.isEmpty_iff.mp h
  have hself : (db.experts.filter fun expert => expert.nodeId ≠ nodeId) = db.experts := by
    refine List.filter_eq_self.mpr fun expert hexpert => ?_
    have hfilter := List.filter_eq_nil_iff.mp hnone expert hexpert
    simpa using hfilter
  unfold Database.deleteExpertsByNode
  rw [hself]

theorem instanceByName_upsert (db : Database) (modelId : Nat) (name : String) :
    ((db.instanceUpsert modelId name).instanceByName name).isSome = true := by
  unfold Database.instanceUpsert
  by_cases h : (db.instanceByName name).isSome = true
  · rw [if_pos h]
    exact h
  · rw [if_neg h]
    simp [Database.instanceByName, List.find?_append]

/-- the task reaches the lock -/
theorem alone_prepared {x : Shared} {node : Node}
    (hnode : x.db.nodeByHostname hostname = some node) (hinstance : HasInstance settings x.db)
    (htarget : targetPerLayer (maxExperts node) (layerCount settings) settings.routedExperts ≠ 0) :
    ∃ instanceId, Progressive.Alone settings hostname (x, .lookup)
      ({ x with db := prepared settings x.db node }, .acquire node instanceId
        (targetPerLayer (maxExperts node) (layerCount settings) settings.routedExperts)) := by
  have hcheck : ∀ instanceId, Progressive.checkCapacity settings node instanceId =
      .acquire node instanceId
        (targetPerLayer (maxExperts node) (layerCount settings) settings.routedExperts) :=
    fun instanceId => if_neg htarget
  have hclear : ∃ x', x' = { x with db := x.db.deleteExpertsByNode node.id } ∧
      Progressive.Alone settings hostname (x, .lookup) (x', .readInstance node) := by
    refine ⟨_, rfl, .step (by rw [Progressive.step, hnode]) ?_⟩
    by_cases hempty : (x.db.expertsByNode node.id).isEmpty = true
    · rw [deleteExpertsByNode_of_empty hempty]
      exact .step (by rw [Progressive.step, if_pos hempty]) .refl
    · exact .step (by rw [Progressive.step, if_neg hempty]) (.step rfl .refl)
  obtain ⟨x', rfl, hcleared⟩ := hclear
  unfold prepared
  simp only
  cases hname : (x.db.deleteExpertsByNode node.id).instanceByName settings.instanceName with
  | some row =>
    refine ⟨row.id, hcleared.trans (Progressive.Alone.step ?_ .refl)⟩
    simp only [Progressive.step, hname, hcheck]
  | none =>
    have hmodel : ((x.db.deleteExpertsByNode node.id).modelByName settings.modelName).isSome := by
      rcases hinstance with hsome | hmodel
      · exact absurd (hname ▸ hsome : (none : Option Instance).isSome = true) Bool.false_ne_true
      · exact hmodel
    obtain ⟨model, hmodel⟩ := Option.isSome_iff_exists.mp hmodel
    obtain ⟨row, hrow⟩ := Option.isSome_iff_exists.mp (instanceByName_upsert
      (x.db.deleteExpertsByNode node.id) model.id settings.instanceName)
    rw [hmodel]
    have hcreate : Progressive.Alone settings hostname
        ({ x with db := x.db.deleteExpertsByNode node.id }, .createInstance node model.id)
        ({ x with
            db := (x.db.deleteExpertsByNode node.id).instanceUpsert model.id settings.instanceName },
          .acquire node row.id
            (targetPerLayer (maxExperts node) (layerCount settings) settings.routedExperts)) :=
      .step (by simp only [Progressive.step, hrow, hcheck]) .refl
    have hread : Progressive.Alone settings hostname
        ({ x with db := x.db.deleteExpertsByNode node.id }, .readInstance node)
        ({ x with db := x.db.deleteExpertsByNode node.id }, .createInstance node model.id) :=
      .step (b := ({ x with db := x.db.deleteExpertsByNode node.id }, .readModel node))
        (by simp only [Progressive.step, hname])
        (.step (by simp only [Progressive.step, hmodel]) .refl)
    exact ⟨row.id, hcleared.trans (hread.trans hcreate)⟩

theorem prepared_spec (settings : Settings) (db : Database) (node : Node) :
    (prepared settings db node).nodes = db.nodes ∧ (prepared settings db node).now = db.now ∧
      (prepared settings db node).experts = (db.deleteExpertsByNode node.id).experts := by
  unfold prepared Database.instanceUpsert
  simp only
  split
  · exact ⟨rfl, rfl, rfl⟩
  · split
    · exact ⟨rfl, rfl, rfl⟩
    · split_ifs <;> exact ⟨rfl, rfl, rfl⟩

/-- the indices that the task assigns -/
def chosen (settings : Settings) (db : Database) (node : Node) : List Nat :=
  (prioritize (replicaCounts settings db (activeIds settings db)) settings.routedExperts).take
    (targetPerLayer (maxExperts node) (layerCount settings) settings.routedExperts)

/-- the insertion phase: the rows of the chosen indices are there -/
theorem alone_inserted {x : Shared} {node : Node}
    (hnode : x.db.nodeByHostname hostname = some node) (hinstance : HasInstance settings x.db)
    (hfree : x.assignLock = false)
    (htarget : targetPerLayer (maxExperts node) (layerCount settings) settings.routedExperts ≠ 0) :
    ∃ instanceId, Progressive.Alone settings hostname (x, .lookup)
      ({ x with
          db := (prepared settings x.db node).expertUpsertBatch (assignedExperts settings instanceId
            node (chosen settings (prepared settings x.db node) node))
          assignLock := false },
        .markLoading node (targetPerLayer (maxExperts node) (layerCount settings)
          settings.routedExperts) (chosen settings (prepared settings x.db node) node)) := by
  obtain ⟨instanceId, halone⟩ := alone_prepared hnode hinstance htarget
  refine ⟨instanceId, halone.trans ?_⟩
  have hcount : Progressive.Alone settings hostname _ _ := alone_countReplicas
    { x with db := prepared settings x.db node, assignLock := true } node instanceId
    (targetPerLayer (maxExperts node) (layerCount settings) settings.routedExperts)
    (activeIds settings (prepared settings x.db node)) (List.range settings.routedExperts) []
  refine Progressive.Alone.step (b := (_, .readActive node instanceId _)) ?_
    (Progressive.Alone.step rfl (hcount.trans ?_))
  · rw [Progressive.step, hfree]
    exact if_neg Bool.false_ne_true
  · exact alone_inserting _ node _ _ _

end

/-! ## what is covered afterwards -/

def hasRow (db : Database) (nodeId : Nat) (expertId : String) : Bool :=
  db.experts.any fun expert => expert.nodeId == nodeId && expert.expertId == expertId

theorem hasRow_upsert (db : Database) (expert : Expert) (nodeId : Nat) (expertId : String) :
    hasRow (db.expertUpsert expert) nodeId expertId =
      (hasRow db nodeId expertId || (expert.nodeId == nodeId && expert.expertId == expertId)) := by
  unfold Database.expertUpsert
  by_cases hexists : db.experts.any expert.sameKey = true
  · rw [if_pos hexists]
    obtain ⟨row, hrow, hkey⟩ := List.any_eq_true.mp hexists
    simp only [Expert.sameKey, Bool.and_eq_true, beq_iff_eq] at hkey
    obtain ⟨⟨_, hnode⟩, hid⟩ := hkey
    rw [eq_comm, Bool.or_eq_left_iff_imp, Bool.and_eq_true, beq_iff_eq, beq_iff_eq]
    rintro ⟨rfl, rfl⟩
    exact List.any_eq_true.mpr ⟨row, hrow, by simp [hnode, hid]⟩
  · rw [if_neg hexists]
    simp [hasRow, List.any_append]

theorem hasRow_upsertBatch (db : Database) (experts : List Expert) (nodeId : Nat)
    (expertId : String) :
    hasRow (db.expertUpsertBatch experts) nodeId expertId = (hasRow db nodeId expertId ||
      experts.any fun expert => expert.nodeId == nodeId && expert.expertId == expertId) := by
  unfold Database.expertUpsertBatch
  induction experts generalizing db with
  | nil => rw [List.foldl_nil, List.any_nil, Bool.or_false]
  | cons expert rest ih => rw [List.foldl_cons, ih, hasRow_upsert, List.any_cons, Bool.or_assoc]

/-- the batch changes nothing but the expert rows -/
theorem upsertBatch_frame (db : Database) (experts : List Expert) :
    ∃ rows, db.expertUpsertBatch experts = { db with experts := rows } := by
  unfold Database.expertUpsertBatch
  induction experts generalizing db with
  | nil => exact ⟨db.experts, rfl⟩
  | cons expert rest ih =>
    obtain ⟨rows, hrows⟩ := ih (db.expertUpsert expert)
    rw [List.foldl_cons, hrows]
    unfold Database.expertUpsert
    split_ifs <;> exact ⟨rows, rfl⟩

theorem activeNodes_upsertBatch (db : Database) (experts : List Expert) (threshold : Nat) :
    (db.expertUpsertBatch experts).activeNodes threshold = db.activeNodes threshold := by
  obtain ⟨rows, hrows⟩ := upsertBatch_frame db experts
  rw [hrows]
  rfl

/-- coverage and replica counts depend on the nodes, the clock and the rows only -/
theorem covered_congr {settings : Settings} {db db' : Database} (hnodes : db'.nodes = db.nodes)
    (hnow : db'.now = db.now) (hexperts : db'.experts = db.experts) :
    covered settings db' = covered settings db ∧
      replicaCounts settings db' (activeIds settings db') =
        replicaCounts settings db (activeIds settings db) := by
  have hactive : db'.activeNodes settings.nodeActiveThreshold =
      db.activeNodes settings.nodeActiveThreshold := by
    unfold Database.activeNodes
    rw [hnodes, hnow]
  constructor
  · unfold covered
    rw [hactive, hexperts]
  · unfold replicaCounts replicaCount activeIds Database.nodeByExpert
    rw [hactive, hnodes, hexperts]

theorem mem_lacking {settings : Settings} {db : Database} {idx : Nat} :
    idx ∈ lacking settings db ↔ idx < settings.routedExperts ∧
      ∃ layer ∈ moeLayers settings, covered settings db layer idx = false := by
  unfold lacking
  rw [List.mem_filter, List.mem_range, List.any_eq_true]
  simp only [Bool.not_eq_true']

/-- the rows of an active node cover its indices on every layer -/
theorem covered_assigned {settings : Settings} {db : Database} {node : Node}
    (hactive : node ∈ db.activeNodes settings.nodeActiveThreshold) (instanceId : Nat)
    (indices : List Nat) {layer idx : Nat} (hlayer : layer ∈ moeLayers settings) :
    covered settings (db.expertUpsertBatch (assignedExperts settings instanceId node indices))
      layer idx = true ↔ covered settings db layer idx = true ∨ idx ∈ indices := by
  have hrows : ∀ other : Node, ((assignedExperts settings instanceId node indices).any
      fun expert => expert.nodeId == other.id &&
        expert.expertId == objectKey settings.modelName layer idx) = true ↔
      node.id = other.id ∧ idx ∈ indices := by
    intro other
    rw [assignedExperts, objectKeys, List.any_map, List.any_eq_true]
    constructor
    · rintro ⟨id, hid, heq⟩
      obtain ⟨idx', hidx', hmem⟩ := List.mem_flatMap.mp hid
      obtain ⟨layer', _, rfl⟩ := List.mem_map.mp hmem
      simp only [Function.comp_apply, Bool.and_eq_true, beq_iff_eq] at heq
      obtain ⟨hnode, hkey⟩ := heq
      exact ⟨hnode, (objectKey_inj hkey).2 ▸ hidx'⟩
    · rintro ⟨hnode, hidx⟩
      refine ⟨objectKey settings.modelName layer idx, ?_, by simp [hnode]⟩
      exact List.mem_flatMap.mpr ⟨idx, hidx, List.mem_map_of_mem hlayer⟩
  unfold covered
  rw [activeNodes_upsertBatch, List.any_eq_true, List.any_eq_true]
  constructor
  · rintro ⟨other, hother, hrow⟩
    have hor := (hasRow_upsertBatch db _ other.id _).symm.trans hrow
    rcases (Bool.or_eq_true _ _).mp hor with hold | hnew
    · exact .inl ⟨other, hother, hold⟩
    · exact .inr ((hrows other).mp hnew).2
  · rintro (⟨other, hother, hold⟩ | hidx)
    · refine ⟨other, hother, (hasRow_upsertBatch db _ other.id _).trans ?_⟩
      exact (Bool.or_eq_true _ _).mpr (.inl hold)
    · refine ⟨node, hactive, (hasRow_upsertBatch db _ node.id _).trans ?_⟩
      exact (Bool.or_eq_true _ _).mpr (.inr ((hrows node).mpr ⟨rfl, hidx⟩))

theorem allCovered_iff {settings : Settings} {db : Database} {node : Node}
    (hactive : node ∈ db.activeNodes settings.nodeActiveThreshold) (instanceId : Nat) :
    AllCovered settings (db.expertUpsertBatch
        (assignedExperts settings instanceId node (chosen settings db node))) ↔
      ∀ idx ∈ lacking settings db, Ranks.rank
        (before (replicaCounts settings db (activeIds settings db)))
        (List.range settings.routedExperts) idx <
          targetPerLayer (maxExperts node) (layerCount settings) settings.routedExperts := by
  constructor
  · intro hall idx hidx
    obtain ⟨hlt, layer, hlayer, hnot⟩ := mem_lacking.mp hidx
    rcases (covered_assigned hactive instanceId _ hlayer).mp (hall layer hlayer idx hlt) with h | h
    · rw [hnot] at h
      exact absurd h Bool.false_ne_true
    · exact (mem_take_prioritize.mp h).2
  · intro hrank layer hlayer idx hlt
    rw [covered_assigned hactive instanceId _ hlayer]
    cases hcovered : covered settings db layer idx with
    | true => exact .inl rfl
    | false =>
      have hidx := mem_lacking.mpr ⟨hlt, layer, hlayer, hcovered⟩
      exact .inr (mem_take_prioritize.mpr ⟨hlt, hrank idx hidx⟩)

/-! ## when every gap is filled -/

/-- **Coverage of the assignment.**  The task alone reaches the end of its insertion phase; with room
for the indices that lack a row on some layer, everything is covered then if and only if each of them
(the rows of the joined worker left out) is among the first ones in the order of the replicas on the
first MoE layer and of the index. -/
theorem progressive_fills_iff {settings : Settings} {hostname : String} {x : Shared} {node : Node}
    (hnode : x.db.nodeByHostname hostname = some node)
    (hactive : node ∈ x.db.activeNodes settings.nodeActiveThreshold)
    (hinstance : HasInstance settings x.db) (hfree : x.assignLock = false)
    (htarget : targetPerLayer (maxExperts node) (layerCount settings) settings.routedExperts ≠ 0) :
    let target := targetPerLayer (maxExperts node) (layerCount settings) settings.routedExperts
    let cleared := x.db.deleteExpertsByNode node.id
    ∃ x' indices, Progressive.Alone settings hostname (x, .lookup)
        (x', .markLoading node target indices) ∧
      (((lacking settings x.db).length ≤ target → AllCovered settings x'.db) ↔
        target < (lacking settings x.db).length ∨ ∀ idx ∈ lacking settings cleared,
          Ranks.rank (before (replicaCounts settings cleared (activeIds settings cleared)))
            (List.range settings.routedExperts) idx < target) := by
  intro target cleared
  obtain ⟨instanceId, halone⟩ := alone_inserted hnode hinstance hfree htarget
  obtain ⟨hnodes, hnow, hexperts⟩ := prepared_spec settings x.db node
  have hprepared : node ∈
      (prepared settings x.db node).activeNodes settings.nodeActiveThreshold := by
    unfold Database.activeNodes
    rw [hnodes, hnow]
    exact hactive
  obtain ⟨hcovered, hcounts⟩ := @covered_congr settings cleared
    (prepared settings x.db node) hnodes hnow hexperts
  have hlacking : lacking settings (prepared settings x.db node) = lacking settings cleared := by
    unfold lacking
    rw [hcovered]
  refine ⟨_, _, halone, ?_⟩
  have hall := allCovered_iff hprepared instanceId
  rw [hcounts, hlacking] at hall
  simp only
  rw [hall]
  constructor
  · intro h
    rcases Nat.lt_or_ge target (lacking settings x.db).length with hlt | hle
    · exact .inl hlt
    · exact .inr (h hle)
  · rintro (hlt | hrank) hle
    · exact absurd hle (Nat.not_le.mpr hlt)
    · exact hrank

def coverSettings : Settings := ⟨10, "main", "m", (0, 2), 2, 0⟩

/-- a worker that covers every index on the first layer and misses one on the second, and a joined
worker with room for one index -/
def uneven : Shared where
  db := {
    now := 100
    nodes := [exampleNode 1 "worker-a" 100, exampleNode 2 "worker-b" 100]
    nextNodeId := 3
    experts := [exampleRow 1 0, exampleRow 1 1, ⟨1, 1, objectKey "m" 1 0, 1, .loaded⟩]
    instances := [⟨1, 1, "main"⟩]
    nextInstanceId := 2
    models := [⟨1, "m"⟩] }
  assignLock := false
  loading := []

theorem uneven_joined : uneven.db.nodeByHostname "worker-b" = some (exampleNode 2 "worker-b" 100) ∧
    exampleNode 2 "worker-b" 100 ∈ uneven.db.activeNodes coverSettings.nodeActiveThreshold ∧
    HasInstance coverSettings uneven.db ∧
    targetPerLayer (maxExperts (exampleNode 2 "worker-b" 100)) (layerCount coverSettings)
      coverSettings.routedExperts = 1 := by
  refine ⟨by decide +kernel, by decide +kernel, .inl (by decide +kernel), by decide +kernel⟩

/-- the same workers when the first layer misses the index -/
def unevenFirst : Shared :=
  { uneven with db := { uneven.db with experts := [exampleRow 1 1,
      ⟨1, 1, objectKey "m" 1 0, 1, .loaded⟩, ⟨1, 1, objectKey "m" 1 1, 1, .loaded⟩] } }

/-- the index that misses a row on the second layer comes second and stays uncovered; the one that
misses a row on the first layer comes first, and everything is covered -/
theorem progressive_fills_uneven :
    (∃ x' indices, Progressive.Alone coverSettings "worker-b" (uneven, .lookup)
        (x', .markLoading (exampleNode 2 "worker-b" 100) 1 indices) ∧
      ¬ ((lacking coverSettings uneven.db).length ≤ 1 → AllCovered coverSettings x'.db)) ∧
    ∃ x' indices, Progressive.Alone coverSettings "worker-b" (unevenFirst, .lookup)
        (x', .markLoading (exampleNode 2 "worker-b" 100) 1 indices) ∧
      lacking coverSettings unevenFirst.db = [0] ∧ AllCovered coverSettings x'.db := by
  obtain ⟨hnode, hactive, hinstance, htarget⟩ := uneven_joined
  constructor
  · have hfills := @progressive_fills_iff coverSettings _ uneven _ hnode hactive hinstance rfl
      (by rw [htarget]; decide)
    simp only [htarget] at hfills
    obtain ⟨x', indices, halone, hiff⟩ := hfills
    refine ⟨x', indices, halone, ?_⟩
    rw [hiff]
    decide +kernel
  · have hfills := @progressive_fills_iff coverSettings _ unevenFirst _ hnode hactive hinstance rfl
      (by rw [htarget]; decide)
    simp only [htarget] at hfills
    obtain ⟨x', indices, halone, hiff⟩ := hfills
    exact ⟨x', indices, halone, by decide +kernel, hiff.mpr (by decide +kernel) (by decide +kernel)⟩

theorem progressive_leaves_gap :
    ¬ ∀ (settings : Settings) (hostname : String) (x : Shared) (node : Node),
      x.db.nodeByHostname hostname = some node →
      node ∈ x.db.activeNodes settings.nodeActiveThreshold → HasInstance settings x.db →
      x.assignLock = false → ∀ target x' indices,
      Progressive.Alone settings hostname (x, .lookup) (x', .markLoading node target indices) →
      (lacking settings x.db).length ≤ target → AllCovered settings x'.db := by
  intro h
  obtain ⟨hnode, hactive, hinstance, htarget⟩ := uneven_joined
  obtain ⟨instanceId, halone⟩ := alone_inserted hnode hinstance rfl (by rw [htarget]; decide)
  have hall := h coverSettings "worker-b" uneven _ hnode hactive hinstance rfl _ _ _ halone
    (by decide +kernel)
  have hrank := (@allCovered_iff coverSettings _ _ hactive instanceId).mp hall
  have hcounts : ¬ ∀ idx ∈ lacking coverSettings uneven.db, Ranks.rank
      (before (replicaCounts coverSettings uneven.db (activeIds coverSettings uneven.db)))
      (List.range coverSettings.routedExperts) idx <
        targetPerLayer (maxExperts (exampleNode 2 "worker-b" 100)) (layerCount coverSettings)
          coverSettings.routedExperts := by decide +kernel
  exact hcounts hrank

end ExpertKit.Elastic

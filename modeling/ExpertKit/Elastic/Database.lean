import ExpertKit.Proto

/-!
# Elasticity: the database

The tables `node`, `expert`, `instance` and `model` of `ek-computation/migrations`, with the statements
of `state/io.rs` and `state/writer.rs` that the background tasks of the Controller run.  One
definition is one statement (or one transaction), so it is atomic; every statement succeeds.  The
rows are lists in table order, and the serial ids of the expert rows are left out.

* `Database`, `Node`, `Expert`       the tables; a node is active when it was seen recently;
* `expertUpsert`, `expertUpsertBatch`   a row that exists already is kept;
* `objectKey`, `objectKey_inj`       the identifier of an expert names its layer and index;
* `rows`                             how many rows a node has, and what each statement does to it.
-/

set_option linter.unusedSectionVars false

namespace ExpertKit.Elastic
open Std

/-! ## rows -/

/-- a JSON value of a node configuration -/
inductive ConfigValue where
  | text (value : String)
  | number (value : Int)
deriving DecidableEq, Repr

/-- `value.as_u64()` -/
def ConfigValue.asU64 : ConfigValue → Option Nat
  | .text _ => none
  | .number value => if 0 ≤ value ∧ value < 2 ^ 64 then some value.toNat else none

abbrev NodeConfig := ExtTreeMap String ConfigValue

structure Node where
  id : Nat
  hostname : String
  device : String
  config : NodeConfig
  lastSeenAt : Option Nat
deriving DecidableEq

/-- the JSON of the column `state`: null, an object with a `status`, or one without -/
inductive RowState where
  | null
  | scheduled
  | pending
  | loaded
  | empty
deriving DecidableEq, Repr

structure Expert where
  instanceId : Nat
  nodeId : Nat
  expertId : String
  replica : Nat
  state : RowState
deriving DecidableEq, Repr

structure Instance where
  id : Nat
  modelId : Nat
  name : String
deriving DecidableEq, Repr

structure Model where
  id : Nat
  name : String
deriving DecidableEq, Repr

structure Database where
  /-- the clock of the statements -/
  now : Nat
  nodes : List Node
  nextNodeId : Nat
  experts : List Expert
  instances : List Instance
  nextInstanceId : Nat
  models : List Model
deriving DecidableEq

/-- the settings and the model metadata that the tasks read -/
structure Settings where
  nodeActiveThreshold : Nat
  instanceName : String
  modelName : String
  moeLayers : Nat × Nat
  routedExperts : Nat
  expertsPerStep : Nat

/-- `max_experts` of the configuration, 0 when it is missing -/
def maxExperts (node : Node) : Nat :=
  (node.config["max_experts"]?.bind ConfigValue.asU64).getD 0

/-- `ExpertKey::as_object_key` -/
def objectKey (model : String) (layer idx : Nat) : String :=
  model ++ "/l" ++ Nat.repr layer ++ "-e" ++ Nat.repr idx

/-- the unique index of the expert table -/
def Expert.sameKey (a b : Expert) : Bool :=
  a.instanceId == b.instanceId && a.nodeId == b.nodeId && a.expertId == b.expertId

namespace Database

/-! ## reads -/

def nodeByHostname (db : Database) (hostname : String) : Option Node :=
  db.nodes.find? fun node => node.hostname = hostname

def expertsByNode (db : Database) (nodeId : Nat) : List Expert :=
  db.experts.filter fun expert => expert.nodeId = nodeId

def activeNodes (db : Database) (threshold : Nat) : List Node :=
  db.nodes.filter fun node => node.lastSeenAt.any fun seen => db.now < seen + threshold

def nodeByExpert (db : Database) (expertId : String) : List Node :=
  db.nodes.filter fun node =>
    db.experts.any fun expert => expert.nodeId == node.id && expert.expertId == expertId

def instanceByName (db : Database) (name : String) : Option Instance :=
  db.instances.find? fun row => row.name = name

def modelByName (db : Database) (name : String) : Option Model :=
  db.models.find? fun row => row.name = name

/-! ## writes -/

def expertUpsert (db : Database) (expert : Expert) : Database :=
  if db.experts.any expert.sameKey then db else { db with experts := db.experts ++ [expert] }

/-- one transaction -/
def expertUpsertBatch (db : Database) (experts : List Expert) : Database :=
  experts.foldl expertUpsert db

def deleteExpertsByNode (db : Database) (nodeId : Nat) : Database :=
  { db with experts := db.experts.filter fun expert => expert.nodeId ≠ nodeId }

def deleteExpertOnNode (db : Database) (nodeId : Nat) (expertId : String) : Database :=
  { db with experts := db.experts.filter fun expert =>
      !(expert.nodeId == nodeId && expert.expertId == expertId) }

/-- the two statements of `delete_experts_by_node_hostname` -/
def nodeIdsByHostname (db : Database) (hostname : String) : List Nat :=
  (db.nodes.filter fun node => node.hostname = hostname).map Node.id

def deleteExpertsByNodeIds (db : Database) (nodeIds : List Nat) : Database :=
  { db with experts := db.experts.filter fun expert => expert.nodeId ∉ nodeIds }

def setExpertsPending (db : Database) (nodeId : Nat) : Database :=
  { db with experts := db.experts.map fun expert =>
      if expert.nodeId = nodeId then { expert with state := .pending } else expert }

def promoteExpertsToPending (db : Database) (nodeId : Nat) (expertIds : List String) : Database :=
  { db with experts := db.experts.map fun expert =>
      if expert.nodeId = nodeId ∧ expert.expertId ∈ expertIds then
        { expert with state := .pending }
      else expert }

def updateNode (db : Database) (hostname : String) (f : Node → Node) : Database :=
  { db with nodes := db.nodes.map fun node => if node.hostname = hostname then f node else node }

/-- the last statement of `deactivate_node`: the epoch as last seen, and an empty configuration -/
def clearNode (db : Database) (hostname : String) : Database :=
  db.updateNode hostname fun node => { node with lastSeenAt := some 0, config := ∅ }

def nodeUpdateSeen (db : Database) (hostname : String) : Database :=
  db.updateNode hostname fun node => { node with lastSeenAt := some db.now }

def nodeUpsert (db : Database) (hostname device : String) (config : NodeConfig) : Database :=
  if (db.nodeByHostname hostname).isSome then
    db.updateNode hostname fun node => { node with device := device, config := config }
  else
    { db with
      nodes := db.nodes ++ [⟨db.nextNodeId, hostname, device, config, none⟩]
      nextNodeId := db.nextNodeId + 1 }

def instanceUpsert (db : Database) (modelId : Nat) (name : String) : Database :=
  if (db.instanceByName name).isSome then db
  else
    { db with
      instances := db.instances ++ [⟨db.nextInstanceId, modelId, name⟩]
      nextInstanceId := db.nextInstanceId + 1 }

/-- the primary key and the unique index of the node table -/
structure Valid (db : Database) : Prop where
  ids : (db.nodes.map Node.id).Nodup
  hostnames : (db.nodes.map Node.hostname).Nodup
  fresh : ∀ node ∈ db.nodes, node.id < db.nextNodeId

/-! ## rows of a node -/

def rows (db : Database) (nodeId : Nat) : Nat := (db.expertsByNode nodeId).length

theorem rows_upsert_le (db : Database) (expert : Expert) (nodeId : Nat) :
    (db.expertUpsert expert).rows nodeId ≤
      db.rows nodeId + (if expert.nodeId = nodeId then 1 else 0) := by
  unfold expertUpsert
  by_cases hexists : db.experts.any expert.sameKey = true
  · rw [if_pos hexists]
    exact Nat.le_add_right _ _
  · rw [if_neg hexists]
    by_cases hnode : expert.nodeId = nodeId <;>
      simp [rows, expertsByNode, List.filter_append, hnode]

/-- a batch adds at most its own rows of the node -/
theorem rows_upsertBatch_le (db : Database) (experts : List Expert) (nodeId : Nat) :
    (db.expertUpsertBatch experts).rows nodeId ≤
      db.rows nodeId + (experts.filter fun expert => expert.nodeId = nodeId).length := by
  unfold expertUpsertBatch
  induction experts generalizing db with
  | nil => simp
  | cons expert experts ih =>
    have hhead := rows_upsert_le db expert nodeId
    have hrest := ih (db.expertUpsert expert)
    rw [List.foldl_cons]
    by_cases hnode : expert.nodeId = nodeId
    · rw [if_pos hnode] at hhead
      simp only [hnode, decide_true, List.filter_cons_of_pos, List.length_cons]
      omega
    · rw [if_neg hnode] at hhead
      simp only [hnode, decide_false, Bool.false_eq_true, not_false_eq_true,
        List.filter_cons_of_neg]
      omega

/-! ## the expert statements leave the node table -/

theorem expertUpsert_nodes (db : Database) (expert : Expert) :
    (db.expertUpsert expert).nodes = db.nodes ∧
      (db.expertUpsert expert).nextNodeId = db.nextNodeId := by
  unfold expertUpsert
  split_ifs <;> exact ⟨rfl, rfl⟩

theorem expertUpsertBatch_nodes (db : Database) (experts : List Expert) :
    (db.expertUpsertBatch experts).nodes = db.nodes ∧
      (db.expertUpsertBatch experts).nextNodeId = db.nextNodeId := by
  unfold expertUpsertBatch
  induction experts generalizing db with
  | nil => exact ⟨rfl, rfl⟩
  | cons expert experts ih =>
    obtain ⟨hnodes, hnext⟩ := ih (db.expertUpsert expert)
    obtain ⟨hhead, hhead'⟩ := db.expertUpsert_nodes expert
    exact ⟨hnodes.trans hhead, hnext.trans hhead'⟩

end Database

/-! ## the identifier of an expert -/

theorem digits_append_inj {a b c d : List Char} (ha : ∀ x ∈ a, x.isDigit = true)
    (hc : ∀ x ∈ c, x.isDigit = true) (h : a ++ '-' :: b = c ++ '-' :: d) : a = c ∧ b = d := by
  induction a generalizing c with
  | nil =>
    cases c with
    | nil => simpa using h
    | cons y c =>
      simp only [List.nil_append, List.cons_append, List.cons.injEq] at h
      exact absurd (hc y List.mem_cons_self) (by rw [← h.1]; decide)
  | cons x a ih =>
    cases c with
    | nil =>
      simp only [List.nil_append, List.cons_append, List.cons.injEq] at h
      exact absurd (ha x List.mem_cons_self) (by rw [h.1]; decide)
    | cons y c =>
      simp only [List.cons_append, List.cons.injEq] at h
      obtain ⟨hxy, hrest⟩ := h
      obtain ⟨hac, hbd⟩ := ih (fun z hz => ha z (List.mem_cons_of_mem _ hz))
        (fun z hz => hc z (List.mem_cons_of_mem _ hz)) hrest
      exact ⟨by rw [hxy, hac], hbd⟩

theorem objectKey_inj {model : String} {layer idx layer' idx' : Nat}
    (h : objectKey model layer idx = objectKey model layer' idx') :
    layer = layer' ∧ idx = idx' := by
  have hlist := congrArg String.toList h
  simp only [objectKey, String.toList_append, List.append_assoc, List.append_cancel_left_eq] at hlist
  have hdigits : ∀ n : Nat, ∀ c ∈ (Nat.repr n).toList, c.isDigit = true := by
    intro n c hc
    rw [Nat.repr, String.toList_ofList] at hc
    exact Nat.isDigit_of_mem_toDigits (b := 10) (by decide) (by decide) hc
  obtain ⟨h1, h2⟩ := digits_append_inj (hdigits layer) (hdigits layer') hlist
  have h3 : (Nat.repr idx).toList = (Nat.repr idx').toList := by
    simpa using h2
  exact ⟨Nat.repr_injective (String.toList_inj.mp h1),
    Nat.repr_injective (String.toList_inj.mp h3)⟩

end ExpertKit.Elastic

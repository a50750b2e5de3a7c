import ExpertKit.Elastic.Recovery

/-!
# Elasticity: progressive assignment to a joined worker

`progressive_assign` of `controller/elastic/progressive.rs`, with the process-wide `ASSIGN_LOCK` and
`PROGRESSIVE_LOADING` it shares with the other tasks.  Automatic assignment is enabled and the model
metadata were loaded.  As for recovery, `Progressive.step` is one statement or one wait for a lock,
with the code after it; the notifications of the worker and the delays write nothing.

* `Shared`            the database and the two process-wide variables;
* `assignedExperts`   the rows the task inserts, the least replicated indices first;
* `Progressive`, `Progressive.step`   the task;
* `Progressive.write`, `Progressive.step_db`   the statements of it that write.
-/

set_option linter.unusedSectionVars false

namespace ExpertKit.Elastic
open Std

structure Shared where
  db : Database
  /-- `ASSIGN_LOCK` is held -/
  assignLock : Bool
  /-- `PROGRESSIVE_LOADING` -/
  loading : List String
deriving DecidableEq

/-! ## the assignment -/

def layerCount (settings : Settings) : Nat := settings.moeLayers.2 - settings.moeLayers.1

def targetPerLayer (maxExperts layerCount routedExperts : Nat) : Nat :=
  if layerCount = 0 then 0 else min routedExperts (maxExperts / layerCount)

/-- zero replicas first, then the index order -/
def prioritize (replicaCounts : List Nat) (routedExperts : Nat) : List Nat :=
  (List.range routedExperts).mergeSort fun a b =>
    ((compare (replicaCounts.getD a 0) (replicaCounts.getD b 0)).then (compare a b)).isLE

/-- the identifiers of the indices on every layer -/
def objectKeys (settings : Settings) (indices : List Nat) : List String :=
  indices.flatMap fun idx =>
    (List.range' settings.moeLayers.1 (layerCount settings)).map fun layer =>
      objectKey settings.modelName layer idx

def assignedExperts (settings : Settings) (instanceId : Nat) (node : Node) (indices : List Nat) :
    List Expert :=
  (objectKeys settings indices).map fun expertId => ⟨instanceId, node.id, expertId, 1, .scheduled⟩

def expertsPerStep (settings : Settings) (target : Nat) : Nat :=
  if settings.expertsPerStep = 0 then target else min settings.expertsPerStep target

/-! ## the task -/

inductive Progressive where
  /-- `node_by_hostname` of the joined worker -/
  | lookup
  /-- `experts_by_node`: rows of an earlier run -/
  | readStale (node : Node)
  | clearStale (node : Node)
  | readInstance (node : Node)
  | readModel (node : Node)
  | createInstance (node : Node) (modelId : Nat)
  /-- waits for `ASSIGN_LOCK` -/
  | acquire (node : Node) (instanceId target : Nat)
  | readActive (node : Node) (instanceId target : Nat)
  /-- `node_by_expert` of one index after the other -/
  | countReplicas (node : Node) (instanceId target : Nat) (activeIds : List Nat) (rest : List Nat)
      (counts : List Nat)
  /-- `expert_upsert` of one row after the other; the lock is released after the last -/
  | inserting (node : Node) (target : Nat) (indices : List Nat) (rest : List Expert)
  /-- enters `PROGRESSIVE_LOADING` -/
  | markLoading (node : Node) (target : Nat) (indices : List Nat)
  /-- one stripe after the other -/
  | promote (node : Node) (target : Nat) (indices : List Nat)
  /-- leaves `PROGRESSIVE_LOADING` -/
  | unmark
  | done
deriving DecidableEq

namespace Progressive

/-- the checks between the instance and the lock -/
def checkCapacity (settings : Settings) (node : Node) (instanceId : Nat) : Progressive :=
  let target :=
    targetPerLayer (maxExperts node) (layerCount settings) settings.routedExperts
  if target = 0 then .done else .acquire node instanceId target

/-- the coverage is known: the rows to insert -/
def startInserting (settings : Settings) (node : Node) (instanceId target : Nat)
    (counts : List Nat) : Progressive :=
  let indices := (prioritize counts settings.routedExperts).take target
  .inserting node target indices (assignedExperts settings instanceId node indices)

def step (settings : Settings) (hostname : String) (x : Shared) :
    Progressive → Option (Shared × Progressive)
  | .lookup =>
    match x.db.nodeByHostname hostname with
    | none => some (x, .done)
    | some node => some (x, .readStale node)
  | .readStale node =>
    if (x.db.expertsByNode node.id).isEmpty then some (x, .readInstance node)
    else some (x, .clearStale node)
  | .clearStale node =>
    some ({ x with db := x.db.deleteExpertsByNode node.id }, .readInstance node)
  | .readInstance node =>
    match x.db.instanceByName settings.instanceName with
    | some row => some (x, checkCapacity settings node row.id)
    | none => some (x, .readModel node)
  | .readModel node =>
    match x.db.modelByName settings.modelName with
    | none => some (x, .done)
    | some model => some (x, .createInstance node model.id)
  | .createInstance node modelId =>
    let db := x.db.instanceUpsert modelId settings.instanceName
    match db.instanceByName settings.instanceName with
    | none => some ({ x with db := db }, .done)
    | some row => some ({ x with db := db }, checkCapacity settings node row.id)
  | .acquire node instanceId target =>
    if x.assignLock then none
    else some ({ x with assignLock := true }, .readActive node instanceId target)
  | .readActive node instanceId target =>
    let activeIds := (x.db.activeNodes settings.nodeActiveThreshold).map Node.id
    some (x, .countReplicas node instanceId target activeIds
      (List.range settings.routedExperts) [])
  | .countReplicas node instanceId target activeIds rest counts =>
    match rest with
    | [] => some (x, startInserting settings node instanceId target counts)
    | idx :: rest =>
      let nodes := x.db.nodeByExpert (objectKey settings.modelName settings.moeLayers.1 idx)
      let count := (nodes.filter fun n => activeIds.contains n.id).length
      some (x, .countReplicas node instanceId target activeIds rest (counts ++ [count]))
  | .inserting node target indices rest =>
    match rest with
    | [] => some ({ x with assignLock := false }, .markLoading node target indices)
    | expert :: rest =>
      some ({ x with db := x.db.expertUpsert expert }, .inserting node target indices rest)
  | .markLoading node target indices =>
    some ({ x with loading := hostname :: x.loading.erase hostname }, .promote node target indices)
  | .promote node target indices =>
    if indices.isEmpty then some (x, .unmark)
    else
      let batch := indices.take (expertsPerStep settings target)
      some ({ x with db := x.db.promoteExpertsToPending node.id (objectKeys settings batch) },
        .promote node target (indices.drop (expertsPerStep settings target)))
  | .unmark => some ({ x with loading := x.loading.erase hostname }, .done)
  | .done => none

/-- what the next statement does to the database -/
def write (settings : Settings) (db : Database) : Progressive → Database
  | .clearStale node => db.deleteExpertsByNode node.id
  | .createInstance _ modelId => db.instanceUpsert modelId settings.instanceName
  | .inserting _ _ _ (expert :: _) => db.expertUpsert expert
  | .promote node target indices =>
    if indices.isEmpty then db
    else db.promoteExpertsToPending node.id
      (objectKeys settings (indices.take (expertsPerStep settings target)))
  | _ => db

theorem step_db {settings : Settings} {hostname : String} {x x' : Shared}
    {phase phase' : Progressive} (h : phase.step settings hostname x = some (x', phase')) :
    x'.db = phase.write settings x.db := by
  cases phase with
  | lookup =>
    simp only [step] at h
    split at h <;> cases h <;> rfl
  | readStale node =>
    simp only [step] at h
    split_ifs at h <;> cases h <;> rfl
  | clearStale node =>
    cases h
    rfl
  | readInstance node =>
    simp only [step] at h
    split at h <;> cases h <;> rfl
  | readModel node =>
    simp only [step] at h
    split at h <;> cases h <;> rfl
  | createInstance node modelId =>
    simp only [step] at h
    split at h <;> cases h <;> rfl
  | acquire node instanceId target =>
    simp only [step] at h
    split_ifs at h
    cases h
    rfl
  | readActive node instanceId target =>
    cases h
    rfl
  | countReplicas node instanceId target activeIds rest counts =>
    cases rest <;> cases h <;> rfl
  | inserting node target indices rest => cases rest <;> cases h <;> rfl
  | markLoading node target indices =>
    cases h
    rfl
  | promote node target indices =>
    simp only [step] at h
    simp only [write]
    split_ifs at h ⊢ <;> cases h <;> rfl
  | unmark =>
    cases h
    rfl
  | done => cases h

theorem write_nodes (settings : Settings) (db : Database) (phase : Progressive) :
    (phase.write settings db).nodes = db.nodes ∧
      (phase.write settings db).nextNodeId = db.nextNodeId := by
  cases phase with
  | createInstance node modelId =>
    simp only [write, Database.instanceUpsert]
    split_ifs <;> exact ⟨rfl, rfl⟩
  | inserting node target indices rest =>
    cases rest with
    | nil => exact ⟨rfl, rfl⟩
    | cons expert rest => exact db.expertUpsert_nodes expert
  | promote node target indices =>
    simp only [write]
    split_ifs <;> exact ⟨rfl, rfl⟩
  | _ => exact ⟨rfl, rfl⟩

end Progressive

end ExpertKit.Elastic

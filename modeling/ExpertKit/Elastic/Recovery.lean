import ExpertKit.Elastic.Database

/-!
# Elasticity: recovery of a lost worker

`recover_unique_experts` and `evict_and_place` of `controller/elastic/recovery.rs`.  The task runs
detached: between two statements every other task may run.  A phase holds the local variables that
the rest of the task reads; `Recovery.step` is one statement and the code after it up to the next.
The notifications of the workers at the end write nothing and are left out.

* `planDirect`     the greedy assignment to the node with the most free slots;
* `planEviction`   the victims and placements when no slot is free;
* `Recovery`, `Recovery.step`   the task;
* `Recovery.write`, `Recovery.step_db`   the three statements of it that write.
-/

set_option linter.unusedSectionVars false

namespace ExpertKit.Elastic
open Std

/-! ## the greedy assignment -/

/-- `remaining_slots` -/
def remainingSlots (maximum assigned : Nat) : Nat := maximum - assigned

/-- a row that recovery writes -/
def recoveredExpert (instanceId : Nat) (target : Node) (expertId : String) : Expert :=
  ⟨instanceId, target.id, expertId, 0, .null⟩

/-- `capacity.sort_by(|a, b| b.1.cmp(&a.1))` -/
def sortCapacity (capacity : List (Node × Nat)) : List (Node × Nat) :=
  capacity.mergeSort fun a b => decide (b.2 ≤ a.2)

/-- the rows to write, and the experts that found no free slot -/
def planDirect (instanceId : Nat) :
    List String → List (Node × Nat) → List Expert × List String
  | [], _ => ([], [])
  | expertId :: rest, capacity =>
    match sortCapacity capacity with
    | [] => planDirect instanceId rest []
    | (target, rem) :: others =>
      if 0 < rem then
        let r := planDirect instanceId rest ((target, rem - 1) :: others)
        (recoveredExpert instanceId target expertId :: r.1, r.2)
      else
        let r := planDirect instanceId rest ((target, rem) :: others)
        (r.1, expertId :: r.2)

/-! ## evict, then place -/

/-- what `evict_and_place` reads: the rows of the target nodes and the active replicas -/
structure EvictionIndex where
  nodeExperts : ExtTreeMap Nat (List Expert)
  replicaCounts : ExtTreeMap String Nat

def EvictionIndex.count (index : EvictionIndex) (expertId : String) : Nat :=
  index.replicaCounts[expertId]?.getD 0

/-- the rows that may leave the node, the most replicated first -/
def evictionCandidates (index : EvictionIndex) (evicted : List (Nat × String)) (node : Node)
    (experts : List Expert) : List Expert :=
  (experts.filter fun expert =>
      (expert.state == .loaded || expert.state == .null) &&
        decide (2 ≤ index.count expert.expertId) &&
        decide ((node.id, expert.expertId) ∉ evicted)).mergeSort fun a b =>
    ((compare (index.count b.expertId) (index.count a.expertId)).then
      (compare a.expertId b.expertId)).isLE

/-- the rows that no victim names -/
def outside (victims : List (Nat × String)) (nodeId : Nat) (expertId : String) : Bool :=
  decide ((nodeId, expertId) ∉ victims)

/-- the first target node with a candidate, and its victim -/
def findVictim (index : EvictionIndex) (evicted : List (Nat × String)) :
    List Node → Option (Node × Expert)
  | [] => none
  | node :: rest =>
    match index.nodeExperts[node.id]? with
    | none => findVictim index evicted rest
    | some experts =>
      match evictionCandidates index evicted node experts with
      | [] => findVictim index evicted rest
      | victim :: _ => some (node, victim)

/-- the victims, as node and expert, and the rows that take their place -/
def planEviction (instanceId : Nat) (targets : List Node) :
    List String → EvictionIndex → List (Nat × String) → List (Nat × String) × List Expert
  | [], _, _ => ([], [])
  | expertId :: rest, index, evicted =>
    match findVictim index evicted targets with
    | none => planEviction instanceId targets rest index evicted
    | some (node, victim) =>
      let counts := index.replicaCounts.insert victim.expertId (index.count victim.expertId - 1)
      let r := planEviction instanceId targets rest { index with replicaCounts := counts }
        ((node.id, victim.expertId) :: evicted)
      ((node.id, victim.expertId) :: r.1, recoveredExpert instanceId node expertId :: r.2)

/-! ## the task -/

/-- the plan of the direct assignments, while `evict_and_place` runs -/
structure Evicting where
  targets : List Node
  instanceId : Nat
  direct : List Expert
  unplaced : List String

inductive Recovery where
  /-- `node_by_hostname` of the lost node -/
  | lookup
  /-- `experts_by_node` of the lost node -/
  | readExperts (dead : Node)
  | readActive (deadExperts : List Expert)
  /-- `is_progressive_loading` of one active node after the other -/
  | checkLoading (deadExperts : List Expert) (activeNodes rest targets : List Node)
  /-- `node_by_expert` of one expert after the other -/
  | findUnique (activeNodes targets : List Node) (rest : List Expert) (unique : List String)
  | readInstance (targets : List Node) (unique : List String)
  /-- `remaining_expert_capacity` of one target after the other -/
  | readCapacity (unique : List String) (instanceId : Nat) (rest : List Node)
      (capacity : List (Node × Nat))
  | evictActive (e : Evicting)
  /-- `experts_by_node` of one target after the other -/
  | evictRead (e : Evicting) (activeNodes rest : List Node) (index : EvictionIndex)
  /-- `node_by_expert` of one expert of the target after the other -/
  | evictCount (e : Evicting) (activeNodes : List Node) (node : Node)
      (experts restExperts : List Expert) (rest : List Node) (index : EvictionIndex)
  | deleting (victims : List (Nat × String)) (placements direct : List Expert)
  | placing (placements direct : List Expert)
  | assigning (direct : List Expert)
  | done

/-- active nodes other than the lost one that hold the expert -/
def otherActive (nodes activeNodes : List Node) (deadHostname : String) : Nat :=
  ((nodes.filter fun node => node.hostname ≠ deadHostname).filter fun node =>
    (activeNodes.map Node.hostname).contains node.hostname).length

namespace Recovery

def startFindUnique (deadExperts : List Expert) (activeNodes targets : List Node) : Recovery :=
  if targets.isEmpty then .done else .findUnique activeNodes targets deadExperts []

/-- after the capacities are read: plan, and evict only when something is left over -/
def plan (unique : List String) (instanceId : Nat) (capacity : List (Node × Nat)) : Recovery :=
  let r := planDirect instanceId unique capacity
  if r.2.isEmpty then .assigning r.1
  else .evictActive ⟨capacity.map Prod.fst, instanceId, r.1, r.2⟩

/-- after the index is built: choose the victims -/
def evict (e : Evicting) (index : EvictionIndex) : Recovery :=
  let r := planEviction e.instanceId e.targets e.unplaced index []
  if r.1.isEmpty then .assigning e.direct else .deleting r.1 r.2 e.direct

/-- one statement; the task is over in `done` -/
def step (settings : Settings) (deadHostname : String) (loading : List String) (db : Database) :
    Recovery → Option (Database × Recovery)
  | .lookup =>
    match db.nodeByHostname deadHostname with
    | none => some (db, .done)
    | some dead => some (db, .readExperts dead)
  | .readExperts dead =>
    let deadExperts := db.expertsByNode dead.id
    if deadExperts.isEmpty then some (db, .done) else some (db, .readActive deadExperts)
  | .readActive deadExperts =>
    let activeNodes := db.activeNodes settings.nodeActiveThreshold
    let others := activeNodes.filter fun node => node.hostname ≠ deadHostname
    if others.isEmpty then some (db, .done)
    else some (db, .checkLoading deadExperts activeNodes others [])
  | .checkLoading deadExperts activeNodes rest targets =>
    match rest with
    | [] => some (db, startFindUnique deadExperts activeNodes targets)
    | node :: rest =>
      let targets := if loading.contains node.hostname then targets else targets ++ [node]
      if rest.isEmpty then some (db, startFindUnique deadExperts activeNodes targets)
      else some (db, .checkLoading deadExperts activeNodes rest targets)
  | .findUnique activeNodes targets rest unique =>
    match rest with
    | [] => if unique.isEmpty then some (db, .done) else some (db, .readInstance targets unique)
    | expert :: rest =>
      let nodes := db.nodeByExpert expert.expertId
      let unique := if otherActive nodes activeNodes deadHostname = 0 then
        unique ++ [expert.expertId] else unique
      some (db, .findUnique activeNodes targets rest unique)
  | .readInstance targets unique =>
    match db.instanceByName settings.instanceName with
    | none => some (db, .done)
    | some row => some (db, .readCapacity unique row.id targets [])
  | .readCapacity unique instanceId rest capacity =>
    match rest with
    | [] => some (db, plan unique instanceId capacity)
    | node :: rest =>
      let rem := remainingSlots (maxExperts node) (db.expertsByNode node.id).length
      some (db, .readCapacity unique instanceId rest (capacity ++ [(node, rem)]))
  | .evictActive e =>
    some (db, .evictRead e (db.activeNodes settings.nodeActiveThreshold) e.targets ⟨∅, ∅⟩)
  | .evictRead e activeNodes rest index =>
    match rest with
    | [] => some (db, evict e index)
    | node :: rest =>
      let experts := db.expertsByNode node.id
      some (db, .evictCount e activeNodes node experts experts rest index)
  | .evictCount e activeNodes node experts restExperts rest index =>
    match restExperts with
    | [] =>
      some (db, .evictRead e activeNodes rest
        { index with nodeExperts := index.nodeExperts.insert node.id experts })
    | expert :: restExperts =>
      if index.replicaCounts.contains expert.expertId then
        some (db, .evictCount e activeNodes node experts restExperts rest index)
      else
        let count := otherActive (db.nodeByExpert expert.expertId) activeNodes deadHostname
        some (db, .evictCount e activeNodes node experts restExperts rest
          { index with replicaCounts := index.replicaCounts.insert expert.expertId count })
  | .deleting victims placements direct =>
    match victims with
    | [] => some (db, .placing placements direct)
    | (nodeId, victim) :: victims =>
      some (db.deleteExpertOnNode nodeId victim, .deleting victims placements direct)
  | .placing placements direct =>
    some (db.expertUpsertBatch placements, .assigning direct)
  | .assigning direct => some (db.expertUpsertBatch direct, .done)
  | .done => none

/-- what the next statement does to the database -/
def write (db : Database) : Recovery → Database
  | .deleting ((nodeId, victim) :: _) _ _ => db.deleteExpertOnNode nodeId victim
  | .placing placements _ => db.expertUpsertBatch placements
  | .assigning direct => db.expertUpsertBatch direct
  | _ => db

theorem step_db {settings : Settings} {deadHostname : String} {loading : List String}
    {db db' : Database} {phase phase' : Recovery}
    (h : phase.step settings deadHostname loading db = some (db', phase')) :
    db' = phase.write db := by
  cases phase with
  | lookup =>
    simp only [step] at h
    split at h <;> cases h <;> rfl
  | readExperts dead =>
    simp only [step] at h
    split_ifs at h <;> cases h <;> rfl
  | readActive deadExperts =>
    simp only [step] at h
    split_ifs at h <;> cases h <;> rfl
  | checkLoading deadExperts activeNodes rest targets =>
    cases rest with
    | nil =>
      cases h
      rfl
    | cons node rest =>
      simp only [step] at h
      split_ifs at h <;> cases h <;> rfl
  | findUnique activeNodes targets rest unique =>
    cases rest with
    | nil =>
      simp only [step] at h
      split_ifs at h <;> cases h <;> rfl
    | cons expert rest =>
      cases h
      rfl
  | readInstance targets unique =>
    simp only [step] at h
    split at h <;> cases h <;> rfl
  | readCapacity unique instanceId rest capacity => cases rest <;> cases h <;> rfl
  | evictActive e =>
    cases h
    rfl
  | evictRead e activeNodes rest index => cases rest <;> cases h <;> rfl
  | evictCount e activeNodes node experts restExperts rest index =>
    cases restExperts with
    | nil =>
      cases h
      rfl
    | cons expert restExperts =>
      simp only [step] at h
      split_ifs at h <;> cases h <;> rfl
  | deleting victims placements direct => cases victims <;> cases h <;> rfl
  | placing placements direct =>
    cases h
    rfl
  | assigning direct =>
    cases h
    rfl
  | done => cases h

theorem write_nodes (db : Database) (phase : Recovery) :
    (phase.write db).nodes = db.nodes ∧ (phase.write db).nextNodeId = db.nextNodeId := by
  cases phase with
  | deleting victims placements direct => cases victims <;> exact ⟨rfl, rfl⟩
  | placing placements direct => exact db.expertUpsertBatch_nodes placements
  | assigning direct => exact db.expertUpsertBatch_nodes direct
  | _ => exact ⟨rfl, rfl⟩

end Recovery

end ExpertKit.Elastic

import ExpertKit.Controller.Runs
import ExpertKit.Elastic.Footprint

/-!
# Elasticity: the end of one lease beside a new registration

`DatabaseLifecycleHooks` of `controller/service/worker_lifecycle.rs`: one `unavailable` call with its
background task, and a `registered` call of the same worker with its progressive assignment.  The
cleanup knows the worker by its hostname only.

* `Lifecycle`, `Lifecycle.step`   the two calls and their tasks, one statement at a time;
* `Lifecycle.ordered`             the old lease is cleared before the new one writes;
* `Lifecycle.Survives`            the node row and the assigned rows of the new registration;
* `new_registration_survives_iff` a run that ends leaves them exactly when it is ordered.
-/

set_option linter.unusedSectionVars false

namespace ExpertKit.Elastic
open Std ExpertKit.Controller

section
variable {p : EndpointParsers}

/-! ## the configuration of a registration -/

def registrationEntries (r : ValidRegistration p) : List (String × ConfigValue) :=
  [("addr", .text r.request.computationEndpoint),
    ("channel", .text "grpc"),
    ("wm_addr", .text r.request.peerWeightEndpoint),
    ("start_id", .text r.request.startId),
    ("instance_id", .number r.request.instanceId),
    ("backend", .text r.request.backend),
    ("activation_dtype", .number r.request.activationDtype),
    ("max_experts", .number r.device.maxExperts),
    ("max_batch_tokens", .number r.request.maxBatchTokens),
    ("max_active_batches", .number r.request.maxActiveBatchesPerDevice),
    ("max_pending_batches", .number r.request.maxPendingBatchesPerDevice)]

/-- the stored configuration with the entries of the registration -/
def mergeConfig (existing : Option Node) (entries : List (String × ConfigValue)) : NodeConfig :=
  Maps.insertAll Prod.fst Prod.snd ((existing.map Node.config).getD ∅) entries

/-- `value.as_str()` -/
def ConfigValue.asStr : ConfigValue → Option String
  | .text value => some value
  | .number _ => none

def storedStartId (existing : Option Node) : Option String :=
  existing.bind fun node => node.config["start_id"]?.bind ConfigValue.asStr

/-! ## the calls and their tasks -/

/-- `unavailable`: the three statements of `deactivate_node`, then the background task starts -/
inductive Unavailable where
  | select
  | reset (nodeId : Nat)
  | clear
  | done
deriving DecidableEq

/-- the background task after the recovery: `delete_stale_experts` -/
inductive Cleanup where
  | waiting
  | delete (nodeIds : List Nat)
  | done
deriving DecidableEq

inductive Registered where
  | lookup
  | upsert (config : NodeConfig) (newStart : Bool)
  | seen (newStart : Bool)
  | done

structure Lifecycle where
  shared : Shared
  unavailable : Unavailable
  /-- `recover_unique_experts` of the old lease, once it has started -/
  recovery : Option Recovery
  cleanup : Cleanup
  registered : Registered
  /-- `progressive_assign` of the new registration, once it has started -/
  progressive : Option Progressive
  /-- the rows it has inserted -/
  inserted : List Expert

/-- both calls are made, and neither has run a statement -/
def Lifecycle.start (shared : Shared) : Lifecycle :=
  ⟨shared, .select, none, .waiting, .lookup, none, []⟩

inductive LifecycleStep where
  /-- a graceful shutdown starts the recovery before the lease ends -/
  | shuttingDown
  | unavailable
  | recovery
  | cleanup
  | registered
  | progressive
  /-- time passes -/
  | tick (seconds : Nat)
  /-- a heartbeat of a node -/
  | seen (hostname : String)
deriving DecidableEq

/-- the next statement of `unavailable`; the background task starts after the last one -/
def Unavailable.step (hostname : String) (db : Database) :
    Unavailable → Option (Database × Unavailable)
  | .select =>
    match db.nodeByHostname hostname with
    | none => some (db, .clear)
    | some node => some (db, .reset node.id)
  | .reset nodeId => some (db.setExpertsPending nodeId, .clear)
  | .clear => some (db.clearNode hostname, .done)
  | .done => none

def Cleanup.step (hostname : String) (db : Database) : Cleanup → Option (Database × Cleanup)
  | .waiting =>
    let nodeIds := db.nodeIdsByHostname hostname
    if nodeIds.isEmpty then some (db, .done) else some (db, .delete nodeIds)
  | .delete nodeIds => some (db.deleteExpertsByNodeIds nodeIds, .done)
  | .done => none

def Registered.step (r : ValidRegistration p) (db : Database) :
    Registered → Option (Database × Registered)
  | .lookup =>
    let existing := db.nodeByHostname r.request.workerId
    let newStart := decide (storedStartId existing ≠ some r.request.startId)
    some (db, .upsert (mergeConfig existing (registrationEntries r)) newStart)
  | .upsert config newStart =>
    some (db.nodeUpsert r.request.workerId r.device.device config, .seen newStart)
  | .seen _ => some (db.nodeUpdateSeen r.request.workerId, .done)
  | .done => none

/-- `registered` starts a progressive assignment after its last statement -/
def Registered.spawns (replaced : Bool) : Registered → Bool
  | .seen newStart => newStart || replaced
  | _ => false

def Recovery.isDone : Recovery → Bool
  | .done => true
  | _ => false

def Progressive.isDone : Progressive → Bool
  | .done => true
  | _ => false

namespace Lifecycle

/-- one statement; `replaced` says that the Controller replaced an earlier process -/
def step (settings : Settings) (r : ValidRegistration p) (replaced : Bool) (x : Lifecycle) :
    LifecycleStep → Option Lifecycle
  | .shuttingDown =>
    if x.unavailable = .select ∧ x.recovery.isNone then some { x with recovery := some .lookup }
    else none
  | .unavailable =>
    (x.unavailable.step r.request.workerId x.shared.db).map fun s =>
      { x with
        shared.db := s.1
        unavailable := s.2
        recovery := if s.2 = .done then some (x.recovery.getD .lookup) else x.recovery }
  | .recovery =>
    x.recovery.bind fun phase =>
      (phase.step settings r.request.workerId x.shared.loading x.shared.db).map fun s =>
        { x with shared.db := s.1, recovery := some s.2 }
  | .cleanup =>
    -- the task deletes after its recovery, or after the one of the graceful shutdown
    if x.unavailable = .done ∧ x.recovery.all Recovery.isDone then
      (x.cleanup.step r.request.workerId x.shared.db).map fun s =>
        { x with shared.db := s.1, cleanup := s.2 }
    else none
  | .registered =>
    (x.registered.step r x.shared.db).map fun s =>
      { x with
        shared.db := s.1
        registered := s.2
        progressive := if x.registered.spawns replaced then some .lookup else x.progressive }
  | .progressive =>
    x.progressive.bind fun phase =>
      (phase.step settings r.request.workerId x.shared).map fun s =>
        { x with
          shared := s.1
          progressive := some s.2
          inserted := phase.inserts ++ x.inserted }
  | .tick seconds =>
    some { x with shared.db := { x.shared.db with now := x.shared.db.now + seconds } }
  | .seen hostname => some { x with shared.db := x.shared.db.nodeUpdateSeen hostname }

/-- both calls returned and their tasks ended -/
def finished (x : Lifecycle) : Bool :=
  x.unavailable = .done && x.cleanup = .done &&
    (match x.registered with | .done => true | _ => false) && x.progressive.all Progressive.isDone

end Lifecycle

/-- `registered` has written the node row -/
def Registered.written : Registered → Bool
  | .seen _ => true
  | .done => true
  | _ => false

/-- `deactivate_node` clears the row before `registered` writes it, and `delete_stale_experts` deletes
before the first row is inserted -/
def Lifecycle.ordered (x : Lifecycle) : LifecycleStep → Bool
  | .unavailable => decide (x.unavailable ≠ .clear) || !x.registered.written
  | .cleanup =>
    match x.cleanup with
    | .delete _ => x.inserted.isEmpty
    | _ => true
  | _ => true

/-! ## what the new registration keeps -/

/-- the node row of the worker carries the entries -/
def Database.carries (db : Database) (hostname : String) (entries : List (String × ConfigValue)) :
    Prop :=
  ∃ node, db.nodeByHostname hostname = some node ∧
    ∀ entry ∈ entries, node.config[entry.1]? = some entry.2

/-- the node row carries the registration, and every row its assignment inserted is there -/
def Lifecycle.Survives (r : ValidRegistration p) (x : Lifecycle) : Prop :=
  x.shared.db.carries r.request.workerId (registrationEntries r) ∧
    ∀ expert ∈ x.inserted, x.shared.db.has expert = true

/-! ## the configuration -/

section
variable {hostname : String} {entries : List (String × ConfigValue)}

theorem carries_of_nodes {db db' : Database} (h : db'.nodes = db.nodes) :
    db'.carries hostname entries ↔ db.carries hostname entries := by
  unfold Database.carries Database.nodeByHostname
  rw [h]

/-- a heartbeat keeps the configuration -/
theorem carries_updateSeen (db : Database) (host : String) :
    (db.nodeUpdateSeen host).carries hostname entries ↔ db.carries hostname entries := by
  unfold Database.carries Database.nodeUpdateSeen
  by_cases he : host = hostname
  · rw [he, nodeByHostname_updateNode]
    · cases db.nodeByHostname hostname <;> simp
    · exact fun _ => rfl
  · rw [nodeByHostname_updateNode_other db he]
    exact fun _ => rfl

theorem carries_nodeUpsert (db : Database) (device : String) {config : NodeConfig}
    (h : ∀ entry ∈ entries, config[entry.1]? = some entry.2) :
    (db.nodeUpsert hostname device config).carries hostname entries := by
  unfold Database.nodeUpsert
  split_ifs with hsome
  · obtain ⟨node, hnode⟩ := Option.isSome_iff_exists.mp hsome
    unfold Database.carries
    rw [nodeByHostname_updateNode, hnode]
    · exact ⟨_, rfl, h⟩
    · exact fun _ => rfl
  · have hnone : (db.nodes.find? fun node => decide (node.hostname = hostname)) = none := by
      simpa [Database.nodeByHostname] using hsome
    refine ⟨⟨db.nextNodeId, hostname, device, config, none⟩, ?_, h⟩
    simp [Database.nodeByHostname, List.find?_append, hnone]

/-- `deactivate_node` leaves no entry -/
theorem not_carries_clearNode (db : Database) (hne : entries ≠ []) :
    ¬ (db.clearNode hostname).carries hostname entries := by
  rintro ⟨node, hnode, hentries⟩
  have hclear : (db.clearNode hostname).nodeByHostname hostname =
      (db.nodeByHostname hostname).map fun node =>
        { node with lastSeenAt := some 0, config := ∅ } :=
    nodeByHostname_updateNode _ _ _ fun _ => rfl
  rw [hclear] at hnode
  obtain ⟨before, _, rfl⟩ := Option.map_eq_some_iff.mp hnode
  obtain ⟨entry, hentry⟩ := List.exists_mem_of_ne_nil _ hne
  have hget := hentries entry hentry
  simp at hget

end

theorem mergeConfig_entries (existing : Option Node) (r : ValidRegistration p) :
    ∀ entry ∈ registrationEntries r,
      (mergeConfig existing (registrationEntries r))[entry.1]? = some entry.2 := by
  intro entry hentry
  refine Maps.getElem?_insertAll_of_mem Prod.fst Prod.snd _ _ ?_ entry hentry
  have hkeys : ((registrationEntries r).map Prod.fst).Nodup := by
    simp [registrationEntries]
  exact List.pairwise_map.mp hkeys

/-! ## what every step keeps -/

section
variable {settings : Settings} {r : ValidRegistration p} {replaced : Bool} {x x' : Lifecycle}

structure Lifecycle.Base (r : ValidRegistration p) (x : Lifecycle) : Prop where
  valid : x.shared.db.Valid
  recovery : ∀ phase, x.recovery = some phase → ∀ id ∈ phase.nodeIds,
    x.shared.db.Foreign r.request.workerId id
  cleanup : ∀ nodeIds, x.cleanup = .delete nodeIds →
    ∃ id ∈ nodeIds, x.shared.db.Own r.request.workerId id
  config : ∀ config newStart, x.registered = .upsert config newStart →
    ∀ entry ∈ registrationEntries r, config[entry.1]? = some entry.2
  progressive : ∀ phase, x.progressive = some phase →
    x.registered = .done ∧ phase.Owns r.request.workerId x.shared.db x.inserted
  waiting : x.progressive = none → x.inserted = []
  inserted : ∀ expert ∈ x.inserted, x.shared.db.Own r.request.workerId expert.nodeId

theorem Unavailable.step_extends {hostname : String} {db db' : Database}
    {phase phase' : Unavailable} (h : phase.step hostname db = some (db', phase')) :
    Extends hostname db db' := by
  cases phase with
  | select =>
    simp only [Unavailable.step] at h
    split at h <;> cases h <;> exact .of_nodes rfl rfl
  | reset nodeId =>
    cases h
    exact .of_nodes rfl rfl
  | clear =>
    cases h
    exact .updateNode db hostname _ (fun _ => rfl) (fun _ => rfl)
  | done => cases h

theorem Registered.step_extends {db db' : Database} {phase phase' : Registered}
    (h : phase.step r db = some (db', phase')) : Extends r.request.workerId db db' := by
  cases phase with
  | lookup =>
    cases h
    exact .of_nodes rfl rfl
  | upsert config newStart =>
    cases h
    exact .nodeUpsert db _ config
  | seen newStart =>
    cases h
    exact .updateNode db _ _ (fun _ => rfl) (fun _ => rfl)
  | done => cases h

theorem Cleanup.step_extends {hostname : String} {db db' : Database} {phase phase' : Cleanup}
    (h : phase.step hostname db = some (db', phase')) : Extends hostname db db' := by
  cases phase with
  | waiting =>
    simp only [Cleanup.step] at h
    split_ifs at h <;> cases h <;> exact .of_nodes rfl rfl
  | delete nodeIds =>
    cases h
    exact .of_nodes rfl rfl
  | done => cases h

theorem Lifecycle.Base.extends (h : x.Base r) {db : Database}
    (hdb : Extends r.request.workerId x.shared.db db) :
    ({ x with shared.db := db } : Lifecycle).Base r where
  valid := hdb.valid h.valid
  recovery := fun phase hphase id hid => hdb.foreign id (h.recovery phase hphase id hid)
  cleanup := fun nodeIds hids =>
    have ⟨id, hid, hown⟩ := h.cleanup nodeIds hids
    ⟨id, hid, hdb.own id hown⟩
  config := h.config
  progressive := fun phase hphase =>
    ⟨(h.progressive phase hphase).1, (h.progressive phase hphase).2.extends hdb⟩
  waiting := h.waiting
  inserted := fun expert he => hdb.own _ (h.inserted expert he)

theorem Lifecycle.Base.step {l : LifecycleStep} (h : x.Base r)
    (hstep : x.step settings r replaced l = some x') : x'.Base r := by
  cases l with
  | shuttingDown =>
    simp only [Lifecycle.step] at hstep
    split_ifs at hstep
    cases hstep
    refine ⟨h.valid, ?_, h.cleanup, h.config, h.progressive, h.waiting, h.inserted⟩
    intro phase hphase id hid
    cases hphase
    cases hid
  | unavailable =>
    obtain ⟨⟨db, phase⟩, hphase, rfl⟩ := Option.map_eq_some_iff.mp hstep
    have h' := h.extends (Unavailable.step_extends hphase)
    refine ⟨h'.valid, ?_, h'.cleanup, h'.config, h'.progressive, h'.waiting, h'.inserted⟩
    intro recovery hrecovery id hid
    simp only at hrecovery
    split_ifs at hrecovery
    · cases hx : x.recovery with
      | none =>
        rw [hx] at hrecovery
        cases hrecovery
        cases hid
      | some before =>
        rw [hx] at hrecovery
        cases hrecovery
        exact h'.recovery _ hx id hid
    · exact h'.recovery recovery hrecovery id hid
  | recovery =>
    obtain ⟨phase, hx, hrest⟩ := Option.bind_eq_some_iff.mp hstep
    obtain ⟨⟨db, phase'⟩, hphase, rfl⟩ := Option.map_eq_some_iff.mp hrest
    have hdb := Recovery.step_extends hphase
    have h' := h.extends hdb
    refine ⟨h'.valid, ?_, h'.cleanup, h'.config, h'.progressive, h'.waiting, h'.inserted⟩
    intro recovery hrecovery id hid
    cases hrecovery
    rcases Recovery.step_nodeIds hphase id hid with hid | hforeign
    · exact h'.recovery phase hx id hid
    · exact hdb.foreign id hforeign
  | cleanup =>
    simp only [Lifecycle.step] at hstep
    split_ifs at hstep
    obtain ⟨⟨db, phase⟩, hphase, rfl⟩ := Option.map_eq_some_iff.mp hstep
    have h' := h.extends (Cleanup.step_extends hphase)
    refine ⟨h'.valid, h'.recovery, ?_, h'.config, h'.progressive, h'.waiting, h'.inserted⟩
    intro nodeIds hids
    cases hx : x.cleanup with
    | waiting =>
      rw [hx] at hphase
      simp only [Cleanup.step] at hphase
      split_ifs at hphase with hempty
      · cases hphase
        cases hids
      · cases hphase
        cases hids
        obtain ⟨id, hid⟩ := List.exists_mem_of_ne_nil _ (mt List.isEmpty_iff.mpr hempty)
        refine ⟨id, hid, ?_⟩
        obtain ⟨node, hnode, rfl⟩ := List.mem_map.mp hid
        obtain ⟨hmem, hname⟩ := List.mem_filter.mp hnode
        exact ⟨node, hmem, of_decide_eq_true hname, rfl⟩
    | delete before =>
      rw [hx] at hphase
      cases hphase
      cases hids
    | done =>
      rw [hx] at hphase
      cases hphase
  | registered =>
    obtain ⟨⟨db, phase⟩, hphase, rfl⟩ := Option.map_eq_some_iff.mp hstep
    have h' := h.extends (Registered.step_extends hphase)
    have hnone : x.progressive = none := by
      cases hp : x.progressive with
      | none => rfl
      | some before =>
        rw [(h.progressive before hp).1] at hphase
        cases hphase
    have hempty : x.inserted = [] := h.waiting hnone
    refine ⟨h'.valid, h'.recovery, h'.cleanup, ?_, ?_, fun _ => hempty, h'.inserted⟩
    · intro config newStart hconfig
      simp only at hconfig
      subst hconfig
      cases hx : x.registered with
      | lookup =>
        rw [hx] at hphase
        cases hphase
        exact mergeConfig_entries _ r
      | upsert config' newStart' =>
        rw [hx] at hphase
        cases hphase
      | seen newStart' =>
        rw [hx] at hphase
        cases hphase
      | done =>
        rw [hx] at hphase
        cases hphase
    · intro progressive hp
      simp only [hnone] at hp
      split_ifs at hp with hspawn
      cases hp
      cases hx : x.registered with
      | seen newStart =>
        rw [hx] at hphase
        cases hphase
        exact ⟨rfl, hempty⟩
      | lookup =>
        rw [hx] at hspawn
        cases hspawn
      | upsert config newStart =>
        rw [hx] at hspawn
        cases hspawn
      | done =>
        rw [hx] at hspawn
        cases hspawn
  | progressive =>
    obtain ⟨phase, hx, hrest⟩ := Option.bind_eq_some_iff.mp hstep
    obtain ⟨⟨shared, phase'⟩, hphase, rfl⟩ := Option.map_eq_some_iff.mp hrest
    have hdb := Progressive.step_extends hphase
    have h' := h.extends hdb
    obtain ⟨hdone, howns⟩ := h.progressive phase hx
    refine ⟨h'.valid, h'.recovery, h'.cleanup, h'.config, ?_, ?_, ?_⟩
    · intro progressive hp
      cases hp
      exact ⟨hdone, (Progressive.step_owns howns hphase).extends hdb⟩
    · intro hnone
      cases hnone
    · intro expert he
      rcases List.mem_append.mp he with he | he
      · exact hdb.own _ (Progressive.own_inserts howns he)
      · exact h'.inserted expert he
  | tick seconds =>
    cases hstep
    exact h.extends (.of_nodes rfl rfl)
  | seen hostname =>
    cases hstep
    exact h.extends (.updateNode x.shared.db hostname _ (fun _ => rfl) (fun _ => rfl))

/-! ## the row of the node and the rows of the assignment -/

/-- one statement writes the registration and one clears it -/
theorem Lifecycle.step_config {l : LifecycleStep}
    (hstep : x.step settings r replaced l = some x') :
    (l = .registered ∧ ∃ config newStart, x.registered = .upsert config newStart) ∨
    (l = .unavailable ∧ x.unavailable = .clear) ∨
    (x'.registered.written = x.registered.written ∧
      (x'.shared.db.carries r.request.workerId (registrationEntries r) ↔
        x.shared.db.carries r.request.workerId (registrationEntries r))) := by
  cases l with
  | shuttingDown =>
    simp only [Lifecycle.step] at hstep
    split_ifs at hstep
    cases hstep
    exact .inr (.inr ⟨rfl, Iff.rfl⟩)
  | unavailable =>
    obtain ⟨⟨db, phase⟩, hphase, rfl⟩ := Option.map_eq_some_iff.mp hstep
    cases hx : x.unavailable with
    | clear => exact .inr (.inl ⟨rfl, rfl⟩)
    | select =>
      rw [hx] at hphase
      simp only [Unavailable.step] at hphase
      split at hphase <;> cases hphase <;> exact .inr (.inr ⟨rfl, Iff.rfl⟩)
    | reset nodeId =>
      rw [hx] at hphase
      cases hphase
      exact .inr (.inr ⟨rfl, carries_of_nodes rfl⟩)
    | done =>
      rw [hx] at hphase
      cases hphase
  | recovery =>
    obtain ⟨phase, _, hrest⟩ := Option.bind_eq_some_iff.mp hstep
    obtain ⟨⟨db, phase'⟩, hphase, rfl⟩ := Option.map_eq_some_iff.mp hrest
    refine .inr (.inr ⟨rfl, carries_of_nodes ?_⟩)
    show db.nodes = x.shared.db.nodes
    rw [Recovery.step_db hphase]
    exact (Recovery.write_nodes x.shared.db phase).1
  | cleanup =>
    simp only [Lifecycle.step] at hstep
    split_ifs at hstep
    obtain ⟨⟨db, phase⟩, hphase, rfl⟩ := Option.map_eq_some_iff.mp hstep
    refine .inr (.inr ⟨rfl, carries_of_nodes ?_⟩)
    show db.nodes = x.shared.db.nodes
    cases hx : x.cleanup with
    | waiting =>
      rw [hx] at hphase
      simp only [Cleanup.step] at hphase
      split_ifs at hphase <;> cases hphase <;> rfl
    | delete nodeIds =>
      rw [hx] at hphase
      cases hphase
      rfl
    | done =>
      rw [hx] at hphase
      cases hphase
  | registered =>
    obtain ⟨⟨db, phase⟩, hphase, rfl⟩ := Option.map_eq_some_iff.mp hstep
    cases hx : x.registered with
    | lookup =>
      rw [hx] at hphase
      cases hphase
      exact .inr (.inr ⟨rfl, Iff.rfl⟩)
    | upsert config newStart => exact .inl ⟨rfl, config, newStart, rfl⟩
    | seen newStart =>
      rw [hx] at hphase
      cases hphase
      exact .inr (.inr ⟨rfl, carries_updateSeen x.shared.db _⟩)
    | done =>
      rw [hx] at hphase
      cases hphase
  | progressive =>
    obtain ⟨phase, _, hrest⟩ := Option.bind_eq_some_iff.mp hstep
    obtain ⟨⟨shared, phase'⟩, hphase, rfl⟩ := Option.map_eq_some_iff.mp hrest
    refine .inr (.inr ⟨rfl, carries_of_nodes ?_⟩)
    show shared.db.nodes = x.shared.db.nodes
    rw [Progressive.step_db hphase]
    exact (Progressive.write_nodes settings x.shared.db phase).1
  | tick seconds =>
    cases hstep
    exact .inr (.inr ⟨rfl, carries_of_nodes rfl⟩)
  | seen hostname =>
    cases hstep
    exact .inr (.inr ⟨rfl, carries_updateSeen x.shared.db hostname⟩)

/-- the rows inserted so far stay as they are, and the new ones are there -/
structure RowsKept (x x' : Lifecycle) : Prop where
  old : ∀ expert ∈ x.inserted, expert ∈ x'.inserted ∧
    (x'.shared.db.has expert = true ↔ x.shared.db.has expert = true)
  new : ∀ expert ∈ x'.inserted, expert ∈ x.inserted ∨ x'.shared.db.has expert = true

theorem RowsKept.of_eq (hinserted : x'.inserted = x.inserted)
    (h : ∀ expert ∈ x.inserted,
      (x'.shared.db.has expert = true ↔ x.shared.db.has expert = true)) : RowsKept x x' :=
  ⟨fun expert he => ⟨hinserted ▸ he, h expert he⟩, fun _ he => .inl (hinserted ▸ he)⟩

theorem RowsKept.of_experts (hinserted : x'.inserted = x.inserted)
    (h : x'.shared.db.experts = x.shared.db.experts) : RowsKept x x' :=
  .of_eq hinserted fun expert _ => by rw [has_of_experts h]

/-- only `delete_stale_experts` takes them away -/
theorem Lifecycle.step_rows {l : LifecycleStep} (h : x.Base r)
    (hstep : x.step settings r replaced l = some x') :
    (l = .cleanup ∧ ∃ nodeIds, x.cleanup = .delete nodeIds) ∨ RowsKept x x' := by
  cases l with
  | shuttingDown =>
    simp only [Lifecycle.step] at hstep
    split_ifs at hstep
    cases hstep
    exact .inr (.of_experts rfl rfl)
  | unavailable =>
    obtain ⟨⟨db, phase⟩, hphase, rfl⟩ := Option.map_eq_some_iff.mp hstep
    right
    cases hx : x.unavailable with
    | select =>
      rw [hx] at hphase
      simp only [Unavailable.step] at hphase
      split at hphase <;> cases hphase <;> exact .of_experts rfl rfl
    | reset nodeId =>
      rw [hx] at hphase
      cases hphase
      refine .of_eq rfl fun expert _ => ?_
      show (x.shared.db.setExpertsPending nodeId).has expert = true ↔ _
      rw [Database.setExpertsPending, has_map_state]
      intro row
      split_ifs <;> exact ⟨rfl, rfl, rfl⟩
    | clear =>
      rw [hx] at hphase
      cases hphase
      exact .of_experts rfl rfl
    | done =>
      rw [hx] at hphase
      cases hphase
  | recovery =>
    obtain ⟨phase, hx, hrest⟩ := Option.bind_eq_some_iff.mp hstep
    obtain ⟨⟨db, phase'⟩, hphase, rfl⟩ := Option.map_eq_some_iff.mp hrest
    refine .inr (.of_eq rfl fun expert he => Recovery.step_has hphase ?_)
    intro hid
    exact own_ne_foreign h.valid (h.inserted expert he) (h.recovery phase hx _ hid) rfl
  | cleanup =>
    simp only [Lifecycle.step] at hstep
    split_ifs at hstep
    obtain ⟨⟨db, phase⟩, hphase, rfl⟩ := Option.map_eq_some_iff.mp hstep
    cases hx : x.cleanup with
    | waiting =>
      rw [hx] at hphase
      simp only [Cleanup.step] at hphase
      split_ifs at hphase <;> cases hphase <;> exact .inr (.of_experts rfl rfl)
    | delete nodeIds => exact .inl ⟨rfl, nodeIds, rfl⟩
    | done =>
      rw [hx] at hphase
      cases hphase
  | registered =>
    obtain ⟨⟨db, phase⟩, hphase, rfl⟩ := Option.map_eq_some_iff.mp hstep
    right
    cases hx : x.registered with
    | lookup =>
      rw [hx] at hphase
      cases hphase
      exact .of_experts rfl rfl
    | upsert config newStart =>
      rw [hx] at hphase
      cases hphase
      refine .of_experts rfl ?_
      show (x.shared.db.nodeUpsert _ _ config).experts = x.shared.db.experts
      unfold Database.nodeUpsert
      split_ifs <;> rfl
    | seen newStart =>
      rw [hx] at hphase
      cases hphase
      exact .of_experts rfl rfl
    | done =>
      rw [hx] at hphase
      cases hphase
  | progressive =>
    obtain ⟨phase, hx, hrest⟩ := Option.bind_eq_some_iff.mp hstep
    obtain ⟨⟨shared, phase'⟩, hphase, rfl⟩ := Option.map_eq_some_iff.mp hrest
    have howns := (h.progressive phase hx).2
    refine .inr ⟨?_, ?_⟩
    · intro expert he
      exact ⟨List.mem_append_right _ he, Progressive.step_has howns hphase he⟩
    · intro expert he
      rcases List.mem_append.mp he with he | he
      · exact .inr (Progressive.has_inserts hphase he)
      · exact .inl he
  | tick seconds =>
    cases hstep
    exact .inr (.of_experts rfl rfl)
  | seen hostname =>
    cases hstep
    exact .inr (.of_experts rfl rfl)

/-! ## every run -/

/-- nothing of the new registration is lost so far -/
structure Lifecycle.Good (r : ValidRegistration p) (x : Lifecycle) : Prop extends x.Base r where
  row : x.registered.written = true →
    x.shared.db.carries r.request.workerId (registrationEntries r)
  rows : ∀ expert ∈ x.inserted, x.shared.db.has expert = true

/-- something of it is lost for good -/
structure Lifecycle.Lost (r : ValidRegistration p) (x : Lifecycle) : Prop extends x.Base r where
  lost : (x.registered.written = true ∧
      ¬ x.shared.db.carries r.request.workerId (registrationEntries r)) ∨
    ∃ expert ∈ x.inserted, x.shared.db.has expert = false

theorem Lifecycle.start_good {shared : Shared} (h : shared.db.Valid) :
    (Lifecycle.start shared).Good r where
  valid := h
  recovery := fun _ hphase => by cases hphase
  cleanup := fun _ hids => by cases hids
  config := fun _ _ hconfig => by cases hconfig
  progressive := fun _ hphase => by cases hphase
  waiting := fun _ => rfl
  inserted := fun _ he => by cases he
  row := fun hw => by cases hw
  rows := fun _ he => by cases he

theorem Lifecycle.carries_of_upsert {config : NodeConfig} {newStart : Bool} (h : x.Base r)
    (hx : x.registered = .upsert config newStart)
    (hstep : x.step settings r replaced .registered = some x') :
    x'.shared.db.carries r.request.workerId (registrationEntries r) := by
  obtain ⟨⟨db, phase⟩, hphase, rfl⟩ := Option.map_eq_some_iff.mp hstep
  rw [hx] at hphase
  cases hphase
  exact carries_nodeUpsert x.shared.db _ (h.config config newStart hx)

/-- the clearing statement leaves the new row without its entries -/
theorem Lifecycle.step_clear (hx : x.unavailable = .clear)
    (hstep : x.step settings r replaced .unavailable = some x') :
    x'.registered = x.registered ∧
      ¬ x'.shared.db.carries r.request.workerId (registrationEntries r) := by
  obtain ⟨⟨db, phase⟩, hphase, rfl⟩ := Option.map_eq_some_iff.mp hstep
  rw [hx] at hphase
  cases hphase
  exact ⟨rfl, not_carries_clearNode x.shared.db (by simp [registrationEntries])⟩

/-- the deleting statement leaves no row of the worker -/
theorem Lifecycle.step_delete {nodeIds : List Nat} (h : x.Base r) (hx : x.cleanup = .delete nodeIds)
    (hstep : x.step settings r replaced .cleanup = some x') :
    x'.inserted = x.inserted ∧ ∀ expert ∈ x.inserted, x'.shared.db.has expert = false := by
  simp only [Lifecycle.step] at hstep
  split_ifs at hstep
  obtain ⟨⟨db, phase⟩, hphase, rfl⟩ := Option.map_eq_some_iff.mp hstep
  rw [hx] at hphase
  cases hphase
  refine ⟨rfl, ?_⟩
  intro expert he
  obtain ⟨id, hid, hown⟩ := h.cleanup nodeIds hx
  refine not_has_deleteExpertsByNodeIds x.shared.db ?_
  rwa [own_unique h.valid (h.inserted expert he) hown]

theorem Lifecycle.Good.step {l : LifecycleStep} (h : x.Good r) (hordered : x.ordered l = true)
    (hstep : x.step settings r replaced l = some x') : x'.Good r := by
  have hbase := h.toBase.step hstep
  refine { hbase with row := ?_, rows := ?_ }
  · intro hwritten
    rcases Lifecycle.step_config hstep with ⟨rfl, config, newStart, hx⟩ | ⟨rfl, hx⟩ | ⟨hw, hiff⟩
    · exact Lifecycle.carries_of_upsert h.toBase hx hstep
    · rw [(Lifecycle.step_clear hx hstep).1] at hwritten
      simp [Lifecycle.ordered, hx, hwritten] at hordered
    · exact hiff.mpr (h.row (hw ▸ hwritten))
  · intro expert he
    rcases Lifecycle.step_rows h.toBase hstep with ⟨rfl, nodeIds, hx⟩ | hkept
    · have hnone : x.inserted = [] := by simpa [Lifecycle.ordered, hx] using hordered
      rw [(Lifecycle.step_delete h.toBase hx hstep).1, hnone] at he
      cases he
    · rcases hkept.new expert he with hold | hnew
      · exact (hkept.old expert hold).2.mpr (h.rows expert hold)
      · exact hnew

theorem Lifecycle.Good.lost {l : LifecycleStep} (h : x.Good r) (hordered : x.ordered l = false)
    (hstep : x.step settings r replaced l = some x') : x'.Lost r := by
  refine { h.toBase.step hstep with lost := ?_ }
  cases l with
  | unavailable =>
    simp only [Lifecycle.ordered, Bool.or_eq_false_iff, decide_eq_false_iff_not, ne_eq, not_not,
      Bool.not_eq_false'] at hordered
    obtain ⟨hreg, hclear⟩ := Lifecycle.step_clear hordered.1 hstep
    exact .inl ⟨hreg ▸ hordered.2, hclear⟩
  | cleanup =>
    cases hx : x.cleanup with
    | delete nodeIds =>
      simp only [Lifecycle.ordered, hx, List.isEmpty_eq_false_iff] at hordered
      obtain ⟨expert, he⟩ := List.exists_mem_of_ne_nil _ hordered
      obtain ⟨hinserted, hgone⟩ := Lifecycle.step_delete h.toBase hx hstep
      exact .inr ⟨expert, hinserted ▸ he, hgone expert he⟩
    | waiting => simp [Lifecycle.ordered, hx] at hordered
    | done => simp [Lifecycle.ordered, hx] at hordered
  | _ => cases hordered

theorem Lifecycle.Lost.step {l : LifecycleStep} (h : x.Lost r)
    (hstep : x.step settings r replaced l = some x') : x'.Lost r := by
  refine { h.toBase.step hstep with lost := ?_ }
  rcases h.lost with ⟨hwritten, hcarries⟩ | ⟨expert, he, hgone⟩
  · left
    rcases Lifecycle.step_config hstep with ⟨rfl, config, newStart, hx⟩ | ⟨rfl, hx⟩ | ⟨hw, hiff⟩
    · rw [hx] at hwritten
      cases hwritten
    · obtain ⟨hreg, hclear⟩ := Lifecycle.step_clear hx hstep
      exact ⟨hreg ▸ hwritten, hclear⟩
    · exact ⟨hw ▸ hwritten, fun hc => hcarries (hiff.mp hc)⟩
  · right
    rcases Lifecycle.step_rows h.toBase hstep with ⟨rfl, nodeIds, hx⟩ | hkept
    · obtain ⟨hinserted, hall⟩ := Lifecycle.step_delete h.toBase hx hstep
      exact ⟨expert, hinserted ▸ he, hall expert he⟩
    · obtain ⟨hmem, hiff⟩ := hkept.old expert he
      refine ⟨expert, hmem, ?_⟩
      rw [Bool.eq_false_iff] at hgone ⊢
      exact fun hc => hgone (hiff.mp hc)

/-- when both calls and their tasks have ended, the registration and its rows are there exactly when
the old lease was cleared before the new one wrote -/
theorem new_registration_survives_iff {shared : Shared} (hvalid : shared.db.Valid)
    {ls : List LifecycleStep}
    (hrun : Steps.run (Lifecycle.step settings r replaced) (fun _ _ => true)
      (Lifecycle.start shared) ls = some x) (hfinished : x.finished = true) :
    x.Survives r ↔ Steps.run (Lifecycle.step settings r replaced) Lifecycle.ordered
      (Lifecycle.start shared) ls = some x := by
  have hwritten : x.registered.written = true := by
    simp only [Lifecycle.finished, Bool.and_eq_true] at hfinished
    cases hx : x.registered with
    | done => rfl
    | _ => simp [hx] at hfinished
  rcases Steps.run_checked_cases (fun s l s' hs hok hs' => Lifecycle.Good.step hs hok hs')
      (fun s l s' hs hok hs' => Lifecycle.Good.lost hs hok hs')
      (fun s l s' hs hs' => Lifecycle.Lost.step hs hs')
      (Lifecycle.start_good hvalid) hrun with ⟨hordered, hgood⟩ | ⟨hnot, hlost⟩
  · exact ⟨fun _ => hordered, fun _ => ⟨hgood.row hwritten, hgood.rows⟩⟩
  · constructor
    · intro hsurvives
      rcases hlost.lost with ⟨_, hcarries⟩ | ⟨expert, he, hgone⟩
      · exact absurd hsurvives.1 hcarries
      · rw [hsurvives.2 expert he] at hgone
        cases hgone
    · intro hordered
      rw [hnot] at hordered
      cases hordered

end

end

/-! ## a worker that comes back -/

/-- worker-0 was started again -/
def restarted : ValidRegistration Controller.Fixture.parsers :=
  ⟨Controller.Fixture.registration "worker-0" "start-1", by decide +kernel⟩

/-- the only node, with one expert of its earlier run -/
def oneWorker : Shared where
  db := {
    now := 100
    nodes := [⟨1, "worker-0", "cuda:0", (∅ : NodeConfig).insert "start_id" (.text "start-0"), some 99⟩]
    nextNodeId := 2
    experts := [exampleRow 1 0]
    instances := [⟨1, 1, "main"⟩]
    nextInstanceId := 2
    models := [⟨1, "m"⟩] }
  assignLock := false
  loading := []

theorem oneWorker_valid : oneWorker.db.Valid :=
  ⟨by decide +kernel, by decide +kernel, by decide +kernel⟩

def restartRun (check : Lifecycle → LifecycleStep → Bool) (ls : List LifecycleStep) :
    Option Lifecycle :=
  Steps.run (Lifecycle.step exampleSettings restarted true) check (Lifecycle.start oneWorker) ls

/-- the lease ends, and the task has recovered and looked up the node -/
def leaseEnds : List LifecycleStep :=
  List.replicate 3 .unavailable ++ List.replicate 3 .recovery ++ [.cleanup]

def registers (statements : Nat) : List LifecycleStep :=
  List.replicate 3 .registered ++ List.replicate statements .progressive

/-- the rows of the old lease are deleted first -/
theorem new_registration_survives_cleaned :
    ∃ x, restartRun (fun _ _ => true) (leaseEnds ++ [.cleanup] ++ registers 14) = some x ∧
      x.finished = true ∧ x.inserted.length = 2 ∧ x.Survives restarted := by
  obtain ⟨x, hx, hend⟩ := (Option.any_eq_true
    (fun x : Lifecycle => x.finished && decide (x.inserted.length = 2))
    (restartRun Lifecycle.ordered (leaseEnds ++ [.cleanup] ++ registers 14))).mp (by decide +kernel)
  obtain ⟨hfinished, hlength⟩ := Bool.and_eq_true_iff.mp hend
  have hrun : restartRun (fun _ _ => true) (leaseEnds ++ [.cleanup] ++ registers 14) = some x :=
    Steps.run_mono hx fun _ _ _ => rfl
  exact ⟨x, hrun, hfinished, of_decide_eq_true hlength,
    (new_registration_survives_iff oneWorker_valid hrun hfinished).mpr hx⟩

/-- `delete_stale_experts` runs after the assignment and takes its rows -/
theorem late_cleanup_deletes_new_rows :
    ∃ x, restartRun (fun _ _ => true) (leaseEnds ++ registers 15 ++ [.cleanup]) = some x ∧
      x.finished = true ∧ ¬ x.Survives restarted := by
  obtain ⟨x, hx, hend⟩ := (Option.any_eq_true
    (fun x : Lifecycle => x.finished && x.inserted.any fun expert => !x.shared.db.has expert)
    (restartRun (fun _ _ => true) (leaseEnds ++ registers 15 ++ [.cleanup]))).mp (by decide +kernel)
  obtain ⟨hfinished, hgone⟩ := Bool.and_eq_true_iff.mp hend
  refine ⟨x, hx, hfinished, ?_⟩
  intro hsurvives
  obtain ⟨expert, he, hnot⟩ := List.any_eq_true.mp hgone
  rw [hsurvives.2 expert he] at hnot
  cases hnot

end ExpertKit.Elastic

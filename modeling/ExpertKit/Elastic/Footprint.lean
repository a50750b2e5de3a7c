import ExpertKit.Elastic.Capacity

/-!
# Elasticity: which rows a task touches

A recovery writes rows of other nodes than the lost one, and a progressive assignment writes rows of
its own node.  Neither writes the node table.

* `Own`, `Foreign`, `Extends`          the node ids of one worker and of the others;
* `Database.has`                       whether a row is there, and what each statement does to it;
* `Recovery.nodeIds`, `Recovery.step_has`      the nodes that a recovery may write;
* `Progressive.Owns`, `Progressive.step_has`   the rows that an assignment inserts are different ones
                                       and stay.
-/

set_option linter.unusedSectionVars false

namespace ExpertKit.Elastic
open Std

/-! ## the node rows -/

/-- the id of the worker's node row -/
def Database.Own (db : Database) (hostname : String) (id : Nat) : Prop :=
  ∃ node ∈ db.nodes, node.hostname = hostname ∧ node.id = id

/-- the id of another worker's node row -/
def Database.Foreign (db : Database) (hostname : String) (id : Nat) : Prop :=
  ∃ node ∈ db.nodes, node.hostname ≠ hostname ∧ node.id = id

theorem own_ne_foreign {db : Database} (hvalid : db.Valid) {hostname : String} {id id' : Nat}
    (hown : db.Own hostname id) (hforeign : db.Foreign hostname id') : id ≠ id' := by
  rintro rfl
  obtain ⟨node, hnode, hname, hid⟩ := hown
  obtain ⟨other, hother, hne, hid'⟩ := hforeign
  have heq : node = other :=
    List.inj_on_of_nodup_map hvalid.ids hnode hother (hid.trans hid'.symm)
  exact hne (heq ▸ hname)

theorem own_unique {db : Database} (hvalid : db.Valid) {hostname : String} {id id' : Nat}
    (h : db.Own hostname id) (h' : db.Own hostname id') : id = id' := by
  obtain ⟨node, hnode, hname, hid⟩ := h
  obtain ⟨other, hother, hname', hid'⟩ := h'
  have heq : node = other :=
    List.inj_on_of_nodup_map hvalid.hostnames hnode hother (hname.trans hname'.symm)
  rw [← hid, ← hid', heq]

theorem own_of_nodeByHostname {db : Database} {hostname : String} {node : Node}
    (h : db.nodeByHostname hostname = some node) : db.Own hostname node.id :=
  ⟨node, List.mem_of_find?_eq_some h, by simpa using List.find?_some h, rfl⟩

theorem nodeByHostname_updateNode (db : Database) (hostname : String) (f : Node → Node)
    (hname : ∀ node, (f node).hostname = node.hostname) :
    (db.updateNode hostname f).nodeByHostname hostname =
      (db.nodeByHostname hostname).map f := by
  unfold Database.nodeByHostname Database.updateNode
  rw [List.find?_map]
  have hpred : ((fun node : Node => decide (node.hostname = hostname)) ∘
      fun node => if node.hostname = hostname then f node else node) =
      fun node => decide (node.hostname = hostname) := by
    funext node
    simp only [Function.comp]
    split_ifs with h <;> simp [hname, h]
  rw [hpred]
  cases hfind : db.nodes.find? fun node => decide (node.hostname = hostname) with
  | none => rfl
  | some node =>
    have hn : node.hostname = hostname := by simpa using List.find?_some hfind
    simp [hn]

theorem nodeByHostname_updateNode_other (db : Database) {hostname host : String}
    (hne : host ≠ hostname) (f : Node → Node)
    (hname : ∀ node, (f node).hostname = node.hostname) :
    (db.updateNode host f).nodeByHostname hostname = db.nodeByHostname hostname := by
  unfold Database.nodeByHostname Database.updateNode
  rw [List.find?_map]
  have hpred : ((fun node : Node => decide (node.hostname = hostname)) ∘
      fun node => if node.hostname = host then f node else node) =
      fun node => decide (node.hostname = hostname) := by
    funext node
    simp only [Function.comp]
    split_ifs <;> simp [hname]
  rw [hpred]
  cases hfind : db.nodes.find? fun node => decide (node.hostname = hostname) with
  | none => rfl
  | some node =>
    have hn : node.hostname = hostname := by simpa using List.find?_some hfind
    simp [hn, Ne.symm hne]

/-- the statement keeps every node row with its id and hostname -/
structure Extends (hostname : String) (db db' : Database) : Prop where
  valid : db.Valid → db'.Valid
  own : ∀ id, db.Own hostname id → db'.Own hostname id
  foreign : ∀ id, db.Foreign hostname id → db'.Foreign hostname id

theorem Extends.of_nodes {hostname : String} {db db' : Database} (h : db'.nodes = db.nodes)
    (hnext : db'.nextNodeId = db.nextNodeId) : Extends hostname db db' := by
  refine ⟨?_, ?_, ?_⟩
  · intro hv
    exact ⟨h ▸ hv.ids, h ▸ hv.hostnames, by rw [h, hnext]; exact hv.fresh⟩
  · intro id hid
    unfold Database.Own
    rwa [h]
  · intro id hid
    unfold Database.Foreign
    rwa [h]

theorem Extends.updateNode {hostname : String} (db : Database) (host : String) (f : Node → Node)
    (hid : ∀ node, (f node).id = node.id) (hname : ∀ node, (f node).hostname = node.hostname) :
    Extends hostname db (db.updateNode host f) := by
  have hid' : ∀ node : Node, (if node.hostname = host then f node else node).id = node.id := by
    intro node
    split_ifs
    · exact hid node
    · rfl
  have hname' : ∀ node : Node,
      (if node.hostname = host then f node else node).hostname = node.hostname := by
    intro node
    split_ifs
    · exact hname node
    · rfl
  have hids : (db.updateNode host f).nodes.map Node.id = db.nodes.map Node.id := by
    simp [Database.updateNode, Function.comp_def, hid']
  have hnames : (db.updateNode host f).nodes.map Node.hostname = db.nodes.map Node.hostname := by
    simp [Database.updateNode, Function.comp_def, hname']
  refine ⟨?_, ?_, ?_⟩
  · intro hv
    refine ⟨hids ▸ hv.ids, hnames ▸ hv.hostnames, ?_⟩
    intro node hnode
    obtain ⟨before, hbefore, rfl⟩ := List.mem_map.mp hnode
    rw [hid']
    exact hv.fresh before hbefore
  · rintro id ⟨node, hnode, hn, hi⟩
    exact ⟨_, List.mem_map.mpr ⟨node, hnode, rfl⟩, (hname' node).trans hn, (hid' node).trans hi⟩
  · rintro id ⟨node, hnode, hn, hi⟩
    refine ⟨_, List.mem_map.mpr ⟨node, hnode, rfl⟩, ?_, (hid' node).trans hi⟩
    rw [hname']
    exact hn

theorem Extends.nodeUpsert {hostname : String} (db : Database) (device : String)
    (config : NodeConfig) : Extends hostname db (db.nodeUpsert hostname device config) := by
  unfold Database.nodeUpsert
  split_ifs with hsome
  · exact .updateNode db hostname _ (fun _ => rfl) (fun _ => rfl)
  · have hnew : ∀ node ∈ db.nodes, node.hostname ≠ hostname := by
      intro node hnode hn
      apply hsome
      unfold Database.nodeByHostname
      rw [List.find?_isSome]
      exact ⟨node, hnode, decide_eq_true hn⟩
    refine ⟨?_, ?_, ?_⟩
    · intro hv
      refine ⟨?_, ?_, ?_⟩
      · rw [List.map_append, List.nodup_append]
        refine ⟨hv.ids, List.nodup_singleton _, ?_⟩
        intro a ha b hb
        obtain ⟨node, hnode, rfl⟩ := List.mem_map.mp ha
        have hlt := hv.fresh node hnode
        simp only [List.map_cons, List.map_nil, List.mem_singleton] at hb
        omega
      · rw [List.map_append, List.nodup_append]
        refine ⟨hv.hostnames, List.nodup_singleton _, ?_⟩
        intro a ha b hb
        obtain ⟨node, hnode, rfl⟩ := List.mem_map.mp ha
        simp only [List.map_cons, List.map_nil, List.mem_singleton] at hb
        rw [hb]
        exact hnew node hnode
      · intro node hnode
        rcases List.mem_append.mp hnode with h | h
        · exact Nat.lt_succ_of_lt (hv.fresh node h)
        · rw [List.mem_singleton.mp h]
          exact Nat.lt_succ_self _
    · rintro id ⟨node, hnode, hn, hi⟩
      exact ⟨node, List.mem_append_left _ hnode, hn, hi⟩
    · rintro id ⟨node, hnode, hn, hi⟩
      exact ⟨node, List.mem_append_left _ hnode, hn, hi⟩

/-! ## the expert rows -/

def Database.has (db : Database) (expert : Expert) : Bool := db.experts.any expert.sameKey

theorem has_of_experts {db db' : Database} (h : db'.experts = db.experts) (expert : Expert) :
    db'.has expert = db.has expert := by
  unfold Database.has
  rw [h]

theorem has_upsert (db : Database) (row expert : Expert) :
    (db.expertUpsert row).has expert = true ↔ db.has expert = true ∨ expert.sameKey row = true := by
  unfold Database.expertUpsert
  split_ifs with hexists
  · constructor
    · exact .inl
    · rintro (h | h)
      · exact h
      · obtain ⟨other, hother, hkey⟩ := List.any_eq_true.mp hexists
        refine List.any_eq_true.mpr ⟨other, hother, ?_⟩
        simp only [Expert.sameKey, Bool.and_eq_true, beq_iff_eq] at h hkey ⊢
        exact ⟨⟨h.1.1.trans hkey.1.1, h.1.2.trans hkey.1.2⟩, h.2.trans hkey.2⟩
  · simp [Database.has, List.any_append]

theorem has_map_state {db : Database} (f : Expert → Expert)
    (hf : ∀ expert, (f expert).instanceId = expert.instanceId ∧
      (f expert).nodeId = expert.nodeId ∧ (f expert).expertId = expert.expertId)
    (expert : Expert) :
    ({ db with experts := db.experts.map f } : Database).has expert = db.has expert := by
  unfold Database.has
  rw [List.any_map]
  congr 1
  funext row
  obtain ⟨h1, h2, h3⟩ := hf row
  simp [Expert.sameKey, h1, h2, h3]

/-- a DELETE that spares the node keeps its rows -/
theorem has_filter {db : Database} (q : Expert → Bool) {expert : Expert}
    (h : ∀ row : Expert, row.nodeId = expert.nodeId → q row = true) :
    ({ db with experts := db.experts.filter q } : Database).has expert = db.has expert := by
  unfold Database.has
  rw [List.any_filter]
  congr 1
  funext row
  cases hkey : expert.sameKey row with
  | false => simp
  | true =>
    have hnode : row.nodeId = expert.nodeId := by
      simp only [Expert.sameKey, Bool.and_eq_true, beq_iff_eq] at hkey
      exact hkey.1.2.symm
    simp [h row hnode]

theorem not_has_deleteExpertsByNodeIds (db : Database) {nodeIds : List Nat} {expert : Expert}
    (h : expert.nodeId ∈ nodeIds) : (db.deleteExpertsByNodeIds nodeIds).has expert = false := by
  unfold Database.has Database.deleteExpertsByNodeIds
  rw [List.any_eq_false]
  intro row hrow hkey
  simp only [List.mem_filter, decide_eq_true_eq] at hrow
  simp only [Expert.sameKey, Bool.and_eq_true, beq_iff_eq] at hkey
  exact hrow.2 (hkey.1.2 ▸ h)

theorem has_upsertBatch (db : Database) (rows : List Expert) {expert : Expert}
    (h : ∀ row ∈ rows, row.nodeId ≠ expert.nodeId) :
    (db.expertUpsertBatch rows).has expert = true ↔ db.has expert = true := by
  unfold Database.expertUpsertBatch
  induction rows generalizing db with
  | nil => exact Iff.rfl
  | cons row rows ih =>
    rw [List.foldl_cons, ih (db.expertUpsert row) fun r hr => h r (List.mem_cons_of_mem _ hr),
      has_upsert]
    have hkey : expert.sameKey row ≠ true := by
      simp only [Expert.sameKey, Bool.and_eq_true, beq_iff_eq, ne_eq]
      exact fun hk => h row List.mem_cons_self hk.1.2.symm
    simp [hkey]

/-! ## recovery touches other nodes only -/

/-- the node ids whose rows the rest of the recovery may write -/
def Recovery.nodeIds : Recovery → List Nat
  | .checkLoading _ _ rest targets => (rest ++ targets).map Node.id
  | .findUnique _ targets _ _ => targets.map Node.id
  | .readInstance targets _ => targets.map Node.id
  | .readCapacity _ _ rest capacity => rest.map Node.id ++ capacity.map fun entry => entry.1.id
  | .evictActive e => e.targets.map Node.id ++ e.direct.map Expert.nodeId
  | .evictRead e _ _ _ => e.targets.map Node.id ++ e.direct.map Expert.nodeId
  | .evictCount e _ _ _ _ _ _ => e.targets.map Node.id ++ e.direct.map Expert.nodeId
  | .deleting victims placements direct =>
    victims.map Prod.fst ++ placements.map Expert.nodeId ++ direct.map Expert.nodeId
  | .placing placements direct => placements.map Expert.nodeId ++ direct.map Expert.nodeId
  | .assigning direct => direct.map Expert.nodeId
  | _ => []

theorem planDirect_nodeIds (instanceId : Nat) (unique : List String)
    (capacity : List (Node × Nat)) :
    ∀ id ∈ (planDirect instanceId unique capacity).1.map Expert.nodeId,
      id ∈ capacity.map fun entry => entry.1.id := by
  intro id hid
  by_contra hnot
  have hle := planDirect_le instanceId id unique capacity
  rw [slots_eq_zero hnot] at hle
  obtain ⟨expert, hexpert, he⟩ := List.mem_map.mp hid
  exact countOn_eq_zero.mp (Nat.le_zero.mp hle) expert hexpert he

theorem plan_nodeIds (unique : List String) (instanceId : Nat) (capacity : List (Node × Nat)) :
    ∀ id ∈ (Recovery.plan unique instanceId capacity).nodeIds,
      id ∈ capacity.map fun entry => entry.1.id := by
  have hdirect := planDirect_nodeIds instanceId unique capacity
  unfold Recovery.plan
  simp only
  split_ifs
  · exact hdirect
  · intro id hid
    rcases List.mem_append.mp hid with h | h
    · simpa using h
    · exact hdirect id h

theorem evict_nodeIds (e : Evicting) (index : EvictionIndex) :
    ∀ id ∈ (Recovery.evict e index).nodeIds,
      id ∈ e.targets.map Node.id ++ e.direct.map Expert.nodeId := by
  obtain ⟨hslots, _, _, hread⟩ := planEviction_spec e.instanceId e.targets e.unplaced index []
  unfold Recovery.evict
  simp only
  split_ifs
  · exact fun id hid => List.mem_append_right _ hid
  · intro id hid
    simp only [Recovery.nodeIds, ← hslots, List.mem_append, or_self] at hid
    rcases hid with h | h
    · obtain ⟨victim, hvictim, rfl⟩ := List.mem_map.mp h
      obtain ⟨⟨node, hnode, hid⟩, _⟩ := hread victim hvictim
      exact List.mem_append_left _ (List.mem_map.mpr ⟨node, hnode, hid⟩)
    · exact List.mem_append_right _ h

theorem startFindUnique_nodeIds (deadExperts : List Expert) (activeNodes targets : List Node) :
    ∀ id ∈ (Recovery.startFindUnique deadExperts activeNodes targets).nodeIds,
      id ∈ targets.map Node.id := by
  unfold Recovery.startFindUnique
  split_ifs
  · exact fun id hid => absurd hid List.not_mem_nil
  · exact fun id hid => hid

/-- a recovery learns of node ids only when it reads the other active nodes -/
theorem Recovery.step_nodeIds {settings : Settings} {hostname : String} {loading : List String}
    {db db' : Database} {phase phase' : Recovery}
    (h : phase.step settings hostname loading db = some (db', phase')) :
    ∀ id ∈ phase'.nodeIds, id ∈ phase.nodeIds ∨ db.Foreign hostname id := by
  intro id hid
  cases phase with
  | lookup =>
    simp only [Recovery.step] at h
    split at h <;> cases h <;> cases hid
  | readExperts dead =>
    simp only [Recovery.step] at h
    split_ifs at h <;> cases h <;> cases hid
  | readActive deadExperts =>
    simp only [Recovery.step] at h
    split_ifs at h <;> cases h
    · cases hid
    · obtain ⟨node, hnode, rfl⟩ := List.mem_map.mp hid
      rw [List.append_nil, List.mem_filter] at hnode
      exact .inr ⟨node, (List.mem_filter.mp hnode.1).1, of_decide_eq_true hnode.2, rfl⟩
  | checkLoading deadExperts activeNodes rest targets =>
    left
    cases rest with
    | nil =>
      cases h
      exact startFindUnique_nodeIds _ _ _ id hid
    | cons node rest =>
      have hnext : ∀ id ∈ (if loading.contains node.hostname then targets
          else targets ++ [node]).map Node.id, id ∈ (node :: rest ++ targets).map Node.id := by
        intro id hid
        split_ifs at hid
        · rw [List.map_append]
          exact List.mem_append_right _ hid
        · simp only [List.map_append, List.map_cons, List.map_nil, List.mem_append,
            List.mem_cons] at hid ⊢
          tauto
      simp only [Recovery.step] at h
      generalize (if loading.contains node.hostname then targets else targets ++ [node]) = next
        at h hnext
      split_ifs at h <;> cases h
      · exact hnext id (startFindUnique_nodeIds _ _ _ id hid)
      · simp only [Recovery.nodeIds, List.map_append, List.mem_append] at hid
        rcases hid with hid | hid
        · simp only [Recovery.nodeIds, List.cons_append, List.map_cons, List.map_append,
            List.mem_cons, List.mem_append]
          exact .inr (.inl hid)
        · exact hnext id hid
  | findUnique activeNodes targets rest unique =>
    left
    cases rest with
    | nil =>
      simp only [Recovery.step] at h
      split_ifs at h <;> cases h
      · cases hid
      · exact hid
    | cons expert rest =>
      cases h
      exact hid
  | readInstance targets unique =>
    left
    simp only [Recovery.step] at h
    split at h <;> cases h
    · cases hid
    · simpa [Recovery.nodeIds] using hid
  | readCapacity unique instanceId rest capacity =>
    left
    cases rest with
    | nil =>
      cases h
      exact plan_nodeIds _ _ _ id hid
    | cons node rest =>
      cases h
      simp only [Recovery.nodeIds, List.map_append, List.map_cons, List.map_nil, List.mem_append,
        List.mem_cons, List.not_mem_nil, or_false] at hid ⊢
      tauto
  | evictActive e =>
    cases h
    exact .inl hid
  | evictRead e activeNodes rest index =>
    left
    cases rest with
    | nil =>
      cases h
      exact evict_nodeIds e index id hid
    | cons node rest =>
      cases h
      exact hid
  | evictCount e activeNodes node experts restExperts rest index =>
    left
    cases restExperts with
    | nil =>
      cases h
      exact hid
    | cons expert restExperts =>
      simp only [Recovery.step] at h
      split_ifs at h <;> cases h <;> exact hid
  | deleting victims placements direct =>
    left
    cases victims with
    | nil =>
      cases h
      exact hid
    | cons pair victims =>
      cases h
      exact List.mem_cons_of_mem _ hid
  | placing placements direct =>
    cases h
    exact .inl (List.mem_append_right _ hid)
  | assigning direct =>
    cases h
    cases hid
  | done => cases h

theorem Recovery.step_extends {settings : Settings} {hostname : String} {loading : List String}
    {db db' : Database} {phase phase' : Recovery} (h : phase.step settings hostname loading db = some (db', phase')) :
    Extends hostname db db' := by
  rw [Recovery.step_db h]
  obtain ⟨hnodes, hnext⟩ := Recovery.write_nodes db phase
  exact .of_nodes hnodes hnext

/-- the rows of every other node are left alone -/
theorem Recovery.step_has {settings : Settings} {hostname : String} {loading : List String}
    {db db' : Database} {phase phase' : Recovery}
    (h : phase.step settings hostname loading db = some (db', phase')) {expert : Expert}
    (hnot : expert.nodeId ∉ phase.nodeIds) :
    db'.has expert = true ↔ db.has expert = true := by
  rw [Recovery.step_db h]
  have hrows : ∀ rows : List Expert, expert.nodeId ∉ rows.map Expert.nodeId →
      ∀ row ∈ rows, row.nodeId ≠ expert.nodeId := fun rows hn row hrow he =>
    hn (List.mem_map.mpr ⟨row, hrow, he⟩)
  cases phase with
  | deleting victims placements direct =>
    cases victims with
    | nil => exact Iff.rfl
    | cons pair victims =>
      have hne : expert.nodeId ≠ pair.1 := fun he => hnot (by simp [Recovery.nodeIds, he])
      show (db.deleteExpertOnNode pair.1 pair.2).has expert = true ↔ db.has expert = true
      unfold Database.deleteExpertOnNode
      rw [has_filter]
      intro row hrow
      simp [hrow, hne]
  | placing placements direct =>
    exact has_upsertBatch db _ (hrows _ fun hm => hnot (List.mem_append_left _ hm))
  | assigning direct => exact has_upsertBatch db _ (hrows _ hnot)
  | _ => exact Iff.rfl

/-! ## the assignment writes its own node only -/

/-- the node of the task is the worker's, and the rows it inserts are different ones -/
def Progressive.Owns (hostname : String) (db : Database) (inserted : List Expert) :
    Progressive → Prop
  | .lookup => inserted = []
  | .readStale node => db.Own hostname node.id ∧ inserted = []
  | .clearStale node => db.Own hostname node.id ∧ inserted = []
  | .readInstance node => db.Own hostname node.id ∧ inserted = []
  | .readModel node => db.Own hostname node.id ∧ inserted = []
  | .createInstance node _ => db.Own hostname node.id ∧ inserted = []
  | .acquire node _ _ => db.Own hostname node.id ∧ inserted = []
  | .readActive node _ _ => db.Own hostname node.id ∧ inserted = []
  | .countReplicas node _ _ _ _ _ => db.Own hostname node.id ∧ inserted = []
  | .inserting _ _ _ rest => (∀ expert ∈ rest, db.Own hostname expert.nodeId) ∧
      ((rest ++ inserted).map Expert.expertId).Nodup
  | _ => True

theorem nodup_prioritize (counts : List Nat) (routedExperts : Nat) :
    (prioritize counts routedExperts).Nodup :=
  (List.mergeSort_perm _ _).nodup_iff.mpr List.nodup_range

/-- no identifier is assigned twice -/
theorem nodup_objectKeys (settings : Settings) {indices : List Nat} (h : indices.Nodup) :
    (objectKeys settings indices).Nodup := by
  unfold objectKeys
  rw [List.nodup_flatMap]
  refine ⟨?_, ?_⟩
  · intro idx _
    refine List.Nodup.map_on ?_ List.nodup_range'
    exact fun layer _ layer' _ heq => (objectKey_inj heq).1
  · refine h.imp ?_
    intro idx idx' hne id hid hid'
    obtain ⟨layer, _, rfl⟩ := List.mem_map.mp hid
    obtain ⟨layer', _, heq⟩ := List.mem_map.mp hid'
    exact hne (objectKey_inj heq).2.symm

theorem owns_startInserting {settings : Settings} {hostname : String} {db : Database} {node : Node}
    (instanceId target : Nat) (counts : List Nat) (h : db.Own hostname node.id) :
    (Progressive.startInserting settings node instanceId target counts).Owns hostname db [] := by
  refine ⟨?_, ?_⟩
  · intro expert hexpert
    obtain ⟨expertId, _, rfl⟩ := List.mem_map.mp hexpert
    exact h
  · rw [List.append_nil, assignedExperts, List.map_map]
    simp only [Function.comp_def, List.map_id']
    exact nodup_objectKeys settings ((nodup_prioritize _ _).sublist (List.take_sublist _ _))

theorem owns_checkCapacity {settings : Settings} {hostname : String} {db : Database} {node : Node}
    (instanceId : Nat) (h : db.Own hostname node.id) :
    (Progressive.checkCapacity settings node instanceId).Owns hostname db [] := by
  unfold Progressive.checkCapacity
  simp only
  split_ifs
  · trivial
  · exact ⟨h, rfl⟩

theorem Progressive.Owns.extends {hostname : String} {db db' : Database} {inserted : List Expert}
    {phase : Progressive} (h : phase.Owns hostname db inserted)
    (hdb : Extends hostname db db') : phase.Owns hostname db' inserted := by
  cases phase with
  | readStale node => exact ⟨hdb.own _ h.1, h.2⟩
  | clearStale node => exact ⟨hdb.own _ h.1, h.2⟩
  | readInstance node => exact ⟨hdb.own _ h.1, h.2⟩
  | readModel node => exact ⟨hdb.own _ h.1, h.2⟩
  | createInstance node modelId => exact ⟨hdb.own _ h.1, h.2⟩
  | acquire node instanceId target => exact ⟨hdb.own _ h.1, h.2⟩
  | readActive node instanceId target => exact ⟨hdb.own _ h.1, h.2⟩
  | countReplicas node instanceId target activeIds rest counts => exact ⟨hdb.own _ h.1, h.2⟩
  | inserting node target indices rest => exact ⟨fun e he => hdb.own _ (h.1 e he), h.2⟩
  | lookup => exact h
  | markLoading node target indices => trivial
  | promote node target indices => trivial
  | unmark => trivial
  | done => trivial

theorem Progressive.step_owns {settings : Settings} {hostname : String} {x x' : Shared}
    {phase phase' : Progressive} {inserted : List Expert}
    (h : phase.Owns hostname x.db inserted)
    (hstep : phase.step settings hostname x = some (x', phase')) :
    phase'.Owns hostname x.db (phase.inserts ++ inserted) := by
  cases phase with
  | lookup =>
    simp only [Progressive.step] at hstep
    split at hstep
    · cases hstep
      trivial
    · rename_i node hnode
      cases hstep
      exact ⟨own_of_nodeByHostname hnode, h⟩
  | readStale node =>
    simp only [Progressive.step] at hstep
    split_ifs at hstep <;> cases hstep <;> exact h
  | clearStale node =>
    cases hstep
    exact h
  | readInstance node =>
    obtain ⟨hown, rfl⟩ := h
    simp only [Progressive.step] at hstep
    split at hstep <;> cases hstep
    · exact owns_checkCapacity _ hown
    · exact ⟨hown, rfl⟩
  | readModel node =>
    simp only [Progressive.step] at hstep
    split at hstep <;> cases hstep
    · trivial
    · exact h
  | createInstance node modelId =>
    obtain ⟨hown, rfl⟩ := h
    simp only [Progressive.step] at hstep
    split at hstep <;> cases hstep
    · trivial
    · exact owns_checkCapacity _ hown
  | acquire node instanceId target =>
    simp only [Progressive.step] at hstep
    split_ifs at hstep
    cases hstep
    exact h
  | readActive node instanceId target =>
    cases hstep
    exact h
  | countReplicas node instanceId target activeIds rest counts =>
    cases rest with
    | nil =>
      obtain ⟨hown, rfl⟩ := h
      cases hstep
      exact owns_startInserting _ _ _ hown
    | cons idx rest =>
      cases hstep
      exact h
  | inserting node target indices rest =>
    cases rest with
    | nil =>
      cases hstep
      trivial
    | cons expert rest =>
      cases hstep
      refine ⟨fun e he => h.1 e (List.mem_cons_of_mem _ he), ?_⟩
      have hmiddle : (rest ++ ([expert] ++ inserted)).Perm (expert :: rest ++ inserted) :=
        List.perm_middle
      exact (hmiddle.map _).nodup_iff.mpr h.2
  | markLoading node target indices =>
    cases hstep
    trivial
  | promote node target indices =>
    simp only [Progressive.step] at hstep
    split_ifs at hstep <;> cases hstep <;> trivial
  | unmark =>
    cases hstep
    trivial
  | done => cases hstep

/-- the statements of the task keep the rows it inserted -/
theorem Progressive.step_has {settings : Settings} {hostname : String} {x x' : Shared}
    {phase phase' : Progressive} {inserted : List Expert}
    (h : phase.Owns hostname x.db inserted)
    (hstep : phase.step settings hostname x = some (x', phase')) {expert : Expert}
    (he : expert ∈ inserted) : x'.db.has expert = true ↔ x.db.has expert = true := by
  rw [Progressive.step_db hstep]
  cases phase with
  | clearStale node =>
    rw [h.2] at he
    cases he
  | createInstance node modelId =>
    show (x.db.instanceUpsert modelId settings.instanceName).has expert = true ↔ _
    rw [has_of_experts (instanceUpsert_experts _ _ _)]
  | inserting node target indices rest =>
    cases rest with
    | nil => exact Iff.rfl
    | cons row rest =>
      show (x.db.expertUpsert row).has expert = true ↔ x.db.has expert = true
      have hkey : expert.sameKey row ≠ true := by
        intro hkey
        simp only [Expert.sameKey, Bool.and_eq_true, beq_iff_eq] at hkey
        have hnodup := h.2
        simp only [List.cons_append, List.map_cons, List.nodup_cons] at hnodup
        exact hnodup.1 (List.mem_map.mpr ⟨expert, List.mem_append_right _ he, hkey.2⟩)
      rw [has_upsert]
      simp [hkey]
  | promote node target indices =>
    simp only [Progressive.write]
    split_ifs
    · exact Iff.rfl
    · rw [Database.promoteExpertsToPending, has_map_state]
      intro row
      split_ifs <;> exact ⟨rfl, rfl, rfl⟩
  | _ => exact Iff.rfl

theorem sameKey_self (expert : Expert) : expert.sameKey expert = true := by
  simp [Expert.sameKey]

theorem Progressive.has_inserts {settings : Settings} {hostname : String} {x x' : Shared}
    {phase phase' : Progressive} (hstep : phase.step settings hostname x = some (x', phase'))
    {expert : Expert} (he : expert ∈ phase.inserts) : x'.db.has expert = true := by
  rw [Progressive.step_db hstep]
  cases phase with
  | inserting node target indices rest =>
    cases rest with
    | nil => cases he
    | cons row rest =>
      rw [List.mem_singleton.mp he]
      exact (has_upsert x.db row row).mpr (.inr (sameKey_self row))
  | _ => cases he

theorem Progressive.own_inserts {hostname : String} {db : Database} {inserted : List Expert}
    {phase : Progressive} (h : phase.Owns hostname db inserted) {expert : Expert}
    (he : expert ∈ phase.inserts) : db.Own hostname expert.nodeId := by
  cases phase with
  | inserting node target indices rest =>
    cases rest with
    | nil => cases he
    | cons row rest =>
      rw [List.mem_singleton.mp he]
      exact h.1 row List.mem_cons_self
  | _ => cases he

theorem Progressive.step_extends {settings : Settings} {hostname : String} {shared shared' : Shared}
    {phase phase' : Progressive}
    (h : phase.step settings hostname shared = some (shared', phase')) :
    Extends hostname shared.db shared'.db := by
  rw [Progressive.step_db h]
  obtain ⟨hnodes, hnext⟩ := Progressive.write_nodes settings shared.db phase
  exact .of_nodes hnodes hnext

end ExpertKit.Elastic

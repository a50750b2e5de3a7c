import ExpertKit.Elastic.Coverage
import ExpertKit.Lib.Pruning

/-!
# Elasticity: what an eviction leaves

`evict_and_place` on its own.  A row may leave a target when it is loaded or has no state, and while
another active node has a row of the expert, whatever the state of that row.

* `Recovery.Alone`            the task without any other;
* `Recovery.Settling`         the same, with what becomes of the experts of the lost node;
* `Indexed`                   what the index counts once the targets are read;
* `planEviction_pruned`       the replicas of an expert leave in the order of the targets;
* `settling_evicts`           the call reaches its end: what it wrote and gave back;
* `Served`, `Spared`          service before and after;
* `eviction_serves_iff`       which experts keep a loaded row;
* `eviction_drops_service`    the other replica may be scheduled only.
-/

set_option linter.unusedSectionVars false

namespace ExpertKit.Elastic
open Std

/-- one statement after the other, and no other task in between -/
def Recovery.Alone (settings : Settings) (deadHostname : String) (loading : List String) :
    Database × Recovery → Database × Recovery → Prop :=
  Relation.ReflTransGen fun a b => a.2.step settings deadHostname loading a.1 = some b

theorem Recovery.Alone.step {settings : Settings} {deadHostname : String} {loading : List String}
    {db : Database} {phase : Recovery} {b c : Database × Recovery}
    (h : phase.step settings deadHostname loading db = some b)
    (hrest : Recovery.Alone settings deadHostname loading b c) :
    Recovery.Alone settings deadHostname loading (db, phase) c :=
  Relation.ReflTransGen.head h hrest

/-- `still_unplaced` -/
def planUnplaced (targets : List Node) :
    List String → EvictionIndex → List (Nat × String) → List String
  | [], _, _ => []
  | expertId :: rest, index, evicted =>
    match findVictim index evicted targets with
    | none => expertId :: planUnplaced targets rest index evicted
    | some (node, victim) =>
      let counts := index.replicaCounts.insert victim.expertId (index.count victim.expertId - 1)
      planUnplaced targets rest { index with replicaCounts := counts }
        ((node.id, victim.expertId) :: evicted)

/-- what becomes of an expert of the lost node -/
inductive Settlement where
  | assigned (nodeId : Nat) (expertId : String)
  | placed (nodeId : Nat) (expertId : String)
  | unplaced (expertId : String)
deriving DecidableEq

def Settlement.expertId : Settlement → String
  | .assigned _ expertId => expertId
  | .placed _ expertId => expertId
  | .unplaced expertId => expertId

/-- the rows that the next statement writes, or what `evict_and_place` reports -/
def Recovery.settlements : Recovery → List Settlement
  | .evictRead e _ [] index => (planUnplaced e.targets e.unplaced index []).map .unplaced
  | .placing placements _ => placements.map fun row => .placed row.nodeId row.expertId
  | .assigning direct => direct.map fun row => .assigned row.nodeId row.expertId
  | _ => []

/-- the same run, with what it settles on the way -/
inductive Recovery.Settling (settings : Settings) (deadHostname : String) (loading : List String) :
    Database × Recovery → List Settlement → Database × Recovery → Prop where
  | refl (a : Database × Recovery) : Settling settings deadHostname loading a [] a
  | step {db : Database} {phase : Recovery} {b c : Database × Recovery} {rest : List Settlement}
      (h : phase.step settings deadHostname loading db = some b)
      (hrest : Settling settings deadHostname loading b rest c) :
      Settling settings deadHostname loading (db, phase) (phase.settlements ++ rest) c

namespace Recovery.Settling

variable {settings : Settings} {deadHostname : String} {loading : List String}
  {a b c : Database × Recovery} {done rest : List Settlement}

theorem alone (h : Recovery.Settling settings deadHostname loading a done b) :
    Recovery.Alone settings deadHostname loading a b := by
  induction h with
  | refl a => exact .refl
  | step hstep _ ih => exact Recovery.Alone.step hstep ih

theorem trans (h : Recovery.Settling settings deadHostname loading a done b)
    (hrest : Recovery.Settling settings deadHostname loading b rest c) :
    Recovery.Settling settings deadHostname loading a (done ++ rest) c := by
  induction h with
  | refl a => exact hrest
  | step hstep _ ih =>
    rw [List.append_assoc]
    exact .step hstep (ih hrest)

/-- a statement that settles nothing -/
theorem quiet {db : Database} {phase : Recovery} (hquiet : phase.settlements = [])
    (h : phase.step settings deadHostname loading db = some b)
    (hrest : Recovery.Settling settings deadHostname loading b rest c) :
    Recovery.Settling settings deadHostname loading (db, phase) rest c := by
  have hstep := Recovery.Settling.step h hrest
  rwa [hquiet, List.nil_append] at hstep

/-- a run that is over is the only one -/
theorem unique {db1 db2 : Database}
    (h : Recovery.Settling settings deadHostname loading a done (db1, .done))
    (h' : Recovery.Settling settings deadHostname loading a rest (db2, .done)) :
    done = rest ∧ db1 = db2 := by
  generalize hend : (db1, Recovery.done) = x at h
  induction h generalizing rest with
  | refl a =>
    subst hend
    cases h' with
    | refl => exact ⟨rfl, rfl⟩
    | step hstep _ => cases hstep
  | step hstep _ ih =>
    cases h' with
    | refl => cases hstep
    | step hstep' hrest' =>
      cases Option.some.inj (hstep.symm.trans hstep')
      obtain ⟨hlist, hdb⟩ := ih hrest' hend
      exact ⟨by rw [hlist], hdb⟩

end Recovery.Settling

/-! ## replicas -/

/-- the active nodes other than the lost one -/
def survivors (settings : Settings) (db : Database) (deadHostname : String) : List Node :=
  (db.activeNodes settings.nodeActiveThreshold).filter fun node => node.hostname ≠ deadHostname

/-- the survivors that have a row of the expert -/
def holders (settings : Settings) (db : Database) (deadHostname expertId : String) : Nat :=
  (survivors settings db deadHostname).countP fun node => hasRow db node.id expertId

def loadedRow (db : Database) (nodeId : Nat) (expertId : String) : Bool :=
  db.experts.any fun expert =>
    expert.nodeId == nodeId && expert.expertId == expertId && expert.state == .loaded

/-- a row that the candidate filter lets pass -/
def mayLeave (db : Database) (nodeId : Nat) (expertId : String) : Bool :=
  db.experts.any fun expert => expert.nodeId == nodeId && expert.expertId == expertId &&
    (expert.state == .loaded || expert.state == .null)

theorem otherActive_eq {settings : Settings} {db : Database} (hvalid : db.Valid)
    (deadHostname expertId : String) :
    otherActive (db.nodeByExpert expertId) (db.activeNodes settings.nodeActiveThreshold)
      deadHostname = holders settings db deadHostname expertId := by
  have hcontains : ∀ node ∈ db.nodes,
      ((db.activeNodes settings.nodeActiveThreshold).map Node.hostname).contains node.hostname =
        node.lastSeenAt.any fun seen => db.now < seen + settings.nodeActiveThreshold := by
    intro node hnode
    rw [Bool.eq_iff_iff, List.contains_iff_mem, List.mem_map]
    constructor
    · rintro ⟨other, hother, hname⟩
      obtain ⟨hmem, hactive⟩ := List.mem_filter.mp hother
      rwa [List.inj_on_of_nodup_map hvalid.hostnames hmem hnode hname] at hactive
    · exact fun hactive => ⟨node, List.mem_filter.mpr ⟨hnode, hactive⟩, rfl⟩
  unfold otherActive holders survivors
  rw [List.countP_eq_length_filter]
  unfold Database.nodeByExpert
  conv_rhs => unfold Database.activeNodes
  simp only [List.filter_filter]
  congr 1
  refine List.filter_congr fun node hnode => ?_
  rw [hcontains node hnode, Bool.eq_iff_iff]
  simp only [Bool.and_eq_true, hasRow]
  tauto

/-! ## the index -/

section
variable {db : Database} {targets : List Node} {count : String → Nat}

/-- the targets are read, and the counts are what the victims so far leave -/
structure Indexed (db : Database) (targets : List Node) (count : String → Nat)
    (index : EvictionIndex) (evicted : List (Nat × String)) : Prop where
  rows : ∀ node ∈ targets, index.nodeExperts[node.id]? = some (db.expertsByNode node.id)
  counts : ∀ node ∈ targets, ∀ expert ∈ db.expertsByNode node.id,
    index.count expert.expertId + Pruning.taken evicted expert.expertId = count expert.expertId

theorem candidate_iff {index : EvictionIndex} {evicted : List (Nat × String)}
    (h : Indexed db targets count index evicted) {node : Node} (hnode : node ∈ targets)
    {expertId : String} :
    (∃ expert ∈ evictionCandidates index evicted node (db.expertsByNode node.id),
      expert.expertId = expertId) ↔
        Pruning.Candidate (mayLeave db) count evicted node.id expertId := by
  constructor
  · rintro ⟨expert, hexpert, rfl⟩
    unfold evictionCandidates at hexpert
    rw [List.mem_mergeSort, List.mem_filter] at hexpert
    obtain ⟨hmem, hfilter⟩ := hexpert
    simp only [Bool.and_eq_true, decide_eq_true_eq] at hfilter
    obtain ⟨⟨hstate, htwo⟩, hnew⟩ := hfilter
    obtain ⟨hrow, hid⟩ := List.mem_filter.mp hmem
    refine ⟨List.any_eq_true.mpr ⟨expert, hrow, ?_⟩, hnew, ?_⟩
    · rw [hstate, Bool.and_true, Bool.and_eq_true, beq_iff_eq, beq_iff_eq]
      exact ⟨of_decide_eq_true hid, rfl⟩
    · have hcount := h.counts node hnode expert hmem
      omega
  · rintro ⟨hmay, hnew, hspare⟩
    obtain ⟨expert, hrow, htest⟩ := List.any_eq_true.mp hmay
    rw [Bool.and_eq_true, Bool.and_eq_true, beq_iff_eq, beq_iff_eq] at htest
    obtain ⟨⟨hid, rfl⟩, hstate⟩ := htest
    have hmem : expert ∈ db.expertsByNode node.id :=
      List.mem_filter.mpr ⟨hrow, decide_eq_true hid⟩
    have hcount := h.counts node hnode expert hmem
    refine ⟨expert, ?_, rfl⟩
    unfold evictionCandidates
    rw [List.mem_mergeSort, List.mem_filter, Bool.and_eq_true, Bool.and_eq_true,
      decide_eq_true_iff, decide_eq_true_iff]
    exact ⟨hmem, ⟨hstate, by omega⟩, hnew⟩

/-- no target has a candidate, or the first one that has gives it up -/
theorem findVictim_cases {index : EvictionIndex} {evicted : List (Nat × String)}
    (h : Indexed db targets count index evicted) (rest : List Node) (hrest : rest ⊆ targets) :
    (findVictim index evicted rest = none ∧ ∀ node ∈ rest, ∀ expertId,
      ¬ Pruning.Candidate (mayLeave db) count evicted node.id expertId) ∨
    ∃ front node back victim, rest = front ++ node :: back ∧
      findVictim index evicted rest = some (node, victim) ∧ victim ∈ db.expertsByNode node.id ∧
      Pruning.Candidate (mayLeave db) count evicted node.id victim.expertId ∧
      ∀ other ∈ front, ∀ expertId,
        ¬ Pruning.Candidate (mayLeave db) count evicted other.id expertId := by
  induction rest with
  | nil => exact .inl ⟨rfl, fun _ h => absurd h List.not_mem_nil⟩
  | cons first rest ih =>
    have hfirst : first ∈ targets := hrest List.mem_cons_self
    have hread := h.rows first hfirst
    cases hcandidates : evictionCandidates index evicted first (db.expertsByNode first.id) with
    | nil =>
      have hfind : findVictim index evicted (first :: rest) = findVictim index evicted rest := by
        rw [findVictim, hread]
        simp only [hcandidates]
      have hnone : ∀ expertId,
          ¬ Pruning.Candidate (mayLeave db) count evicted first.id expertId := by
        intro expertId hc
        obtain ⟨expert, hexpert, _⟩ := (candidate_iff h hfirst).mpr hc
        rw [hcandidates] at hexpert
        exact absurd hexpert List.not_mem_nil
      rw [hfind]
      rcases ih fun node hnode => hrest (List.mem_cons_of_mem _ hnode) with
        ⟨hend, hother⟩ | ⟨front, node, back, victim, rfl, hend, hmem, hc, hother⟩
      · refine .inl ⟨hend, fun node hnode => ?_⟩
        rcases List.mem_cons.mp hnode with rfl | hnode
        · exact hnone
        · exact hother node hnode
      · refine .inr ⟨first :: front, node, back, victim, rfl, hend, hmem, hc, fun other hin => ?_⟩
        rcases List.mem_cons.mp hin with rfl | hin
        · exact hnone
        · exact hother other hin
    | cons victim others =>
      have hvictim :
          victim ∈ evictionCandidates index evicted first (db.expertsByNode first.id) := by
        rw [hcandidates]
        exact List.mem_cons_self
      have hmem : victim ∈ db.expertsByNode first.id := by
        unfold evictionCandidates at hvictim
        exact (List.mem_filter.mp (List.mem_mergeSort.mp hvictim)).1
      refine .inr ⟨[], first, rest, victim, rfl, ?_, hmem,
        (candidate_iff h hfirst).mp ⟨victim, hvictim, rfl⟩, fun _ h => absurd h List.not_mem_nil⟩
      rw [findVictim, hread]
      simp only [hcandidates]

/-- the counts after one more victim -/
theorem Indexed.evict {index : EvictionIndex} {evicted : List (Nat × String)}
    (h : Indexed db targets count index evicted) (nodeId : Nat) {victim : String}
    (htwo : Pruning.taken evicted victim + 2 ≤ count victim) :
    Indexed db targets count
      { index with replicaCounts := index.replicaCounts.insert victim (index.count victim - 1) }
      ((nodeId, victim) :: evicted) := by
  refine ⟨h.rows, fun node hnode expert hexpert => ?_⟩
  have hcount := h.counts node hnode expert hexpert
  rw [Pruning.taken_cons]
  unfold EvictionIndex.count at *
  by_cases heq : victim = expert.expertId
  · subst heq
    rw [if_pos rfl, ExtTreeMap.getElem?_insert_self, Option.getD_some]
    omega
  · have hne : compare victim expert.expertId ≠ .eq := fun hc => heq (LawfulEqCmp.eq_of_compare hc)
    rw [if_neg heq, ExtTreeMap.getElem?_insert, if_neg hne]
    exact hcount

/-! ## the plan -/

theorem planEviction_none {index : EvictionIndex} {evicted : List (Nat × String)}
    (hnone : findVictim index evicted targets = none) (instanceId : Nat) (unplaced : List String) :
    planEviction instanceId targets unplaced index evicted = ([], []) := by
  induction unplaced with
  | nil => rfl
  | cons expertId rest ih =>
    rw [planEviction, hnone]
    exact ih

theorem planEviction_length (instanceId : Nat) (unplaced : List String) (index : EvictionIndex)
    (evicted : List (Nat × String)) :
    (planEviction instanceId targets unplaced index evicted).2.length =
      (planEviction instanceId targets unplaced index evicted).1.length := by
  induction unplaced generalizing index evicted with
  | nil => rfl
  | cons expertId rest ih =>
    rw [planEviction]
    split
    · exact ih index evicted
    · exact congrArg Nat.succ (ih _ _)

/-- the replicas leave in the order of the targets, and with fewer victims than experts to place no
candidate is left -/
theorem planEviction_pruned (hids : (targets.map Node.id).Nodup) (instanceId : Nat)
    (unplaced : List String) {index : EvictionIndex} {evicted : List (Nat × String)}
    (h : Indexed db targets count index evicted)
    (hpruned : Pruning.Pruned (targets.map Node.id) (mayLeave db) count evicted) :
    Pruning.Pruned (targets.map Node.id) (mayLeave db) count
        ((planEviction instanceId targets unplaced index evicted).1.reverse ++ evicted) ∧
      ((planEviction instanceId targets unplaced index evicted).1.length < unplaced.length →
        Pruning.Exhausted (targets.map Node.id) (mayLeave db) count
          ((planEviction instanceId targets unplaced index evicted).1.reverse ++ evicted)) ∧
      ∀ row ∈ (planEviction instanceId targets unplaced index evicted).2, row.state = .null := by
  induction unplaced generalizing index evicted with
  | nil => exact ⟨hpruned, fun hlt => absurd hlt (Nat.lt_irrefl _),
      fun _ hrow => absurd hrow List.not_mem_nil⟩
  | cons expertId rest ih =>
    rcases findVictim_cases h targets (List.Subset.refl _) with
      ⟨hnone, hexhausted⟩ | ⟨front, node, back, victim, htargets, hfind, _, hcandidate, hfirst⟩
    · rw [planEviction_none hnone]
      refine ⟨hpruned, fun _ a ha => ?_, fun _ hrow => absurd hrow List.not_mem_nil⟩
      obtain ⟨node, hnode, rfl⟩ := List.mem_map.mp ha
      exact hexhausted node hnode
    · have hchooses : Pruning.Chooses (targets.map Node.id) (mayLeave db) count evicted node.id
          victim.expertId := by
        refine ⟨hcandidate, front.map Node.id, back.map Node.id, ?_, fun b hb => ?_⟩
        · rw [htargets, List.map_append, List.map_cons]
        · obtain ⟨other, hother, rfl⟩ := List.mem_map.mp hb
          exact hfirst other hother
      obtain ⟨hrest, hend, hnull⟩ :=
        ih (h.evict node.id hcandidate.spare) (hpruned.step hids hchooses)
      rw [planEviction, hfind]
      simp only [List.reverse_cons, List.append_assoc, List.singleton_append, List.length_cons]
      refine ⟨hrest, fun hlt => hend (Nat.lt_of_succ_lt_succ hlt), fun row hrow => ?_⟩
      rcases List.mem_cons.mp hrow with rfl | hrow
      · rfl
      · exact hnull row hrow

end

/-! ## the run -/

section
variable {settings : Settings} {deadHostname : String} {db : Database}

/-- the index so far: the rows of the targets that were read, and counts that are all right -/
structure Reading (settings : Settings) (db : Database) (deadHostname : String)
    (targets : List Node) (index : EvictionIndex) : Prop where
  rows : ∀ node ∈ targets, index.nodeExperts[node.id]? = some (db.expertsByNode node.id)
  counted : ∀ node ∈ targets, ∀ expert ∈ db.expertsByNode node.id,
    index.replicaCounts.contains expert.expertId = true
  right : ∀ expertId n, index.replicaCounts[expertId]? = some n →
    n = holders settings db deadHostname expertId

theorem Reading.count {targets : List Node} {index : EvictionIndex}
    (h : Reading settings db deadHostname targets index) {node : Node} (hnode : node ∈ targets)
    {expert : Expert} (hexpert : expert ∈ db.expertsByNode node.id) :
    index.count expert.expertId = holders settings db deadHostname expert.expertId := by
  have hcontains := h.counted node hnode expert hexpert
  rw [ExtTreeMap.contains_eq_isSome_getElem?] at hcontains
  obtain ⟨n, hn⟩ := Option.isSome_iff_exists.mp hcontains
  rw [EvictionIndex.count, hn, Option.getD_some]
  exact h.right _ n hn

theorem Reading.indexed {targets : List Node} {index : EvictionIndex}
    (h : Reading settings db deadHostname targets index) :
    Indexed db targets (holders settings db deadHostname) index [] :=
  ⟨h.rows, fun _ hnode _ hexpert => h.count hnode hexpert⟩

/-- the counts of one target -/
theorem settling_evictCount (loading : List String) (hvalid : db.Valid) (e : Evicting) (node : Node)
    (rest : List Node) {done : List Node} (restExperts : List Expert) {index : EvictionIndex}
    (h : Reading settings db deadHostname done index)
    (hread : ∀ expert ∈ db.expertsByNode node.id, expert ∈ restExperts ∨
      index.replicaCounts.contains expert.expertId = true) :
    ∃ index', Reading settings db deadHostname (done ++ [node]) index' ∧
      Recovery.Settling settings deadHostname loading
        (db, .evictCount e (db.activeNodes settings.nodeActiveThreshold) node
          (db.expertsByNode node.id) restExperts rest index) []
        (db, .evictRead e (db.activeNodes settings.nodeActiveThreshold) rest index') := by
  induction restExperts generalizing index with
  | nil =>
    refine ⟨{ index with
      nodeExperts := index.nodeExperts.insert node.id (db.expertsByNode node.id) },
      ⟨fun other hother => ?_, fun other hother expert hexpert => ?_, h.right⟩, .quiet rfl rfl (.refl _)⟩
    · by_cases hid : other.id = node.id
      · rw [hid]
        exact ExtTreeMap.getElem?_insert_self
      · have hne : compare node.id other.id ≠ .eq := fun hc =>
          hid (LawfulEqCmp.eq_of_compare hc).symm
        rw [ExtTreeMap.getElem?_insert, if_neg hne]
        refine h.rows other ((List.mem_append.mp hother).resolve_right fun hnew => hid ?_)
        rw [List.mem_singleton.mp hnew]
    · rcases List.mem_append.mp hother with hold | hnew
      · exact h.counted other hold expert hexpert
      · rw [List.mem_singleton.mp hnew] at hexpert
        exact (hread expert hexpert).resolve_left List.not_mem_nil
  | cons first restExperts ih =>
    by_cases hcontains : index.replicaCounts.contains first.expertId = true
    · obtain ⟨index', hreading, hsettling⟩ := ih h fun expert hexpert => by
        rcases hread expert hexpert with hmem | hdone
        · rcases List.mem_cons.mp hmem with rfl | hmem
          · exact .inr hcontains
          · exact .inl hmem
        · exact .inr hdone
      refine ⟨index', hreading, .quiet rfl ?_ hsettling⟩
      simp only [Recovery.step, hcontains, if_true]
    · have hnew : Reading settings db deadHostname done { index with
          replicaCounts := index.replicaCounts.insert first.expertId
            (holders settings db deadHostname first.expertId) } := by
        refine ⟨h.rows, fun node hnode expert hexpert => ?_, fun expertId n hn => ?_⟩
        · rw [ExtTreeMap.contains_insert, h.counted node hnode expert hexpert, Bool.or_true]
        · rw [ExtTreeMap.getElem?_insert] at hn
          split_ifs at hn with heq
          · rw [← LawfulEqCmp.eq_of_compare heq]
            exact (Option.some.inj hn).symm
          · exact h.right expertId n hn
      obtain ⟨index', hreading, hsettling⟩ := ih hnew fun expert hexpert => by
        rcases hread expert hexpert with hmem | hdone
        · rcases List.mem_cons.mp hmem with rfl | hmem
          · exact .inr ExtTreeMap.contains_insert_self
          · exact .inl hmem
        · refine .inr ?_
          rw [ExtTreeMap.contains_insert, hdone, Bool.or_true]
      refine ⟨index', hreading, .quiet rfl ?_ hsettling⟩
      simp only [Recovery.step, hcontains, Bool.false_eq_true, if_false, otherActive_eq hvalid]

/-- all targets are read -/
theorem settling_evictRead (loading : List String) (hvalid : db.Valid) (e : Evicting)
    (rest : List Node) {done : List Node} {index : EvictionIndex}
    (h : Reading settings db deadHostname done index) :
    ∃ index', Reading settings db deadHostname (done ++ rest) index' ∧
      Recovery.Settling settings deadHostname loading
        (db, .evictRead e (db.activeNodes settings.nodeActiveThreshold) rest index) []
        (db, .evictRead e (db.activeNodes settings.nodeActiveThreshold) [] index') := by
  induction rest generalizing done index with
  | nil =>
    rw [List.append_nil]
    exact ⟨index, h, .refl _⟩
  | cons node rest ih =>
    obtain ⟨index1, hreading1, hcount⟩ := settling_evictCount loading hvalid e node rest
      (db.expertsByNode node.id) h fun _ hexpert => .inl hexpert
    obtain ⟨index2, hreading2, hread⟩ := ih hreading1
    rw [List.append_assoc, List.singleton_append] at hreading2
    exact ⟨index2, hreading2, .quiet rfl rfl (hcount.trans hread)⟩

def deleteAll (db : Database) (victims : List (Nat × String)) : Database :=
  victims.foldl (fun db victim => db.deleteExpertOnNode victim.1 victim.2) db

theorem settling_deleting (loading : List String) (victims : List (Nat × String))
    (placements direct : List Expert) (db : Database) :
    Recovery.Settling settings deadHostname loading (db, .deleting victims placements direct)
      (placements.map fun row => .placed row.nodeId row.expertId)
      ((deleteAll db victims).expertUpsertBatch placements, .assigning direct) := by
  induction victims generalizing db with
  | nil =>
    have hplacing : Recovery.Settling settings deadHostname loading (db, .placing placements direct)
        _ (db.expertUpsertBatch placements, .assigning direct) := .step rfl (.refl _)
    rw [List.append_nil] at hplacing
    exact .quiet rfl rfl hplacing
  | cons victim victims ih =>
    exact .quiet rfl rfl (ih (db.deleteExpertOnNode victim.1 victim.2))

/-- the whole call: what is read, the victims, what is written, and what is given back -/
theorem settling_evicts (loading : List String) (hvalid : db.Valid) (e : Evicting) :
    ∃ index, Indexed db e.targets (holders settings db deadHostname) index [] ∧
      Recovery.Settling settings deadHostname loading (db, .evictActive e)
        ((planUnplaced e.targets e.unplaced index []).map .unplaced ++
          (planEviction e.instanceId e.targets e.unplaced index []).2.map fun row =>
            .placed row.nodeId row.expertId)
        ((deleteAll db (planEviction e.instanceId e.targets e.unplaced index []).1).expertUpsertBatch
          (planEviction e.instanceId e.targets e.unplaced index []).2, .assigning e.direct) := by
  have hempty : Reading settings db deadHostname [] ⟨∅, ∅⟩ := by
    refine ⟨fun _ h => absurd h List.not_mem_nil, fun _ h => absurd h List.not_mem_nil,
      fun _ _ h => ?_⟩
    rw [ExtTreeMap.getElem?_empty] at h
    cases h
  obtain ⟨index, hreading, hread⟩ := settling_evictRead loading hvalid e e.targets hempty
  rw [List.nil_append] at hreading
  refine ⟨index, hreading.indexed, .quiet rfl rfl (hread.trans ?_)⟩
  have hevict : Recovery.step settings deadHostname loading db
      (.evictRead e (db.activeNodes settings.nodeActiveThreshold) [] index) =
        some (db, Recovery.evict e index) := rfl
  refine Recovery.Settling.step hevict ?_
  unfold Recovery.evict
  by_cases hnone : (planEviction e.instanceId e.targets e.unplaced index []).1.isEmpty = true
  · have hvictims := List.isEmpty_iff.mp hnone
    have hrows : (planEviction e.instanceId e.targets e.unplaced index []).2 = [] := by
      refine List.length_eq_zero_iff.mp ?_
      rw [planEviction_length, hvictims]
      rfl
    rw [if_pos hnone, hvictims, hrows]
    exact .refl _
  · rw [if_neg hnone]
    exact settling_deleting loading _ _ _ db

/-- the end of the call is unique -/
theorem alone_assigning_unique {loading : List String} {x : Database × Recovery}
    {direct : List Expert} {a b : Database}
    (ha : Recovery.Alone settings deadHostname loading x (a, .assigning direct))
    (hb : Recovery.Alone settings deadHostname loading x (b, .assigning direct)) : a = b := by
  have hend : ∀ {a b : Database}, Recovery.Alone settings deadHostname loading
      (a, .assigning direct) (b, .assigning direct) → a = b := by
    intro a b h
    rcases Relation.ReflTransGen.cases_head h with heq | ⟨y, hstep, hrest⟩
    · exact (Prod.mk.inj heq).1
    · cases hstep
      rcases Relation.ReflTransGen.cases_head hrest with heq | ⟨z, hstep, _⟩
      · cases (Prod.mk.inj heq).2
      · cases hstep
  have hunique : Relator.RightUnique fun x y : Database × Recovery =>
      x.2.step settings deadHostname loading x.1 = some y := fun _ _ _ hy hz =>
    Option.some.inj (hy.symm.trans hz)
  rcases Relation.ReflTransGen.total_of_right_unique hunique ha hb with h | h
  · exact hend h
  · exact (hend h).symm

/-! ## loaded rows -/

theorem deleteAll_experts (db : Database) (victims : List (Nat × String)) :
    (deleteAll db victims).experts =
      db.experts.filter fun row => outside victims row.nodeId row.expertId := by
  induction victims generalizing db with
  | nil => exact (List.filter_eq_self.mpr fun _ _ => decide_eq_true List.not_mem_nil).symm
  | cons victim victims ih =>
    refine (ih (db.deleteExpertOnNode victim.1 victim.2)).trans ?_
    unfold Database.deleteExpertOnNode
    rw [List.filter_filter]
    refine List.filter_congr fun row _ => ?_
    rw [Bool.eq_iff_iff]
    simp only [outside, Bool.and_eq_true, decide_eq_true_eq, Bool.not_eq_true',
      Bool.and_eq_false_iff, beq_eq_false_iff_ne, List.mem_cons, not_or, Prod.ext_iff]
    tauto

/-- a row of the expert on the node with a property, once the victims are gone -/
theorem any_deleteAll (db : Database) (victims : List (Nat × String)) (n : Nat) (expertId : String)
    (q : Expert → Bool) :
    ((deleteAll db victims).experts.any fun row =>
      row.nodeId == n && row.expertId == expertId && q row) = true ↔
    (db.experts.any fun row => row.nodeId == n && row.expertId == expertId && q row) = true ∧
      (n, expertId) ∉ victims := by
  simp only [deleteAll_experts, List.any_eq_true, List.mem_filter, Bool.and_eq_true, beq_iff_eq,
    outside, decide_eq_true_eq]
  constructor
  · rintro ⟨row, ⟨hrow, hout⟩, ⟨rfl, rfl⟩, hq⟩
    exact ⟨⟨row, hrow, ⟨rfl, rfl⟩, hq⟩, hout⟩
  · rintro ⟨⟨row, hrow, ⟨rfl, rfl⟩, hq⟩, hout⟩
    exact ⟨row, ⟨hrow, hout⟩, ⟨rfl, rfl⟩, hq⟩

theorem loadedRow_deleteAll (db : Database) (victims : List (Nat × String)) (n : Nat)
    (expertId : String) : loadedRow (deleteAll db victims) n expertId = true ↔
      loadedRow db n expertId = true ∧ (n, expertId) ∉ victims :=
  any_deleteAll db victims n expertId fun row => row.state == .loaded

theorem loadedRow_upsert (db : Database) {expert : Expert} (hnull : expert.state = .null) (n : Nat)
    (expertId : String) :
    loadedRow (db.expertUpsert expert) n expertId = loadedRow db n expertId := by
  unfold Database.expertUpsert
  split_ifs
  · rfl
  · simp [loadedRow, List.any_append, hnull]

theorem loadedRow_upsertBatch (db : Database) {experts : List Expert}
    (hnull : ∀ expert ∈ experts, expert.state = .null) (n : Nat) (expertId : String) :
    loadedRow (db.expertUpsertBatch experts) n expertId = loadedRow db n expertId := by
  unfold Database.expertUpsertBatch
  induction experts generalizing db with
  | nil => rfl
  | cons expert experts ih =>
    rw [List.foldl_cons, ih _ fun other hother => hnull other (List.mem_cons_of_mem _ hother),
      loadedRow_upsert db (hnull expert List.mem_cons_self)]

theorem survivors_deleteAll (db : Database) (victims : List (Nat × String)) :
    survivors settings (deleteAll db victims) deadHostname =
      survivors settings db deadHostname := by
  induction victims generalizing db with
  | nil => rfl
  | cons victim victims ih => exact ih (db.deleteExpertOnNode victim.1 victim.2)

theorem survivors_upsertBatch (db : Database) (experts : List Expert) :
    survivors settings (db.expertUpsertBatch experts) deadHostname =
      survivors settings db deadHostname := by
  unfold Database.expertUpsertBatch
  induction experts generalizing db with
  | nil => rfl
  | cons expert experts ih =>
    rw [List.foldl_cons, ih]
    unfold Database.expertUpsert
    split_ifs <;> rfl

/-! ## service -/

/-- a loaded row on an active node other than the lost one -/
def Served (settings : Settings) (db : Database) (deadHostname expertId : String) : Prop :=
  ∃ node ∈ survivors settings db deadHostname, loadedRow db node.id expertId = true

/-- a loaded row that does not lie on the first targets whose rows may leave, as many of them as the
expert has replicas to spare -/
def Spared (settings : Settings) (db : Database) (deadHostname : String) (targets : List Node)
    (expertId : String) : Prop :=
  ∃ node ∈ survivors settings db deadHostname, loadedRow db node.id expertId = true ∧
    node.id ∉ (Pruning.hosts (targets.map Node.id) (mayLeave db) expertId).take
      (holders settings db deadHostname expertId - 1)

/-- the call comes to its end, and the victims are pruned -/
theorem alone_evicts_pruned (loading : List String) (hvalid : db.Valid) {e : Evicting}
    (hids : (e.targets.map Node.id).Nodup) : ∃ victims db',
      Recovery.Alone settings deadHostname loading (db, .evictActive e) (db', .assigning e.direct) ∧
      Pruning.Pruned (e.targets.map Node.id) (mayLeave db) (holders settings db deadHostname)
        victims ∧
      (victims.length < e.unplaced.length → Pruning.Exhausted (e.targets.map Node.id)
        (mayLeave db) (holders settings db deadHostname) victims) ∧
      ∀ expertId, Served settings db' deadHostname expertId ↔
        ∃ node ∈ survivors settings db deadHostname, loadedRow db node.id expertId = true ∧
          (node.id, expertId) ∉ victims := by
  obtain ⟨index, hindexed, hsettling⟩ :=
    @settling_evicts settings deadHostname db loading hvalid e
  obtain ⟨hpruned, hexhausted, hnull⟩ := planEviction_pruned hids e.instanceId e.unplaced hindexed
    (Pruning.Pruned.nil _ _ _)
  rw [List.append_nil] at hpruned hexhausted
  have hperm := List.reverse_perm (planEviction e.instanceId e.targets e.unplaced index []).1
  refine ⟨_, _, hsettling.alone, hpruned.perm hperm, fun hlt => (hexhausted hlt).perm hperm,
    fun expertId => ?_⟩
  unfold Served
  rw [survivors_upsertBatch, survivors_deleteAll]
  simp only [loadedRow_upsertBatch _ hnull, loadedRow_deleteAll]

/-- a spared replica stays -/
theorem eviction_keeps {loading : List String} (hvalid : db.Valid) {e : Evicting}
    (hids : (e.targets.map Node.id).Nodup) {expertId : String}
    (h : Spared settings db deadHostname e.targets expertId) {db' : Database}
    (halone : Recovery.Alone settings deadHostname loading (db, .evictActive e)
      (db', .assigning e.direct)) : Served settings db' deadHostname expertId := by
  obtain ⟨victims, end', hend, hpruned, _, hserved⟩ := alone_evicts_pruned loading hvalid hids
  rw [alone_assigning_unique halone hend, hserved]
  obtain ⟨node, hnode, hloaded, hspared⟩ := h
  refine ⟨node, hnode, hloaded, fun hvictim => hspared ?_⟩
  have htake := (hpruned.mem_iff hids).mp hvictim
  have hne : Pruning.taken victims expertId ≠ 0 := by
    intro hzero
    rw [hzero, List.take_zero] at htake
    exact List.not_mem_nil htake
  have hle := hpruned.spare expertId hne
  exact List.take_subset_take_left _ (by omega) htake

/-- the victims are rows of the table -/
theorem pruned_length {targets : List Node} {victims : List (Nat × String)} {count : String → Nat}
    (h : Pruning.Pruned (targets.map Node.id) (mayLeave db) count victims) :
    victims.length ≤ db.experts.length := by
  have hsub : victims ⊆ db.experts.map fun expert => (expert.nodeId, expert.expertId) := by
    intro victim hvictim
    obtain ⟨expert, hexpert, htest⟩ := List.any_eq_true.mp (h.legal victim hvictim).2
    rw [Bool.and_eq_true, Bool.and_eq_true, beq_iff_eq, beq_iff_eq] at htest
    exact List.mem_map.mpr ⟨expert, hexpert, Prod.ext htest.1.1 htest.1.2⟩
  have hlength := (h.distinct.subperm hsub).length_le
  rwa [List.length_map] at hlength

/-- with enough experts to place, an expert without a spared replica loses its service -/
theorem eviction_loses (loading : List String) (hvalid : db.Valid) {e : Evicting}
    (hids : (e.targets.map Node.id).Nodup) (hlong : db.experts.length < e.unplaced.length)
    {expertId : String} (h : ¬ Spared settings db deadHostname e.targets expertId) :
    ∃ db', Recovery.Alone settings deadHostname loading (db, .evictActive e)
      (db', .assigning e.direct) ∧ ¬ Served settings db' deadHostname expertId := by
  obtain ⟨victims, db', halone, hpruned, hexhausted, hserved⟩ :=
    alone_evicts_pruned loading hvalid hids
  refine ⟨db', halone, fun hstill => ?_⟩
  obtain ⟨node, hnode, hloaded, hkept⟩ := (hserved expertId).mp hstill
  have hfirst : node.id ∈ (Pruning.hosts (e.targets.map Node.id) (mayLeave db) expertId).take
      (holders settings db deadHostname expertId - 1) := by
    by_contra hout
    exact h ⟨node, hnode, hloaded, hout⟩
  rcases (hexhausted (Nat.lt_of_le_of_lt (pruned_length hpruned) hlong)).cases expertId with
    hlast | hgone
  · exact hkept ((hpruned.mem_iff hids).mpr (List.take_subset_take_left _ (by omega) hfirst))
  · exact hkept (hgone node.id (List.mem_of_mem_take hfirst))

/-- as many new experts as one likes, none of which the table names -/
theorem exists_unplaced (db : Database) (n : Nat) : ∃ unplaced : List String,
    unplaced.length = n ∧ unplaced.Nodup ∧
      ∀ expertId ∈ unplaced, expertId ∉ db.experts.map Expert.expertId := by
  obtain ⟨ids, hids, hcard⟩ := Infinite.exists_superset_card_eq
    ((db.experts.map Expert.expertId).toFinset) ((db.experts.map Expert.expertId).toFinset.card + n)
      (Nat.le_add_right _ _)
  refine ⟨(ids \ (db.experts.map Expert.expertId).toFinset).toList, ?_, Finset.nodup_toList _,
    fun expertId hmem => ?_⟩
  · rw [Finset.length_toList, Finset.card_sdiff_of_subset hids, hcard]
    omega
  · rw [Finset.mem_toList, Finset.mem_sdiff, List.mem_toFinset] at hmem
    exact hmem.2

/-- **What an eviction may take.**  Whatever experts without a replica are to be placed, an expert
that a surviving node serves is served after the call, if and only if it has a loaded row that is
not among the first targets whose rows may leave, up to one less than its replicas. -/
theorem eviction_serves_iff (settings : Settings) (deadHostname : String) (loading : List String)
    (hvalid : db.Valid) {targets : List Node} (hids : (targets.map Node.id).Nodup)
    (expertId : String) :
    (∀ e : Evicting, e.targets = targets → e.unplaced.Nodup →
      (∀ other ∈ e.unplaced, holders settings db deadHostname other = 0) → ∀ db',
      Recovery.Alone settings deadHostname loading (db, .evictActive e) (db', .assigning e.direct) →
      Served settings db deadHostname expertId → Served settings db' deadHostname expertId) ↔
    (Served settings db deadHostname expertId →
      Spared settings db deadHostname targets expertId) := by
  constructor
  · intro hall hserved
    by_contra hspared
    obtain ⟨unplaced, hlength, hnodup, hnew⟩ := exists_unplaced db (db.experts.length + 1)
    obtain ⟨db', halone, hnot⟩ := eviction_loses (e := ⟨targets, 0, [], unplaced⟩) loading hvalid
      hids (by show _ < unplaced.length; omega) hspared
    refine hnot (hall ⟨targets, 0, [], unplaced⟩ rfl hnodup (fun other hother => ?_) db' halone
      hserved)
    refine List.countP_eq_zero.mpr fun node _ hrow => hnew other hother ?_
    obtain ⟨expert, hexpert, htest⟩ := List.any_eq_true.mp hrow
    rw [Bool.and_eq_true, beq_iff_eq, beq_iff_eq] at htest
    exact List.mem_map.mpr ⟨expert, hexpert, htest.2⟩
  · rintro hspared e rfl _ _ db' halone hserved
    exact eviction_keeps hvalid hids (hspared hserved) halone

end

/-! ## the other replica is only scheduled -/

def evictSettings : Settings := ⟨10, "inst", "m", (0, 1), 2, 1⟩

def evictNode (id : Nat) (hostname : String) : Node := ⟨id, hostname, "cuda:0", ∅, some 5⟩

/-- two nodes have a row of one expert; the row of the first one is loaded -/
def evictDatabase (second : RowState) : Database :=
  { now := 6
    nodes := [evictNode 1 "worker-a", evictNode 2 "worker-b"]
    nextNodeId := 3
    experts := [⟨1, 1, "m/l0-e0", 0, .loaded⟩, ⟨1, 2, "m/l0-e0", 0, second⟩]
    instances := [⟨1, 1, "inst"⟩]
    nextInstanceId := 2
    models := [⟨1, "m"⟩] }

theorem evictDatabase_valid (second : RowState) : (evictDatabase second).Valid := by
  cases second <;> exact ⟨by decide, by decide, by decide⟩

/-- both are targets, and three experts of the lost node have no place -/
def evictBoth : Evicting :=
  ⟨[evictNode 1 "worker-a", evictNode 2 "worker-b"], 1, [], ["m/l0-e1", "m/l1-e0", "m/l1-e1"]⟩

theorem eviction_serves_iff_loaded : ∃ db', Recovery.Alone evictSettings "worker-c" []
    (evictDatabase .loaded, .evictActive evictBoth) (db', .assigning []) ∧
      Served evictSettings db' "worker-c" "m/l0-e0" := by
  have hids : (evictBoth.targets.map Node.id).Nodup := by decide
  obtain ⟨_, db', halone, _⟩ := @alone_evicts_pruned evictSettings "worker-c" _ []
    (evictDatabase_valid .loaded) evictBoth hids
  refine ⟨db', halone, (eviction_serves_iff evictSettings "worker-c" []
    (evictDatabase_valid .loaded) hids "m/l0-e0").mpr (fun _ => ?_) evictBoth rfl (by decide)
      (by decide) db' halone ?_⟩
  · exact ⟨evictNode 2 "worker-b", by decide, by decide, by decide⟩
  · exact ⟨evictNode 1 "worker-a", by decide, by decide⟩

/-- the second node still loads progressively, and is no target -/
theorem eviction_drops_service : ¬ ∀ (settings : Settings) (db db' : Database)
    (deadHostname : String) (loading : List String) (e : Evicting), db.Valid →
    e.targets.Sublist (survivors settings db deadHostname) →
    (∀ node ∈ e.targets, node.hostname ∉ loading) → e.unplaced.Nodup →
    (∀ other ∈ e.unplaced, holders settings db deadHostname other = 0) →
    Recovery.Alone settings deadHostname loading (db, .evictActive e) (db', .assigning e.direct) →
    ∀ expertId, Served settings db deadHostname expertId →
      Served settings db' deadHostname expertId := by
  intro hall
  obtain ⟨db', halone, hlost⟩ := @eviction_loses evictSettings "worker-c" _ ["worker-b"]
    (evictDatabase_valid .scheduled)
    ⟨[evictNode 1 "worker-a"], 1, [], ["m/l0-e1", "m/l1-e0", "m/l1-e1"]⟩ (by decide) (by decide)
    "m/l0-e0" (by
      rintro ⟨node, hnode, hloaded, hspared⟩
      have hfirst : ∀ other ∈ survivors evictSettings (evictDatabase .scheduled) "worker-c",
          loadedRow (evictDatabase .scheduled) other.id "m/l0-e0" = true → other.id = 1 := by
        decide
      rw [hfirst node hnode hloaded] at hspared
      exact hspared (by decide))
  exact hlost (hall evictSettings (evictDatabase .scheduled) db' "worker-c" ["worker-b"] _
    (evictDatabase_valid .scheduled) (by decide) (by decide) (by decide) (by decide) halone
      "m/l0-e0"
      ⟨evictNode 1 "worker-a", by decide, by decide⟩)

end ExpertKit.Elastic

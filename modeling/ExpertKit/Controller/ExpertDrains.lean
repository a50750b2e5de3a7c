import ExpertKit.Controller.Drains
import ExpertKit.Controller.Records

/-!
# Controller: open drains, withdrawn experts and drain ids

`set_targets` closes every open expert drain and opens at most one new one, for experts outside the
new targets.  So a record has at most one open expert drain, it belongs to the current placement, and
since routes follow the targets no route leads to its experts.  A whole-worker drain takes the worker
out of the topology for the rest of the process.  Ids come from one counter.

* `openDrains`, `RecordDrains`   the invariant of one record;
* `RecordChange.recordDrains`    one operation keeps it;
* `DrainIdsDistinct`             a drain id names one drain, now and in every later memory;
* `drain_origin`                 a drain in a later memory is an old one or has a newer id;
* `Recorded`, `reach_recorded`   the operation of a run that recorded a drain, at the version it names;
* `expert_drain_invariant`       the invariant over runs of one Controller process;
* `shutdown_keeps_route`         a whole-worker drain leaves every READY expert another route.
-/

set_option linter.unusedSectionVars false

namespace ExpertKit.Controller
open Std

section
variable {p : EndpointParsers} {σ : Type}

/-! ## drain lists -/

def openDrains (drains : List DrainRecord) : List DrainRecord :=
  drains.filter fun d => !d.completed && !d.stopAll

theorem openDrains_append (l l' : List DrainRecord) :
    openDrains (l ++ l') = openDrains l ++ openDrains l' :=
  List.filter_append ..

theorem openDrains_supersede (l : List DrainRecord) : openDrains (supersedeDrains l) = [] := by
  unfold openDrains supersedeDrains
  rw [List.filter_eq_nil_iff]
  intro d hd
  obtain ⟨d0, _, rfl⟩ := List.mem_map.mp hd
  by_cases h : (!d0.completed && !d0.stopAll) = true
  · rw [if_pos h]
    simp
  · rw [if_neg h]
    exact h

theorem openDrains_markCompleted (drainId : Nat) (l : List DrainRecord) :
    List.Sublist (openDrains (markCompleted drainId l)) (openDrains l) := by
  induction l with
  | nil => exact List.Sublist.refl _
  | cons d l ih =>
    unfold markCompleted
    by_cases h : d.drainId = drainId
    · rw [if_pos h]
      have hhead : openDrains ({ d with completed := true } :: l) = openDrains l := by
        simp [openDrains]
      rw [hhead]
      exact (List.sublist_cons_self d l).filter _
    · rw [if_neg h]
      unfold openDrains at ih ⊢
      rw [List.filter_cons, List.filter_cons]
      split_ifs
      · exact ih.cons_cons d
      · exact ih

theorem any_stopAll_supersede (l : List DrainRecord) :
    (supersedeDrains l).any DrainRecord.stopAll = l.any DrainRecord.stopAll := by
  unfold supersedeDrains
  rw [List.any_map]
  congr 1
  funext d
  show (if !d.completed && !d.stopAll then { d with completed := true } else d).stopAll = d.stopAll
  split_ifs <;> rfl

theorem any_stopAll_markCompleted (drainId : Nat) (l : List DrainRecord) :
    (markCompleted drainId l).any DrainRecord.stopAll = l.any DrainRecord.stopAll := by
  induction l with
  | nil => rfl
  | cons d l ih =>
    unfold markCompleted
    split_ifs
    · rfl
    · rw [List.any_cons, List.any_cons, ih]

/-- the same drain, perhaps completed meanwhile -/
def SameDrain (d d' : DrainRecord) : Prop := d' = d ∨ d' = { d with completed := true }

theorem SameDrain.refl (d : DrainRecord) : SameDrain d d := .inl rfl

theorem SameDrain.eq {d d' : DrainRecord} (h : SameDrain d d') :
    d' = { d with completed := d'.completed } := by
  rcases h with rfl | rfl <;> rfl

theorem SameDrain.trans {d d1 d' : DrainRecord} (h : SameDrain d d1) (h' : SameDrain d1 d') :
    SameDrain d d' := by
  rcases h' with rfl | rfl
  · exact h
  · rcases h with rfl | rfl <;> exact .inr rfl

theorem SameDrain.drainId {d d' : DrainRecord} (h : SameDrain d d') : d'.drainId = d.drainId := by
  rw [h.eq]

theorem SameDrain.minTopologyVersion {d d' : DrainRecord} (h : SameDrain d d') :
    d'.minTopologyVersion = d.minTopologyVersion := by
  rw [h.eq]

/-- an open drain has always been open -/
theorem SameDrain.open {d d' : DrainRecord} (h : SameDrain d d') (hopen : d'.completed = false) :
    d' = d := by
  rcases h with rfl | rfl
  · rfl
  · cases hopen

/-- a new placement leaves only whole-worker drains open -/
theorem mem_supersedeDrains {l : List DrainRecord} {d' : DrainRecord}
    (h : d' ∈ supersedeDrains l) :
    (∃ d ∈ l, SameDrain d d') ∧ (d'.completed = false → d'.stopAll = true) := by
  unfold supersedeDrains at h
  obtain ⟨d, hm, rfl⟩ := List.mem_map.mp h
  by_cases hopen : (!d.completed && !d.stopAll) = true
  · rw [if_pos hopen]
    exact ⟨⟨d, hm, .inr rfl⟩, fun hc => by cases hc⟩
  · rw [if_neg hopen]
    refine ⟨⟨d, hm, .refl d⟩, fun hc => ?_⟩
    simpa [hc] using hopen

theorem mem_markCompleted {drainId : Nat} {l : List DrainRecord} {d' : DrainRecord}
    (h : d' ∈ markCompleted drainId l) : ∃ d ∈ l, SameDrain d d' := by
  induction l with
  | nil => cases h
  | cons d l ih =>
    unfold markCompleted at h
    split_ifs at h
    · rcases List.mem_cons.mp h with rfl | h
      · exact ⟨d, List.mem_cons_self, .inr rfl⟩
      · exact ⟨d', List.mem_cons_of_mem _ h, .refl d'⟩
    · rcases List.mem_cons.mp h with rfl | h
      · exact ⟨d', List.mem_cons_self, .refl d'⟩
      · obtain ⟨d0, hm, hs⟩ := ih h
        exact ⟨d0, List.mem_cons_of_mem _ hm, hs⟩

theorem map_drainId_supersede (l : List DrainRecord) :
    (supersedeDrains l).map DrainRecord.drainId = l.map DrainRecord.drainId := by
  unfold supersedeDrains
  rw [List.map_map]
  congr 1
  funext d
  show (if !d.completed && !d.stopAll then { d with completed := true } else d).drainId = d.drainId
  split_ifs <;> rfl

theorem map_drainId_markCompleted (drainId : Nat) (l : List DrainRecord) :
    (markCompleted drainId l).map DrainRecord.drainId = l.map DrainRecord.drainId := by
  induction l with
  | nil => rfl
  | cons d l ih =>
    unfold markCompleted
    split_ifs
    · rfl
    · rw [List.map_cons, List.map_cons, ih]

/-! ## one record -/

/-- what holds of the drains of one record while its instance is at `version` -/
structure RecordDrains (version nextDrainId : Nat) (r : WorkerRecord p) : Prop where
  single : (openDrains r.drains).length ≤ 1
  current : ∀ d ∈ openDrains r.drains, d.placementGeneration = r.placementGeneration
  named : ∀ d ∈ openDrains r.drains, d.experts.isEmpty = false
  disjoint : ∀ d ∈ openDrains r.drains, ∀ k ∈ d.experts, k ∉ r.targets
  whole : r.drains.any DrainRecord.stopAll = true → r.includedInTopology = false
  version_le : ∀ d ∈ r.drains, d.minTopologyVersion ≤ version
  id_le : ∀ d ∈ r.drains, d.drainId ≤ nextDrainId
  ids : (r.drains.map DrainRecord.drainId).Nodup

theorem RecordDrains.mono {version version' n n' : Nat} {r : WorkerRecord p}
    (h : RecordDrains version n r) (hv : version ≤ version') (hn : n ≤ n') :
    RecordDrains version' n' r :=
  ⟨h.single, h.current, h.named, h.disjoint, h.whole,
    fun d hd => (h.version_le d hd).trans hv, fun d hd => (h.id_le d hd).trans hn, h.ids⟩

theorem recordDrains_of_nil {version n : Nat} {r : WorkerRecord p} (h : r.drains = []) :
    RecordDrains version n r := by
  refine ⟨?_, ?_, ?_, ?_, ?_, ?_, ?_, ?_⟩ <;> simp [h, openDrains]

theorem not_mem_of_mem_targetsDrained {r : WorkerRecord p}
    {t : ExtTreeMap ExpertKey TargetExpert} {k : ExpertKey} (h : k ∈ targetsDrained r t) :
    k ∉ t := by
  unfold targetsDrained at h
  rw [ExtTreeSet.mem_ofList, List.contains_iff_mem, List.mem_append] at h
  have hkey : (!t.contains k) = true := by
    rcases h with h | h
    · unfold removedReady at h
      exact (List.mem_filter.mp (List.mem_filter.mp h).1).2
    · unfold carriedDrains at h
      exact (List.mem_filter.mp (List.mem_filter.mp h).1).2
  rw [Bool.not_eq_true'] at hkey
  rw [← ExtTreeMap.contains_iff_mem, hkey]
  decide

theorem wrappingNext_eq {n : Nat} (h : n < maxVersion) : wrappingNext n = n + 1 := by
  unfold wrappingNext
  unfold maxVersion at h
  omega

/-- a new drain at the end of a list with smaller ids -/
theorem nodup_append_next {l : List DrainRecord} {n : Nat} {d : DrainRecord}
    (h : (l.map DrainRecord.drainId).Nodup) (hle : ∀ d ∈ l, d.drainId ≤ n) (hd : n < d.drainId) :
    ((l ++ [d]).map DrainRecord.drainId).Nodup := by
  rw [List.map_append, List.nodup_append]
  refine ⟨h, by simp, ?_⟩
  intro a ha b hb
  obtain ⟨d0, hm, rfl⟩ := List.mem_map.mp ha
  have hlt := hle d0 hm
  simp only [List.map_cons, List.map_nil, List.mem_singleton] at hb
  omega

theorem RecordDrains.same {version n : Nat} {r r' : WorkerRecord p}
    (h : RecordDrains version n r) (hs : SameDuties r r') : RecordDrains version n r' := by
  refine ⟨?_, ?_, ?_, ?_, ?_, ?_, ?_, ?_⟩
  · rw [hs.drains]
    exact h.single
  · rw [hs.drains, hs.generation]
    exact h.current
  · rw [hs.drains]
    exact h.named
  · rw [hs.drains, hs.targets]
    exact h.disjoint
  · rw [hs.drains, hs.included]
    exact h.whole
  · rw [hs.drains]
    exact h.version_le
  · rw [hs.drains]
    exact h.id_le
  · rw [hs.drains]
    exact h.ids

/-- a new placement that withdraws no READY expert -/
theorem RecordDrains.superseded {version n : Nat} {r : WorkerRecord p}
    (h : RecordDrains version n r) (g : Nat) (t : ExtTreeMap ExpertKey TargetExpert) :
    RecordDrains version n { r.placed g t with drains := supersedeDrains r.drains } := by
  refine ⟨?_, ?_, ?_, ?_, ?_, ?_, ?_, ?_⟩
  · simp [openDrains_supersede]
  · simp [openDrains_supersede]
  · simp [openDrains_supersede]
  · simp [openDrains_supersede]
  · show (supersedeDrains r.drains).any _ = true → _
    rw [any_stopAll_supersede]
    exact h.whole
  · intro d hmem
    obtain ⟨⟨d0, hm, hs⟩, _⟩ := mem_supersedeDrains hmem
    rw [hs.minTopologyVersion]
    exact h.version_le d0 hm
  · intro d hmem
    obtain ⟨⟨d0, hm, hs⟩, _⟩ := mem_supersedeDrains hmem
    rw [hs.drainId]
    exact h.id_le d0 hm
  · show ((supersedeDrains r.drains).map _).Nodup
    rw [map_drainId_supersede]
    exact h.ids

/-- a new placement that withdraws READY experts -/
theorem RecordDrains.drained {version n : Nat} {r : WorkerRecord p}
    (h : RecordDrains version n r) (g : Nat) (t : ExtTreeMap ExpertKey TargetExpert)
    (experts : ExtTreeSet ExpertKey) (hne : experts.isEmpty = false)
    (hdis : ∀ k ∈ experts, k ∉ t) :
    RecordDrains version (n + 1) { r.placed g t with
      drains := supersedeDrains r.drains ++ [⟨n + 1, g, version, false, experts, false⟩] } := by
  have h0 := h.superseded g t
  have hopen : openDrains (supersedeDrains r.drains ++
      [⟨n + 1, g, version, false, experts, false⟩])
      = [⟨n + 1, g, version, false, experts, false⟩] := by
    rw [openDrains_append, openDrains_supersede]
    rfl
  refine ⟨?_, ?_, ?_, ?_, ?_, ?_, ?_, nodup_append_next h0.ids h0.id_le (Nat.lt_succ_self n)⟩
  · show (openDrains (_ ++ _)).length ≤ 1
    rw [hopen]
    exact Nat.le_refl 1
  · intro d hmem
    rw [hopen, List.mem_singleton] at hmem
    rw [hmem]
    rfl
  · intro d hmem
    rw [hopen, List.mem_singleton] at hmem
    rw [hmem]
    exact hne
  · intro d hmem k hk
    rw [hopen, List.mem_singleton] at hmem
    rw [hmem] at hk
    exact hdis k hk
  · show (supersedeDrains r.drains ++ [_]).any _ = true → _
    rw [List.any_append, any_stopAll_supersede]
    intro hany
    exact h.whole (by simpa using hany)
  · intro d hmem
    rcases List.mem_append.mp hmem with hmem | hmem
    · exact h0.version_le d hmem
    · rw [List.mem_singleton.mp hmem]
  · intro d hmem
    rcases List.mem_append.mp hmem with hmem | hmem
    · exact (h0.id_le d hmem).trans (Nat.le_succ n)
    · rw [List.mem_singleton.mp hmem]

/-- the whole-worker drain -/
theorem RecordDrains.excluded {version n : Nat} {r : WorkerRecord p}
    (h : RecordDrains version n r) (g : Nat) (experts : ExtTreeSet ExpertKey) :
    RecordDrains version (n + 1) { r with
      includedInTopology := false
      drains := r.drains ++ [⟨n + 1, g, version, true, experts, false⟩] } := by
  have hopen : openDrains (r.drains ++ [⟨n + 1, g, version, true, experts, false⟩])
      = openDrains r.drains := by
    rw [openDrains_append]
    exact List.append_nil _
  refine ⟨?_, ?_, ?_, ?_, fun _ => rfl, ?_, ?_, nodup_append_next h.ids h.id_le
    (Nat.lt_succ_self n)⟩
  · show (openDrains (_ ++ _)).length ≤ 1
    rw [hopen]
    exact h.single
  · intro d hmem
    rw [hopen] at hmem
    exact h.current d hmem
  · intro d hmem
    rw [hopen] at hmem
    exact h.named d hmem
  · intro d hmem
    rw [hopen] at hmem
    exact h.disjoint d hmem
  · intro d hmem
    rcases List.mem_append.mp hmem with hmem | hmem
    · exact h.version_le d hmem
    · rw [List.mem_singleton.mp hmem]
  · intro d hmem
    rcases List.mem_append.mp hmem with hmem | hmem
    · exact (h.id_le d hmem).trans (Nat.le_succ n)
    · rw [List.mem_singleton.mp hmem]

theorem RecordDrains.completed {version n : Nat} {r : WorkerRecord p}
    (h : RecordDrains version n r) (drainId : Nat) (live : Bool) :
    RecordDrains version n { r.completed drainId with live := live } := by
  have hsub := openDrains_markCompleted drainId r.drains
  refine ⟨hsub.length_le.trans h.single, fun d hmem => h.current d (hsub.subset hmem),
    fun d hmem => h.named d (hsub.subset hmem), fun d hmem => h.disjoint d (hsub.subset hmem),
    ?_, ?_, ?_, ?_⟩
  · show (markCompleted drainId r.drains).any _ = true → _
    rw [any_stopAll_markCompleted]
    exact h.whole
  · intro d hmem
    obtain ⟨d0, hm, hs⟩ := mem_markCompleted hmem
    rw [hs.minTopologyVersion]
    exact h.version_le d0 hm
  · intro d hmem
    obtain ⟨d0, hm, hs⟩ := mem_markCompleted hmem
    rw [hs.drainId]
    exact h.id_le d0 hm
  · show ((markCompleted drainId r.drains).map _).Nodup
    rw [map_drainId_markCompleted]
    exact h.ids

/-- one operation keeps the invariant of a record, if the counter does not wrap -/
theorem RecordChange.recordDrains {op : Op} {inner inner' : Inner p} {id : String}
    {r' : WorkerRecord p}
    (h : RecordChange op inner inner' id r')
    (hold : ∀ r, inner.workers[id]? = some r →
      RecordDrains (inner.topologyVersion r.registration.request.instanceId) inner.nextDrainId r)
    (hv : ∀ i, inner.topologyVersion i ≤ inner'.topologyVersion i)
    (hc : DrainCount inner inner') (hw : inner.nextDrainId < maxVersion) :
    RecordDrains (inner'.topologyVersion r'.registration.request.instanceId) inner'.nextDrainId
      r' := by
  have hnext := wrappingNext_eq hw
  have hmono : inner.nextDrainId ≤ inner'.nextDrainId := by
    rcases hc with hc | hc <;> omega
  cases h with
  | kept hr => exact (hold r' hr).mono (hv _) hmono
  | fresh g t _ hfresh hid hcar hnew =>
    refine recordDrains_of_nil ?_
    rw [hfresh]
    rfl
  | quiet r hr hs =>
    rw [hs.registration]
    exact ((hold r hr).mono (hv _) hmono).same hs
  | placed r next startId targets drains _ hr hn hr' hd =>
    subst hr'
    rcases hd with rfl | ⟨hne, hcount, rfl⟩
    · exact ((hold r hr).mono (hv _) hmono).superseded _ _
    · have h0 := ((hold r hr).mono (hv _) (Nat.le_refl _)).drained (max next 1)
        (normalizeTargets targets) _ hne (fun k hk => not_mem_of_mem_targetsDrained hk)
      unfold expertDrain
      rw [hcount, hnext]
      exact h0
  | excluded r hr hs hn hr' =>
    subst hr'
    rw [hn, hnext]
    exact ((hold r hr).mono (hv _) (Nat.le_refl _)).excluded _ _
  | completed r drainId live hr hr' =>
    subst hr'
    exact ((hold r hr).mono (hv _) hmono).completed drainId live

/-! ## where a drain comes from -/

/-- a drain that the record had before the operation; an expert drain that is still open keeps its
targets -/
structure CarriedDrain (r r' : WorkerRecord p) (d d' : DrainRecord) : Prop where
  mem : d ∈ r.drains
  same : SameDrain d d'
  registration : r'.registration = r.registration
  targets : d'.completed = false → d'.stopAll = false → r'.targets = r.targets

/-- a drain that the operation records, with the next id and the version after it -/
structure NewDrain (inner inner' : Inner p) (r' : WorkerRecord p) (d' : DrainRecord) : Prop where
  drainId : d'.drainId = wrappingNext inner.nextDrainId
  counted : inner'.nextDrainId = wrappingNext inner.nextDrainId
  opened : d'.completed = false
  version : d'.minTopologyVersion = inner'.topologyVersion r'.registration.request.instanceId

theorem RecordChange.origin {op : Op} {inner inner' : Inner p} {id : String}
    {r' : WorkerRecord p}
    (h : RecordChange op inner inner' id r') {d' : DrainRecord} (hd : d' ∈ r'.drains) :
    (∃ r, inner.workers[id]? = some r ∧ ∃ d, CarriedDrain r r' d d') ∨
    NewDrain inner inner' r' d' := by
  cases h with
  | kept hr => exact .inl ⟨r', hr, d', hd, .refl d', rfl, fun _ _ => rfl⟩
  | fresh g t _ hfresh hid hcar hnew =>
    rw [hfresh] at hd
    cases hd
  | quiet r hr hs =>
    rw [hs.drains] at hd
    exact .inl ⟨r, hr, d', hd, .refl d', hs.registration, fun _ _ => hs.targets⟩
  | placed r next startId targets drains _ hr hn hr' hcase =>
    subst hr'
    have hold : d' ∈ supersedeDrains r.drains → ∃ r0, inner.workers[id]? = some r0 ∧
        ∃ d, CarriedDrain r0 { r.placed (max next 1) (normalizeTargets targets) with
          drains := drains } d d' := by
      intro hmem
      obtain ⟨⟨d, hd, hsame⟩, hwhole⟩ := mem_supersedeDrains hmem
      refine ⟨r, hr, d, hd, hsame, rfl, fun hc hs => ?_⟩
      rw [hwhole hc] at hs
      cases hs
    rcases hcase with rfl | ⟨_, hcount, rfl⟩
    · exact .inl (hold hd)
    · rcases List.mem_append.mp hd with hd | hd
      · exact .inl (hold hd)
      · rw [List.mem_singleton.mp hd]
        exact .inr ⟨rfl, hcount, rfl, rfl⟩
  | excluded r hr hs hn hr' =>
    subst hr'
    rcases List.mem_append.mp hd with hd | hd
    · exact .inl ⟨r, hr, d', hd, .refl d', rfl, fun _ _ => rfl⟩
    · rw [List.mem_singleton.mp hd]
      exact .inr ⟨rfl, hn, rfl, rfl⟩
  | completed r drainId live hr hr' =>
    subst hr'
    obtain ⟨d, hd, hsame⟩ := mem_markCompleted hd
    exact .inl ⟨r, hr, d, hd, hsame, rfl, fun _ _ => rfl⟩

/-- the drains of all records of a memory -/
structure DrainState (inner : Inner p) : Prop where
  records : ∀ (id : String) (r : WorkerRecord p), inner.workers[id]? = some r →
    RecordDrains (inner.topologyVersion r.registration.request.instanceId) inner.nextDrainId r
  apart : ∀ (id id' : String) (r r' : WorkerRecord p), id ≠ id' → inner.workers[id]? = some r →
    inner.workers[id']? = some r' → ∀ d ∈ r.drains, ∀ d' ∈ r'.drains, d.drainId ≠ d'.drainId

/-- the counter of drain ids does not wrap in this operation -/
def NoWrap (w : World p σ) (_ : Op) : Prop := w.inner.nextDrainId < maxVersion

theorem Op.run_version_mono {store : ControllerStateStore σ} {stored : σ → Nat → Nat}
    (hs : LawfulStore store stored) {w : World p σ} (hv : Versioned stored w) (op : Op) (i : Nat) :
    w.inner.topologyVersion i ≤ (op.run store w).inner.topologyVersion i := by
  rw [← topology_version, ← topology_version]
  rcases (Op.run_revised store w op).topology hs i with ⟨ht, _⟩ | ⟨_, v, _, hlt, _, ht⟩
  · rw [ht]
  · rw [ht]
    exact (hv.le i).trans hlt.le

/-- of two different records an operation leaves one alone -/
theorem OneRecord.kept_of_ne {inner inner' : Inner p} (h : OneRecord inner inner')
    {id id' : String} (hne : id ≠ id') :
    inner'.workers[id]? = inner.workers[id]? ∨ inner'.workers[id']? = inner.workers[id']? := by
  rcases h with he | ⟨id0, w0, _, he⟩
  · rw [he]
    exact .inl rfl
  · rw [he, Maps.getElem?_insert_eq, Maps.getElem?_insert_eq]
    by_cases e : id0 = id
    · refine .inr (if_neg ?_)
      rw [e]
      exact hne
    · exact .inl (if_neg e)

/-- an untouched record and another one after the operation share no drain id -/
theorem DrainState.apart_kept {op : Op} {inner inner' : Inner p} (h : DrainState inner)
    (hw : inner.nextDrainId < maxVersion) {id id' : String} (hne : id ≠ id')
    {r r' : WorkerRecord p} (hr : inner.workers[id]? = some r)
    (hr' : RecordChange op inner inner' id' r') :
    ∀ d ∈ r.drains, ∀ d' ∈ r'.drains, d.drainId ≠ d'.drainId := by
  intro d hd d' hd'
  have hle := (h.records id r hr).id_le d hd
  have hnext := wrappingNext_eq hw
  rcases hr'.origin hd' with ⟨r0, hr0, d0, hd0⟩ | hnew
  · rw [hd0.same.drainId]
    exact h.apart id id' r r0 hne hr hr0 d hd d0 hd0.mem
  · have hid := hnew.drainId
    omega

theorem Op.run_drainState {store : ControllerStateStore σ} {stored : σ → Nat → Nat}
    (hs : LawfulStore store stored) {w : World p σ} (hv : Versioned stored w)
    (h : DrainState w.inner) (op : Op) (hw : NoWrap w op) :
    DrainState (op.run store w).inner := by
  refine ⟨?_, ?_⟩
  · intro id r hr
    exact (Op.run_recordChange store w op hr).recordDrains (h.records id)
      (Op.run_version_mono hs hv op) (Op.run_drainCount store w op) hw
  · intro id id' r r' hne hr hr'
    have hc := Op.run_recordChange store w op hr
    have hc' := Op.run_recordChange store w op hr'
    rcases (Op.run_oneRecord store w op).kept_of_ne hne with hk | hk
    · rw [hk] at hr
      exact h.apart_kept hw hne hr hc'
    · rw [hk] at hr'
      intro d hd d' hd' e
      exact h.apart_kept hw hne.symm hr' hc d' hd' d hd e.symm

theorem drainState_of_empty {inner : Inner p} (h : inner.workers = ∅) : DrainState inner := by
  refine ⟨?_, ?_⟩
  · intro id r hr
    rw [h] at hr
    simp at hr
  · intro id id' r r' _ hr
    rw [h] at hr
    simp at hr

/-- the invariant along a run of one Controller process -/
theorem reach_drainState {store : ControllerStateStore σ} {stored : σ → Nat → Nat}
    (hs : LawfulStore store stored) {w w' : World p σ} (hv : Versioned stored w)
    (h : DrainState w.inner) (hr : Steps.Reach (opStep store) NoWrap w w') :
    DrainState w'.inner ∧ Versioned stored w' := by
  refine hr.invariant (P := fun v => DrainState v.inner ∧ Versioned stored v) ⟨h, hv⟩ ?_
  intro v op v' hinv hok hstep
  cases hstep
  exact ⟨Op.run_drainState hs hinv.2 hinv.1 op hok,
    (Op.run_revised store v op).versioned hs hinv.2⟩

theorem reach_version_mono {store : ControllerStateStore σ} {stored : σ → Nat → Nat}
    (hs : LawfulStore store stored) {ok : World p σ → Op → Prop} {w w' : World p σ}
    (hv : Versioned stored w) (hr : Steps.Reach (opStep store) ok w w') (i : Nat) :
    w.inner.topologyVersion i ≤ w'.inner.topologyVersion i := by
  refine (hr.invariant (P := fun v => Versioned stored v ∧
    w.inner.topologyVersion i ≤ v.inner.topologyVersion i) ⟨hv, Nat.le_refl _⟩ ?_).2
  intro v op v' hinv _ hstep
  cases hstep
  exact ⟨(Op.run_revised store v op).versioned hs hinv.1,
    hinv.2.trans (Op.run_version_mono hs hinv.1 op i)⟩

/-- a version of the topology has one content -/
theorem reach_same_topology {store : ControllerStateStore σ} {stored : σ → Nat → Nat}
    (hs : LawfulStore store stored) {ok : World p σ → Op → Prop} {w w' : World p σ}
    (hv : Versioned stored w) (hr : Steps.Reach (opStep store) ok w w') (i : Nat)
    (hle : w'.inner.topologyVersion i ≤ w.inner.topologyVersion i) :
    w'.inner.topology i = w.inner.topology i := by
  have hinv := hr.invariant (P := fun v => Versioned stored v ∧
    (v.inner.topology i = w.inner.topology i ∨
      w.inner.topologyVersion i < v.inner.topologyVersion i)) ⟨hv, .inl rfl⟩ ?_
  · exact hinv.2.resolve_right (Nat.not_lt.mpr hle)
  · intro v op v' hv' _ hstep
    cases hstep
    refine ⟨(Op.run_revised store v op).versioned hs hv'.1, ?_⟩
    rcases (Op.run_revised store v op).topology hs i with ⟨ht, _⟩ | ⟨_, n, _, hlt, _, ht⟩
    · rw [ht, ← topology_version (op.run store v).inner, ht, topology_version]
      exact hv'.2
    · right
      have hnext : (op.run store v).inner.topologyVersion i = n := by
        rw [← topology_version, ht]
        rfl
      have hold : w.inner.topologyVersion i ≤ v.inner.topologyVersion i := by
        rcases hv'.2 with he | hlt'
        · rw [← topology_version, ← topology_version, he]
        · exact hlt'.le
      rw [hnext]
      exact hold.trans_lt ((topology_version v.inner i ▸ hv'.1.le i).trans_lt hlt)

/-- a drain of a later memory is an old one of the same worker, or has a newer id -/
theorem drain_origin {store : ControllerStateStore σ} {w w' : World p σ}
    (hr : Steps.Reach (opStep store) NoWrap w w') {id : String} {r' : WorkerRecord p}
    (hr' : w'.inner.workers[id]? = some r') {d' : DrainRecord} (hd' : d' ∈ r'.drains) :
    (∃ r, w.inner.workers[id]? = some r ∧ ∃ d ∈ r.drains, SameDrain d d') ∨
    w.inner.nextDrainId < d'.drainId := by
  have hinv := hr.invariant (P := fun v => w.inner.nextDrainId ≤ v.inner.nextDrainId ∧
    ∀ r', v.inner.workers[id]? = some r' → ∀ d' ∈ r'.drains,
      (∃ r, w.inner.workers[id]? = some r ∧ ∃ d ∈ r.drains, SameDrain d d') ∨
      w.inner.nextDrainId < d'.drainId)
    ⟨Nat.le_refl _, fun r hr d hd => .inl ⟨r, hr, d, hd, .refl d⟩⟩ ?_
  · exact hinv.2 r' hr' d' hd'
  · intro v op v' hv hok hstep
    cases hstep
    have hnext := wrappingNext_eq hok
    refine ⟨?_, ?_⟩
    · rcases Op.run_drainCount store v op with hc | hc <;> omega
    · intro r1 hr1 d1 hd1
      rcases (Op.run_recordChange store v op hr1).origin hd1 with ⟨r0, hr0, d0, hd0⟩ | hnew
      · rcases hv.2 r0 hr0 d0 hd0.mem with ⟨r, hr, d, hd, hsame⟩ | hlt
        · exact .inl ⟨r, hr, d, hd, hsame.trans hd0.same⟩
        · rw [hd0.same.drainId]
          exact .inr hlt
      · right
        have hid := hnew.drainId
        omega

/-- fewer than `2 ^ 64` operations do not wrap the counter -/
theorem reach_runOps {store : ControllerStateStore σ} {start w : World p σ} (ops : List Op)
    (h : Steps.Reach (opStep store) NoWrap start w)
    (hn : w.inner.nextDrainId + ops.length ≤ maxVersion) :
    Steps.Reach (opStep store) NoWrap start (runOps store w ops) := by
  induction ops generalizing w with
  | nil => exact h
  | cons op ops ih =>
    rw [List.length_cons] at hn
    have hw : NoWrap w op := by
      show w.inner.nextDrainId < maxVersion
      omega
    refine ih (.step op h hw rfl) ?_
    have hnext := wrappingNext_eq hw
    show (op.run store w).inner.nextDrainId + ops.length ≤ maxVersion
    rcases Op.run_drainCount store w op with hc | hc <;> omega

/-! ## routes -/

/-- the published topology of instance `i` has a route of `key` to the worker -/
def RoutedTo (inner : Inner p) (i : Nat) (key : ExpertKey) (id : String) : Prop :=
  ∃ l, ((inner.topologies[i]?).bind fun t => t.routes[key]?) = some l ∧
    ∃ route ∈ l, route.workerId = id

theorem publishedReplicas_of_routes {inner : Inner p} {i : Nat} {key : ExpertKey}
    {l : List WorkerRoute} (h : ((inner.topologies[i]?).bind fun t => t.routes[key]?) = some l) :
    publishedReplicas inner i key = l := by
  unfold publishedReplicas
  rw [h]
  rfl

theorem RoutedTo.of_topology {inner inner' : Inner p} {i : Nat} {key : ExpertKey} {id : String}
    (h : RoutedTo inner i key id) (ht : inner'.topology i = inner.topology i) :
    RoutedTo inner' i key id := by
  have hroutes : ∀ x : Inner p, ((x.topologies[i]?).bind fun t => t.routes[key]?)
      = (x.topology i).routes[key]? := by
    intro x
    unfold Inner.topology
    cases x.topologies[i]? with
    | none => simp [InstanceTopology.default]
    | some t => rfl
  obtain ⟨l, hl, hroute⟩ := h
  refine ⟨l, ?_, hroute⟩
  rw [hroutes, ht, ← hroutes]
  exact hl

/-- a worker is routed to only through its own record, which serves the expert -/
theorem RoutedTo.serving {inner : Inner p} {i : Nat} {key : ExpertKey} {id : String}
    (h : RoutedTo inner i key id) (ht : Tight inner) (hk : Keyed inner) {r : WorkerRecord p}
    (hr : inner.workers[id]? = some r) : Serving r i key := by
  obtain ⟨l, hl, route, hroute, hid⟩ := h
  rw [← publishedReplicas_of_routes hl, ht.2, mem_currentReplicas] at hroute
  obtain ⟨id', r', hr', hserving, hrw⟩ := hroute
  have hid' : id' = id := by
    rw [← hk id' r' hr', ← hid, hrw]
    rfl
  rw [hid', hr] at hr'
  cases hr'
  exact hserving

/-- the record of a worker while its process and its targets stay the same -/
def SameTargets (id : String) (r : WorkerRecord p) (w : World p σ) : Prop :=
  ∃ r', w.inner.workers[id]? = some r' ∧ r'.registration = r.registration ∧
    r'.targets = r.targets

def SameProcess (id : String) (r : WorkerRecord p) (w : World p σ) : Prop :=
  ∃ r', w.inner.workers[id]? = some r' ∧ r'.registration = r.registration

/-- the drains of the record `r` of worker `id` -/
structure ExpertDrainSpec (inner : Inner p) (id : String) (r : WorkerRecord p) : Prop where
  single : (r.drains.filter fun d => !d.completed && !d.stopAll).length ≤ 1
  expert : ∀ d ∈ r.drains, d.completed = false → d.stopAll = false →
    d.placementGeneration = r.placementGeneration ∧ (∃ k, k ∈ d.experts) ∧
    (∀ k ∈ d.experts, k ∉ r.targets) ∧
    d.minTopologyVersion ≤ inner.topologyVersion r.registration.request.instanceId ∧
    ∀ k ∈ d.experts, ¬ RoutedTo inner r.registration.request.instanceId k id
  whole : ∀ d ∈ r.drains, d.stopAll = true →
    d.minTopologyVersion ≤ inner.topologyVersion r.registration.request.instanceId ∧
    ∀ i k, ¬ RoutedTo inner i k id

/-- later versions, until the process or its targets change -/
def WithdrawnLater (store : ControllerStateStore σ) (w : World p σ) (id : String)
    (r : WorkerRecord p) : Prop :=
  ∀ w', Steps.Reach (opStep store) (fun v op => SameTargets id r (op.run store v)) w w' →
    ∀ d ∈ r.drains, d.completed = false → d.stopAll = false →
      d.minTopologyVersion ≤ w'.inner.topologyVersion r.registration.request.instanceId ∧
      ∀ k ∈ d.experts, ¬ RoutedTo w'.inner r.registration.request.instanceId k id

/-- later versions, until the process is replaced -/
def ExcludedLater (store : ControllerStateStore σ) (w : World p σ) (id : String)
    (r : WorkerRecord p) : Prop :=
  ∀ w', Steps.Reach (opStep store) (fun v op => SameProcess id r (op.run store v)) w w' →
    ∀ d ∈ r.drains, d.stopAll = true →
      d.minTopologyVersion ≤ w'.inner.topologyVersion r.registration.request.instanceId ∧
      ∀ i k, ¬ RoutedTo w'.inner i k id

/-- the operation of the run that recorded the drain `d` of the record `r`: the drain names the version
of the topology after this operation; while an expert drain is open the targets stay what they were,
and while the record has the drain the process stays -/
structure Recorded (store : ControllerStateStore σ) (start w : World p σ) (id : String)
    (r : WorkerRecord p) (d : DrainRecord) (before : World p σ) (op : Op) (r0 : WorkerRecord p) :
    Prop where
  reached : Steps.Reach (opStep store) NoWrap start before
  counted : NoWrap before op
  absent : ∀ old, before.inner.workers[id]? = some old → ∀ d0 ∈ old.drains, d0.drainId ≠ d.drainId
  record : (op.run store before).inner.workers[id]? = some r0
  mem : { d with completed := false } ∈ r0.drains
  version : d.minTopologyVersion
    = (op.run store before).inner.topologyVersion r0.registration.request.instanceId
  since : Steps.Reach (opStep store) (fun v op => SameProcess id r0 (op.run store v))
    (op.run store before) w
  targets : d.completed = false → d.stopAll = false →
    Steps.Reach (opStep store) (fun v op => SameTargets id r0 (op.run store v))
      (op.run store before) w
  process : r.registration = r0.registration
  open_targets : d.completed = false → d.stopAll = false → r.targets = r0.targets

/-- every drain of the record was recorded in the run; from its version on no route leads to its
experts until the targets change, and none to the worker of a whole-worker drain until the process is
replaced; memories before the operation that have this version already have no such route either -/
def DrainsRecorded (store : ControllerStateStore σ) (start w : World p σ) (id : String)
    (r : WorkerRecord p) : Prop :=
  ∀ d ∈ r.drains, ∃ before op r0, Recorded store start w id r d before op r0 ∧
    (d.stopAll = false → ∀ w',
      Steps.Reach (opStep store) (fun v op => SameTargets id r0 (op.run store v))
        (op.run store before) w' →
      ∀ k ∈ d.experts, ¬ RoutedTo w'.inner r.registration.request.instanceId k id) ∧
    (d.stopAll = true → ∀ w',
      Steps.Reach (opStep store) (fun v op => SameProcess id r0 (op.run store v))
        (op.run store before) w' →
      ∀ i k, ¬ RoutedTo w'.inner i k id) ∧
    ∀ x, Steps.Reach (opStep store) NoWrap start x →
      Steps.Reach (opStep store) NoWrap x (op.run store before) →
      d.minTopologyVersion ≤ x.inner.topologyVersion r.registration.request.instanceId →
      ∀ k, d.stopAll = true ∨ k ∈ d.experts →
        ¬ RoutedTo x.inner r.registration.request.instanceId k id

/-- a drain id names one drain in this memory and in every later one of the process -/
def DrainIdsDistinct (store : ControllerStateStore σ) (w : World p σ) : Prop :=
  (∀ (id : String) (r : WorkerRecord p), w.inner.workers[id]? = some r →
    r.drains.Pairwise fun d d' => d.drainId ≠ d'.drainId) ∧
  ∀ w', Steps.Reach (opStep store) NoWrap w w' →
    ∀ (id id' : String) (r r' : WorkerRecord p), w.inner.workers[id]? = some r →
      w'.inner.workers[id']? = some r' → ∀ d ∈ r.drains, ∀ d' ∈ r'.drains,
        d.drainId = d'.drainId → id = id' ∧ d' = { d with completed := d'.completed }

theorem mem_openDrains {l : List DrainRecord} {d : DrainRecord} (hd : d ∈ l)
    (hc : d.completed = false) (hs : d.stopAll = false) : d ∈ openDrains l := by
  unfold openDrains
  rw [List.mem_filter]
  exact ⟨hd, by simp [hc, hs]⟩

theorem any_stopAll_of_mem {l : List DrainRecord} {d : DrainRecord} (hd : d ∈ l)
    (hs : d.stopAll = true) : l.any DrainRecord.stopAll = true :=
  List.any_eq_true.mpr ⟨d, hd, hs⟩

theorem DrainState.spec {inner : Inner p} (h : DrainState inner) (ht : Tight inner)
    (hk : Keyed inner) {id : String} {r : WorkerRecord p} (hr : inner.workers[id]? = some r) :
    ExpertDrainSpec inner id r := by
  have h0 := h.records id r hr
  refine ⟨h0.single, ?_, ?_⟩
  · intro d hd hc hs
    have hopen := mem_openDrains hd hc hs
    refine ⟨h0.current d hopen, ?_, h0.disjoint d hopen, h0.version_le d hd, ?_⟩
    · have hne := h0.named d hopen
      rw [← ExtTreeSet.isEmpty_toList, List.isEmpty_eq_false_iff] at hne
      obtain ⟨k, hk⟩ := List.exists_mem_of_ne_nil _ hne
      exact ⟨k, ExtTreeSet.mem_toList.mp hk⟩
    · intro k hmem hrouted
      exact h0.disjoint d hopen k hmem (hrouted.serving ht hk hr).target
  · intro d hd hs
    refine ⟨h0.version_le d hd, ?_⟩
    intro i k hrouted
    have hin := (hrouted.serving ht hk hr).included
    rw [h0.whole (any_stopAll_of_mem hd hs)] at hin
    cases hin

theorem withdrawn_later {store : ControllerStateStore σ} {stored : σ → Nat → Nat}
    (hs : LawfulStore store stored) {w : World p σ} (hw : Reachable store w)
    (h : DrainState w.inner) {id : String} {r : WorkerRecord p}
    (hr : w.inner.workers[id]? = some r) : WithdrawnLater store w id r := by
  intro w' hreach d hd hc hstop
  have h0 := h.records id r hr
  have hsame : SameTargets id r w' := by
    refine hreach.invariant (P := SameTargets id r) ⟨r, hr, rfl, rfl⟩ ?_
    intro v op v' _ hok hstep
    cases hstep
    exact hok
  have hw' : Reachable store w' := hw.reach hreach
  obtain ⟨r', hr', _, ht'⟩ := hsame
  refine ⟨?_, ?_⟩
  · exact (h0.version_le d hd).trans
      (reach_version_mono hs (reachable_versioned hs hw) hreach _)
  · intro k hk hrouted
    have hserving := hrouted.serving (reachable_tight hw') (reachable_keyed hw') hr'
    have htarget := hserving.target
    rw [ht'] at htarget
    exact h0.disjoint d (mem_openDrains hd hc hstop) k hk htarget

/-- a process outside the topology stays outside -/
theorem RecordChange.excluded_stays {op : Op} {inner inner' : Inner p} {id : String}
    {r r' : WorkerRecord p} (h : RecordChange op inner inner' id r')
    (hr : inner.workers[id]? = some r) (hreg : r'.registration = r.registration)
    (hin : r.includedInTopology = false) : r'.includedInTopology = false := by
  cases h with
  | kept hr' =>
    rw [hr] at hr'
    cases hr'
    exact hin
  | fresh g t _ hfresh hid hcar hnew => exact absurd (by rw [hreg]) (hnew r hr)
  | quiet r0 hr0 hs =>
    rw [hr] at hr0
    cases hr0
    rw [hs.included]
    exact hin
  | placed r0 next startId targets drains _ hr0 hn hr' hd =>
    rw [hr] at hr0
    cases hr0
    rw [hr']
    exact hin
  | excluded r0 hr0 hs hn hr' => rw [hr']
  | completed r0 drainId live hr0 hr' =>
    rw [hr] at hr0
    cases hr0
    rw [hr']
    exact hin

theorem excluded_later {store : ControllerStateStore σ} {stored : σ → Nat → Nat}
    (hs : LawfulStore store stored) {w : World p σ} (hw : Reachable store w)
    (h : DrainState w.inner) {id : String} {r : WorkerRecord p}
    (hr : w.inner.workers[id]? = some r) : ExcludedLater store w id r := by
  intro w' hreach d hd hstop
  have h0 := h.records id r hr
  have hout : ∃ r', w'.inner.workers[id]? = some r' ∧ r'.registration = r.registration ∧
      r'.includedInTopology = false := by
    refine hreach.invariant (P := fun v => ∃ r', v.inner.workers[id]? = some r' ∧
      r'.registration = r.registration ∧ r'.includedInTopology = false)
      ⟨r, hr, rfl, h0.whole (any_stopAll_of_mem hd hstop)⟩ ?_
    intro v op v' hv hok hstep
    cases hstep
    obtain ⟨r0, hr0, hreg0, hin0⟩ := hv
    obtain ⟨r1, hr1, hreg1⟩ := hok
    exact ⟨r1, hr1, hreg1, (Op.run_recordChange store v op hr1).excluded_stays hr0
      (hreg1.trans hreg0.symm) hin0⟩
  have hw' : Reachable store w' := hw.reach hreach
  obtain ⟨r', hr', _, hin⟩ := hout
  refine ⟨?_, ?_⟩
  · exact (h0.version_le d hd).trans
      (reach_version_mono hs (reachable_versioned hs hw) hreach _)
  · intro i k hrouted
    have hserving := hrouted.serving (reachable_tight hw') (reachable_keyed hw') hr'
    have htrue := hserving.included
    rw [hin] at htrue
    cases htrue

theorem drain_ids_distinct {store : ControllerStateStore σ} {w : World p σ}
    (h : DrainState w.inner) : DrainIdsDistinct store w := by
  refine ⟨?_, ?_⟩
  · intro id r hr
    exact List.pairwise_map.mp (h.records id r hr).ids
  · intro w' hreach id id' r r' hr hr' d hd d' hd' hid
    have h0 := h.records id r hr
    rcases drain_origin hreach hr' hd' with ⟨r0, hr0, d0, hd0, hsame⟩ | hlt
    · have hid0 : d.drainId = d0.drainId := by rw [hid, hsame.drainId]
      have heq : id = id' := by
        by_contra hne
        exact h.apart id id' r r0 hne hr hr0 d hd d0 hd0 hid0
      rw [← heq, hr] at hr0
      cases hr0
      have hd0' : d = d0 := List.inj_on_of_nodup_map h0.ids hd hd0 hid0
      rw [hd0']
      exact ⟨heq, hsame.eq⟩
    · have hle := h0.id_le d hd
      omega

/-- the operation that recorded a drain is found in the run, by induction on the run: the last one, or
the one that recorded the same drain before it -/
theorem reach_recorded {store : ControllerStateStore σ} {stored : σ → Nat → Nat}
    (hs : LawfulStore store stored) {start w : World p σ} (h0 : Started store start)
    (h : Steps.Reach (opStep store) NoWrap start w) {id : String} {r : WorkerRecord p}
    (hr : w.inner.workers[id]? = some r) {d : DrainRecord} (hd : d ∈ r.drains) :
    ∃ before op r0, Recorded store start w id r d before op r0 := by
  induction h generalizing r d with
  | refl =>
    rw [h0.workers] at hr
    simp at hr
  | step op h hok hstep ih =>
    rename_i v w'
    cases hstep
    rcases (Op.run_recordChange store v op hr).origin hd with ⟨r1, hr1, d1, hd1⟩ | hnew
    · obtain ⟨before, op0, r0, hrec⟩ := ih hr1 hd1.mem
      have hprocess : r.registration = r0.registration := hd1.registration.trans hrec.process
      have htargets : d.completed = false → d.stopAll = false →
          d = d1 ∧ r.targets = r0.targets := by
        intro hc hstop
        have heq := hd1.same.open hc
        exact ⟨heq, (hd1.targets hc hstop).trans
          (hrec.open_targets (heq ▸ hc) (heq ▸ hstop))⟩
      refine ⟨before, op0, r0, hrec.reached, hrec.counted, ?_, hrec.record, ?_, ?_, ?_, ?_,
        hprocess, fun hc hstop => (htargets hc hstop).2⟩
      · rw [hd1.same.drainId]
        exact hrec.absent
      · have heq : ({ d with completed := false } : DrainRecord)
            = { d1 with completed := false } := by
          rw [hd1.same.eq]
        rw [heq]
        exact hrec.mem
      · rw [hd1.same.minTopologyVersion]
        exact hrec.version
      · exact .step op hrec.since ⟨r, hr, hprocess⟩ rfl
      · intro hc hstop
        obtain ⟨heq, ht⟩ := htargets hc hstop
        exact .step op (hrec.targets (heq ▸ hc) (heq ▸ hstop)) ⟨r, hr, hprocess, ht⟩ rfl
    · have hinv := reach_drainState hs (reachable_versioned hs h0.reachable)
        (drainState_of_empty h0.workers) h
      have hopen : ({ d with completed := false } : DrainRecord) = d := by
        rw [← hnew.opened]
      refine ⟨v, op, r, h, hok, ?_, hr, ?_, hnew.version, .refl, fun _ _ => .refl, rfl,
        fun _ _ => rfl⟩
      · intro old hold d0 hd0
        have hle := (hinv.1.records id old hold).id_le d0 hd0
        have hid := hnew.drainId
        rw [wrappingNext_eq hok] at hid
        omega
      · rw [hopen]
        exact hd

theorem drains_recorded {store : ControllerStateStore σ} {stored : σ → Nat → Nat}
    (hs : LawfulStore store stored) {start w : World p σ} (h0 : Started store start)
    (h : Steps.Reach (opStep store) NoWrap start w) {id : String} {r : WorkerRecord p}
    (hr : w.inner.workers[id]? = some r) : DrainsRecorded store start w id r := by
  intro d hd
  obtain ⟨before, op, r0, hrec⟩ := reach_recorded hs h0 h hr hd
  have hafter : Steps.Reach (opStep store) NoWrap start (op.run store before) :=
    .step op hrec.reached hrec.counted rfl
  have hdrains := (reach_drainState hs (reachable_versioned hs h0.reachable)
    (drainState_of_empty h0.workers) hafter).1
  have hreachable := h0.reachable.reach hafter
  have hexpert : d.stopAll = false → ∀ w', Steps.Reach (opStep store)
      (fun v op => SameTargets id r0 (op.run store v)) (op.run store before) w' →
      ∀ k ∈ d.experts, ¬ RoutedTo w'.inner r.registration.request.instanceId k id := by
    intro hstop w' hw' k hk
    rw [hrec.process]
    exact (withdrawn_later hs hreachable hdrains hrec.record w' hw' _ hrec.mem rfl hstop).2 k hk
  have hwhole : d.stopAll = true → ∀ w', Steps.Reach (opStep store)
      (fun v op => SameProcess id r0 (op.run store v)) (op.run store before) w' →
      ∀ i k, ¬ RoutedTo w'.inner i k id := by
    intro hstop w' hw'
    exact (excluded_later hs hreachable hdrains hrec.record w' hw' _ hrec.mem hstop).2
  refine ⟨before, op, r0, hrec, hexpert, hwhole, ?_⟩
  intro x hx hlast hle k hk hrouted
  have hle' : (op.run store before).inner.topologyVersion r.registration.request.instanceId
      ≤ x.inner.topologyVersion r.registration.request.instanceId := by
    have hversion := hrec.version
    rw [← hrec.process] at hversion
    rw [← hversion]
    exact hle
  have hsame := reach_same_topology hs (reachable_versioned hs (h0.reachable.reach hx)) hlast _ hle'
  have hafter' := hrouted.of_topology hsame
  cases hstop : d.stopAll with
  | true => exact hwhole hstop _ .refl _ k hafter'
  | false =>
    refine hexpert hstop _ .refl k (hk.resolve_left ?_) hafter'
    rw [hstop]
    exact Bool.false_ne_true

theorem expert_drain_invariant {store : ControllerStateStore σ} {stored : σ → Nat → Nat}
    (hs : LawfulStore store stored) {start w : World p σ} (h0 : Started store start)
    (h : Steps.Reach (opStep store) NoWrap start w) :
    (∀ (id : String) (r : WorkerRecord p), w.inner.workers[id]? = some r →
      ExpertDrainSpec w.inner id r ∧ DrainsRecorded store start w id r ∧
      WithdrawnLater store w id r ∧ ExcludedLater store w id r) ∧
    DrainIdsDistinct store w := by
  have hw : Reachable store w := h0.reachable.reach h
  have hd := (reach_drainState hs (reachable_versioned hs h0.reachable)
    (drainState_of_empty h0.workers) h).1
  refine ⟨?_, drain_ids_distinct hd⟩
  intro id r hr
  exact ⟨hd.spec (reachable_tight hw) (reachable_keyed hw) hr, drains_recorded hs h0 h hr,
    withdrawn_later hs hw hd hr, excluded_later hs hw hd hr⟩

end

/-- a READY expert leaves the targets of a worker -/
def Fixture.withdrawn : World Fixture.parsers ControllerStoreSnapshot :=
  runOps TransientControllerStateStore Fixture.start
    (Fixture.registerLive "worker-0" "start-0" 1 ++
      [.setTargets "worker-0" "start-0" [Fixture.target 1 2],
        .applyStateReport "worker-0" "start-0" 1 1 true [Fixture.ready 1 2],
        .setTargets "worker-0" "start-0" []])

theorem Fixture.start_started : Started TransientControllerStateStore Fixture.start :=
  .new 8 (by decide) _

theorem expert_drain_invariant_withdrawn :
    ∃ r, Fixture.withdrawn.inner.workers["worker-0"]? = some r ∧
      (r.drains.any fun d => !d.completed && !d.stopAll) = true ∧
      ExpertDrainSpec Fixture.withdrawn.inner "worker-0" r ∧
      DrainsRecorded TransientControllerStateStore Fixture.start Fixture.withdrawn "worker-0" r := by
  obtain ⟨r, hr, hopen⟩ := (Option.any_eq_true (fun r : WorkerRecord Fixture.parsers =>
    r.drains.any fun d => !d.completed && !d.stopAll)
    Fixture.withdrawn.inner.workers["worker-0"]?).mp (by decide +kernel)
  have hreach : Steps.Reach (opStep TransientControllerStateStore) NoWrap Fixture.start
      Fixture.withdrawn := reach_runOps _ .refl (by decide +kernel)
  obtain ⟨hspec, hrecorded, _⟩ :=
    (expert_drain_invariant transient_lawful Fixture.start_started hreach).1 _ r hr
  exact ⟨r, hr, hopen, hspec, hrecorded⟩

section
variable {p : EndpointParsers} {σ : Type}

/-! ## shutdown -/

/-- a process with a whole-worker drain is outside the topology, in every reachable memory -/
theorem reachable_whole {store : ControllerStateStore σ} {w : World p σ}
    (h : Reachable store w) : ∀ (id : String) (r : WorkerRecord p),
      w.inner.workers[id]? = some r → r.drains.any DrainRecord.stopAll = true →
        r.includedInTopology = false := by
  have hempty : ∀ inner : Inner p, inner.workers = ∅ → ∀ (id : String) (r : WorkerRecord p),
      inner.workers[id]? = some r → r.drains.any DrainRecord.stopAll = true →
        r.includedInTopology = false := by
    intro inner hi id r hr
    rw [hi] at hr
    simp at hr
  induction h with
  | new hl hp s => exact hempty _ rfl
  | restored hl hp s s' inner hr => exact hempty _ (Started.restored hl hp s s' inner hr).workers
  | step w op _ ih =>
    intro id r' hr' hany
    cases Op.run_recordChange store w op hr' with
    | kept hr => exact ih id r' hr hany
    | fresh g t _ hfresh hid hcar hnew =>
      rw [hfresh] at hany
      cases hany
    | quiet r hr hs =>
      rw [hs.included]
      rw [hs.drains] at hany
      exact ih id r hr hany
    | placed r next startId targets drains _ hr hn hr' hd =>
      have hold : r.drains.any DrainRecord.stopAll = true := by
        rw [hr'] at hany
        rcases hd with hd | ⟨_, _, hd⟩
        · rw [hd, any_stopAll_supersede] at hany
          exact hany
        · rw [hd, List.any_append, any_stopAll_supersede] at hany
          simpa [expertDrain] using hany
      rw [hr']
      exact ih id r hr hold
    | excluded r hr hs hn hr' => rw [hr']
    | completed r drainId live hr hr' =>
      rw [hr'] at hany ⊢
      refine ih id r hr ?_
      rw [← any_stopAll_markCompleted drainId]
      exact hany

/-- the check before a shutdown: another serving process for each READY expert -/
theorem replacement_of_ready {inner : Inner p} (ht : Tight inner) {id : String}
    {r : WorkerRecord p} (hr : inner.workers[id]? = some r)
    (h : shutdownReplacementsReady inner r = true) {k : ExpertKey} (hready : k ∈ readyKeys r) :
    ∃ (id' : String) (r' : WorkerRecord p), id' ≠ id ∧ inner.workers[id']? = some r' ∧
      Serving r' r.registration.request.instanceId k := by
  unfold shutdownReplacementsReady at h
  rw [List.all_eq_true] at h
  obtain ⟨l, hl, hany⟩ := (Option.any_eq_true _ _).mp (h k (ExtTreeSet.mem_toList.mpr hready))
  obtain ⟨route, hroute, hother⟩ := List.any_eq_true.mp hany
  rw [← publishedReplicas_of_routes hl, ht.2, mem_currentReplicas] at hroute
  obtain ⟨id', r', hr', hserving, hrw⟩ := hroute
  refine ⟨id', r', ?_, hr', hserving⟩
  intro e
  rw [e, hr] at hr'
  cases hr'
  rw [hrw] at hother
  simp [workerRoute] at hother

/-- `drain_authorizations` records a whole-worker drain in this call -/
def CreatesShutdown (inner inner' : Inner p) (workerId : String) (d : DrainRecord) : Prop :=
  (∀ r, inner.workers[workerId]? = some r → d ∉ r.drains) ∧
  ∃ r', inner'.workers[workerId]? = some r' ∧ d ∈ r'.drains ∧ d.stopAll = true

theorem shutdown_keeps_route {store : ControllerStateStore σ} {w : World p σ}
    (hw : Reachable store w) {workerId startId : String}
    {res : Except ControllerStateError (List DrainAuthorization)} {inner' : Inner p} {s' : σ}
    (h : drainAuthorizations store w.inner w.stored workerId startId = (res, inner', s'))
    {d : DrainRecord} (hd : CreatesShutdown w.inner inner' workerId d) :
    ∃ r, inner'.workers[workerId]? = some r ∧
      d.minTopologyVersion = inner'.topologyVersion r.registration.request.instanceId ∧
      ∀ k, reportsReady r k = true → ∃ l,
        ((inner'.topologies[r.registration.request.instanceId]?).bind fun t => t.routes[k]?)
          = some l ∧
        ∃ route ∈ l, ∃ (id' : String) (r' : WorkerRecord p), id' ≠ workerId ∧
          inner'.workers[id']? = some r' ∧ route = workerRoute r' ∧ r'.live = true ∧
          r'.includedInTopology = true ∧ ∀ d' ∈ r'.drains, d'.stopAll = false := by
  have hw' : Reachable store ⟨inner', s'⟩ := by
    have hstep := Reachable.step w (.drainAuthorizations workerId startId) hw
    rwa [show (Op.drainAuthorizations workerId startId).run store w = ⟨inner', s'⟩ by
      show World.after _ = _
      rw [h]
      rfl] at hstep
  have ht := reachable_tight hw
  have ht' := reachable_tight hw'
  obtain ⟨hfresh, r1, hr1, hmem, hstop⟩ := hd
  rcases drainAuthorizations_cases h with ⟨_, _, hi, _⟩ | ⟨_, _, _, _, _, hi, _⟩ |
    ⟨r, changed, inner2, hr, _, hs, hp, _, hi⟩
  · rw [hi] at hr1
    exact absurd hmem (hfresh r1 hr1)
  · rw [hi] at hr1
    exact absurd hmem (hfresh r1 hr1)
  · -- the only new drain is the one of this call
    have hr1' : r1 = { r with
        includedInTopology := false, drains := r.drains ++ [shutdownDrain inner2 r] } := by
      rw [hi, notifyIf_workers, setWorker_workers, if_pos rfl] at hr1
      exact (Option.some.inj hr1).symm
    have hdnew : d = shutdownDrain inner2 r := by
      rw [hr1'] at hmem
      rcases List.mem_append.mp hmem with hmem | hmem
      · exact absurd hmem (hfresh r hr)
      · exact List.mem_singleton.mp hmem
    have hready : shutdownReplacementsReady w.inner r = true := by
      unfold shouldCreateShutdown at hs
      exact (Bool.and_eq_true _ _ ▸ hs).2
    refine ⟨r1, hr1, ?_, ?_⟩
    · rw [hdnew, hr1', hi, notifyIf_topologyVersion]
      rfl
    · intro k hkr
      rw [hr1'] at hkr
      obtain ⟨id', r', hne, hr', hserving⟩ :=
        replacement_of_ready ht hr hready ((mem_readyKeys r k).mpr hkr)
      have hkept : inner'.workers[id']? = some r' := by
        rw [hi, notifyIf_workers, setWorker_workers, if_neg (Ne.symm hne)]
        show inner2.workers[id']? = some r'
        rw [publishRoutes_workers hp, setWorker_workers, if_neg (Ne.symm hne)]
        exact hr'
      have hinst : r1.registration.request.instanceId = r.registration.request.instanceId := by
        rw [hr1']
      rw [hinst]
      -- the other process still serves the expert, and routes are tight after the call
      have hroute : workerRoute r' ∈
          publishedReplicas inner' r.registration.request.instanceId k := by
        rw [ht'.2, mem_currentReplicas]
        exact ⟨id', r', hkept, hserving, rfl⟩
      cases hl : (inner'.topologies[r.registration.request.instanceId]?).bind
          fun t => t.routes[k]? with
      | none =>
        rw [publishedReplicas, hl] at hroute
        cases hroute
      | some l =>
        rw [publishedReplicas_of_routes hl] at hroute
        refine ⟨l, rfl, workerRoute r', hroute, id', r', hne, hkept, rfl, hserving.live,
          hserving.included, ?_⟩
        intro d' hd'
        by_contra hstop'
        have hout := reachable_whole hw' id' r' hkept
          (any_stopAll_of_mem hd' (Bool.not_eq_false _ ▸ hstop'))
        rw [hserving.included] at hout
        cases hout

end

/-- the second of two workers that serve expert (1, 2) announces its shutdown -/
def Fixture.shuttingDown : World Fixture.parsers ControllerStoreSnapshot :=
  runOps TransientControllerStateStore Fixture.twoReady [.heartbeat "worker-0" "start-0" 2 2 2]

def Fixture.shutdown :
    Outcome Fixture.parsers ControllerStoreSnapshot (List DrainAuthorization) :=
  drainAuthorizations TransientControllerStateStore Fixture.shuttingDown.inner
    Fixture.shuttingDown.stored "worker-0" "start-0"

theorem shutdown_keeps_route_twoReady :
    ∃ d r, CreatesShutdown Fixture.shuttingDown.inner Fixture.shutdown.2.1 "worker-0" d ∧
      Fixture.shutdown.2.1.workers["worker-0"]? = some r ∧ reportsReady r ⟨1, 2⟩ = true ∧
      ∃ l, ((Fixture.shutdown.2.1.topologies[r.registration.request.instanceId]?).bind
          fun t => t.routes[(⟨1, 2⟩ : ExpertKey)]?) = some l ∧ l ≠ [] := by
  obtain ⟨r, hr, hb⟩ := (Option.any_eq_true (fun r : WorkerRecord Fixture.parsers =>
    reportsReady r ⟨1, 2⟩ && r.drains.any DrainRecord.stopAll)
    Fixture.shutdown.2.1.workers["worker-0"]?).mp (by decide +kernel)
  rw [Bool.and_eq_true] at hb
  obtain ⟨d, hd, hstop⟩ := List.any_eq_true.mp hb.2
  obtain ⟨r0, hr0, hnone⟩ := (Option.any_eq_true (fun r : WorkerRecord Fixture.parsers =>
    r.drains.isEmpty) Fixture.shuttingDown.inner.workers["worker-0"]?).mp (by decide +kernel)
  have hcreates : CreatesShutdown Fixture.shuttingDown.inner Fixture.shutdown.2.1 "worker-0" d := by
    refine ⟨?_, r, hr, hd, hstop⟩
    intro r1 hr1
    rw [hr0] at hr1
    cases hr1
    rw [List.isEmpty_iff.mp hnone]
    simp
  have hreach : Reachable TransientControllerStateStore Fixture.shuttingDown :=
    (Fixture.start_reachable.runOps _).runOps _
  have hrun : drainAuthorizations TransientControllerStateStore Fixture.shuttingDown.inner
      Fixture.shuttingDown.stored "worker-0" "start-0"
      = (Fixture.shutdown.1, Fixture.shutdown.2.1, Fixture.shutdown.2.2) := rfl
  obtain ⟨r1, hr1, _, hroutes⟩ := shutdown_keeps_route hreach hrun hcreates
  rw [hr] at hr1
  cases hr1
  obtain ⟨l, hl, route, hroute, _⟩ := hroutes ⟨1, 2⟩ hb.1
  exact ⟨d, r, hcreates, hr, hb.1, l, hl, List.ne_nil_of_mem hroute⟩

end ExpertKit.Controller

import ExpertKit.Controller.History

/-!
# Controller: what every drain record looks like

Drain records are made in two places: `set_targets` (experts that leave the targets while READY) and
`drain_authorizations` (the whole worker at shutdown).  Over every run their numbers are `u64`s, the
drain id is positive, and an expert drain names an expert.  The minimum topology version is the
version of the instance at that moment and may be `0`.

* `U64Store`, `U64TransientStore`   the store hands out numbers of its column type;
* `DrainOk`, `Numbered`    the invariant of one record and of the memory;
* `reachable_numbered`     it holds in every reachable state;
* `shutdown_version`       the version of a new whole-worker drain is positive exactly when the
                           instance had a published topology.
-/

set_option linter.unusedSectionVars false

namespace ExpertKit.Controller
open Std

/-- the numbers of the store are `u64`s -/
structure U64Store {σ : Type} (store : ControllerStateStore σ) : Prop where
  advance_le : ∀ s i c v s', store.advanceTopologyVersion s i c = (.ok v, s') → v ≤ maxVersion
  load_le : ∀ s snapshot s', store.load s = (.ok snapshot, s') →
    ∀ placement ∈ snapshot.placements, placement.generation ≤ maxVersion

/-- a stored snapshot whose generations fit their column -/
def U64Snapshot : Type :=
  { s : ControllerStoreSnapshot // ∀ placement ∈ s.placements, placement.generation ≤ maxVersion }

theorem mem_savePlacementRow {rows : List PersistedPlacement} {row placement : PersistedPlacement}
    (h : placement ∈ savePlacementRow rows row) : placement = row ∨ placement ∈ rows := by
  induction rows with
  | nil => exact .inl (List.mem_singleton.mp h)
  | cons existing rest ih =>
    unfold savePlacementRow at h
    split_ifs at h
    · rcases List.mem_cons.mp h with h | h
      · exact .inl h
      · exact .inr (List.mem_cons_of_mem _ h)
    · rcases List.mem_cons.mp h with h | h
      · exact .inr (h ▸ List.mem_cons_self)
      · rcases ih h with h | h
        · exact .inl h
        · exact .inr (List.mem_cons_of_mem _ h)

/-- the transient store over such snapshots -/
def U64TransientStore : ControllerStateStore U64Snapshot where
  load s := (.ok s.1, s)
  savePlacement s workerId instanceId generation targets :=
    if h : generation ≤ maxVersion then
      (.ok (), ⟨{ s.1 with
        placements := savePlacementRow s.1.placements ⟨workerId, instanceId, generation, targets⟩ },
        fun placement hm => (mem_savePlacementRow hm).elim (fun e => e ▸ h) (s.2 placement)⟩)
    else (.error ⟨"placement generation is exhausted"⟩, s)
  advanceTopologyVersion s instanceId currentVersion :=
    ((TransientControllerStateStore.advanceTopologyVersion s.1 instanceId currentVersion).1,
      ⟨{ s.1 with topologyVersions := (TransientControllerStateStore.advanceTopologyVersion s.1
        instanceId currentVersion).2.topologyVersions }, s.2⟩)

theorem u64Transient_lawful :
    LawfulStore U64TransientStore (fun s i => s.1.topologyVersions[i]?.getD 0) where
  load_versions := by
    intro s snapshot s' h i
    simp only [U64TransientStore, Prod.mk.injEq, Except.ok.injEq] at h
    rw [h.1]
  load_mono := fun s i => Nat.le_refl _
  save_mono := by
    intro s w i g t j
    simp only [U64TransientStore]
    split_ifs <;> exact Nat.le_refl _
  advance_mono := fun s i c j => transient_lawful.advance_mono s.1 i c j
  advance_newer := by
    intro s i c v s' h
    have hv : (TransientControllerStateStore.advanceTopologyVersion s.1 i c).1 = .ok v :=
      congrArg Prod.fst h
    rw [← show (U64TransientStore.advanceTopologyVersion s i c).2 = s' from congrArg Prod.snd h]
    exact transient_lawful.advance_newer s.1 i c v
      (TransientControllerStateStore.advanceTopologyVersion s.1 i c).2 (Prod.ext hv rfl)

theorem u64Transient_u64 : U64Store U64TransientStore where
  advance_le := by
    intro s i c v s' h
    have hv : (TransientControllerStateStore.advanceTopologyVersion s.1 i c).1 = .ok v :=
      congrArg Prod.fst h
    simp only [TransientControllerStateStore] at hv
    split_ifs at hv with hle
    · simp only [Except.ok.injEq] at hv
      omega
  load_le := by
    intro s snapshot s' h
    simp only [U64TransientStore, Prod.mk.injEq, Except.ok.injEq] at h
    rw [← h.1]
    exact s.2

section
variable {p : EndpointParsers} {σ : Type}

structure DrainOk (d : DrainRecord) : Prop where
  id_pos : 0 < d.drainId
  id_le : d.drainId ≤ maxVersion
  generation_le : d.placementGeneration ≤ maxVersion
  version_le : d.minTopologyVersion ≤ maxVersion
  named : d.stopAll = false → d.experts.isEmpty = false

structure RecordOk (w : WorkerRecord p) : Prop where
  generation_le : w.placementGeneration ≤ maxVersion
  drains : ∀ d ∈ w.drains, DrainOk d

/-- a stored topology has a positive `u64` version -/
def VersionsOk (inner : Inner p) : Prop :=
  ∀ (i : Nat) (t : InstanceTopology), inner.topologies[i]? = some t →
    0 < t.version ∧ t.version ≤ maxVersion

structure Numbered (inner : Inner p) : Prop where
  records : ∀ (id : String) (w : WorkerRecord p), inner.workers[id]? = some w → RecordOk w
  versions : VersionsOk inner
  persisted : ∀ (id : String) (placement : PersistedPlacement),
    inner.persistedPlacements[id]? = some placement → placement.generation ≤ maxVersion

/-! ## small facts -/

theorem wrappingNext_pos (n : Nat) : 0 < wrappingNext n := by
  unfold wrappingNext
  omega

theorem wrappingNext_le (n : Nat) : wrappingNext n ≤ maxVersion := by
  unfold wrappingNext maxVersion
  omega

theorem checkedNext_le {n next : Nat} (h : checkedNext n = some next) :
    max next 1 ≤ maxVersion := by
  unfold checkedNext at h
  split_ifs at h with hlt
  simp only [Option.some.injEq] at h
  unfold maxVersion
  omega

theorem VersionsOk.topologyVersion_le {inner : Inner p} (h : VersionsOk inner) (i : Nat) :
    inner.topologyVersion i ≤ maxVersion := by
  unfold Inner.topologyVersion
  cases hi : inner.topologies[i]? with
  | none => exact Nat.zero_le _
  | some t => exact (h i t hi).2

theorem supersedeDrains_ok {drains : List DrainRecord} (h : ∀ d ∈ drains, DrainOk d) :
    ∀ d ∈ supersedeDrains drains, DrainOk d := by
  intro d hd
  unfold supersedeDrains at hd
  obtain ⟨d0, hm, rfl⟩ := List.mem_map.mp hd
  have h0 := h d0 hm
  split_ifs
  · exact ⟨h0.id_pos, h0.id_le, h0.generation_le, h0.version_le, h0.named⟩
  · exact h0

theorem markCompleted_ok (id : Nat) {drains : List DrainRecord} (h : ∀ d ∈ drains, DrainOk d) :
    ∀ d ∈ markCompleted id drains, DrainOk d := by
  induction drains with
  | nil => exact h
  | cons d0 drains ih =>
    have h0 := h d0 List.mem_cons_self
    have hrest : ∀ d ∈ drains, DrainOk d := fun d hd => h d (List.mem_cons_of_mem _ hd)
    intro d hd
    unfold markCompleted at hd
    split_ifs at hd
    · rcases List.mem_cons.mp hd with rfl | hd
      · exact ⟨h0.id_pos, h0.id_le, h0.generation_le, h0.version_le, h0.named⟩
      · exact hrest d hd
    · rcases List.mem_cons.mp hd with rfl | hd
      · exact h0
      · exact ih hrest d hd

theorem published_versionsOk {store : ControllerStateStore σ} {stored : σ → Nat → Nat}
    (hs : LawfulStore store stored) (hu : U64Store store) {inner : Inner p} (h : VersionsOk inner)
    {s s' : σ} {i c v : Nat} {affected : ExtTreeSet ExpertKey}
    (ha : store.advanceTopologyVersion s i c = (.ok v, s')) :
    VersionsOk (inner.published i v affected) := by
  intro j t ht
  unfold Inner.published at ht
  simp only [Maps.getElem?_insert_eq] at ht
  split_ifs at ht with e
  · simp only [Option.some.injEq] at ht
    rw [← ht]
    have hnew := hs.advance_newer _ _ _ _ _ ha
    have hle := hu.advance_le _ _ _ _ _ ha
    show 0 < v ∧ v ≤ maxVersion
    omega
  · exact h j t ht

theorem publishRoutes_versionsOk {store : ControllerStateStore σ} {stored : σ → Nat → Nat}
    (hs : LawfulStore store stored) (hu : U64Store store) {inner inner' : Inner p} {s s' : σ}
    {i : Nat} {affected : ExtTreeSet ExpertKey} {r : Except ControllerStateError Bool}
    (h : publishRoutes store inner s i affected = (r, inner', s')) (hv : VersionsOk inner) :
    VersionsOk inner' := by
  rcases publishRoutes_cases h with ⟨_, hi, _⟩ | ⟨_, _, hi, _⟩ | ⟨v, _, hi, _, ha⟩
  · rw [hi]
    exact hv
  · rw [hi]
    exact hv
  · rw [hi]
    exact published_versionsOk hs hu hv ha

theorem revised_versionsOk {store : ControllerStateStore σ} {stored : σ → Nat → Nat}
    (hs : LawfulStore store stored) (hu : U64Store store) {w w' : World p σ}
    (h : Revised store w w') (hv : VersionsOk w.inner) : VersionsOk w'.inner := by
  rcases h with ⟨ht, _⟩ | ⟨mid, s1, i, v, affected, _, hmid, _, ha, _, ht⟩
  · intro i t hi
    rw [ht] at hi
    exact hv i t hi
  · have hm : VersionsOk mid := by
      intro j t hj
      rw [hmid] at hj
      exact hv j t hj
    intro j t hj
    rw [ht] at hj
    exact published_versionsOk hs hu hm ha j t hj

/-! ## the operations -/

/-- the records and placements of the memory after an operation -/
def RecordsOk (inner : Inner p) : Prop :=
  (∀ (id : String) (w : WorkerRecord p), inner.workers[id]? = some w → RecordOk w) ∧
  ∀ (id : String) (placement : PersistedPlacement),
    inner.persistedPlacements[id]? = some placement → placement.generation ≤ maxVersion

theorem Numbered.recordsOk {inner : Inner p} (h : Numbered inner) : RecordsOk inner :=
  ⟨h.records, h.persisted⟩

theorem RecordsOk.congr {inner inner' : Inner p} (h : RecordsOk inner)
    (hw : inner'.workers = inner.workers)
    (hp : inner'.persistedPlacements = inner.persistedPlacements) : RecordsOk inner' := by
  refine ⟨?_, ?_⟩
  · intro id w hget
    rw [hw] at hget
    exact h.1 id w hget
  · intro id placement hget
    rw [hp] at hget
    exact h.2 id placement hget

theorem RecordsOk.setWorker {inner : Inner p} (h : RecordsOk inner) (id : String)
    {w : WorkerRecord p} (hr : RecordOk w) : RecordsOk (inner.setWorker id w) := by
  refine ⟨?_, h.2⟩
  intro id' w' hget
  rw [setWorker_workers] at hget
  split_ifs at hget
  · simp only [Option.some.injEq] at hget
    rw [← hget]
    exact hr
  · exact h.1 id' w' hget

theorem RecordsOk.publish {store : ControllerStateStore σ} {inner inner' : Inner p} {s s' : σ}
    {i : Nat} {affected : ExtTreeSet ExpertKey} {r : Except ControllerStateError Bool}
    (hp : publishRoutes store inner s i affected = (r, inner', s')) (h : RecordsOk inner) :
    RecordsOk inner' := by
  have hf := publishRoutes_frame hp
  refine h.congr ?_ ?_
  · rw [hf]
  · rw [hf]

theorem RecordsOk.notifyIf {inner : Inner p} (h : RecordsOk inner) (b : Bool) :
    RecordsOk (notifyIf b inner) := by
  cases b
  · exact h
  · exact h.congr rfl rfl

/-- a record with the old generation and drains -/
theorem RecordOk.same {w w' : WorkerRecord p} (h : RecordOk w)
    (hg : w'.placementGeneration = w.placementGeneration) (hd : w'.drains = w.drains) :
    RecordOk w' :=
  ⟨by rw [hg]; exact h.generation_le, by rw [hd]; exact h.drains⟩

theorem carriedPlacement_le {inner : Inner p} (h : RecordsOk inner) {id : String} {i g : Nat}
    {t : ExtTreeMap ExpertKey TargetExpert} (hc : carriedPlacement inner id i = (g, t)) :
    g ≤ maxVersion := by
  unfold carriedPlacement at hc
  simp only at hc
  split at hc
  · rename_i w hw
    rw [Option.filter_eq_some_iff] at hw
    simp only [Prod.mk.injEq] at hc
    rw [← hc.1]
    exact (h.1 id w hw.1).generation_le
  · rename_i placement _ hp
    rw [Option.filter_eq_some_iff] at hp
    simp only [Prod.mk.injEq] at hc
    rw [← hc.1]
    exact h.2 id placement hp.1
  · simp only [Prod.mk.injEq] at hc
    rw [← hc.1]
    exact Nat.zero_le _

theorem register_recordsOk {store : ControllerStateStore σ} {inner inner' : Inner p} {s s' : σ}
    {request : RegisterWorkerRequest} {r : Except ControllerStateError RegistrationResult}
    (h : register store inner s request = (r, inner', s')) (hr : RecordsOk inner) :
    RecordsOk inner' := by
  rcases register_cases h with ⟨hi, _⟩ | ⟨reg, _, _, hproc⟩
  · rw [hi]
    exact hr
  · rcases registerProcess_cases hproc with ⟨_, _, hi, _⟩ |
      ⟨g, t, _, _, hc, _, ⟨_, _, hi⟩ | ⟨old, changed, inner2, _, hp, hi⟩⟩
    · rw [hi]
      exact hr
    · rw [hi]
      exact hr.setWorker _ ⟨carriedPlacement_le hr hc, by simp [WorkerRecord.fresh]⟩
    · rw [hi]
      have hset := hr.setWorker reg.request.workerId (w := .fresh reg g t)
        ⟨carriedPlacement_le hr hc, by simp [WorkerRecord.fresh]⟩
      exact (hset.publish hp).notifyIf _

theorem openHeartbeat_recordsOk {inner inner' : Inner p} {s s' : σ} {workerId startId : String}
    {r : Except ControllerStateError Nat}
    (h : openHeartbeat inner s workerId startId = (r, inner', s')) (hr : RecordsOk inner) :
    RecordsOk inner' := by
  obtain ⟨_, hi | ⟨w, hw, _, _, hi⟩⟩ := openHeartbeat_cases h
  · rw [hi]
    exact hr
  · rw [hi]
    exact (hr.congr rfl rfl).setWorker workerId ((hr.1 workerId w hw).same rfl rfl)

theorem heartbeat_recordsOk {store : ControllerStateStore σ} {inner inner' : Inner p} {s s' : σ}
    {workerId startId : String} {lease sequence : Nat} {state : Int}
    {r : Except ControllerStateError HeartbeatResult}
    (h : heartbeat store inner s workerId startId lease sequence state = (r, inner', s'))
    (hr : RecordsOk inner) : RecordsOk inner' := by
  rcases heartbeat_cases h with ⟨hi, _⟩ |
    ⟨w, runState, b, hw, _, _, _, ⟨_, _, hi⟩ | ⟨_, changed, inner2, hp, hi⟩⟩
  · rw [hi]
    exact hr
  · rw [hi]
    apply RecordsOk.notifyIf
    apply hr.setWorker
    exact (hr.1 workerId w hw).same rfl rfl
  · rw [hi]
    apply RecordsOk.notifyIf
    apply RecordsOk.publish hp
    apply hr.setWorker
    exact (hr.1 workerId w hw).same rfl rfl

theorem closeHeartbeat_recordsOk {store : ControllerStateStore σ} {inner inner' : Inner p}
    {s s' : σ} {workerId startId : String} {lease : Nat} {r : Except ControllerStateError Bool}
    (h : closeHeartbeat store inner s workerId startId lease = (r, inner', s'))
    (hr : RecordsOk inner) : RecordsOk inner' := by
  rcases closeHeartbeat_cases h with ⟨hi, _⟩ | ⟨w, changed, inner2, hw, _, _, _, _, hp, hi⟩
  · rw [hi]
    exact hr
  · rw [hi]
    apply RecordsOk.notifyIf
    apply RecordsOk.publish hp
    apply hr.setWorker
    exact (hr.1 workerId w hw).same rfl rfl

theorem applyStateReport_recordsOk {store : ControllerStateStore σ} {inner inner' : Inner p}
    {s s' : σ} {workerId startId : String} {placementGeneration reportSequence : Nat}
    {full : Bool} {states : List ExpertState} {r : Except ControllerStateError StateReportResult}
    (h : applyStateReport store inner s workerId startId placementGeneration reportSequence full
      states = (r, inner', s')) (hr : RecordsOk inner) : RecordsOk inner' := by
  rcases applyStateReport_cases h with ⟨_, _, hi, _⟩ | ⟨_, hi, _⟩ |
    ⟨w, normalized, changed, inner2, hw, _, _, _, hp, _, hi⟩
  · rw [hi]
    exact hr
  · rw [hi]
    exact hr
  · rw [hi]
    apply RecordsOk.notifyIf
    apply RecordsOk.publish hp
    apply hr.setWorker
    exact (hr.1 workerId w hw).same rfl rfl

theorem completeDrain_recordsOk {store : ControllerStateStore σ} {inner inner' : Inner p}
    {s s' : σ} {workerId startId : String} {drainId : Nat} {r : Except ControllerStateError Bool}
    (h : completeDrain store inner s workerId startId drainId = (r, inner', s'))
    (hr : RecordsOk inner) : RecordsOk inner' := by
  rcases completeDrain_cases h with ⟨_, _, hi, _⟩ | ⟨_, hi, _⟩ |
    ⟨w, drain, hw, _, _, _, _, ⟨_, _, hi⟩ | ⟨_, changed, inner2, hp, hi⟩⟩
  · rw [hi]
    exact hr
  · rw [hi]
    exact hr
  · have hw' : RecordOk (w.completed drainId) :=
      ⟨(hr.1 workerId w hw).generation_le, markCompleted_ok drainId (hr.1 workerId w hw).drains⟩
    rw [hi]
    exact hr.setWorker workerId hw'
  · have hw' : RecordOk ({ w.completed drainId with live := false } : WorkerRecord p) :=
      ⟨(hr.1 workerId w hw).generation_le, markCompleted_ok drainId (hr.1 workerId w hw).drains⟩
    rw [hi]
    exact ((hr.setWorker workerId hw').publish hp).notifyIf _

theorem recordDrains_recordsOk {inner : Inner p} {workerId : String} {w : WorkerRecord p}
    {i generation : Nat} {experts : ExtTreeSet ExpertKey} (hr : RecordsOk inner)
    (hv : VersionsOk inner) (hw : RecordOk w) (hg : generation ≤ maxVersion) :
    RecordsOk (recordDrains inner workerId w i generation experts).1 := by
  have hsup := supersedeDrains_ok hw.drains
  unfold recordDrains
  by_cases he : experts.isEmpty
  · simp only [he, ↓reduceIte]
    exact hr.setWorker workerId ⟨hw.generation_le, hsup⟩
  · simp only [he, Bool.false_eq_true, ↓reduceIte]
    refine (hr.congr rfl rfl).setWorker workerId ⟨hw.generation_le, ?_⟩
    intro d hd
    rcases List.mem_append.mp hd with hd | hd
    · exact hsup d hd
    · rw [List.mem_singleton] at hd
      rw [hd]
      exact ⟨wrappingNext_pos _, wrappingNext_le _, hg, hv.topologyVersion_le i,
        fun _ => by simpa using he⟩

theorem setTargets_recordsOk {store : ControllerStateStore σ} {stored : σ → Nat → Nat}
    (hs : LawfulStore store stored) (hu : U64Store store) {inner inner' : Inner p} {s s' : σ}
    {workerId startId : String} {targets : List TargetExpert}
    {r : Except ControllerStateError Placement}
    (h : setTargets store inner s workerId startId targets = (r, inner', s'))
    (hr : RecordsOk inner) (hv : VersionsOk inner) : RecordsOk inner' := by
  rcases setTargets_cases h with ⟨_, _, hi, _⟩ | ⟨_, _, _, _, _, _, hi, _⟩ |
    ⟨w, next, s1, changed, inner2, hw, _, _, hn, _, hp, _, hi⟩
  · rw [hi]
    exact hr
  · rw [hi]
    exact hr
  · have hg := checkedNext_le hn
    have hplaced : RecordOk (w.placed (max next 1) (normalizeTargets targets)) :=
      ⟨hg, (hr.1 workerId w hw).drains⟩
    have hmid : RecordsOk (inner.placed workerId w (max next 1) (normalizeTargets targets)) := by
      refine ⟨(hr.setWorker workerId hplaced).1, ?_⟩
      intro id placement hget
      unfold Inner.placed at hget
      simp only [Maps.getElem?_insert_eq] at hget
      split_ifs at hget
      · simp only [Option.some.injEq] at hget
        rw [← hget]
        exact hg
      · exact hr.2 id placement hget
    rw [hi]
    exact (recordDrains_recordsOk (hmid.publish hp)
      (publishRoutes_versionsOk hs hu hp hv) hplaced hg).notifyIf _

theorem drainAuthorizations_recordsOk {store : ControllerStateStore σ} {stored : σ → Nat → Nat}
    (hs : LawfulStore store stored) (hu : U64Store store) {inner inner' : Inner p} {s s' : σ}
    {workerId startId : String} {r : Except ControllerStateError (List DrainAuthorization)}
    (h : drainAuthorizations store inner s workerId startId = (r, inner', s'))
    (hr : RecordsOk inner) (hv : VersionsOk inner) : RecordsOk inner' := by
  rcases drainAuthorizations_cases h with ⟨_, _, hi, _⟩ | ⟨_, _, _, _, _, hi, _⟩ |
    ⟨w, changed, inner2, hw, _, _, hp, _, hi⟩
  · rw [hi]
    exact hr
  · rw [hi]
    exact hr
  · have hw0 := hr.1 workerId w hw
    have h2 : RecordsOk inner2 := by
      apply RecordsOk.publish hp
      apply hr.setWorker
      exact hw0.same rfl rfl
    have hv2 : VersionsOk inner2 := publishRoutes_versionsOk hs hu hp hv
    rw [hi]
    apply RecordsOk.notifyIf
    refine RecordsOk.setWorker (h2.congr rfl rfl) workerId ?_
    refine ⟨hw0.generation_le, ?_⟩
    intro d hd
    rcases List.mem_append.mp hd with hd | hd
    · exact hw0.drains d hd
    · rw [List.mem_singleton] at hd
      rw [hd]
      exact ⟨wrappingNext_pos _, wrappingNext_le _, hw0.generation_le,
        hv2.topologyVersion_le _, fun h => by cases h⟩

/-! ## runs -/

theorem Op.run_numbered {store : ControllerStateStore σ} {stored : σ → Nat → Nat}
    (hs : LawfulStore store stored) (hu : U64Store store) (w : World p σ) (op : Op)
    (h : Numbered w.inner) : Numbered (op.run store w).inner := by
  have hv := revised_versionsOk hs hu (Op.run_revised store w op) h.versions
  have hr : RecordsOk (op.run store w).inner := by
    cases op <;> apply World.after_of (fun w' => RecordsOk w'.inner) <;> intro r inner' s' hrun
    · exact register_recordsOk hrun h.recordsOk
    · exact openHeartbeat_recordsOk hrun h.recordsOk
    · exact heartbeat_recordsOk hrun h.recordsOk
    · exact closeHeartbeat_recordsOk hrun h.recordsOk
    · exact setTargets_recordsOk hs hu hrun h.recordsOk h.versions
    · exact applyStateReport_recordsOk hrun h.recordsOk
    · exact drainAuthorizations_recordsOk hs hu hrun h.recordsOk h.versions
    · exact completeDrain_recordsOk hrun h.recordsOk
  exact ⟨hr.1, hv, hr.2⟩

theorem foldl_placements_le {placements : List PersistedPlacement}
    {m : ExtTreeMap String PersistedPlacement}
    (hm : ∀ (id : String) (pl : PersistedPlacement), m[id]? = some pl → pl.generation ≤ maxVersion)
    (h : ∀ pl ∈ placements, pl.generation ≤ maxVersion) :
    ∀ (id : String) (pl : PersistedPlacement),
      (placements.foldl (fun m pl => m.insert pl.workerId pl) m)[id]? = some pl →
        pl.generation ≤ maxVersion := by
  induction placements generalizing m with
  | nil => exact hm
  | cons pl0 placements ih =>
    rw [List.foldl_cons]
    refine ih ?_ (fun pl hpl => h pl (List.mem_cons_of_mem _ hpl))
    intro id pl hget
    rw [Maps.getElem?_insert_eq] at hget
    split_ifs at hget
    · simp only [Option.some.injEq] at hget
      rw [← hget]
      exact h pl0 List.mem_cons_self
    · exact hm id pl hget

theorem restoreTopologies_versionsOk {store : ControllerStateStore σ} {stored : σ → Nat → Nat}
    (hs : LawfulStore store stored) (hu : U64Store store) (l : List (Nat × Nat))
    {m topologies : ExtTreeMap Nat InstanceTopology} {s s' : σ}
    (hm : ∀ (i : Nat) (t : InstanceTopology), m[i]? = some t →
      0 < t.version ∧ t.version ≤ maxVersion)
    (h : restoreTopologies store l m s = (.ok topologies, s')) :
    ∀ (i : Nat) (t : InstanceTopology), topologies[i]? = some t →
      0 < t.version ∧ t.version ≤ maxVersion := by
  induction l generalizing m s with
  | nil =>
    simp only [restoreTopologies, Prod.mk.injEq, Except.ok.injEq] at h
    rw [← h.1]
    exact hm
  | cons e l ih =>
    obtain ⟨j, c⟩ := e
    simp only [restoreTopologies] at h
    cases ha : store.advanceTopologyVersion s j c with
    | mk a s1 =>
      rw [ha] at h
      cases a with
      | error e => simp at h
      | ok v =>
        refine ih ?_ h
        intro i t ht
        rw [Maps.getElem?_insert_eq] at ht
        split_ifs at ht
        · simp only [Option.some.injEq] at ht
          rw [← ht]
          have hnew := hs.advance_newer _ _ _ _ _ ha
          have hle := hu.advance_le _ _ _ _ _ ha
          show 0 < v ∧ v ≤ maxVersion
          omega
        · exact hm i t ht

theorem fromSnapshot_numbered {historyLimit : Nat} {hl : 0 < historyLimit}
    {snapshot : ControllerStoreSnapshot} {topologies : ExtTreeMap Nat InstanceTopology}
    (hv : ∀ (i : Nat) (t : InstanceTopology), topologies[i]? = some t →
      0 < t.version ∧ t.version ≤ maxVersion)
    (hp : ∀ placement ∈ snapshot.placements, placement.generation ≤ maxVersion) :
    Numbered (fromSnapshot p historyLimit hl snapshot topologies) := by
  refine ⟨?_, hv, ?_⟩
  · intro id w hget
    rw [fromSnapshot_workers] at hget
    simp at hget
  · exact foldl_placements_le (by simp) hp

theorem reachable_numbered {store : ControllerStateStore σ} {stored : σ → Nat → Nat}
    (hs : LawfulStore store stored) (hu : U64Store store) {w : World p σ}
    (h : Reachable store w) : Numbered w.inner := by
  induction h with
  | new hl hpos s => exact fromSnapshot_numbered (by simp) (by simp [ControllerStoreSnapshot.empty])
  | restored hl hpos s s' inner hr =>
    obtain ⟨snapshot, s1, topologies, hload, ht, hi⟩ := restore_cases hr
    rw [hi]
    exact fromSnapshot_numbered (restoreTopologies_versionsOk hs hu _ (by simp) ht)
      (hu.load_le _ _ _ hload)
  | step w op _ ih => exact Op.run_numbered hs hu w op ih

/-! ## the version of a whole-worker drain -/

/-- without a published topology the worker shuts down only if it has no READY expert -/
theorem readyKeys_empty_of_unpublished {inner : Inner p} {w : WorkerRecord p}
    (hv : VersionsOk inner) (h : shouldCreateShutdown inner w = true)
    (h0 : inner.topologyVersion w.registration.request.instanceId = 0) :
    (readyKeys w).isEmpty = true := by
  unfold shouldCreateShutdown at h
  rw [Bool.and_eq_true] at h
  have hready := h.2
  unfold shutdownReplacementsReady at hready
  have hnone : inner.topologies[w.registration.request.instanceId]? = none := by
    cases ht : inner.topologies[w.registration.request.instanceId]? with
    | none => rfl
    | some t =>
      have hpos := (hv _ t ht).1
      unfold Inner.topologyVersion at h0
      rw [ht] at h0
      have h0' : t.version = 0 := h0
      omega
  rw [hnone, List.all_eq_true] at hready
  have hlist : (readyKeys w).toList = [] := by
    cases hl : (readyKeys w).toList with
    | nil => rfl
    | cons k l =>
      have hk := hready k (by rw [hl]; exact List.mem_cons_self)
      exact absurd hk (by simp)
  simpa using hlist

/-- the version in the new whole-worker drain is positive exactly when a topology was published -/
theorem shutdown_version {store : ControllerStateStore σ} {stored : σ → Nat → Nat}
    (hs : LawfulStore store stored) {inner inner2 : Inner p} {s s' : σ} {workerId : String}
    {w : WorkerRecord p} {changed : Bool} (hv : VersionsOk inner)
    (h : shouldCreateShutdown inner w = true)
    (hp : publishRoutes store (inner.setWorker workerId { w with includedInTopology := false }) s
      w.registration.request.instanceId (readyKeys w) = (.ok changed, inner2, s')) :
    0 < (shutdownDrain inner2 w).minTopologyVersion ↔
      0 < inner.topologyVersion w.registration.request.instanceId := by
  show 0 < inner2.topologyVersion w.registration.request.instanceId ↔ _
  constructor
  · intro hpos
    by_contra h0
    have hempty := readyKeys_empty_of_unpublished hv h (by omega)
    unfold publishRoutes at hp
    rw [if_pos hempty] at hp
    simp only [Prod.mk.injEq] at hp
    rw [← hp.2.1] at hpos
    exact h0 hpos
  · intro hpos
    rcases publishRoutes_cases hp with ⟨_, hi, _⟩ | ⟨_, he, _⟩ | ⟨v, _, hi, _, ha⟩
    · rw [hi]
      exact hpos
    · cases he
    · have hnew := hs.advance_newer _ _ _ _ _ ha
      have hver : inner2.topologyVersion w.registration.request.instanceId = v := by
        rw [hi, ← topology_version, topology_published, if_pos rfl]
        rfl
      omega

end

end ExpertKit.Controller

import ExpertKit.Controller.History
import ExpertKit.Controller.Failures
import ExpertKit.Controller.Records
import ExpertKit.Lib.Fallible
import ExpertKit.Lib.Reps

/-!
# Controller: the stored placement of a worker

`set_targets` writes the row of the worker before it publishes, and puts its in-memory copy of the row
(the mirror) back when the publication fails.  The row itself stays.  Whether a later `set_targets`
writes is decided against the mirror, so a call that asks for the targets still in memory succeeds
without writing, over a row with other targets and a newer generation.

* `PostgresControllerStateStore`   the production store: two tables, with faults before or after the
                                   commit;
* `PlacementRows store row`        what the trait promises about rows;
* `rowPlacement`, `restore_carried`   what a Controller started over a store state hands out;
* `set_targets_durable_iff`        a successful call is durable exactly when it writes, or when row and
                                   mirror agree;
* `mirror_agrees`                  they agree as long as no failed call leaves a row behind.
-/

set_option linter.unusedSectionVars false

namespace ExpertKit.Controller
open Std

/-! ## normalized targets -/

theorem normalizeTarget_idem (t : TargetExpert) :
    normalizeTarget (normalizeTarget t) = normalizeTarget t := by
  have hsorted : ((t.peerWeightEndpoints.insertionSort (· ≤ ·)).eraseReps).Pairwise (· ≤ ·) :=
    (List.pairwise_insertionSort (· ≤ ·) t.peerWeightEndpoints).sublist (Reps.eraseReps_sublist _)
  have hidem : (((t.peerWeightEndpoints.insertionSort (· ≤ ·)).eraseReps).insertionSort
      (· ≤ ·)).eraseReps = (t.peerWeightEndpoints.insertionSort (· ≤ ·)).eraseReps := by
    rw [List.Pairwise.insertionSort_eq hsorted]
    exact Reps.eraseReps_of_chain (Reps.eraseReps_chain _)
  unfold normalizeTarget
  simp only [hidem]

/-- a stored target lies under its own key and is normalized -/
theorem normalizeTargets_entry {l : List TargetExpert} {k : ExpertKey} {t : TargetExpert}
    (h : (normalizeTargets l)[k]? = some t) : t.key = k ∧ normalizeTarget t = t := by
  rcases Maps.getElem?_insertAll_cases TargetExpert.key normalizeTarget
    (m := (∅ : ExtTreeMap ExpertKey TargetExpert)) (l := l) h with ⟨e, _, hk, hv⟩ | h0
  · rw [← hv, ← hk]
    exact ⟨rfl, normalizeTarget_idem e⟩
  · simp at h0

/-- normalizing a normalized list again changes nothing -/
theorem normalizeTargets_values (l : List TargetExpert) :
    normalizeTargets (Maps.values (normalizeTargets l)) = normalizeTargets l := by
  apply ExtTreeMap.ext_getElem?
  intro k
  have hd : (Maps.values (normalizeTargets l)).Pairwise fun a b => a.key ≠ b.key := by
    apply Maps.pairwise_values
    intro a b v w hv hw hlt e
    rw [(normalizeTargets_entry hv).1, (normalizeTargets_entry hw).1] at e
    rw [e, Std.compare_self] at hlt
    cases hlt
  cases hk : (normalizeTargets l)[k]? with
  | none =>
    refine (Maps.getElem?_insertAll_of_not_mem TargetExpert.key normalizeTarget ∅ _ k ?_).trans
      (by simp)
    intro e he hek
    obtain ⟨a, ha⟩ := Maps.mem_values.mp he
    rw [← (normalizeTargets_entry ha).1, hek, hk] at ha
    cases ha
  | some t =>
    obtain ⟨htk, htn⟩ := normalizeTargets_entry hk
    have hmem : t ∈ Maps.values (normalizeTargets l) := Maps.mem_values.mpr ⟨k, hk⟩
    have hget := Maps.getElem?_insertAll_of_mem TargetExpert.key normalizeTarget ∅ _ hd t hmem
    rw [htk, htn] at hget
    exact hget

/-! ## the PostgreSQL store -/

/-- what happens to the next call: it works, it is refused, or its answer is lost after the commit -/
inductive Fault where
  | works
  | refused
  | lost
deriving DecidableEq, Repr

/-- the tables `controller_v2_placement` and `controller_v2_topology`, by primary key -/
structure ControllerTables where
  placements : ExtTreeMap String (Nat × Nat × List TargetExpert)
  versions : ExtTreeMap Nat Nat
  faults : List Fault
deriving DecidableEq

/-- largest value of a PostgreSQL `BIGINT` -/
def maxBigInt : Nat := 2 ^ 63 - 1

def ControllerTables.call {α : Type} (t : ControllerTables) (done : α) (t' : ControllerTables) :
    Except ControllerStoreError α × ControllerTables :=
  match t.faults.headD .works with
  | .works => (.ok done, { t' with faults := t.faults.tail })
  | .refused => (.error ⟨"connection refused"⟩, { t with faults := t.faults.tail })
  | .lost => (.error ⟨"connection lost"⟩, { t' with faults := t.faults.tail })

/-- `GREATEST(version + 1, minimum_next)`, or `minimum_next` in a new row -/
def ControllerTables.nextVersion (t : ControllerTables) (instanceId currentVersion : Nat) : Nat :=
  match t.versions[instanceId]? with
  | none => currentVersion + 1
  | some version => max (version + 1) (currentVersion + 1)

def PostgresControllerStateStore : ControllerStateStore ControllerTables where
  load t := t.call ⟨t.placements.toList.map fun e => ⟨e.1, e.2.1, e.2.2.1, e.2.2.2⟩, t.versions⟩ t
  savePlacement t workerId instanceId generation targets :=
    if maxBigInt < instanceId then (.error ⟨"instance_id exceeds PostgreSQL BIGINT"⟩, t)
    else if maxBigInt < generation then
      (.error ⟨"placement generation exceeds PostgreSQL BIGINT"⟩, t)
    else
      t.call () { t with
        placements := t.placements.insert workerId (instanceId, generation, targets) }
  advanceTopologyVersion t instanceId currentVersion :=
    let next := t.nextVersion instanceId currentVersion
    if maxBigInt < instanceId then (.error ⟨"instance_id exceeds PostgreSQL BIGINT"⟩, t)
    else if maxBigInt < next then (.error ⟨"topology version exceeds PostgreSQL BIGINT"⟩, t)
    else t.call next { t with versions := t.versions.insert instanceId next }

/-! ## rows -/

/-- what the trait promises about placements; a failed save may have been committed -/
structure PlacementRows {σ : Type} (store : ControllerStateStore σ)
    (row : σ → String → Option PersistedPlacement) : Prop where
  load_rows : ∀ s snapshot s', store.load s = (.ok snapshot, s') → ∀ id placement,
    row s id = some placement ↔ placement ∈ snapshot.placements ∧ placement.workerId = id
  load_keeps : ∀ s id, row (store.load s).2 id = row s id
  save_ok : ∀ s w i g t s', store.savePlacement s w i g t = (.ok (), s') →
    row s' w = some ⟨w, i, g, t⟩
  save_error : ∀ s w i g t, row (store.savePlacement s w i g t).2 w = row s w ∨
    row (store.savePlacement s w i g t).2 w = some ⟨w, i, g, t⟩
  save_other : ∀ s w i g t id, id ≠ w → row (store.savePlacement s w i g t).2 id = row s id
  advance_keeps : ∀ s i c id, row (store.advanceTopologyVersion s i c).2 id = row s id

def postgresRow (t : ControllerTables) (id : String) : Option PersistedPlacement :=
  t.placements[id]?.map fun e => ⟨id, e.1, e.2.1, e.2.2⟩

/-- a call leaves the old tables or the new ones -/
theorem call_snd {α : Type} (t t' : ControllerTables) (done : α) :
    ∃ faults, (t.call done t').2 = { t with faults := faults } ∨
      (t.call done t').2 = { t' with faults := faults } := by
  unfold ControllerTables.call
  cases t.faults.headD .works with
  | works => exact ⟨_, .inr rfl⟩
  | refused => exact ⟨_, .inl rfl⟩
  | lost => exact ⟨_, .inr rfl⟩

theorem call_ok {α : Type} {t t' t'' : ControllerTables} {done r : α}
    (h : t.call done t' = (.ok r, t'')) : r = done ∧ t'' = { t' with faults := t.faults.tail } := by
  unfold ControllerTables.call at h
  cases hf : t.faults.headD .works with
  | works =>
    rw [hf] at h
    simp only [Prod.mk.injEq, Except.ok.injEq] at h
    exact ⟨h.1.symm, h.2.symm⟩
  | refused =>
    rw [hf] at h
    simp at h
  | lost =>
    rw [hf] at h
    simp at h

theorem postgresRow_insert (t : ControllerTables) (w id : String) (i g : Nat)
    (l : List TargetExpert) (faults : List Fault) :
    postgresRow { t with placements := t.placements.insert w (i, g, l), faults := faults } id
      = if id = w then some ⟨w, i, g, l⟩ else postgresRow t id := by
  unfold postgresRow
  simp only [Maps.getElem?_insert_eq]
  by_cases e : id = w
  · subst e
    rw [if_pos rfl, if_pos rfl]
    rfl
  · rw [if_neg (Ne.symm e), if_neg e]

theorem postgresRow_load (t : ControllerTables) (id : String) (placement : PersistedPlacement) :
    postgresRow t id = some placement ↔
      placement ∈ (t.placements.toList.map fun e =>
        (⟨e.1, e.2.1, e.2.2.1, e.2.2.2⟩ : PersistedPlacement)) ∧ placement.workerId = id := by
  unfold postgresRow
  rw [List.mem_map]
  constructor
  · intro h
    obtain ⟨e, he, hp⟩ := Option.map_eq_some_iff.mp h
    rw [← hp]
    exact ⟨⟨(id, e), ExtTreeMap.mem_toList_iff_getElem?_eq_some.mpr he, rfl⟩, rfl⟩
  · rintro ⟨⟨⟨a, e⟩, he, hp⟩, hid⟩
    rw [← hp] at hid ⊢
    rw [← show a = id from hid, ExtTreeMap.mem_toList_iff_getElem?_eq_some.mp he]
    rfl

theorem postgres_rows : PlacementRows PostgresControllerStateStore postgresRow where
  load_rows := by
    intro s snapshot s' h id placement
    obtain ⟨hr, _⟩ := call_ok h
    rw [hr]
    exact postgresRow_load s id placement
  load_keeps := by
    intro s id
    obtain ⟨faults, h | h⟩ := call_snd s s
      (⟨s.placements.toList.map fun e => ⟨e.1, e.2.1, e.2.2.1, e.2.2.2⟩, s.versions⟩ :
        ControllerStoreSnapshot)
    · show postgresRow (s.call _ s).2 id = _
      rw [h]
      rfl
    · show postgresRow (s.call _ s).2 id = _
      rw [h]
      rfl
  save_ok := by
    intro s w i g t s' h
    simp only [PostgresControllerStateStore] at h
    split_ifs at h
    · simp at h
    · simp at h
    · obtain ⟨_, hs⟩ := call_ok h
      rw [hs, postgresRow_insert, if_pos rfl]
  save_error := by
    intro s w i g t
    simp only [PostgresControllerStateStore]
    split_ifs
    · exact .inl rfl
    · exact .inl rfl
    · obtain ⟨faults, h | h⟩ := call_snd s
        { s with placements := s.placements.insert w (i, g, t) } ()
      · rw [h]
        exact .inl rfl
      · rw [h, postgresRow_insert, if_pos rfl]
        exact .inr rfl
  save_other := by
    intro s w i g t id hne
    simp only [PostgresControllerStateStore]
    split_ifs
    · rfl
    · rfl
    · obtain ⟨faults, h | h⟩ := call_snd s
        { s with placements := s.placements.insert w (i, g, t) } ()
      · rw [h]
        rfl
      · rw [h, postgresRow_insert, if_neg hne]
  advance_keeps := by
    intro s i c id
    simp only [PostgresControllerStateStore]
    split_ifs
    · rfl
    · rfl
    · obtain ⟨faults, h | h⟩ := call_snd s
        { s with versions := s.versions.insert i (s.nextVersion i c) } (s.nextVersion i c)
      · rw [h]
        rfl
      · rw [h]
        rfl

theorem postgres_lawful :
    LawfulStore PostgresControllerStateStore (fun t i => t.versions[i]?.getD 0) where
  load_versions := by
    intro s snapshot s' h i
    obtain ⟨hr, _⟩ := call_ok h
    rw [hr]
  load_mono := by
    intro s i
    obtain ⟨faults, h | h⟩ := call_snd s s
      (⟨s.placements.toList.map fun e => ⟨e.1, e.2.1, e.2.2.1, e.2.2.2⟩, s.versions⟩ :
        ControllerStoreSnapshot)
    · show _ ≤ (s.call _ s).2.versions[i]?.getD 0
      rw [h]
    · show _ ≤ (s.call _ s).2.versions[i]?.getD 0
      rw [h]
  save_mono := by
    intro s w i g t j
    simp only [PostgresControllerStateStore]
    split_ifs
    · exact Nat.le_refl _
    · exact Nat.le_refl _
    · obtain ⟨faults, h | h⟩ := call_snd s
        { s with placements := s.placements.insert w (i, g, t) } ()
      · rw [h]
      · rw [h]
  advance_mono := by
    intro s i c j
    have hnext : s.versions[i]?.getD 0 ≤ s.nextVersion i c := by
      unfold ControllerTables.nextVersion
      cases s.versions[i]? with
      | none => exact Nat.zero_le _
      | some v =>
        show v ≤ max (v + 1) (c + 1)
        omega
    simp only [PostgresControllerStateStore]
    split_ifs
    · exact Nat.le_refl _
    · exact Nat.le_refl _
    · obtain ⟨faults, h | h⟩ := call_snd s
        { s with versions := s.versions.insert i (s.nextVersion i c) } (s.nextVersion i c)
      · rw [h]
      · rw [h]
        show _ ≤ (s.versions.insert i (s.nextVersion i c))[j]?.getD 0
        rw [Maps.getElem?_insert_eq]
        by_cases e : i = j
        · rw [if_pos e, ← e]
          exact hnext
        · rw [if_neg e]
  advance_newer := by
    intro s i c v s' h
    simp only [PostgresControllerStateStore] at h
    split_ifs at h
    · simp at h
    · simp at h
    · obtain ⟨hv, hs⟩ := call_ok h
      rw [hs, hv]
      show _ ∧ _ ∧ _ ≤ (s.versions.insert i (s.nextVersion i c))[i]?.getD 0
      rw [Maps.getElem?_insert_eq, if_pos rfl, Option.getD_some]
      unfold ControllerTables.nextVersion
      cases s.versions[i]? with
      | none =>
        show 0 < c + 1 ∧ c < c + 1 ∧ c + 1 ≤ c + 1
        omega
      | some v0 =>
        show v0 < max (v0 + 1) (c + 1) ∧ c < max (v0 + 1) (c + 1) ∧ _ ≤ _
        omega

section
variable {p : EndpointParsers} {σ : Type} {store : ControllerStateStore σ}
  {row : σ → String → Option PersistedPlacement}

theorem AdvanceCalls.keeps_row (hrows : PlacementRows store row) {s s' : σ}
    (h : AdvanceCalls store s s') (id : String) : row s' id = row s id := by
  induction h with
  | refl => rfl
  | advance s1 i c _ ih => rw [hrows.advance_keeps, ih]

/-! ## a restart reads the row -/

/-- the placement of instance `i` in a row -/
def rowPlacement (r : Option PersistedPlacement) (i : Nat) :
    Nat × ExtTreeMap ExpertKey TargetExpert :=
  match r.filter fun placement => placement.instanceId = i with
  | some placement => (placement.generation, normalizeTargets placement.targets)
  | none => (0, ∅)

theorem restoreTopologies_row (hrows : PlacementRows store row) (l : List (Nat × Nat))
    {m : ExtTreeMap Nat InstanceTopology} {s s' : σ}
    {r : Except ControllerStateError (ExtTreeMap Nat InstanceTopology)}
    (h : restoreTopologies store l m s = (r, s')) (id : String) : row s' id = row s id := by
  induction l generalizing m s with
  | nil =>
    simp only [restoreTopologies, Prod.mk.injEq] at h
    rw [h.2]
  | cons e l ih =>
    obtain ⟨i, c⟩ := e
    have hkeep := hrows.advance_keeps s i c id
    simp only [restoreTopologies] at h
    cases ha : store.advanceTopologyVersion s i c with
    | mk a s1 =>
      rw [ha] at h hkeep
      cases a with
      | error e =>
        simp only [Prod.mk.injEq] at h
        rw [← h.2]
        exact hkeep
      | ok v => rw [ih h, hkeep]

/-- a restart, successful or not, leaves the rows alone -/
theorem restore_row (hrows : PlacementRows store row) {historyLimit : Nat}
    {hl : 0 < historyLimit} {s s' : σ} {r : Except ControllerStateError (Inner p)}
    (h : restore p store historyLimit hl s = (r, s')) (id : String) : row s' id = row s id := by
  have hkeep := hrows.load_keeps s id
  unfold restore at h
  cases hload : store.load s with
  | mk a s1 =>
    rw [hload] at h hkeep
    cases a with
    | error e =>
      simp only [Prod.mk.injEq] at h
      rw [← h.2]
      exact hkeep
    | ok snapshot =>
      simp only at h
      cases ht : restoreTopologies store (instanceVersions snapshot).toList ∅ s1 with
      | mk b s2 =>
        have hrow := restoreTopologies_row hrows _ ht id
        rw [ht] at h
        cases b with
        | error e =>
          simp only [Prod.mk.injEq] at h
          rw [← h.2, hrow]
          exact hkeep
        | ok topologies =>
          simp only [Prod.mk.injEq] at h
          rw [← h.2, hrow]
          exact hkeep

/-- the mirror of a restarted Controller is the row -/
theorem restore_mirror (hrows : PlacementRows store row) {historyLimit : Nat}
    {hl : 0 < historyLimit} {s s' : σ} {inner : Inner p}
    (h : restore p store historyLimit hl s = (.ok inner, s')) (id : String) :
    inner.persistedPlacements[id]? = row s id := by
  obtain ⟨snapshot, s1, topologies, hload, _, hi⟩ := restore_cases h
  have hlaw := hrows.load_rows _ _ _ hload id
  rw [hi]
  show (Maps.insertAll PersistedPlacement.workerId (fun x => x) ∅ snapshot.placements)[id]? = _
  cases hm : (Maps.insertAll PersistedPlacement.workerId (fun x => x) ∅
      snapshot.placements : ExtTreeMap String PersistedPlacement)[id]? with
  | some placement =>
    rcases Maps.getElem?_insertAll_cases _ _ hm with ⟨e, he, hk, hv⟩ | h0
    · have hv' : e = placement := hv
      rw [← hv']
      exact ((hlaw e).mpr ⟨he, hk⟩).symm
    · simp at h0
  | none =>
    cases hr : row s id with
    | none => rfl
    | some placement =>
      obtain ⟨hmem, hid⟩ := (hlaw placement).mp hr
      have hin := Maps.mem_insertAll PersistedPlacement.workerId (fun x => x)
        (∅ : ExtTreeMap String PersistedPlacement) snapshot.placements placement hmem
      obtain ⟨v, hv⟩ := Maps.exists_getElem? hin
      rw [hid, hm] at hv
      cases hv

/-- what a restarted Controller hands to the first process of the worker -/
theorem restore_carried (hrows : PlacementRows store row) {historyLimit : Nat}
    {hl : 0 < historyLimit} {s s' : σ} {inner : Inner p}
    (h : restore p store historyLimit hl s = (.ok inner, s')) (id : String) (i : Nat) :
    carriedPlacement inner id i = rowPlacement (row s id) i := by
  have hw : inner.workers[id]? = none := by
    obtain ⟨_, _, _, _, _, hi⟩ := restore_cases h
    rw [hi, fromSnapshot_workers]
    simp
  unfold carriedPlacement rowPlacement
  rw [hw, restore_mirror hrows h id]
  cases (row s id).filter fun placement => placement.instanceId = i <;> rfl

/-! ## durable placements -/

/-- the row holds instance, generation and (normalized) targets -/
def rowHolds (r : Option PersistedPlacement) (i g : Nat)
    (t : ExtTreeMap ExpertKey TargetExpert) : Bool :=
  r.any fun placement => placement.instanceId == i && placement.generation == g &&
    normalizeTargets placement.targets == t

/-- the row holds the placement, and a Controller restarted now hands it out -/
def Durable (p : EndpointParsers) (store : ControllerStateStore σ)
    (row : σ → String → Option PersistedPlacement) (s : σ) (workerId : String) (i g : Nat)
    (t : ExtTreeMap ExpertKey TargetExpert) : Prop :=
  rowHolds (row s workerId) i g t = true ∧
  ∀ (historyLimit : Nat) (hl : 0 < historyLimit) (inner : Inner p) (s' : σ),
    restore p store historyLimit hl s = (.ok inner, s') →
      carriedPlacement inner workerId i = (g, t)

/-- a placement without the spelling of its target list -/
def placementContent (placement : PersistedPlacement) :
    Nat × Nat × ExtTreeMap ExpertKey TargetExpert :=
  (placement.instanceId, placement.generation, normalizeTargets placement.targets)

/-- the row of the worker is the one in the mirror -/
def MirrorAgrees (row : σ → String → Option PersistedPlacement) (inner : Inner p) (s : σ)
    (workerId : String) : Prop :=
  (row s workerId).map placementContent = (inner.persistedPlacements[workerId]?).map placementContent

theorem rowHolds_iff (r : Option PersistedPlacement) (i g : Nat)
    (t : ExtTreeMap ExpertKey TargetExpert) :
    rowHolds r i g t = true ↔ r.map placementContent = some (i, g, t) := by
  cases r with
  | none => simp [rowHolds]
  | some placement =>
    show (placement.instanceId == i && placement.generation == g &&
      normalizeTargets placement.targets == t) = true ↔ some (placementContent placement) = _
    rw [Bool.and_eq_true, Bool.and_eq_true, beq_iff_eq, beq_iff_eq, beq_iff_eq,
      Option.some.injEq, placementContent, Prod.mk.injEq, Prod.mk.injEq, and_assoc]

theorem durable_iff (hrows : PlacementRows store row) {s : σ} {workerId : String} {i g : Nat}
    {t : ExtTreeMap ExpertKey TargetExpert} :
    Durable p store row s workerId i g t ↔ rowHolds (row s workerId) i g t = true := by
  refine ⟨fun h => h.1, fun h => ⟨h, ?_⟩⟩
  intro historyLimit hl inner s' hr
  rw [restore_carried hrows hr]
  rw [rowHolds_iff] at h
  obtain ⟨placement, hrow, hc⟩ := Option.map_eq_some_iff.mp h
  simp only [placementContent, Prod.mk.injEq] at hc
  unfold rowPlacement
  rw [hrow, Option.filter_some, if_pos (by simpa using hc.1)]
  simp only [hc.2.1, hc.2.2]

theorem persistedMatches_content {inner : Inner p} {workerId : String} {r : WorkerRecord p}
    (h : persistedMatches inner workerId r = true) :
    (inner.persistedPlacements[workerId]?).map placementContent
      = some (r.registration.request.instanceId, r.placementGeneration, r.targets) := by
  unfold persistedMatches at h
  obtain ⟨placement, hp, hm⟩ := (Option.any_eq_true _ _).mp h
  rw [Option.filter_eq_some_iff] at hp
  rw [Bool.and_eq_true, beq_iff_eq, beq_iff_eq] at hm
  rw [hp.1]
  show some (placementContent placement) = _
  rw [placementContent, hm.1, hm.2, of_decide_eq_true hp.2]

/-- a successful `set_targets` is durable iff it writes the row or row and mirror agree -/
theorem set_targets_durable_iff (hrows : PlacementRows store row) {w : World p σ}
    {workerId startId : String} {targets : List TargetExpert} {placement : Placement}
    {inner' : Inner p} {s' : σ} {r : WorkerRecord p}
    (h : setTargets store w.inner w.stored workerId startId targets
      = (.ok placement, inner', s')) (hr : w.inner.workers[workerId]? = some r) :
    Durable p store row s' workerId r.registration.request.instanceId placement.generation
        (normalizeTargets targets) ↔
      (r.targets ≠ normalizeTargets targets ∨ persistedMatches w.inner workerId r = false ∨
        MirrorAgrees row w.inner w.stored workerId) := by
  rw [durable_iff hrows, rowHolds_iff]
  rcases setTargets_cases h with ⟨_, he, _⟩ | ⟨r0, hr0, _, ht, hm, hres, _, hs⟩ |
    ⟨r0, next, s1, changed, inner2, hr0, _, hwrite, _, hsave, hp, hres, _⟩
  · cases he
  · -- the call returns what is in memory and writes nothing
    rw [hr] at hr0
    cases hr0
    have hgen : placement.generation = r.placementGeneration := by
      rw [Except.ok.inj hres]
    have hmirror := persistedMatches_content hm
    unfold MirrorAgrees
    rw [hs, hgen, ← ht, hmirror]
    constructor
    · exact fun hrow => .inr (.inr hrow)
    · intro hcond
      rcases hcond with hne | hf | hagree
      · exact absurd rfl hne
      · rw [hm] at hf
        cases hf
      · exact hagree
  · -- the call writes the row and then publishes
    rw [hr] at hr0
    cases hr0
    have hgen : placement.generation = max next 1 := by
      rw [Except.ok.inj hres]
    have hrow : row s' workerId = some ⟨workerId, r.registration.request.instanceId, max next 1,
        Maps.values (normalizeTargets targets)⟩ := by
      rw [(publishRoutes_calls hp).keeps_row hrows, hrows.save_ok _ _ _ _ _ _ hsave]
    have hnorm := normalizeTargets_values targets
    constructor
    · intro _
      by_cases ht : r.targets = normalizeTargets targets
      · refine .inr (.inl ?_)
        by_contra hm
        exact hwrite.2 ⟨ht, Bool.not_eq_false _ ▸ hm⟩
      · exact .inl ht
    · intro _
      rw [hrow, hgen]
      show some (placementContent _) = _
      rw [placementContent, hnorm]

end

/-- one live worker over the PostgreSQL store, with the faults of the coming calls -/
def Fixture.overTables (faults : List Fault) (ops : List Op) :
    World Fixture.parsers ControllerTables :=
  runOps PostgresControllerStateStore ⟨newState Fixture.parsers 8 Fixture.eight_pos, ∅, ∅, faults⟩
    (Fixture.registerLive "worker-0" "start-0" 1 ++ ops)

theorem Fixture.overTables_reachable (faults : List Fault) (ops : List Op) :
    Reachable PostgresControllerStateStore (Fixture.overTables faults ops) :=
  (Reachable.new 8 (by decide) _).runOps _

def Fixture.placeOne (w : World Fixture.parsers ControllerTables) :
    Outcome Fixture.parsers ControllerTables Placement :=
  setTargets PostgresControllerStateStore w.inner w.stored "worker-0" "start-0"
    [Fixture.target 1 2]

theorem set_targets_durable_iff_written :
    ∃ placement, (Fixture.placeOne (Fixture.overTables [] [])).1 = .ok placement ∧
      Durable Fixture.parsers PostgresControllerStateStore postgresRow
        (Fixture.placeOne (Fixture.overTables [] [])).2.2 "worker-0" 7 placement.generation
        (normalizeTargets [Fixture.target 1 2]) := by
  obtain ⟨placement, hp, _⟩ := (Option.any_eq_true (fun pl : Placement => pl.changed)
    (Fixture.placeOne (Fixture.overTables [] [])).1.toOption).mp (by decide +kernel)
  obtain ⟨r, hr, hb⟩ := (Option.any_eq_true (fun r : WorkerRecord Fixture.parsers =>
    r.registration.request.instanceId == 7 &&
      decide (r.targets ≠ normalizeTargets [Fixture.target 1 2]))
    (Fixture.overTables [] []).inner.workers["worker-0"]?).mp (by decide +kernel)
  rw [Bool.and_eq_true, beq_iff_eq, decide_eq_true_iff] at hb
  have hrun : setTargets PostgresControllerStateStore (Fixture.overTables [] []).inner
      (Fixture.overTables [] []).stored "worker-0" "start-0" [Fixture.target 1 2]
      = (.ok placement, (Fixture.placeOne (Fixture.overTables [] [])).2) := by
    rw [← Fallible.ok_of_toOption hp]
    rfl
  have hiff := set_targets_durable_iff postgres_rows hrun hr
  rw [hb.1] at hiff
  exact ⟨placement, Fallible.ok_of_toOption hp, hiff.mpr (.inl hb.2)⟩

/-- the READY expert was to leave the targets: its row was committed, the version was refused -/
def Fixture.rolledBack : World Fixture.parsers ControllerTables :=
  Fixture.overTables [.works, .works, .works, .refused]
    [.setTargets "worker-0" "start-0" [Fixture.target 1 2],
      .applyStateReport "worker-0" "start-0" 1 1 true [Fixture.ready 1 2],
      .setTargets "worker-0" "start-0" []]

theorem rolled_back_placement_lost :
    Reachable PostgresControllerStateStore Fixture.rolledBack ∧
    ∃ placement, (Fixture.placeOne Fixture.rolledBack).1 = .ok placement ∧
      placement.generation = 1 ∧
      (postgresRow (Fixture.placeOne Fixture.rolledBack).2.2 "worker-0").map
        PersistedPlacement.generation = some 2 ∧
      ¬ Durable Fixture.parsers PostgresControllerStateStore postgresRow
        (Fixture.placeOne Fixture.rolledBack).2.2 "worker-0" 7 placement.generation
        (normalizeTargets [Fixture.target 1 2]) := by
  refine ⟨Fixture.overTables_reachable _ _, ?_⟩
  obtain ⟨placement, hp, hg⟩ := (Option.any_eq_true (fun pl : Placement => pl.generation == 1)
    (Fixture.placeOne Fixture.rolledBack).1.toOption).mp (by decide +kernel)
  rw [beq_iff_eq] at hg
  refine ⟨placement, Fallible.ok_of_toOption hp, hg, by decide +kernel, ?_⟩
  intro hdurable
  have hrow := hdurable.1
  rw [hg] at hrow
  have hfalse : rowHolds (postgresRow (Fixture.placeOne Fixture.rolledBack).2.2 "worker-0") 7 1
      (normalizeTargets [Fixture.target 1 2]) = false := by decide +kernel
  rw [hfalse] at hrow
  cases hrow

section
variable {p : EndpointParsers} {σ : Type} {store : ControllerStateStore σ}
  {row : σ → String → Option PersistedPlacement}

/-! ## runs -/

/-- an operation writes the row of the worker only as `set_targets`, and then a newer generation -/
theorem Op.run_row (hrows : PlacementRows store row) (w : World p σ) (op : Op) (id : String) :
    row (op.run store w).stored id = row w.stored id ∨
    ∃ startId targets r next, op = .setTargets id startId targets ∧
      w.inner.workers[id]? = some r ∧ checkedNext r.placementGeneration = some next ∧
      row (op.run store w).stored id = some ⟨id, r.registration.request.instanceId, max next 1,
        Maps.values (normalizeTargets targets)⟩ := by
  cases hset : op.isSetTargets with
  | false => exact .inl ((Op.run_unplaced store w op hset).2.keeps_row hrows id)
  | true =>
    cases op with
    | setTargets workerId startId targets =>
      apply World.after_of (fun w' => row w'.stored id = row w.stored id ∨
        ∃ startId' targets' r next, Op.setTargets workerId startId targets
            = .setTargets id startId' targets' ∧ w.inner.workers[id]? = some r ∧
          checkedNext r.placementGeneration = some next ∧
          row w'.stored id = some ⟨id, r.registration.request.instanceId, max next 1,
            Maps.values (normalizeTargets targets')⟩)
      intro res inner' s' h
      have hsaved : ∀ r next, w.inner.workers[workerId]? = some r →
          checkedNext r.placementGeneration = some next → ∀ s1,
          AdvanceCalls store (store.savePlacement w.stored workerId
            r.registration.request.instanceId (max next 1)
            (Maps.values (normalizeTargets targets))).2 s1 →
          row s1 id = row w.stored id ∨ ∃ startId' targets' r next,
            Op.setTargets workerId startId targets = .setTargets id startId' targets' ∧
            w.inner.workers[id]? = some r ∧ checkedNext r.placementGeneration = some next ∧
            row s1 id = some ⟨id, r.registration.request.instanceId, max next 1,
              Maps.values (normalizeTargets targets')⟩ := by
        intro r next hr hn s1 hc
        rw [hc.keeps_row hrows id]
        by_cases e : id = workerId
        · subst e
          rcases hrows.save_error w.stored id r.registration.request.instanceId (max next 1)
            (Maps.values (normalizeTargets targets)) with hrow | hrow
          · exact .inl hrow
          · exact .inr ⟨startId, targets, r, next, rfl, hr, hn, hrow⟩
        · exact .inl (hrows.save_other _ _ _ _ _ _ e)
      rcases setTargets_cases h with ⟨_, _, _, hs | ⟨r, next, hr, _, hn, hc⟩⟩ |
        ⟨_, _, _, _, _, _, _, hs⟩ | ⟨r, next, s1, _, _, hr, _, _, hn, hsave, hp, _, _⟩
      · exact .inl (by rw [hs])
      · exact hsaved r next hr hn s' hc
      · exact .inl (by rw [hs])
      · refine hsaved r next hr hn s' ?_
        rw [hsave]
        exact publishRoutes_calls hp
    | _ => cases hset

/-- a failed operation leaves the row of the worker alone -/
def LeavesRow (store : ControllerStateStore σ) (row : σ → String → Option PersistedPlacement)
    (workerId : String) (w : World p σ) (op : Op) : Prop :=
  (op.failure store w).isSome = true → row (op.run store w).stored workerId = row w.stored workerId

/-- a successful `set_targets` of the worker leaves its row in the mirror -/
theorem Op.run_mirror (hrows : PlacementRows store row) {w : World p σ} {op : Op} {id : String}
    (h : MirrorAgrees row w.inner w.stored id) (hok : LeavesRow store row id w op) :
    MirrorAgrees row (op.run store w).inner (op.run store w).stored id := by
  by_cases hsets : op.sets id
  · cases op with
    | setTargets workerId startId targets =>
      have hid : id = workerId := hsets
      subst hid
      revert hok
      unfold LeavesRow
      apply World.after_of (fun w' => ((failureOf (Controller.setTargets store w.inner w.stored id
          startId targets)).isSome = true → row w'.stored id = row w.stored id) →
        MirrorAgrees row w'.inner w'.stored id)
      intro res inner' s' hrun hok
      unfold MirrorAgrees at h ⊢
      rw [hrun] at hok
      rcases setTargets_cases hrun with ⟨_, he, hi, _⟩ | ⟨_, _, _, _, _, _, hi, hs⟩ |
        ⟨r, next, s1, _, i2, hr, _, _, hn, hsave, hp, _, hi⟩
      · subst he
        rw [hi, hok rfl]
        exact h
      · rw [hi, hs]
        exact h
      · have hrow : row s' id = some ⟨id, r.registration.request.instanceId, max next 1,
            Maps.values (normalizeTargets targets)⟩ := by
          rw [(publishRoutes_calls hp).keeps_row hrows, hrows.save_ok _ _ _ _ _ _ hsave]
        rw [hrow, hi, written_persisted hp, Maps.getElem?_insert_eq, if_pos rfl]
    | _ => cases hsets
  · rw [MirrorAgrees, Op.run_persisted store w op hsets]
    rcases Op.run_row hrows w op id with hrow | ⟨_, _, _, _, hop, _⟩
    · rw [hrow]
      exact h
    · rw [hop] at hsets
      exact absurd rfl hsets

theorem restored_mirror_agrees (hrows : PlacementRows store row) {historyLimit : Nat}
    {hl : 0 < historyLimit} {s s' : σ} {inner : Inner p}
    (h : restore p store historyLimit hl s = (.ok inner, s')) (id : String) :
    MirrorAgrees row inner s' id := by
  rw [MirrorAgrees, restore_mirror hrows h, restore_row hrows h]

/-- row and mirror agree in every run whose failed calls leave the row alone -/
theorem mirror_agrees (hrows : PlacementRows store row) {start w : World p σ} {id : String}
    (h0 : MirrorAgrees row start.inner start.stored id)
    (h : Steps.Reach (opStep store) (LeavesRow store row id) start w) :
    MirrorAgrees row w.inner w.stored id := by
  refine h.invariant (P := fun v => MirrorAgrees row v.inner v.stored id) h0 ?_
  intro v op v' hv hok hstep
  cases hstep
  exact Op.run_mirror hrows hv hok

end

end ExpertKit.Controller

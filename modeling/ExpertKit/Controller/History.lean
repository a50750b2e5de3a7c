import ExpertKit.Controller.Published
import ExpertKit.Lib.Log

/-!
# Controller: topology versions and their history

The history of an instance is a chain of revisions that ends at its version; every version is newer
than everything the store allocated before, across restarts too.  So a version names one route
table, and replaying the revisions after it gives the current table.

* `Revised`, `Op.run_revised`   an operation publishes at most one revision of one instance;
* `Later`                       operations and restarts over the same store;
* `InstanceTopology.Linear`, `InstanceTopology.Anchored`   the history of an instance as a `Log`;
* `topologyMessages_cases`      the three answers: nothing, a joined suffix, a snapshot;
* `Versioned`                   versions are stored, histories are chains;
* `Later.versioned`, `Later.anchored`   what was published once stays anchored.
-/

set_option linter.unusedSectionVars false

namespace ExpertKit.Controller
open Std

section
variable {p : EndpointParsers} {σ : Type}

/-! ## one revision per operation -/

/-- the topology of an instance, `default` before its first publication -/
def Inner.topology (inner : Inner p) (i : Nat) : InstanceTopology :=
  (inner.topologies[i]?).getD .default

theorem topology_version (inner : Inner p) (i : Nat) :
    (inner.topology i).version = inner.topologyVersion i := by
  unfold Inner.topology Inner.topologyVersion
  cases inner.topologies[i]? <;> rfl

theorem topology_routes (inner : Inner p) (i : Nat) :
    (inner.topology i).routes = inner.routes i := by
  unfold Inner.topology Inner.routes
  cases inner.topologies[i]? <;> rfl

theorem topology_published (inner : Inner p) (i v : Nat) (affected : ExtTreeSet ExpertKey)
    (j : Nat) :
    (inner.published i v affected).topology j =
      if i = j then (inner.topology i).commit inner.historyLimit (inner.topology i).version v
        (routeChanges inner i affected)
      else inner.topology j := by
  unfold Inner.topology Inner.published
  simp only [Maps.getElem?_insert_eq]
  by_cases e : i = j
  · subst e
    rw [if_pos rfl, if_pos rfl, ← topology_version]
    rfl
  · rw [if_neg e, if_neg e]

/-- the world changed by store calls only, or by one new revision of one instance -/
def Revised (store : ControllerStateStore σ) (w w' : World p σ) : Prop :=
  (w'.inner.topologies = w.inner.topologies ∧ StoreCalls store w.stored w'.stored) ∨
  ∃ mid s1 i v affected, OneRecord w.inner mid ∧ mid.topologies = w.inner.topologies ∧
    StoreCalls store w.stored s1 ∧
    store.advanceTopologyVersion s1 i (mid.topologyVersion i) = (.ok v, w'.stored) ∧
    routeChanges mid i affected ≠ [] ∧
    w'.inner.topologies = (mid.published i v affected).topologies

theorem publishRoutes_revised {store : ControllerStateStore σ} {inner mid inner2 inner' : Inner p}
    {s s1 s' : σ} {i : Nat} {affected : ExtTreeSet ExpertKey} {changed : Bool}
    (hp : publishRoutes store mid s1 i affected = (.ok changed, inner2, s'))
    (hone : OneRecord inner mid) (hmid : mid.topologies = inner.topologies)
    (hs : StoreCalls store s s1) (hi : inner'.topologies = inner2.topologies) :
    Revised store ⟨inner, s⟩ ⟨inner', s'⟩ := by
  rcases publishRoutes_cases hp with ⟨_, h2, h3, _⟩ | ⟨_, he, _⟩ | ⟨v, _, h2, hc, ha⟩
  · refine .inl ⟨?_, h3 ▸ hs⟩
    show inner'.topologies = inner.topologies
    rw [hi, h2, hmid]
  · cases he
  · exact .inr ⟨mid, s1, i, v, affected, hone, hmid, hs, ha, hc, by rw [← h2]; exact hi⟩

theorem Revised.same {store : ControllerStateStore σ} {inner inner' : Inner p} {s s' : σ}
    (hi : inner'.topologies = inner.topologies) (hs : StoreCalls store s s') :
    Revised store ⟨inner, s⟩ ⟨inner', s'⟩ :=
  .inl ⟨hi, hs⟩

theorem register_revised {store : ControllerStateStore σ} {inner inner' : Inner p} {s s' : σ}
    {request : RegisterWorkerRequest} {r : Except ControllerStateError RegistrationResult}
    (h : register store inner s request = (r, inner', s')) :
    Revised store ⟨inner, s⟩ ⟨inner', s'⟩ := by
  rcases register_cases h with ⟨hi, hs⟩ | ⟨reg, _, _, hr⟩
  · exact .same (by rw [hi]) (.of_eq hs.symm)
  · rcases registerProcess_cases hr with ⟨_, _, hi, hs⟩ |
      ⟨g, t, _, _, _, _, ⟨_, hs, hi⟩ | ⟨old, changed, inner2, hw, hp, hi⟩⟩
    · exact .same (by rw [hi]) hs.storeCalls
    · exact .same (by rw [hi]; rfl) (.of_eq hs.symm)
    · refine publishRoutes_revised hp ?_ rfl .refl (by rw [hi, notifyIf_topologies])
      exact .inr ⟨_, .fresh reg g t, .inl ⟨g, t, rfl, rfl⟩, rfl⟩

theorem heartbeat_revised {store : ControllerStateStore σ} {inner inner' : Inner p} {s s' : σ}
    {workerId startId : String} {lease sequence : Nat} {state : Int}
    {r : Except ControllerStateError HeartbeatResult}
    (h : heartbeat store inner s workerId startId lease sequence state = (r, inner', s')) :
    Revised store ⟨inner, s⟩ ⟨inner', s'⟩ := by
  rcases heartbeat_cases h with ⟨hi, hs⟩ |
    ⟨w, runState, b, hw, _, _, _, ⟨_, hs, hi⟩ | ⟨_, changed, inner2, hp, hi⟩⟩
  · exact .same (by rw [hi]) hs.storeCalls
  · exact .same (by rw [hi, notifyIf_topologies]; rfl) (.of_eq hs.symm)
  · exact publishRoutes_revised hp (.insert (w.beat sequence runState) hw rfl rfl) rfl .refl
      (by rw [hi, notifyIf_topologies])

theorem closeHeartbeat_revised {store : ControllerStateStore σ} {inner inner' : Inner p}
    {s s' : σ} {workerId startId : String} {lease : Nat} {r : Except ControllerStateError Bool}
    (h : closeHeartbeat store inner s workerId startId lease = (r, inner', s')) :
    Revised store ⟨inner, s⟩ ⟨inner', s'⟩ := by
  rcases closeHeartbeat_cases h with ⟨hi, hs⟩ | ⟨w, changed, inner2, hw, _, _, _, _, hp, hi⟩
  · exact .same (by rw [hi]) hs.storeCalls
  · exact publishRoutes_revised hp
      (.insert { w with heartbeatOpen := false, live := false } hw rfl rfl) rfl .refl
      (by rw [hi, notifyIf_topologies])

theorem recordDrains_topologies (inner : Inner p) (id : String) (w : WorkerRecord p)
    (i g : Nat) (experts : ExtTreeSet ExpertKey) :
    (recordDrains inner id w i g experts).1.topologies = inner.topologies := by
  unfold recordDrains
  by_cases he : experts.isEmpty
  · simp only [he, ↓reduceIte]
    rfl
  · simp only [he, Bool.false_eq_true, ↓reduceIte]
    rfl

theorem setTargets_revised {store : ControllerStateStore σ} {inner inner' : Inner p} {s s' : σ}
    {workerId startId : String} {targets : List TargetExpert}
    {r : Except ControllerStateError Placement}
    (h : setTargets store inner s workerId startId targets = (r, inner', s')) :
    Revised store ⟨inner, s⟩ ⟨inner', s'⟩ := by
  rcases setTargets_cases h with ⟨_, _, hi, hs⟩ | ⟨_, _, _, _, _, _, hi, hs⟩ |
    ⟨w, next, s1, changed, inner2, hw, _, _, _, hv, hp, _, hi⟩
  · exact .same (by rw [hi]) hs.storeCalls
  · exact .same (by rw [hi]) (.of_eq hs.symm)
  · refine publishRoutes_revised hp ?_ rfl (StoreCalls.refl.save_of hv)
      (by rw [hi, notifyIf_topologies, recordDrains_topologies])
    exact .insert (w.placed (max next 1) (normalizeTargets targets)) hw rfl rfl

theorem applyStateReport_revised {store : ControllerStateStore σ} {inner inner' : Inner p}
    {s s' : σ} {workerId startId : String} {placementGeneration reportSequence : Nat}
    {full : Bool} {states : List ExpertState} {r : Except ControllerStateError StateReportResult}
    (h : applyStateReport store inner s workerId startId placementGeneration reportSequence full
      states = (r, inner', s')) : Revised store ⟨inner, s⟩ ⟨inner', s'⟩ := by
  rcases applyStateReport_cases h with ⟨_, _, hi, hs⟩ | ⟨_, hi, hs⟩ |
    ⟨w, normalized, changed, inner2, hw, _, _, _, hp, _, hi⟩
  · exact .same (by rw [hi]) hs.storeCalls
  · exact .same (by rw [hi]) (.of_eq hs.symm)
  · exact publishRoutes_revised hp
      (.insert (w.reported reportSequence full normalized) hw rfl rfl) rfl .refl
      (by rw [hi, notifyIf_topologies])

theorem drainAuthorizations_revised {store : ControllerStateStore σ} {inner inner' : Inner p}
    {s s' : σ} {workerId startId : String}
    {r : Except ControllerStateError (List DrainAuthorization)}
    (h : drainAuthorizations store inner s workerId startId = (r, inner', s')) :
    Revised store ⟨inner, s⟩ ⟨inner', s'⟩ := by
  rcases drainAuthorizations_cases h with ⟨_, _, hi, hs⟩ | ⟨_, _, _, _, _, hi, hs⟩ |
    ⟨w, changed, inner2, hw, _, _, hp, _, hi⟩
  · exact .same (by rw [hi]) hs.storeCalls
  · exact .same (by rw [hi]) (.of_eq hs.symm)
  · exact publishRoutes_revised hp
      (.insert { w with includedInTopology := false } hw rfl rfl) rfl .refl
      (by rw [hi, notifyIf_topologies]; rfl)

theorem completeDrain_revised {store : ControllerStateStore σ} {inner inner' : Inner p} {s s' : σ}
    {workerId startId : String} {drainId : Nat} {r : Except ControllerStateError Bool}
    (h : completeDrain store inner s workerId startId drainId = (r, inner', s')) :
    Revised store ⟨inner, s⟩ ⟨inner', s'⟩ := by
  rcases completeDrain_cases h with ⟨_, _, hi, hs⟩ | ⟨_, hi, hs⟩ |
    ⟨w, drain, hw, _, _, _, _, ⟨_, hs, hi⟩ | ⟨_, changed, inner2, hp, hi⟩⟩
  · exact .same (by rw [hi]) hs.storeCalls
  · exact .same (by rw [hi]) (.of_eq hs.symm)
  · exact .same (by rw [hi]; rfl) (.of_eq hs.symm)
  · exact publishRoutes_revised hp
      (.insert { w.completed drainId with live := false } hw rfl rfl) rfl .refl
      (by rw [hi, notifyIf_topologies])

theorem openHeartbeat_revised {store : ControllerStateStore σ} {inner inner' : Inner p} {s s' : σ}
    {workerId startId : String} {r : Except ControllerStateError Nat}
    (h : openHeartbeat inner s workerId startId = (r, inner', s')) :
    Revised store ⟨inner, s⟩ ⟨inner', s'⟩ := by
  obtain ⟨hs, hi | ⟨w, _, _, _, hi⟩⟩ := openHeartbeat_cases h
  · exact .same (by rw [hi]) (.of_eq hs.symm)
  · exact .same (by rw [hi]; rfl) (.of_eq hs.symm)

theorem Op.run_revised (store : ControllerStateStore σ) (w : World p σ) (op : Op) :
    Revised store w (op.run store w) := by
  cases op <;> apply World.after_of (fun w' => Revised store w w') <;> intro r inner' s' h
  · exact register_revised h
  · exact openHeartbeat_revised h
  · exact heartbeat_revised h
  · exact closeHeartbeat_revised h
  · exact setTargets_revised h
  · exact applyStateReport_revised h
  · exact drainAuthorizations_revised h
  · exact completeDrain_revised h

/-! ## the history of one instance -/

def TopologyRevision.apply (routes : RouteTable) (revision : TopologyRevision) : RouteTable :=
  revision.changes.foldl applyChange routes

theorem joinRevisions_eq (v : Nat) (h : List TopologyRevision) :
    joinRevisions v h
      = Log.join TopologyRevision.previousVersion TopologyRevision.topologyVersion v h := by
  induction h generalizing v with
  | nil => rfl
  | cons r h ih => rw [joinRevisions, Log.join, ih r.topologyVersion, ih v]

/-- the history leads to the current version -/
def InstanceTopology.Linear (t : InstanceTopology) : Prop :=
  ∃ a, Log.Chain TopologyRevision.previousVersion TopologyRevision.topologyVersion a t.history
    t.version

/-- the table `routes` of version `v` leads to the current table -/
def InstanceTopology.Anchored (t : InstanceTopology) (v : Nat) (routes : RouteTable) : Prop :=
  Log.Anchored TopologyRevision.previousVersion TopologyRevision.apply t.version t.routes t.history
    v routes

theorem InstanceTopology.Linear.commit {t : InstanceTopology} (h : t.Linear) {limit v : Nat}
    {changes : List RouteEntry} (hv : t.version < v) :
    (t.commit limit t.version v changes).Linear := by
  obtain ⟨a, hc⟩ := h
  exact (hc.concat (r := ⟨t.version, v, changes⟩) rfl hv).drop _

theorem InstanceTopology.Anchored.commit {t : InstanceTopology} {v0 : Nat} {routes : RouteTable}
    (h : t.Anchored v0 routes) {limit v : Nat} {changes : List RouteEntry} (hv : t.version < v) :
    (t.commit limit t.version v changes).Anchored v0 routes :=
  Log.Anchored.commit h TopologyRevision.topologyVersion (r := ⟨t.version, v, changes⟩) rfl hv _

theorem InstanceTopology.default_linear : InstanceTopology.default.Linear := ⟨0, rfl⟩

theorem InstanceTopology.Linear.anchored {t : InstanceTopology} (h : t.Linear) :
    t.Anchored t.version t.routes := by
  obtain ⟨_, hc⟩ := h
  exact Log.Anchored.self hc t.routes

/-- the answer to a version that is not newer: nothing, the revisions after it, or a snapshot -/
theorem topologyMessages_cases {inner : Inner p} {i v : Nat} (hl : (inner.topology i).Linear)
    (hv : v ≤ (inner.topology i).version) :
    (topologyMessages inner i v = .ok [] ∧ v = (inner.topology i).version) ∨
    (∃ l r rest, (inner.topology i).history = l ++ r :: rest ∧ r.previousVersion = v ∧
      Log.Chain TopologyRevision.previousVersion TopologyRevision.topologyVersion v (r :: rest)
        (inner.topology i).version ∧
      topologyMessages inner i v = .ok ((r :: rest).flatMap (updateMessages i))) ∨
    (topologyMessages inner i v = .ok (snapshotMessages i (inner.topology i)) ∧
      (v < (inner.topology i).version ∨ inner.topology i = .default)) := by
  unfold topologyMessages
  cases ht : inner.topologies[i]? with
  | none =>
    have htop : inner.topology i = .default := by
      unfold Inner.topology
      rw [ht]
      rfl
    rw [htop] at hv ⊢
    have hv0 : v = 0 := Nat.le_zero.mp hv
    exact .inr (.inr ⟨if_neg (by omega), .inr rfl⟩)
  | some t =>
    have htop : inner.topology i = t := by
      unfold Inner.topology
      rw [ht]
      rfl
    rw [htop] at hv hl ⊢
    simp only [if_neg (Nat.not_lt.mpr hv)]
    by_cases e : v = t.version
    · exact .inl ⟨if_pos e, e⟩
    · simp only [if_neg e, joinRevisions_eq]
      obtain ⟨a, hc⟩ := hl
      rcases Log.join_cases (v := v) hc with ⟨l, r, rest, hh, hr, hchain, hj⟩ | hj
      · rw [hj]
        exact .inr (.inl ⟨l, r, rest, hh, hr, hchain, if_pos rfl⟩)
      · rw [hj]
        exact .inr (.inr ⟨if_neg e, .inl (by omega)⟩)

/-! ## versions and the store -/

/-- every version is stored, every history is a chain, and version `0` has no route -/
structure Versioned (stored : σ → Nat → Nat) (w : World p σ) : Prop where
  linear : ∀ i, (w.inner.topology i).Linear
  le : ∀ i, (w.inner.topology i).version ≤ stored w.stored i
  zero : ∀ i, (w.inner.topology i).version = 0 → (w.inner.topology i).routes = ∅

/-- operations and restarts over the same store; a failed restart leaves the store changed -/
inductive Later (store : ControllerStateStore σ) (w : World p σ) : World p σ → Prop where
  | refl : Later store w w
  | step (w' : World p σ) (op : Op) (h : Later store w w') : Later store w (op.run store w')
  | restarted (w' : World p σ) (historyLimit : Nat) (hl : 0 < historyLimit) (inner : Inner p)
      (s : σ) (h : Later store w w')
      (hr : restore p store historyLimit hl w'.stored = (.ok inner, s)) : Later store w ⟨inner, s⟩
  | failedRestart (w' : World p σ) (historyLimit : Nat) (hl : 0 < historyLimit)
      (e : ControllerStateError) (s : σ) (h : Later store w w')
      (hr : restore p store historyLimit hl w'.stored = (.error e, s)) :
      Later store w ⟨w'.inner, s⟩

section
variable {store : ControllerStateStore σ} {stored : σ → Nat → Nat}

theorem topology_congr {inner inner' : Inner p} (h : inner'.topologies = inner.topologies)
    (i : Nat) : inner'.topology i = inner.topology i := by
  unfold Inner.topology
  rw [h]

/-- after an operation an instance has its old topology, or one more revision -/
theorem Revised.topology (hs : LawfulStore store stored) {w w' : World p σ}
    (h : Revised store w w') (j : Nat) :
    (w'.inner.topology j = w.inner.topology j ∧ stored w.stored j ≤ stored w'.stored j) ∨
    (∃ limit v changes, stored w.stored j < v ∧ v ≤ stored w'.stored j ∧
      w'.inner.topology j
        = (w.inner.topology j).commit limit (w.inner.topology j).version v changes) := by
  rcases h with ⟨ht, hc⟩ | ⟨mid, s1, i, v, affected, _, hmid, hc, ha, _, ht⟩
  · exact .inl ⟨topology_congr ht j, hc.mono hs j⟩
  · obtain ⟨h1, _, h2⟩ := hs.advance_newer _ _ _ _ _ ha
    have hmono := hs.advance_mono s1 i (mid.topologyVersion i)
    rw [ha] at hmono
    have htop : w'.inner.topology j = (mid.published i v affected).topology j :=
      topology_congr ht j
    rw [topology_published, topology_congr hmid i, topology_congr hmid j] at htop
    by_cases e : i = j
    · subst e
      rw [if_pos rfl] at htop
      exact .inr ⟨_, v, _, (hc.mono hs i).trans_lt h1, h2, htop⟩
    · rw [if_neg e] at htop
      exact .inl ⟨htop, (hc.mono hs j).trans (hmono j)⟩

theorem Revised.versioned (hs : LawfulStore store stored) {w w' : World p σ}
    (h : Revised store w w') (hv : Versioned stored w) : Versioned stored w' := by
  refine ⟨?_, ?_, ?_⟩
  · intro j
    rcases h.topology hs j with ⟨ht, _⟩ | ⟨limit, v, changes, hlt, _, ht⟩
    · rw [ht]
      exact hv.linear j
    · rw [ht]
      exact (hv.linear j).commit ((hv.le j).trans_lt hlt)
  · intro j
    rcases h.topology hs j with ⟨ht, hmono⟩ | ⟨limit, v, changes, _, hle, ht⟩
    · rw [ht]
      exact (hv.le j).trans hmono
    · rw [ht]
      exact hle
  · intro j hz
    rcases h.topology hs j with ⟨ht, _⟩ | ⟨limit, v, changes, hlt, _, ht⟩
    · rw [ht] at hz ⊢
      exact hv.zero j hz
    · rw [ht] at hz
      have hz' : v = 0 := hz
      omega

theorem Revised.anchored (hs : LawfulStore store stored) {w w' : World p σ}
    (h : Revised store w w') (hv : Versioned stored w) {j v0 : Nat} {routes : RouteTable}
    (ha : (w.inner.topology j).Anchored v0 routes) :
    (w'.inner.topology j).Anchored v0 routes := by
  rcases h.topology hs j with ⟨ht, _⟩ | ⟨limit, v, changes, hlt, _, ht⟩
  · rw [ht]
    exact ha
  · rw [ht]
    exact ha.commit ((hv.le j).trans_lt hlt)

/-! ## restarts -/

/-- the topologies of a restarted Controller: one new version per instance of the store -/
structure Renewed (stored : σ → Nat → Nat) (s s' : σ) (t : InstanceTopology) (i : Nat) : Prop where
  routes : t.routes = ∅
  history : t.history = []
  newer : stored s i < t.version
  le : t.version ≤ stored s' i

theorem restoreTopologies_calls (l : List (Nat × Nat)) {m : ExtTreeMap Nat InstanceTopology}
    {s s' : σ} {r : Except ControllerStateError (ExtTreeMap Nat InstanceTopology)}
    (h : restoreTopologies store l m s = (r, s')) : StoreCalls store s s' := by
  induction l generalizing m s with
  | nil =>
    simp only [restoreTopologies, Prod.mk.injEq] at h
    exact .of_eq h.2
  | cons e l ih =>
    obtain ⟨i, c⟩ := e
    simp only [restoreTopologies] at h
    cases ha : store.advanceTopologyVersion s i c with
    | mk a s1 =>
      rw [ha] at h
      cases a with
      | error e =>
        simp only [Prod.mk.injEq] at h
        exact h.2 ▸ StoreCalls.refl.advance_of ha
      | ok v => exact (StoreCalls.refl.advance_of ha).trans (ih h)

theorem restoreTopologies_cases (hs : LawfulStore store stored) (l : List (Nat × Nat))
    {m topologies : ExtTreeMap Nat InstanceTopology} {s0 s s' : σ}
    (h0 : ∀ i, stored s0 i ≤ stored s i)
    (h : restoreTopologies store l m s = (.ok topologies, s')) (i : Nat) :
    (topologies[i]? = m[i]? ∧ ∀ c, (i, c) ∉ l) ∨
    ∃ t, topologies[i]? = some t ∧ Renewed stored s0 s' t i := by
  induction l generalizing m s with
  | nil =>
    simp only [restoreTopologies, Prod.mk.injEq, Except.ok.injEq] at h
    exact .inl ⟨by rw [h.1], by simp⟩
  | cons e l ih =>
    obtain ⟨j, c⟩ := e
    simp only [restoreTopologies] at h
    cases ha : store.advanceTopologyVersion s j c with
    | mk a s1 =>
      rw [ha] at h
      cases a with
      | error e => simp at h
      | ok v =>
        have hmono := hs.advance_mono s j c
        rw [ha] at hmono
        obtain ⟨h1, _, h2⟩ := hs.advance_newer _ _ _ _ _ ha
        rcases ih (fun k => (h0 k).trans (hmono k)) h with ⟨ht, hn⟩ | hr
        · rw [Maps.getElem?_insert_eq] at ht
          by_cases e : j = i
          · subst e
            rw [if_pos rfl] at ht
            have hrest := (restoreTopologies_calls l h).mono hs j
            exact .inr ⟨_, ht, rfl, rfl, (h0 j).trans_lt h1, h2.trans hrest⟩
          · rw [if_neg e] at ht
            refine .inl ⟨ht, ?_⟩
            intro c' hm
            rcases List.mem_cons.mp hm with he | hm
            · simp only [Prod.mk.injEq] at he
              exact e he.1.symm
            · exact hn c' hm
        · exact .inr hr

theorem foldl_instanceVersions (placements : List PersistedPlacement) (m : ExtTreeMap Nat Nat)
    (i v : Nat) (h : m[i]? = some v) :
    (placements.foldl (fun m placement => if m.contains placement.instanceId then m
      else m.insert placement.instanceId 0) m)[i]? = some v := by
  induction placements generalizing m with
  | nil => exact h
  | cons placement placements ih =>
    rw [List.foldl_cons]
    apply ih
    split_ifs with hc
    · exact h
    · rw [Maps.getElem?_insert_eq, if_neg]
      · exact h
      · intro e
        rw [e] at hc
        exact hc (ExtTreeMap.mem_iff_contains.mp (Maps.mem_of_getElem? h))

/-- an instance with a stored version is in the list that a restart works through -/
theorem mem_instanceVersions {snapshot : ControllerStoreSnapshot} {i : Nat}
    (h : 0 < snapshot.topologyVersions[i]?.getD 0) :
    ∃ c, (i, c) ∈ (instanceVersions snapshot).toList := by
  cases hi : snapshot.topologyVersions[i]? with
  | none =>
    rw [hi] at h
    exact absurd h (by simp)
  | some v =>
    exact ⟨v, ExtTreeMap.mem_toList_iff_getElem?_eq_some.mpr
      (foldl_instanceVersions snapshot.placements snapshot.topologyVersions i v hi)⟩

/-- after a restart an instance was renewed, or the store never allocated a version for it -/
theorem restore_topology (hs : LawfulStore store stored) {historyLimit : Nat}
    {hl : 0 < historyLimit} {s s' : σ} {inner : Inner p}
    (hr : restore p store historyLimit hl s = (.ok inner, s')) (i : Nat) :
    (inner.topology i = .default ∧ stored s i = 0) ∨
    Renewed stored s s' (inner.topology i) i := by
  obtain ⟨snapshot, s1, topologies, hload, ht, hi⟩ := restore_cases hr
  have hmono : ∀ j, stored s j ≤ stored s1 j := by
    intro j
    have h := hs.load_mono s j
    rwa [hload] at h
  have htop : inner.topology i = (topologies[i]?).getD .default := by
    rw [hi]
    rfl
  rw [htop]
  rcases restoreTopologies_cases hs _ hmono ht i with ⟨he, hn⟩ | ⟨t, he, hren⟩
  · rw [he]
    refine .inl ⟨by simp, ?_⟩
    have hle := hs.load_versions _ _ _ hload i
    by_contra hne
    have hpos : 0 < snapshot.topologyVersions[i]?.getD 0 := by omega
    obtain ⟨c, hc⟩ := mem_instanceVersions hpos
    exact hn c hc
  · rw [he]
    exact .inr hren

theorem restore_versioned (hs : LawfulStore store stored) {historyLimit : Nat}
    {hl : 0 < historyLimit} {s s' : σ} {inner : Inner p}
    (hr : restore p store historyLimit hl s = (.ok inner, s')) :
    Versioned stored ⟨inner, s'⟩ := by
  refine ⟨?_, ?_, ?_⟩
  · intro i
    rcases restore_topology hs hr i with ⟨h, _⟩ | h
    · rw [show (World.mk inner s').inner.topology i = .default from h]
      exact InstanceTopology.default_linear
    · refine ⟨(inner.topology i).version, ?_⟩
      rw [show (World.mk inner s').inner.topology i = inner.topology i from rfl, h.history]
      rfl
  · intro i
    rcases restore_topology hs hr i with ⟨h, _⟩ | h
    · rw [show (World.mk inner s').inner.topology i = .default from h]
      exact Nat.zero_le _
    · exact h.le
  · intro i hz
    rcases restore_topology hs hr i with ⟨h, _⟩ | h
    · rw [show (World.mk inner s').inner.topology i = .default from h]
      rfl
    · exact h.routes

/-- what an earlier Controller published stays anchored at the restarted one -/
theorem restore_anchored (hs : LawfulStore store stored) {historyLimit : Nat}
    {hl : 0 < historyLimit} {s s' : σ} {inner : Inner p}
    (hr : restore p store historyLimit hl s = (.ok inner, s')) {i v : Nat} {routes : RouteTable}
    (hv : v ≤ stored s i) (hz : v = 0 → routes = ∅) : (inner.topology i).Anchored v routes := by
  rcases restore_topology hs hr i with ⟨h, h0⟩ | h
  · have hv0 : v = 0 := by omega
    rw [h, hz hv0, hv0]
    exact InstanceTopology.default_linear.anchored
  · unfold InstanceTopology.Anchored
    rw [h.history]
    exact Log.Anchored.fresh (hv.trans_lt h.newer) _ _

theorem restore_calls {historyLimit : Nat} {hl : 0 < historyLimit} {s s' : σ}
    {r : Except ControllerStateError (Inner p)}
    (hr : restore p store historyLimit hl s = (r, s')) : StoreCalls store (store.load s).2 s' := by
  unfold restore at hr
  cases hload : store.load s with
  | mk a s1 =>
    rw [hload] at hr
    cases a with
    | error e =>
      simp only [Prod.mk.injEq] at hr
      exact .of_eq hr.2
    | ok snapshot =>
      simp only at hr
      cases ht : restoreTopologies store (instanceVersions snapshot).toList ∅ s1 with
      | mk b s2 =>
        rw [ht] at hr
        have hcalls := restoreTopologies_calls _ ht
        cases b <;> simp only [Prod.mk.injEq] at hr <;> exact hr.2 ▸ hcalls

theorem restore_mono (hs : LawfulStore store stored) {historyLimit : Nat}
    {hl : 0 < historyLimit} {s s' : σ} {r : Except ControllerStateError (Inner p)}
    (hr : restore p store historyLimit hl s = (r, s')) (i : Nat) : stored s i ≤ stored s' i :=
  (hs.load_mono s i).trans ((restore_calls hr).mono hs i)

/-! ## runs with restarts -/

theorem newState_topology (historyLimit : Nat) (h : 0 < historyLimit) (i : Nat) :
    (newState p historyLimit h).topology i = .default := by
  have he : (newState p historyLimit h).topologies[i]? = none := by
    show (∅ : ExtTreeMap Nat InstanceTopology)[i]? = none
    simp
  unfold Inner.topology
  rw [he]
  rfl

theorem reachable_versioned (hs : LawfulStore store stored) {w : World p σ}
    (h : Reachable store w) : Versioned stored w := by
  induction h with
  | new hl hp s =>
    have hd : ∀ i, (newState p hl hp).topology i = .default := newState_topology hl hp
    refine ⟨?_, ?_, ?_⟩
    · intro i
      rw [show (World.mk (newState p hl hp) s).inner.topology i = .default from hd i]
      exact InstanceTopology.default_linear
    · intro i
      rw [show (World.mk (newState p hl hp) s).inner.topology i = .default from hd i]
      exact Nat.zero_le _
    · intro i _
      rw [show (World.mk (newState p hl hp) s).inner.topology i = .default from hd i]
      rfl
  | restored hl hp s s' inner hr => exact restore_versioned hs hr
  | step w op _ ih => exact (Op.run_revised store w op).versioned hs ih

theorem Later.versioned (hs : LawfulStore store stored) {w w' : World p σ}
    (h : Later store w w') (hv : Versioned stored w) : Versioned stored w' := by
  induction h with
  | refl => exact hv
  | step w' op _ ih => exact (Op.run_revised store w' op).versioned hs ih
  | restarted w' limit hl inner s _ hr ih => exact restore_versioned hs hr
  | failedRestart w' limit hl e s _ hr ih =>
    exact ⟨ih.linear, fun i => (ih.le i).trans (restore_mono hs hr i), ih.zero⟩

theorem Later.anchored (hs : LawfulStore store stored) {w w' : World p σ}
    (h : Later store w w') (hv : Versioned stored w) {i v : Nat} {routes : RouteTable}
    (ha : (w.inner.topology i).Anchored v routes) (hz : v = 0 → routes = ∅) :
    (w'.inner.topology i).Anchored v routes := by
  induction h with
  | refl => exact ha
  | step w' op h ih => exact (Op.run_revised store w' op).anchored hs (h.versioned hs hv) ih
  | restarted w' limit hl inner s h hr ih =>
    exact restore_anchored hs hr (ih.le.trans ((h.versioned hs hv).le i)) hz
  | failedRestart w' limit hl e s _ hr ih => exact ih

/-- the empty table of version `0` is anchored in every reachable state -/
theorem reachable_anchored_zero (hs : LawfulStore store stored) {w : World p σ}
    (h : Reachable store w) (i : Nat) : (w.inner.topology i).Anchored 0 ∅ := by
  induction h with
  | new hl hp s =>
    rw [show (World.mk (newState p hl hp) s).inner.topology i = .default from
      newState_topology hl hp i]
    exact InstanceTopology.default_linear.anchored
  | restored hl hp s s' inner hr => exact restore_anchored hs hr (Nat.zero_le _) (fun _ => rfl)
  | step w op hw ih =>
    exact (Op.run_revised store w op).anchored hs (reachable_versioned hs hw) ih

end

end

end ExpertKit.Controller

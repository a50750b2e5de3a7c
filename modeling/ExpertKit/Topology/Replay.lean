import ExpertKit.Controller.History
import ExpertKit.Frontend.Decode

/-!
# Topology: replaying the Controller's messages at the Frontend

Both ends of the topology protocol together.  A Frontend that has installed the routes of a version
`v`, published by this Controller or by an earlier one over the same store, is fed the answer of
`topology_messages` for `v` and ends with the current version and routes.

* `describeTable`        a route table in the Frontend's terms;
* `WireHistory`          every revision of every history is a message the Frontend accepts;
* `Coherent`             the invariants of both ends, kept by operations and restarts;
* `feed_revisions`, `feed_snapshot`   the two kinds of answers;
* `topology_messages_replay`   the replay theorem.
-/

set_option linter.unusedSectionVars false

namespace ExpertKit.Topology
open Std Controller Frontend

section
variable {p : EndpointParsers} {σ : Type}

/-! ## route tables in the Frontend's terms -/

def describeTable (routes : RouteTable) : RouteDescriptions :=
  routes.map fun _ replicas => replicas.map describe

theorem describeTable_applyChange (routes : RouteTable) (c : RouteEntry) :
    describeTable (applyChange routes c) = describeChange (describeTable routes) c := by
  apply ExtTreeMap.ext_getElem?
  intro k
  unfold describeTable applyChange describeChange
  rw [ExtTreeMap.getElem?_map]
  by_cases he : c.replicas.isEmpty
  · rw [if_pos he, if_pos he, Maps.getElem?_erase_eq, Maps.getElem?_erase_eq,
      ExtTreeMap.getElem?_map]
    split_ifs <;> rfl
  · rw [if_neg he, if_neg he, Maps.getElem?_insert_eq, Maps.getElem?_insert_eq,
      ExtTreeMap.getElem?_map]
    split_ifs <;> rfl

theorem describeTable_foldl (changes : List RouteEntry) (routes : RouteTable) :
    describeTable (changes.foldl applyChange routes)
      = changes.foldl describeChange (describeTable routes) := by
  induction changes generalizing routes with
  | nil => rfl
  | cons c changes ih => rw [List.foldl_cons, List.foldl_cons, ih, describeTable_applyChange]

/-- the entries of a snapshot -/
def routeEntries (routes : RouteTable) : List RouteEntry :=
  routes.toList.map fun e => ⟨e.1.layerId, e.1.expertId, e.2⟩

theorem decodedTable_routeEntries (routes : RouteTable) :
    decodedTable ∅ (routeEntries routes) = describeTable routes := by
  unfold decodedTable routeEntries Maps.insertAll
  rw [List.foldl_map]
  exact Maps.insertAll_toList routes (List.map describe)

theorem mem_routeEntries {routes : RouteTable} {e : RouteEntry} (h : e ∈ routeEntries routes) :
    routes[e.key]? = some e.replicas := by
  unfold routeEntries at h
  rw [List.mem_map] at h
  obtain ⟨⟨k, l⟩, hm, rfl⟩ := h
  exact ExtTreeMap.mem_toList_iff_getElem?_eq_some.mp hm

theorem routeEntries_distinct (routes : RouteTable) :
    (routeEntries routes).Pairwise fun a b => a.key ≠ b.key := by
  unfold routeEntries
  rw [List.pairwise_map]
  refine (ExtTreeMap.distinct_keys_toList (t := routes)).imp ?_
  intro a b hne e
  exact hne (Std.compare_eq_iff_eq.mpr e)

/-! ## what the Controller puts on the wire -/

theorem workerRoute_valid (w : WorkerRecord p) (hp : p.NeedsHost) : ValidReplica (workerRoute w) := by
  obtain ⟨h1, h2, h3, h4, _, h5, h6, h7, h8⟩ := w.registration.spec hp
  exact ⟨h1, h2, h3, h4, h5, h6, h7, h8⟩

/-- entries whose replicas are the current ones of a single state -/
theorem wireEntries_of_current {inner : Inner p} (hk : Keyed inner) (hp : p.NeedsHost) {i : Nat}
    {entries : List RouteEntry} (hd : entries.Pairwise fun a b => a.key ≠ b.key)
    (hc : ∀ e ∈ entries, e.replicas = currentReplicas inner i e.key) : WireEntries entries := by
  refine ⟨hd, ?_, ?_, ?_⟩
  · intro e he r hr
    rw [hc e he, mem_currentReplicas] at hr
    obtain ⟨id, w, _, _, rfl⟩ := hr
    exact workerRoute_valid w hp
  · intro e he
    rw [hc e he]
    refine (currentReplicas_sorted hk i e.key).imp ?_
    intro a b hlt heq
    rw [heq] at hlt
    exact lt_irrefl _ hlt
  · intro e he f hf a ha b hb hab
    rw [hc e he, mem_currentReplicas] at ha
    rw [hc f hf, mem_currentReplicas] at hb
    obtain ⟨id, w, hw, _, rfl⟩ := ha
    obtain ⟨id', w', hw', _, rfl⟩ := hb
    have hid : id = id' := by
      rw [← hk id w hw, ← hk id' w' hw']
      exact hab
    subst hid
    rw [hw] at hw'
    rw [Option.some.inj hw']

/-- every revision of every history is a message the Frontend accepts -/
def WireHistory (inner : Inner p) : Prop :=
  ∀ i, ∀ revision ∈ (inner.topology i).history,
    WireEntries revision.changes ∧ revision.changes ≠ []

theorem revised_wireHistory {store : ControllerStateStore σ} {w w' : World p σ}
    (h : Revised store w w') (hp : p.NeedsHost) (hk : Keyed w.inner) (hw : WireHistory w.inner) :
    WireHistory w'.inner := by
  rcases h with ⟨ht, _⟩ | ⟨mid, s1, i, v, affected, hone, hmid, _, _, hc, ht⟩
  · intro j
    rw [topology_congr ht j]
    exact hw j
  · intro j revision hr
    rw [topology_congr ht j, topology_published] at hr
    by_cases e : i = j
    · subst e
      rw [if_pos rfl, topology_congr hmid i] at hr
      rcases List.mem_append.mp (List.mem_of_mem_drop hr) with hr | hr
      · exact hw i revision hr
      · rw [List.mem_singleton] at hr
        rw [hr]
        refine ⟨?_, hc⟩
        exact wireEntries_of_current (hone.keyed hk) hp (routeChanges_distinct mid i affected)
          fun c hm => (mem_routeChanges hm).2
    · rw [if_neg e, topology_congr hmid j] at hr
      exact hw j revision hr

/-! ## the invariants of both ends -/

structure Coherent (stored : σ → Nat → Nat) (w : World p σ) : Prop where
  keyed : Keyed w.inner
  tight : Tight w.inner
  versioned : Versioned stored w
  wire : WireHistory w.inner

section
variable {store : ControllerStateStore σ} {stored : σ → Nat → Nat}

theorem wireHistory_of_nil {inner : Inner p} (h : ∀ i, (inner.topology i).history = []) :
    WireHistory inner := by
  intro i revision hr
  rw [h i] at hr
  cases hr

theorem restore_coherent (hs : LawfulStore store stored) {historyLimit : Nat}
    {hl : 0 < historyLimit} {s s' : σ} {inner : Inner p}
    (hr : restore p store historyLimit hl s = (.ok inner, s')) : Coherent stored ⟨inner, s'⟩ := by
  refine ⟨?_, restore_tight hr, restore_versioned hs hr, ?_⟩
  · exact reachable_keyed (.restored historyLimit hl s s' inner hr)
  · apply wireHistory_of_nil
    intro i
    rcases restore_topology hs hr i with ⟨h, _⟩ | h
    · rw [show (World.mk inner s').inner.topology i = .default from h]
      rfl
    · exact h.history

theorem step_coherent (hs : LawfulStore store stored) (hp : p.NeedsHost) {w : World p σ} (op : Op)
    (h : Coherent stored w) : Coherent stored (op.run store w) :=
  ⟨(Op.run_oneRecord store w op).keyed h.keyed, Op.run_tight store w op h.tight,
    (Op.run_revised store w op).versioned hs h.versioned,
    revised_wireHistory (Op.run_revised store w op) hp h.keyed h.wire⟩

theorem reachable_coherent (hs : LawfulStore store stored) (hp : p.NeedsHost) {w : World p σ}
    (h : Reachable store w) : Coherent stored w := by
  induction h with
  | new hl hpos s =>
    have hnew : Reachable store ⟨newState p hl hpos, s⟩ := .new hl hpos s
    refine ⟨reachable_keyed hnew, reachable_tight hnew, reachable_versioned hs hnew, ?_⟩
    apply wireHistory_of_nil
    intro i
    rw [show (World.mk (newState p hl hpos) s).inner.topology i = .default from
      newState_topology hl hpos i]
    rfl
  | restored hl hpos s s' inner hr => exact restore_coherent hs hr
  | step w op _ ih => exact step_coherent hs hp op ih

theorem later_coherent (hs : LawfulStore store stored) (hp : p.NeedsHost) {w w' : World p σ}
    (h : Later store w w') (hc : Coherent stored w) : Coherent stored w' := by
  induction h with
  | refl => exact hc
  | step w' op _ ih => exact step_coherent hs hp op ih
  | restarted w' limit hl inner s _ hr ih => exact restore_coherent hs hr
  | failedRestart w' limit hl e s h hr ih =>
    exact ⟨ih.keyed, ih.tight, (Later.failedRestart w' limit hl e s h hr).versioned hs
      hc.versioned, ih.wire⟩

end

/-! ## the two kinds of answers -/

/-- every key of the topology lies in the client's model -/
structure WithinModel (t : InstanceTopology) (numLayers expertsPerLayer : Nat) : Prop where
  routes : ∀ k ∈ t.routes, InModel numLayers expertsPerLayer k
  changes : ∀ revision ∈ t.history, ∀ c ∈ revision.changes, InModel numLayers expertsPerLayer c.key

theorem withinModel_of_all {t : InstanceTopology} {numLayers expertsPerLayer : Nat}
    (h : (t.routes.keys.all fun k => decide (InModel numLayers expertsPerLayer k)) &&
      (t.history.all fun r => r.changes.all fun c =>
        decide (InModel numLayers expertsPerLayer c.key))) :
    WithinModel t numLayers expertsPerLayer := by
  rw [Bool.and_eq_true, List.all_eq_true, List.all_eq_true] at h
  refine ⟨?_, ?_⟩
  · intro k hk
    exact of_decide_eq_true (h.1 k (ExtTreeMap.mem_keys.mpr hk))
  · intro r hr c hc
    exact of_decide_eq_true (List.all_eq_true.mp (h.2 r hr) c hc)

/-- a Frontend of the instance that has installed these routes under this version -/
def viewAt (instanceId numLayers expertsPerLayer version : Nat) (routes : RouteDescriptions) : View :=
  ⟨⟨instanceId, numLayers, expertsPerLayer, none⟩, version, routes⟩

/-- the described routes after one more revision -/
def describeRevision (descriptions : RouteDescriptions) (revision : TopologyRevision) :
    RouteDescriptions :=
  revision.changes.foldl describeChange descriptions

theorem describeTable_revisions (revisions : List TopologyRevision) (routes : RouteTable) :
    describeTable (revisions.foldl TopologyRevision.apply routes)
      = revisions.foldl describeRevision (describeTable routes) := by
  induction revisions generalizing routes with
  | nil => rfl
  | cons r revisions ih =>
    have hr : describeTable (TopologyRevision.apply routes r)
        = describeRevision (describeTable routes) r := describeTable_foldl r.changes routes
    rw [List.foldl_cons, List.foldl_cons, ih, hr]

theorem updateMessages_eq (i : Nat) (r : TopologyRevision) :
    updateMessages i r = messageParts i (some r.previousVersion) r.topologyVersion r.changes := rfl

/-- a chain of revisions that starts at the installed version, whatever routes are installed -/
theorem feed_revisions (i : Nat) {numLayers expertsPerLayer v b : Nat}
    (descriptions : RouteDescriptions) {revisions : List TopologyRevision}
    (hc : Log.Chain TopologyRevision.previousVersion TopologyRevision.topologyVersion v revisions b)
    (hw : ∀ r ∈ revisions, WireEntries r.changes ∧ r.changes ≠ [])
    (hb : ∀ r ∈ revisions, ∀ c ∈ r.changes, InModel numLayers expertsPerLayer c.key) :
    (viewAt i numLayers expertsPerLayer v descriptions).feed (revisions.flatMap (updateMessages i))
      = .ok (viewAt i numLayers expertsPerLayer b
          (revisions.foldl describeRevision descriptions)) := by
  induction revisions generalizing v descriptions with
  | nil =>
    have e : v = b := hc
    rw [e]
    rfl
  | cons r revisions ih =>
    obtain ⟨hprev, hlt, hrest⟩ := hc
    obtain ⟨hwire, hne⟩ := hw r List.mem_cons_self
    have hone : (viewAt i numLayers expertsPerLayer v descriptions).feed (updateMessages i r)
        = .ok (viewAt i numLayers expertsPerLayer r.topologyVersion
            (describeRevision descriptions r)) := by
      have hmodel := hb r List.mem_cons_self
      have hcomplete : completeMessage ⟨i, numLayers, expertsPerLayer, none⟩ (some v)
          r.topologyVersion r.changes v descriptions
          = .ok (r.topologyVersion, describeRevision descriptions r) :=
        completeUpdate_ok hwire hmodel hne hlt
      have hcount : Parts.partCount maxControlEntriesPerPart r.changes.length
          ≤ maxParts (viewAt i numLayers expertsPerLayer v descriptions).messages :=
        partCount_le_maxParts hwire.distinct hmodel
      rw [updateMessages_eq, hprev]
      exact feed_messageParts rfl hcount hcomplete
    rw [List.flatMap_cons, View.feed_append, hone]
    exact ih _ hrest (fun r' hr' => hw r' (List.mem_cons_of_mem _ hr'))
      (fun r' hr' => hb r' (List.mem_cons_of_mem _ hr'))

theorem feed_snapshot {i numLayers expertsPerLayer : Nat} {t : InstanceTopology} {v : Nat}
    {descriptions : RouteDescriptions} (hw : WireEntries (routeEntries t.routes))
    (hne : ∀ k : ExpertKey, t.routes[k]? ≠ some [])
    (hb : ∀ k ∈ t.routes, InModel numLayers expertsPerLayer k) (hv : v ≤ t.version)
    (hzero : t.version = 0 → t.routes = ∅)
    (hsame : t.version = v → describeTable t.routes = descriptions) :
    (viewAt i numLayers expertsPerLayer v descriptions).feed (snapshotMessages i t)
      = .ok (viewAt i numLayers expertsPerLayer t.version (describeTable t.routes)) := by
  have hmodel : ∀ e ∈ routeEntries t.routes, InModel numLayers expertsPerLayer e.key := by
    intro e he
    exact hb _ (Maps.mem_of_getElem? (mem_routeEntries he))
  have hcomplete : completeMessage ⟨i, numLayers, expertsPerLayer, none⟩ none t.version
      (routeEntries t.routes) v descriptions
      = .ok (t.version, decodedTable ∅ (routeEntries t.routes)) := by
    refine completeSnapshot_ok hw hmodel ?_ hv ?_ ?_
    · intro e he hnil
      exact hne e.key (by rw [mem_routeEntries he, hnil])
    · intro h0
      rw [hzero h0]
      simp [routeEntries]
    · intro h
      rw [decodedTable_routeEntries, hsame h]
  have hcount : Parts.partCount maxControlEntriesPerPart (routeEntries t.routes).length
      ≤ maxParts (viewAt i numLayers expertsPerLayer v descriptions).messages :=
    partCount_le_maxParts (routeEntries_distinct t.routes) hmodel
  have hfeed := feed_messageParts rfl hcount hcomplete
  rw [decodedTable_routeEntries] at hfeed
  exact hfeed

/-! ## the replay -/

/-- the snapshot of a coherent state is a message the Frontend accepts -/
theorem coherent_snapshot {stored : σ → Nat → Nat} {w : World p σ} (h : Coherent stored w)
    (hp : p.NeedsHost) (i : Nat) :
    WireEntries (routeEntries (w.inner.topology i).routes) ∧
      ∀ k : ExpertKey, (w.inner.topology i).routes[k]? ≠ some [] := by
  rw [topology_routes]
  refine ⟨?_, h.tight.1 i⟩
  refine wireEntries_of_current h.keyed hp (i := i) (routeEntries_distinct _) ?_
  intro e he
  rw [← h.tight.2 i e.key, publishedReplicas_eq, mem_routeEntries he]
  rfl

/-- feeding the answer for an anchored version leads to the current version and routes -/
theorem replay_of_anchored {stored : σ → Nat → Nat} {w : World p σ} (h : Coherent stored w)
    (hp : p.NeedsHost) {i v : Nat} {routes : RouteTable}
    (ha : (w.inner.topology i).Anchored v routes) {numLayers expertsPerLayer : Nat}
    (hb : WithinModel (w.inner.topology i) numLayers expertsPerLayer) :
    ∃ messages, topologyMessages w.inner i v = .ok messages ∧
      (viewAt i numLayers expertsPerLayer v (describeTable routes)).feed messages
        = .ok (viewAt i numLayers expertsPerLayer (w.inner.topology i).version
            (describeTable (w.inner.topology i).routes)) := by
  obtain ⟨hwire, hne⟩ := coherent_snapshot h hp i
  have hsame : (w.inner.topology i).version = v → (w.inner.topology i).routes = routes :=
    fun e => (ha.replay _ [] (List.append_nil _).symm e).symm
  rcases topologyMessages_cases (h.versioned.linear i) ha.le with
    ⟨hm, hv⟩ | ⟨l, r, rest, hl, hr, hchain, hm⟩ | ⟨hm, _⟩
  · refine ⟨[], hm, ?_⟩
    rw [hsame hv.symm, hv]
    rfl
  · refine ⟨_, hm, ?_⟩
    have hmem : ∀ x ∈ r :: rest, x ∈ (w.inner.topology i).history := by
      intro x hx
      rw [hl]
      exact List.mem_append_right _ hx
    rw [feed_revisions i (describeTable routes) hchain (fun x hx => h.wire i x (hmem x hx))
      (fun x hx => hb.changes x (hmem x hx)), ← describeTable_revisions,
      ha.replay l (r :: rest) hl hr]
  · refine ⟨_, hm, ?_⟩
    exact feed_snapshot hwire hne hb.routes ha.le (h.versioned.zero i) fun e => by rw [hsame e]

/-- the Controller published these routes under this version; every Frontend starts at `0` -/
def Published (w : World p σ) (i v : Nat) (routes : RouteTable) : Prop :=
  (v = w.inner.topologyVersion i ∧ routes = w.inner.routes i) ∨ (v = 0 ∧ routes = ∅)

theorem topology_messages_replay {store : ControllerStateStore σ} {stored : σ → Nat → Nat}
    (hs : LawfulStore store stored) (hp : p.NeedsHost) {w1 w2 : World p σ}
    (h1 : Reachable store w1) (h : Later store w1 w2) {i v : Nat} {routes : RouteTable}
    (hv : Published w1 i v routes) {numLayers expertsPerLayer : Nat}
    (hb : WithinModel (w2.inner.topology i) numLayers expertsPerLayer) :
    ∃ messages, topologyMessages w2.inner i v = .ok messages ∧
      (viewAt i numLayers expertsPerLayer v (describeTable routes)).feed messages
        = .ok (viewAt i numLayers expertsPerLayer (w2.inner.topologyVersion i)
            (describeTable (w2.inner.routes i))) := by
  have hc1 := reachable_coherent hs hp h1
  have hc2 := later_coherent hs hp h hc1
  have ha : (w2.inner.topology i).Anchored v routes := by
    rcases hv with ⟨hver, hrou⟩ | ⟨hver, hrou⟩
    · have ha1 : (w1.inner.topology i).Anchored v routes := by
        rw [hver, hrou, ← topology_version, ← topology_routes]
        exact (hc1.versioned.linear i).anchored
      refine h.anchored hs hc1.versioned ha1 ?_
      intro h0
      rw [hrou, ← topology_routes]
      exact hc1.versioned.zero i (by rw [topology_version, ← hver, h0])
    · rw [hver, hrou]
      exact h.anchored hs hc1.versioned (reachable_anchored_zero hs h1 i) (fun _ => rfl)
  rw [← topology_version, ← topology_routes]
  exact replay_of_anchored hc2 hp ha hb

end

/-- the first of the two reports of `twoReady` has been applied -/
def oneReady : World Fixture.parsers ControllerStoreSnapshot :=
  runOps TransientControllerStateStore Fixture.start
    (Fixture.registerLive "worker-1" "start-0" 1 ++ Fixture.registerLive "worker-0" "start-0" 2 ++
      [.setTargets "worker-1" "start-0" [Fixture.target 1 2],
        .setTargets "worker-0" "start-0" [Fixture.target 1 2],
        .applyStateReport "worker-1" "start-0" 1 1 true [Fixture.ready 1 2]])

theorem twoReady_later : Later TransientControllerStateStore oneReady Fixture.twoReady :=
  .step oneReady (.applyStateReport "worker-0" "start-0" 1 1 true [Fixture.ready 1 2]) .refl

theorem topology_messages_replay_twoReady :
    oneReady.inner.topologyVersion 7 = 1 ∧ Fixture.twoReady.inner.topologyVersion 7 = 2 ∧
      ∃ messages, topologyMessages Fixture.twoReady.inner 7 1 = .ok messages ∧
        (viewAt 7 4 8 1 (describeTable (oneReady.inner.routes 7))).feed messages
          = .ok (viewAt 7 4 8 (Fixture.twoReady.inner.topologyVersion 7)
              (describeTable (Fixture.twoReady.inner.routes 7))) :=
  ⟨by decide +kernel, by decide +kernel,
    topology_messages_replay transient_lawful Fixture.parsers_needsHost
      (Fixture.start_reachable.runOps _) twoReady_later
      (.inl ⟨by decide +kernel, rfl⟩) (withinModel_of_all (by decide +kernel))⟩

end ExpertKit.Topology

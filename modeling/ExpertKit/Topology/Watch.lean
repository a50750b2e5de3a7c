import ExpertKit.Topology.Replay

/-!
# Topology: the watch loop of the Controller

The loop of `watch_topology` (`ek-computation/src/controller/service/topology.rs`) reads the newest
version under one lock and the messages under another, sends the messages, and remembers the newest
version it read FIRST.  Any operation may run between the two reads.

* `Watch`, `Action`, `Watch.step`   the loop as a state machine beside the Controller;
* `GapFree v sent`        every update of the stream joins the last complete message before it, and
                          no snapshot is older than it;
* `Quiet`                 no publication of the watched instance lands between the two reads;
* `watch_gapFree`         quiet runs are gap-free, and the Frontend accepts the whole stream;
* `watch_publish_between_reads`   one publication between the reads sends an update twice.
-/

set_option linter.unusedSectionVars false

namespace ExpertKit.Topology
open Std Controller Frontend

/-! ## the loop -/

inductive WatchPc where
  | loop
  | haveNewest (newest : Nat)
  | ended
deriving DecidableEq, Repr

structure Watch (p : EndpointParsers) (σ : Type) where
  world : World p σ
  pc : WatchPc
  installedVersion : Nat
  sentInitial : Bool
  sent : List TopologyMessage

inductive Action where
  | op (op : Op)
  | readVersion
  | readMessages
deriving DecidableEq, Repr

section
variable {p : EndpointParsers} {σ : Type}

/-- the stream just after the request was accepted -/
def Watch.start (world : World p σ) (currentVersion : Nat) : Watch p σ :=
  ⟨world, .loop, currentVersion, false, []⟩

/-- one step of the Controller or of the loop; a step that is not enabled does nothing -/
def Watch.step (store : ControllerStateStore σ) (instanceId : Nat) (s : Watch p σ) :
    Action → Watch p σ
  | .op op => { s with world := op.run store s.world }
  | .readVersion =>
    match s.pc with
    | .loop =>
      let newest := s.world.inner.topologyVersion instanceId
      if !s.sentInitial || decide (s.installedVersion < newest) then
        { s with pc := .haveNewest newest }
      else s
    | _ => s
  | .readMessages =>
    match s.pc with
    | .haveNewest newest =>
      match topologyMessages s.world.inner instanceId s.installedVersion with
      | .error _ => { s with pc := .ended }
      | .ok messages =>
        { s with
          pc := .loop, installedVersion := newest, sentInitial := true
          sent := s.sent ++ messages }
    | _ => s

def Watch.run (store : ControllerStateStore σ) (instanceId : Nat) (s : Watch p σ)
    (actions : List Action) : Watch p σ :=
  actions.foldl (Watch.step store instanceId) s

/-! ## gaps -/

/-- what a part says about the versions it leads between -/
structure Span where
  previous : Option Nat
  version : Nat
  last : Bool

def spanOf : TopologyMessage → Option Span
  | .snapshot part => some ⟨none, part.topologyVersion, part.partIndex + 1 == part.partCount⟩
  | .update part =>
    some ⟨some part.previousVersion, part.topologyVersion, part.partIndex + 1 == part.partCount⟩
  | .unset => none

/-- the part continues a stream whose last complete message has version `v` -/
def joins (v : Nat) (s : Span) : Bool :=
  match s.previous with
  | some previous => previous == v
  | none => decide (v ≤ s.version)

/-- the version of the last complete message, after this part -/
def covered (v : Nat) (m : TopologyMessage) : Nat :=
  match spanOf m with
  | some s => if s.last then s.version else v
  | none => v

def gapFree (v : Nat) : List TopologyMessage → Bool
  | [] => true
  | m :: rest => (spanOf m).any (joins v) && gapFree (covered v m) rest

/-- every update joins the last complete message before it (at first the requested version `v`),
every snapshot is at least as new -/
def GapFree (v : Nat) (sent : List TopologyMessage) : Prop := gapFree v sent = true

theorem gapFree_append (v : Nat) (a b : List TopologyMessage) :
    GapFree v (a ++ b) ↔ GapFree v a ∧ GapFree (a.foldl covered v) b := by
  unfold GapFree
  induction a generalizing v with
  | nil => simp [gapFree]
  | cons m a ih =>
    rw [List.cons_append, gapFree, gapFree, Bool.and_eq_true, Bool.and_eq_true, ih, and_assoc]
    rfl

theorem spanOf_messagePart (i : Nat) (previous : Option Nat) (version j n : Nat)
    (part : List RouteEntry) :
    spanOf (messagePart i previous version j n part) = some ⟨previous, version, j + 1 == n⟩ := by
  cases previous <;> rfl

/-- the parts of one message that joins `v` lead the stream to the version of the message -/
theorem messageParts_gapFree (i : Nat) (entries : List RouteEntry) {v version : Nat}
    {previous : Option Nat} (hj : ∀ last, joins v ⟨previous, version, last⟩ = true) :
    GapFree v (messageParts i previous version entries) ∧
      (messageParts i previous version entries).foldl covered v = version := by
  obtain ⟨m, hm⟩ : ∃ m, Parts.partCount maxControlEntriesPerPart entries.length = m + 1 :=
    ⟨_, (Nat.succ_pred_eq_of_pos (Parts.partCount_pos _ _)).symm⟩
  unfold messageParts Parts.multipart
  rw [hm]
  let part := fun j => messagePart i previous version j (m + 1)
    (Parts.slice maxControlEntriesPerPart entries j)
  have hone : ∀ j, GapFree v [part j] := by
    intro j
    show ((spanOf (messagePart i previous version j (m + 1) _)).any (joins v) && true) = true
    rw [spanOf_messagePart, Bool.and_true]
    exact hj _
  have hcov : ∀ j, covered v (part j) = if j = m then version else v := by
    intro j
    show (match spanOf (messagePart i previous version j (m + 1) _) with
      | some s => if s.last then s.version else v
      | none => v) = _
    rw [spanOf_messagePart]
    by_cases e : j = m <;> simp [e]
  have hpre : ∀ k ≤ m, GapFree v ((List.range k).map part) ∧
      ((List.range k).map part).foldl covered v = v := by
    intro k hk
    induction k with
    | zero => exact ⟨rfl, rfl⟩
    | succ k ih =>
      obtain ⟨h1, h2⟩ := ih (by omega)
      rw [List.range_succ, List.map_append, gapFree_append, List.foldl_append, h2]
      refine ⟨⟨h1, hone k⟩, ?_⟩
      show covered v (part k) = v
      rw [hcov, if_neg (by omega)]
  obtain ⟨h1, h2⟩ := hpre m (Nat.le_refl m)
  have hsplit : (List.range (m + 1)).map part = (List.range m).map part ++ [part m] := by
    rw [List.range_succ, List.map_append]
    rfl
  show GapFree v ((List.range (m + 1)).map part) ∧
    ((List.range (m + 1)).map part).foldl covered v = version
  rw [hsplit, gapFree_append, List.foldl_append, h2]
  refine ⟨⟨h1, hone m⟩, ?_⟩
  show covered v (part m) = version
  rw [hcov, if_pos rfl]

theorem revisions_gapFree {i v b : Nat} {revisions : List TopologyRevision}
    (hc : Log.Chain TopologyRevision.previousVersion TopologyRevision.topologyVersion v revisions
      b) :
    GapFree v (revisions.flatMap (updateMessages i)) ∧
      (revisions.flatMap (updateMessages i)).foldl covered v = b := by
  induction revisions generalizing v with
  | nil => exact ⟨rfl, hc⟩
  | cons r revisions ih =>
    obtain ⟨hprev, _, hrest⟩ := hc
    have hjoin : ∀ last, joins v ⟨some r.previousVersion, r.topologyVersion, last⟩ = true :=
      fun _ => beq_iff_eq.mpr hprev
    obtain ⟨h1, h2⟩ := messageParts_gapFree i r.changes hjoin
    obtain ⟨h3, h4⟩ := ih hrest
    rw [List.flatMap_cons, gapFree_append, List.foldl_append, updateMessages_eq, h2]
    exact ⟨⟨h1, h3⟩, h4⟩

/-! ## one answer -/

/-- an answer joins the version it was asked for, ends at the current version, and is accepted by
a Frontend at that version -/
theorem answer_ok {stored : σ → Nat → Nat} {w : World p σ} (h : Coherent stored w)
    (hp : p.NeedsHost) {i v numLayers expertsPerLayer : Nat}
    (hv : v ≤ (w.inner.topology i).version)
    (hb : WithinModel (w.inner.topology i) numLayers expertsPerLayer)
    {descriptions : RouteDescriptions} (hz : v = 0 → descriptions = ∅) :
    ∃ messages descriptions', topologyMessages w.inner i v = .ok messages ∧
      GapFree v messages ∧ messages.foldl covered v = (w.inner.topology i).version ∧
      (viewAt i numLayers expertsPerLayer v descriptions).feed messages
        = .ok (viewAt i numLayers expertsPerLayer (w.inner.topology i).version descriptions') ∧
      ((w.inner.topology i).version = 0 → descriptions' = ∅) := by
  obtain ⟨hwire, hne⟩ := coherent_snapshot h hp i
  have hzero := h.versioned.zero i
  rcases topologyMessages_cases (h.versioned.linear i) hv with
    ⟨hm, hv'⟩ | ⟨l, r, rest, hl, hr, hchain, hm⟩ | ⟨hm, hlt⟩
  · refine ⟨[], descriptions, hm, rfl, hv', ?_, fun e => hz (hv'.trans e)⟩
    rw [← hv']
    rfl
  · obtain ⟨h1, h2⟩ := revisions_gapFree (i := i) hchain
    have hmem : ∀ x ∈ r :: rest, x ∈ (w.inner.topology i).history := by
      intro x hx
      rw [hl]
      exact List.mem_append_right _ hx
    refine ⟨_, _, hm, h1, h2, feed_revisions i descriptions hchain
      (fun x hx => h.wire i x (hmem x hx)) (fun x hx => hb.changes x (hmem x hx)), ?_⟩
    intro e
    have hpos := hchain.2.1
    have hle := hchain.2.2.le
    omega
  · have hjoin : ∀ last, joins v ⟨none, (w.inner.topology i).version, last⟩ = true :=
      fun _ => decide_eq_true hv
    obtain ⟨h1, h2⟩ := messageParts_gapFree i (routeEntries (w.inner.topology i).routes) hjoin
    refine ⟨_, _, hm, h1, h2, feed_snapshot hwire hne hb.routes hv hzero ?_, ?_⟩
    · intro e
      rcases hlt with hlt | hd
      · omega
      · rw [hd] at e
        rw [hd, hz e.symm]
        simp [describeTable, InstanceTopology.default]
    · intro e
      rw [hzero e]
      simp [describeTable]

/-! ## quiet runs -/

/-- no operation between the two reads of one iteration publishes for the instance -/
def Quiet (store : ControllerStateStore σ) (instanceId : Nat) (s : Watch p σ) : Action → Prop
  | .op op => ∀ newest, s.pc = .haveNewest newest →
    (op.run store s.world).inner.topologyVersion instanceId
      = s.world.inner.topologyVersion instanceId
  | _ => True

/-- the keys of an answer lie in the client's model -/
def KeysWithin (instanceId numLayers expertsPerLayer : Nat) (s : Watch p σ) : Action → Prop
  | .readMessages => WithinModel (s.world.inner.topology instanceId) numLayers expertsPerLayer
  | _ => True

inductive QuietRun (store : ControllerStateStore σ) (instanceId numLayers expertsPerLayer : Nat)
    (s : Watch p σ) : Watch p σ → Prop where
  | refl : QuietRun store instanceId numLayers expertsPerLayer s s
  | step (s' : Watch p σ) (a : Action)
      (h : QuietRun store instanceId numLayers expertsPerLayer s s')
      (hq : Quiet store instanceId s' a)
      (hk : KeysWithin instanceId numLayers expertsPerLayer s' a) :
      QuietRun store instanceId numLayers expertsPerLayer s (s'.step store instanceId a)

/-- every action of the list meets both conditions where it is taken -/
def QuietActions (store : ControllerStateStore σ) (instanceId numLayers expertsPerLayer : Nat) :
    Watch p σ → List Action → Prop
  | _, [] => True
  | s, a :: rest =>
    (Quiet store instanceId s a ∧ KeysWithin instanceId numLayers expertsPerLayer s a) ∧
      QuietActions store instanceId numLayers expertsPerLayer (s.step store instanceId a) rest

theorem QuietRun.run {store : ControllerStateStore σ} {i numLayers expertsPerLayer : Nat}
    {s0 s : Watch p σ} (h : QuietRun store i numLayers expertsPerLayer s0 s)
    (actions : List Action) (ha : QuietActions store i numLayers expertsPerLayer s actions) :
    QuietRun store i numLayers expertsPerLayer s0 (s.run store i actions) := by
  induction actions generalizing s with
  | nil => exact h
  | cons a actions ih => exact ih (.step s a h ha.1.1 ha.1.2) ha.2

/-- the stream is gap-free so far and ends at the remembered version -/
structure WatchInv (stored : σ → Nat → Nat) (i numLayers expertsPerLayer v : Nat)
    (descriptions : RouteDescriptions) (s : Watch p σ) : Prop where
  coherent : Coherent stored s.world
  le : s.installedVersion ≤ (s.world.inner.topology i).version
  newest : ∀ n, s.pc = .haveNewest n → n = (s.world.inner.topology i).version
  gapFree : GapFree v s.sent
  covered : s.sent.foldl covered v = s.installedVersion
  accepted : ∃ descriptions',
    (viewAt i numLayers expertsPerLayer v descriptions).feed s.sent
      = .ok (viewAt i numLayers expertsPerLayer s.installedVersion descriptions') ∧
    (s.installedVersion = 0 → descriptions' = ∅)

section
variable {store : ControllerStateStore σ} {stored : σ → Nat → Nat}

theorem version_mono (hs : LawfulStore store stored) {w : World p σ} (h : Versioned stored w)
    (op : Op) (i : Nat) :
    (w.inner.topology i).version ≤ ((op.run store w).inner.topology i).version := by
  rcases (Op.run_revised store w op).topology hs i with ⟨ht, _⟩ | ⟨_, v, _, hlt, _, ht⟩
  · rw [ht]
  · rw [ht]
    exact Nat.le_of_lt ((h.le i).trans_lt hlt)

theorem watch_step_inv (hs : LawfulStore store stored) (hp : p.NeedsHost)
    {i numLayers expertsPerLayer v : Nat} {descriptions : RouteDescriptions} {s : Watch p σ}
    (h : WatchInv stored i numLayers expertsPerLayer v descriptions s) (a : Action)
    (hq : Quiet store i s a) (hk : KeysWithin i numLayers expertsPerLayer s a) :
    WatchInv stored i numLayers expertsPerLayer v descriptions (s.step store i a) := by
  cases a with
  | op op =>
    refine ⟨step_coherent hs hp op h.coherent,
      h.le.trans (version_mono hs h.coherent.versioned op i), ?_, h.gapFree, h.covered, h.accepted⟩
    intro n hn
    rw [h.newest n hn, topology_version, ← hq n hn, ← topology_version]
    rfl
  | readVersion =>
    unfold Watch.step
    cases hpc : s.pc with
    | loop =>
      simp only
      split_ifs
      · refine ⟨h.coherent, h.le, ?_, h.gapFree, h.covered, h.accepted⟩
        intro n hn
        simp only [WatchPc.haveNewest.injEq] at hn
        rw [← hn, topology_version]
      · exact h
    | haveNewest newest => exact h
    | ended => exact h
  | readMessages =>
    unfold Watch.step
    cases hpc : s.pc with
    | loop => exact h
    | ended => exact h
    | haveNewest newest =>
      obtain ⟨d, hfeed, hz⟩ := h.accepted
      obtain ⟨messages, d', hm, hgap, hcov, hans, hz'⟩ := answer_ok h.coherent hp h.le hk hz
      have hn := h.newest newest hpc
      simp only [hm]
      refine ⟨h.coherent, ?_, ?_, ?_, ?_, d', ?_, ?_⟩
      · show newest ≤ _
        rw [hn]
      · intro n hn'
        cases hn'
      · show GapFree v (s.sent ++ messages)
        rw [gapFree_append, h.covered]
        exact ⟨h.gapFree, hgap⟩
      · show (s.sent ++ messages).foldl Topology.covered v = newest
        rw [List.foldl_append, h.covered, hcov, hn]
      · show (viewAt i numLayers expertsPerLayer v descriptions).feed (s.sent ++ messages)
          = .ok (viewAt i numLayers expertsPerLayer newest d')
        rw [View.feed_append, hfeed, hn]
        exact hans
      · intro e
        exact hz' (hn ▸ e)

theorem watch_gapFree (hs : LawfulStore store stored) (hp : p.NeedsHost) {w : World p σ}
    (hw : Reachable store w) {i v numLayers expertsPerLayer : Nat}
    (hv : v ≤ w.inner.topologyVersion i) {descriptions : RouteDescriptions}
    (hz : v = 0 → descriptions = ∅) {s : Watch p σ}
    (h : QuietRun store i numLayers expertsPerLayer (.start w v) s) :
    GapFree v s.sent ∧
      ∃ view, (viewAt i numLayers expertsPerLayer v descriptions).feed s.sent = .ok view := by
  have hinv : WatchInv stored i numLayers expertsPerLayer v descriptions s := by
    induction h with
    | refl =>
      refine ⟨reachable_coherent hs hp hw, ?_, ?_, rfl, rfl, descriptions, rfl, hz⟩
      · rw [topology_version]
        exact hv
      · intro n hn
        cases hn
    | step s' a _ hq hk ih => exact watch_step_inv hs hp ih a hq hk
  obtain ⟨d, hfeed, _⟩ := hinv.accepted
  exact ⟨hinv.gapFree, _, hfeed⟩

end

end

/-! ## one worker, one watcher -/

/-- a live worker has its targets and has not reported yet -/
def placedWorker : World Fixture.parsers ControllerStoreSnapshot :=
  runOps TransientControllerStateStore Fixture.start
    (Fixture.registerLive "worker-0" "start-0" 1 ++
      [.setTargets "worker-0" "start-0" [Fixture.target 1 2]])

/-- the report that publishes version 1 -/
def firstReport : Action := .op (.applyStateReport "worker-0" "start-0" 1 1 true [Fixture.ready 1 2])

theorem placedWorker_reachable : Reachable TransientControllerStateStore placedWorker :=
  Fixture.start_reachable.runOps _

/-- the report arrives between two iterations: the stream sends the empty snapshot and one update -/
theorem watch_gapFree_quiet :
    ((Watch.start placedWorker 0).run TransientControllerStateStore 7
      [.readVersion, .readMessages, firstReport, .readVersion, .readMessages]).sent.length = 2 ∧
    GapFree 0 ((Watch.start placedWorker 0).run TransientControllerStateStore 7
      [.readVersion, .readMessages, firstReport, .readVersion, .readMessages]).sent ∧
    ∃ view, (viewAt 7 4 8 0 ∅).feed
      ((Watch.start placedWorker 0).run TransientControllerStateStore 7
        [.readVersion, .readMessages, firstReport, .readVersion, .readMessages]).sent = .ok view := by
  refine ⟨by decide +kernel, ?_⟩
  refine watch_gapFree transient_lawful Fixture.parsers_needsHost placedWorker_reachable
    (Nat.zero_le _) (fun _ => rfl) ?_
  refine QuietRun.refl.run _ ⟨⟨trivial, trivial⟩, ⟨trivial, ?_⟩, ⟨?_, trivial⟩,
    ⟨trivial, trivial⟩, ⟨trivial, ?_⟩, trivial⟩
  · exact withinModel_of_all (by decide +kernel)
  · intro newest hn
    have hpc : (((Watch.start placedWorker 0).step TransientControllerStateStore 7
        .readVersion).step TransientControllerStateStore 7 .readMessages).pc = .loop := by
      decide +kernel
    rw [hpc] at hn
    cases hn
  · exact withinModel_of_all (by decide +kernel)

/-- the report arrives between the two reads: the update is sent twice and the Frontend fails -/
theorem watch_publish_between_reads :
    Reachable TransientControllerStateStore placedWorker ∧
    ¬ GapFree 0 ((Watch.start placedWorker 0).run TransientControllerStateStore 7
      [.readVersion, firstReport, .readMessages, .readVersion, .readMessages]).sent ∧
    (viewAt 7 4 8 0 ∅).feed ((Watch.start placedWorker 0).run TransientControllerStateStore 7
      [.readVersion, firstReport, .readMessages, .readVersion, .readMessages]).sent
      = .error ⟨"topology update does not join the installed version"⟩ :=
  ⟨placedWorker_reachable, by unfold GapFree; decide +kernel, by decide +kernel⟩

end ExpertKit.Topology

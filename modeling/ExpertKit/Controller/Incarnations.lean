import ExpertKit.Controller.Durability

/-!
# Controller: counters over all incarnations

A Controller runs, crashes at any point of any operation, and is started again over the same store,
whose calls may fail before or after they commit.  Along all of this the generations handed out for a
worker never go back and one generation names one target list, and the versions published for an
instance strictly increase.

* `Life`, `Act`, `Life.step`      a Controller that is up or down, and everything that can happen;
* `Event`                         what the outside sees: answers and published topologies;
* `Before`, `Op.run_before`       the placement in memory moves forward, behind the stored one;
* `PlacementsOk`, `VersionsSound` the two invariants over the events seen so far;
* `counters_monotone`             both, for every run.
-/

set_option linter.unusedSectionVars false

namespace ExpertKit.Controller
open Std

/-! ## runs with crashes -/

section
variable {p : EndpointParsers} {σ : Type}

/-- the current placement of a process -/
def placement (inner : Inner p) (workerId startId : String) :
    Except ControllerStateError Placement :=
  match ensureCurrentStart inner workerId startId with
  | .error e => .error e
  | .ok worker => .ok ⟨worker.placementGeneration, false,
      targetParts worker.placementGeneration (Maps.values worker.targets)⟩

inductive Life (p : EndpointParsers) (σ : Type) where
  | up (world : World p σ)
  | down (stored : σ)

def Life.stored : Life p σ → σ
  | .up w => w.stored
  | .down s => s

/-- a generation handed out, with its target list where the answer has one -/
structure Answer where
  generation : Nat
  parts : Option (List TargetExpertListPart)
deriving DecidableEq

inductive Event where
  | registered (workerId : String) (instanceId : Nat)
  | returned (workerId : String) (answer : Answer)
  | published (instanceId version : Nat) (routes : RouteTable)
deriving DecidableEq

inductive Act where
  | op (op : Op)
  | placement (workerId startId : String)
  | crash
  | crashDuring (op : Op) (beforeAdvance : Bool)
  | restart (historyLimit : Nat) (h : 0 < historyLimit)
  | crashDuringRestart (advances : Nat)

/-- the store as an operation sees it when it crashes before its `advance` call -/
def noAdvance (store : ControllerStateStore σ) : ControllerStateStore σ :=
  { store with advanceTopologyVersion := fun s _ _ => (.error ⟨"crashed"⟩, s) }

/-- what the callers of an operation are told -/
def Op.answers (store : ControllerStateStore σ) (w : World p σ) : Op → List Event
  | .register request =>
    match (Controller.register store w.inner w.stored request).1 with
    | .ok r => [.registered request.workerId request.instanceId,
        .returned request.workerId ⟨r.currentPlacementGeneration, none⟩]
    | .error _ => []
  | .setTargets workerId startId targets =>
    match (Controller.setTargets store w.inner w.stored workerId startId targets).1 with
    | .ok placement => [.returned workerId ⟨placement.generation, some placement.parts⟩]
    | .error _ => []
  | _ => []

/-- the topologies of `after` that are not those of `before` -/
def publications (before after : ExtTreeMap Nat InstanceTopology) : List Event :=
  after.toList.filterMap fun e =>
    if before[e.1]? = some e.2 then none else some (.published e.1 e.2.version e.2.routes)

def Life.step (store : ControllerStateStore σ) :
    Life p σ → Act → Option (Life p σ × List Event)
  | .up w, .op op =>
    some (.up (op.run store w),
      op.answers store w ++ publications w.inner.topologies (op.run store w).inner.topologies)
  | .up w, .placement workerId startId =>
    match Controller.placement w.inner workerId startId with
    | .ok placement =>
      some (.up w, [.returned workerId ⟨placement.generation, some placement.parts⟩])
    | .error _ => some (.up w, [])
  | .up w, .crash => some (.down w.stored, [])
  | .up w, .crashDuring op beforeAdvance =>
    some (.down (op.run (if beforeAdvance then noAdvance store else store) w).stored, [])
  | .down s, .restart historyLimit h =>
    match restore p store historyLimit h s with
    | (.ok inner, s') => some (.up ⟨inner, s'⟩, publications ∅ inner.topologies)
    | (.error _, s') => some (.down s', [])
  | .down s, .crashDuringRestart advances =>
    match store.load s with
    | (.ok snapshot, s1) =>
      some (.down (restoreTopologies store ((instanceVersions snapshot).toList.take advances) ∅
        s1).2, [])
    | (.error _, s1) => some (.down s1, [])
  | _, _ => none

/-- the step together with the events so far -/
def lifeStep (store : ControllerStateStore σ) (x : Life p σ × List Event) (act : Act) :
    Option (Life p σ × List Event) :=
  (x.1.step store act).map fun r => (r.1, x.2 ++ r.2)

def answersOf (id : String) : Event → Option Answer
  | .returned workerId answer => if workerId = id then some answer else none
  | _ => none

def publicationsOf (i : Nat) : Event → Option (Nat × RouteTable)
  | .published j version routes => if j = i then some (version, routes) else none
  | _ => none

/-- the worker was registered for instance `i` only -/
def OneInstance (events : List Event) (id : String) (i : Nat) : Prop :=
  ∀ j, Event.registered id j ∈ events → j = i

/-- a later answer has no older generation, and the same targets for the same generation -/
def Answer.Precedes (a b : Answer) : Prop :=
  a.generation ≤ b.generation ∧ (a.generation = b.generation → ∀ parts parts',
    a.parts = some parts → b.parts = some parts' → parts = parts')

/-! ## versions -/

theorem publications_of (before after : ExtTreeMap Nat InstanceTopology) (i : Nat) :
    (publications before after).filterMap (publicationsOf i) =
      (((after[i]?).filter fun t => before[i]? ≠ some t).map fun t : InstanceTopology =>
        (t.version, t.routes)).toList := by
  unfold publications
  rw [List.filterMap_filterMap, Maps.filterMap_toList_key after i]
  · cases after[i]? with
    | none => rfl
    | some t =>
      by_cases h : before[i]? = some t
      · simp [h, Option.filter_some]
      · simp [h, publicationsOf, Option.filter_some]
  · intro e he
    by_cases h : before[e.1]? = some e.2
    · simp [h]
    · simp [h, publicationsOf, he]

theorem Op.answers_publications (store : ControllerStateStore σ) (w : World p σ) (op : Op)
    (i : Nat) : (op.answers store w).filterMap (publicationsOf i) = [] := by
  refine List.filterMap_eq_nil_iff.mpr ?_
  intro e he
  unfold Op.answers at he
  split at he
  · split at he
    · rcases List.mem_cons.mp he with rfl | he
      · rfl
      · rw [List.mem_singleton.mp he]
        rfl
    · cases he
  · split at he
    · rw [List.mem_singleton.mp he]
      rfl
    · cases he
  · cases he

section
variable {store : ControllerStateStore σ} {stored : σ → Nat → Nat}

theorem noAdvance_lawful (hs : LawfulStore store stored) : LawfulStore (noAdvance store) stored where
  load_versions := hs.load_versions
  load_mono := hs.load_mono
  save_mono := hs.save_mono
  advance_mono := fun _ _ _ _ => Nat.le_refl _
  advance_newer := by
    intro s i c v s' h
    simp [noAdvance] at h

/-- a topology that an operation changed has a version the store had not allocated before -/
theorem Revised.newer (hs : LawfulStore store stored) {w w' : World p σ}
    (h : Revised store w w') {i : Nat} {t : InstanceTopology}
    (ht : w'.inner.topologies[i]? = some t) (hne : w.inner.topologies[i]? ≠ some t) :
    stored w.stored i < t.version ∧ t.version ≤ stored w'.stored i := by
  rcases h with ⟨he, _⟩ | ⟨mid, s1, j, v, affected, _, hmid, hc, ha, _, he⟩
  · rw [he] at ht
    exact absurd ht hne
  · obtain ⟨h1, _, h2⟩ := hs.advance_newer _ _ _ _ _ ha
    rw [he] at ht
    unfold Inner.published at ht
    simp only [Maps.getElem?_insert_eq, hmid] at ht
    by_cases e : j = i
    · subst e
      rw [if_pos rfl, Option.some.injEq] at ht
      rw [← ht]
      exact ⟨(hc.mono hs j).trans_lt h1, h2⟩
    · rw [if_neg e] at ht
      exact absurd ht hne

theorem Revised.mono (hs : LawfulStore store stored) {w w' : World p σ}
    (h : Revised store w w') (i : Nat) : stored w.stored i ≤ stored w'.stored i := by
  rcases h.topology hs i with ⟨_, hle⟩ | ⟨_, v, _, hlt, hle, _⟩
  · exact hle
  · omega

theorem restore_newer (hs : LawfulStore store stored) {historyLimit : Nat}
    {hl : 0 < historyLimit} {s s' : σ} {inner : Inner p}
    (hr : restore p store historyLimit hl s = (.ok inner, s')) {i : Nat} {t : InstanceTopology}
    (ht : inner.topologies[i]? = some t) :
    stored s i < t.version ∧ t.version ≤ stored s' i := by
  obtain ⟨snapshot, s1, topologies, hload, hrest, hi⟩ := restore_cases hr
  have hmono : ∀ j, stored s j ≤ stored s1 j := by
    intro j
    have h := hs.load_mono s j
    rwa [hload] at h
  rw [hi] at ht
  have ht' : topologies[i]? = some t := ht
  rcases restoreTopologies_cases hs _ hmono hrest i with ⟨he, _⟩ | ⟨t', he, hren⟩
  · rw [ht'] at he
    simp at he
  · rw [ht', Option.some.injEq] at he
    rw [he]
    exact ⟨hren.newer, hren.le⟩

/-- the versions published for instance `i` so far -/
structure VersionsSound (stored : σ → Nat → Nat) (i : Nat) (x : Life p σ × List Event) :
    Prop where
  increasing : (x.2.filterMap (publicationsOf i)).Pairwise fun a b => a.1 < b.1
  le : ∀ e ∈ x.2.filterMap (publicationsOf i), e.1 ≤ stored x.1.stored i

/-- no publication of the instance, and a store that only moved forward -/
theorem VersionsSound.quiet {stored : σ → Nat → Nat} {i : Nat} {x : Life p σ × List Event}
    (h : VersionsSound stored i x) {l : Life p σ} {events : List Event}
    (he : events.filterMap (publicationsOf i) = [])
    (hmono : stored x.1.stored i ≤ stored l.stored i) :
    VersionsSound stored i (l, x.2 ++ events) := by
  refine ⟨?_, ?_⟩
  · show ((x.2 ++ events).filterMap (publicationsOf i)).Pairwise _
    rw [List.filterMap_append, he, List.append_nil]
    exact h.increasing
  · intro e hmem
    rw [List.filterMap_append, he, List.append_nil] at hmem
    exact (h.le e hmem).trans hmono

/-- one new topology of the instance, newer than what the store had -/
theorem VersionsSound.publish {stored : σ → Nat → Nat} {i : Nat} {x : Life p σ × List Event}
    (h : VersionsSound stored i x) {l : Life p σ} {events : List Event}
    (after : Option InstanceTopology) (keep : InstanceTopology → Bool)
    (he : events.filterMap (publicationsOf i)
      = ((after.filter keep).map fun t => (t.version, t.routes)).toList)
    (hmono : stored x.1.stored i ≤ stored l.stored i)
    (hnew : ∀ t, after = some t → keep t = true →
      stored x.1.stored i < t.version ∧ t.version ≤ stored l.stored i) :
    VersionsSound stored i (l, x.2 ++ events) := by
  cases ha : after.filter keep with
  | none =>
    rw [ha] at he
    exact h.quiet he hmono
  | some t =>
    rw [Option.filter_eq_some_iff] at ha
    obtain ⟨hlt, hle⟩ := hnew t ha.1 ha.2
    have hev : events.filterMap (publicationsOf i) = [(t.version, t.routes)] := by
      rw [he, Option.filter_eq_some_iff.mpr ha]
      rfl
    refine ⟨?_, ?_⟩
    · show ((x.2 ++ events).filterMap (publicationsOf i)).Pairwise _
      rw [List.filterMap_append, hev, List.pairwise_append]
      refine ⟨h.increasing, List.pairwise_singleton _ _, ?_⟩
      intro a ha' b hb
      rw [List.mem_singleton.mp hb]
      exact (h.le a ha').trans_lt hlt
    · intro e hmem
      rw [List.filterMap_append, hev] at hmem
      rcases List.mem_append.mp hmem with hmem | hmem
      · exact (h.le e hmem).trans hmono
      · rw [List.mem_singleton.mp hmem]
        exact hle

theorem lifeStep_versionsSound (hs : LawfulStore store stored) (i : Nat)
    {x x' : Life p σ × List Event} {act : Act} (h : VersionsSound stored i x)
    (hstep : lifeStep store x act = some x') : VersionsSound stored i x' := by
  obtain ⟨r, hr, rfl⟩ := Option.map_eq_some_iff.mp hstep
  obtain ⟨l, events⟩ := x
  cases l with
  | up w =>
    cases act with
    | op op =>
      cases hr
      have hrev := Op.run_revised store w op
      refine h.publish (op.run store w).inner.topologies[i]?
        (fun t => w.inner.topologies[i]? ≠ some t) ?_ (hrev.mono hs i) ?_
      · rw [List.filterMap_append, Op.answers_publications, List.nil_append, publications_of]
      · intro t ht hne
        exact hrev.newer hs ht (of_decide_eq_true hne)
    | placement workerId startId =>
      simp only [Life.step] at hr
      split at hr
      · cases hr
        exact h.quiet rfl (Nat.le_refl _)
      · cases hr
        exact h.quiet rfl (Nat.le_refl _)
    | crash =>
      cases hr
      exact h.quiet rfl (Nat.le_refl _)
    | crashDuring op beforeAdvance =>
      cases hr
      refine h.quiet rfl ?_
      cases beforeAdvance with
      | true => exact (Op.run_revised (noAdvance store) w op).mono (noAdvance_lawful hs) i
      | false => exact (Op.run_revised store w op).mono hs i
    | restart historyLimit hl => cases hr
    | crashDuringRestart advances => cases hr
  | down s =>
    cases act with
    | op op => cases hr
    | placement workerId startId => cases hr
    | crash => cases hr
    | crashDuring op beforeAdvance => cases hr
    | restart historyLimit hl =>
      simp only [Life.step] at hr
      cases hres : restore p store historyLimit hl s with
      | mk a s' =>
        rw [hres] at hr
        cases a with
        | error e =>
          cases hr
          exact h.quiet rfl (restore_mono hs hres i)
        | ok inner =>
          cases hr
          refine h.publish _ _ (publications_of _ _ i) (restore_mono hs hres i) ?_
          intro t ht _
          exact restore_newer hs hres ht
    | crashDuringRestart advances =>
      have hload := hs.load_mono s i
      simp only [Life.step] at hr
      split at hr
      · rename_i snapshot s1 he
        cases hr
        rw [he] at hload
        refine h.quiet rfl (hload.trans ?_)
        exact (restoreTopologies_calls _ rfl).mono hs i
      · rename_i e s1 he
        cases hr
        rw [he] at hload
        exact h.quiet rfl hload

end

/-! ## placements -/

/-- an older generation, or the same placement -/
def Before (x y : Nat × ExtTreeMap ExpertKey TargetExpert) : Prop := x.1 < y.1 ∨ x = y

theorem Before.refl (x : Nat × ExtTreeMap ExpertKey TargetExpert) : Before x x := .inr rfl

theorem checkedNext_lt {n next : Nat} (h : checkedNext n = some next) : n < max next 1 := by
  unfold checkedNext at h
  split_ifs at h
  cases h
  omega

theorem carried_of_record {inner : Inner p} {id : String} {r : WorkerRecord p} {i : Nat}
    (hr : inner.workers[id]? = some r) (hi : r.registration.request.instanceId = i) :
    carriedPlacement inner id i = (r.placementGeneration, r.targets) := by
  unfold carriedPlacement
  rw [hr, Option.filter_some, if_pos (by simpa using hi)]

theorem carried_of_none {inner : Inner p} {id : String} (i : Nat)
    (hr : inner.workers[id]? = none) :
    carriedPlacement inner id i = rowPlacement inner.persistedPlacements[id]? i := by
  unfold carriedPlacement rowPlacement
  rw [hr]
  cases (inner.persistedPlacements[id]?).filter fun placement => placement.instanceId = i <;> rfl

/-- a row with a newer generation of the worker's instance -/
theorem before_saved {inner : Inner p} {id : String} {r : WorkerRecord p} {i next : Nat}
    (hr : inner.workers[id]? = some r) (hi : r.registration.request.instanceId = i)
    (hn : checkedNext r.placementGeneration = some next) (targets : List TargetExpert) :
    Before (carriedPlacement inner id i)
      (rowPlacement (some ⟨id, r.registration.request.instanceId, max next 1, targets⟩) i) := by
  left
  rw [carried_of_record hr hi, hi]
  simp only [rowPlacement, Option.filter_some, decide_true, ↓reduceIte]
  exact checkedNext_lt hn

/-- no record after an operation, none before it -/
theorem OneRecord.none_of_none {inner inner' : Inner p} (h : OneRecord inner inner')
    {id : String} (hn : inner'.workers[id]? = none) : inner.workers[id]? = none := by
  rcases h with he | ⟨id0, w0, _, he⟩
  · rwa [he] at hn
  · rw [he, Maps.getElem?_insert_eq] at hn
    split_ifs at hn
    exact hn

/-- the record of the worker, if any, is of instance `i` -/
def OfInstance (inner : Inner p) (id : String) (i : Nat) : Prop :=
  ∀ r, inner.workers[id]? = some r → r.registration.request.instanceId = i

/-- an operation that does not place the worker leaves its placement -/
theorem Op.run_carried (store : ControllerStateStore σ) (w : World p σ) (op : Op) {id : String}
    {i : Nat} (hop : ¬ op.sets id) (hi : OfInstance w.inner id i)
    (hi' : OfInstance (op.run store w).inner id i) :
    carriedPlacement (op.run store w).inner id i = carriedPlacement w.inner id i := by
  cases hr' : (op.run store w).inner.workers[id]? with
  | none =>
    rw [carried_of_none i hr', carried_of_none i ((Op.run_oneRecord store w op).none_of_none hr'),
      Op.run_persisted store w op hop]
  | some r' =>
    have hinst := hi' r' hr'
    rw [carried_of_record hr' hinst]
    cases Op.run_recordChange store w op hr' with
    | kept hr => rw [carried_of_record hr (hi r' hr)]
    | fresh g t _ hfresh hid hc hnew =>
      rw [hinst] at hc
      rw [hc, hfresh]
      rfl
    | quiet r hr hs => rw [carried_of_record hr (hi r hr), hs.generation, hs.targets]
    | placed r next startId targets drains hsets hr hn h hd =>
      rw [hsets] at hop
      exact absurd rfl hop
    | excluded r hr hs hn h =>
      rw [carried_of_record hr (hi r hr), h]
    | completed r drainId live hr h =>
      rw [carried_of_record hr (hi r hr), h]
      rfl

section
variable {store : ControllerStateStore σ} {row : σ → String → Option PersistedPlacement}

/-- the placement in memory moves forward and stays behind the stored one -/
theorem Op.run_before (hrows : PlacementRows store row) (w : World p σ) (op : Op) {id : String}
    {i : Nat} (hi : OfInstance w.inner id i) (hi' : OfInstance (op.run store w).inner id i)
    (h : Before (carriedPlacement w.inner id i) (rowPlacement (row w.stored id) i)) :
    Before (carriedPlacement w.inner id i) (carriedPlacement (op.run store w).inner id i) ∧
    Before (carriedPlacement (op.run store w).inner id i)
      (rowPlacement (row (op.run store w).stored id) i) := by
  by_cases hsets : op.sets id
  · cases op with
    | setTargets workerId startId targets =>
      have hid : id = workerId := hsets
      subst hid
      revert hi'
      apply World.after_of (fun w' => OfInstance w'.inner id i →
        Before (carriedPlacement w.inner id i) (carriedPlacement w'.inner id i) ∧
        Before (carriedPlacement w'.inner id i) (rowPlacement (row w'.stored id) i))
      intro res inner' s' hrun hi'
      rcases setTargets_cases hrun with ⟨_, _, hsame, hs | ⟨r, next, hr, _, hn, hc⟩⟩ |
        ⟨_, _, _, _, _, _, hsame, hs⟩ | ⟨r, next, s1, _, i2, hr, _, _, hn, hsave, hp, _, heq⟩
      · rw [hsame, hs]
        exact ⟨.refl _, h⟩
      · -- the call failed after its save, which may have been committed
        rw [hsame, hc.keeps_row hrows]
        refine ⟨.refl _, ?_⟩
        rcases hrows.save_error w.stored id r.registration.request.instanceId (max next 1)
          (Maps.values (normalizeTargets targets)) with hrow | hrow
        · rw [hrow]
          exact h
        · rw [hrow]
          exact before_saved hr (hi r hr) hn _
      · rw [hsame, hs]
        exact ⟨.refl _, h⟩
      · have hinst := hi r hr
        have hrow : row s' id = some ⟨id, r.registration.request.instanceId, max next 1,
            Maps.values (normalizeTargets targets)⟩ := by
          rw [(publishRoutes_calls hp).keeps_row hrows, hrows.save_ok _ _ _ _ _ _ hsave]
        have hcar : carriedPlacement inner' id i = (max next 1, normalizeTargets targets) := by
          obtain ⟨drains, hd⟩ := recordDrains_workers i2 id
            (r.placed (max next 1) (normalizeTargets targets)) r.registration.request.instanceId
            (max next 1) (targetsDrained r (normalizeTargets targets))
          refine carried_of_record (r := { r.placed (max next 1) (normalizeTargets targets) with
            drains := drains }) ?_ hinst
          rw [heq, notifyIf_workers, hd, Maps.getElem?_insert_eq, if_pos rfl]
        rw [hcar, hrow, hinst, carried_of_record hr hinst]
        refine ⟨.inl (checkedNext_lt hn), .inr ?_⟩
        simp only [rowPlacement, Option.filter_some, decide_true, ↓reduceIte,
          normalizeTargets_values]
    | _ => cases hsets
  · have hcar := Op.run_carried store w op hsets hi hi'
    have hrow : row (op.run store w).stored id = row w.stored id := by
      rcases Op.run_row hrows w op id with hrow | ⟨_, _, _, _, hop, _⟩
      · exact hrow
      · rw [hop] at hsets
        exact absurd rfl hsets
    rw [hcar, hrow]
    exact ⟨.refl _, h⟩

theorem noAdvance_rows (hrows : PlacementRows store row) : PlacementRows (noAdvance store) row where
  load_rows := hrows.load_rows
  load_keeps := hrows.load_keeps
  save_ok := hrows.save_ok
  save_error := hrows.save_error
  save_other := hrows.save_other
  advance_keeps := fun _ _ _ _ => rfl

/-- a crash in an operation leaves the old row or a newer one -/
theorem Op.run_row_before (hrows : PlacementRows store row) (w : World p σ) (op : Op)
    {id : String} {i : Nat} (hi : OfInstance w.inner id i)
    (h : Before (carriedPlacement w.inner id i) (rowPlacement (row w.stored id) i)) :
    Before (carriedPlacement w.inner id i) (rowPlacement (row (op.run store w).stored id) i) := by
  rcases Op.run_row hrows w op id with hrow | ⟨_, targets, r, next, _, hr, hn, hrow⟩
  · rw [hrow]
    exact h
  · rw [hrow]
    exact before_saved hr (hi r hr) hn _

end

/-! ## answers -/

/-- the answer is the placement -/
def Answer.Is (a : Answer) (x : Nat × ExtTreeMap ExpertKey TargetExpert) : Prop :=
  a.generation = x.1 ∧ ∀ parts, a.parts = some parts → parts = targetParts x.1 (Maps.values x.2)

/-- the answer has an older generation, or is the placement -/
def Answer.Fits (a : Answer) (x : Nat × ExtTreeMap ExpertKey TargetExpert) : Prop :=
  a.generation < x.1 ∨ a.Is x

theorem Answer.Fits.mono {a : Answer} {x y : Nat × ExtTreeMap ExpertKey TargetExpert}
    (h : a.Fits x) (hxy : Before x y) : a.Fits y := by
  rcases hxy with hlt | rfl
  · refine .inl ?_
    rcases h with h | h
    · exact h.trans hlt
    · rw [h.1]
      exact hlt
  · exact h

theorem Answer.Fits.precedes {a b : Answer} {x : Nat × ExtTreeMap ExpertKey TargetExpert}
    (h : a.Fits x) (hb : b.Is x) : a.Precedes b := by
  rcases h with h | h
  · refine ⟨by rw [hb.1]; exact h.le, ?_⟩
    intro he
    rw [he, hb.1] at h
    exact absurd h (Nat.lt_irrefl _)
  · refine ⟨by rw [h.1, hb.1], ?_⟩
    intro _ parts parts' hp hp'
    rw [h.2 parts hp, hb.2 parts' hp']

/-- the answers so far, in order and behind the placement `x` -/
structure Answered (id : String) (events : List Event)
    (x : Nat × ExtTreeMap ExpertKey TargetExpert) : Prop where
  ordered : (events.filterMap (answersOf id)).Pairwise Answer.Precedes
  fits : ∀ a ∈ events.filterMap (answersOf id), a.Fits x

/-- the placement moved on and was told to at most one caller -/
theorem Answered.append {id : String} {events events' : List Event}
    {x y : Nat × ExtTreeMap ExpertKey TargetExpert} (h : Answered id events x) (hxy : Before x y)
    (hnew : events'.filterMap (answersOf id) = [] ∨
      ∃ a, events'.filterMap (answersOf id) = [a] ∧ a.Is y) :
    Answered id (events ++ events') y := by
  rcases hnew with he | ⟨a, he, ha⟩
  · refine ⟨?_, ?_⟩
    · rw [List.filterMap_append, he, List.append_nil]
      exact h.ordered
    · intro b hb
      rw [List.filterMap_append, he, List.append_nil] at hb
      exact (h.fits b hb).mono hxy
  · refine ⟨?_, ?_⟩
    · rw [List.filterMap_append, he, List.pairwise_append]
      refine ⟨h.ordered, List.pairwise_singleton _ _, ?_⟩
      intro b hb c hc
      rw [List.mem_singleton.mp hc]
      exact ((h.fits b hb).mono hxy).precedes ha
    · intro b hb
      rw [List.filterMap_append, he] at hb
      rcases List.mem_append.mp hb with hb | hb
      · exact (h.fits b hb).mono hxy
      · rw [List.mem_singleton.mp hb]
        exact .inr ha

theorem publications_answersOf (before after : ExtTreeMap Nat InstanceTopology) (id : String) :
    (publications before after).filterMap (answersOf id) = [] := by
  unfold publications
  refine List.filterMap_eq_nil_iff.mpr ?_
  intro e he
  obtain ⟨e0, _, h0⟩ := List.mem_filterMap.mp he
  split_ifs at h0
  cases h0
  rfl

/-- a registration answers with the generation of the record it leaves -/
theorem register_returned {store : ControllerStateStore σ} {inner inner' : Inner p} {s s' : σ}
    {request : RegisterWorkerRequest} {res : RegistrationResult}
    (h : register store inner s request = (.ok res, inner', s')) :
    ∃ r, inner'.workers[request.workerId]? = some r ∧
      r.placementGeneration = res.currentPlacementGeneration := by
  unfold register at h
  split at h
  · cases h
  · rename_i hv
    simp only at h
    split at h
    · rename_i existing hcur
      rw [Option.filter_eq_some_iff] at hcur
      split_ifs at h
      · cases h
      · simp only [Prod.mk.injEq, Except.ok.injEq] at h
        rw [← h.1, ← h.2.1]
        exact ⟨existing, hcur.1, rfl⟩
    · rcases registerProcess_cases h with ⟨_, he, _⟩ |
        ⟨g, t, _, _, _, hres, ⟨_, _, hi⟩ | ⟨old, changed, inner2, _, hp, hi⟩⟩
      · cases he
      · refine ⟨.fresh ⟨request, hv⟩ g t, ?_, ?_⟩
        · rw [hi, setWorker_workers, if_pos rfl]
        · rw [Except.ok.inj hres]
          rfl
      · refine ⟨.fresh ⟨request, hv⟩ g t, ?_, ?_⟩
        · rw [hi, notifyIf_workers, publishRoutes_workers hp, setWorker_workers, if_pos rfl]
        · rw [Except.ok.inj hres]
          rfl

/-- `set_targets` answers with the placement of the record it leaves -/
theorem setTargets_returned {store : ControllerStateStore σ} {inner inner' : Inner p} {s s' : σ}
    {workerId startId : String} {targets : List TargetExpert} {res : Placement}
    (h : setTargets store inner s workerId startId targets = (.ok res, inner', s')) :
    ∃ r, inner'.workers[workerId]? = some r ∧ r.placementGeneration = res.generation ∧
      res.parts = targetParts r.placementGeneration (Maps.values r.targets) := by
  rcases setTargets_cases h with ⟨_, he, _⟩ | ⟨r, hr, _, ht, _, hres, hi, _⟩ |
    ⟨r, next, s1, _, i2, hr, _, _, hn, hsave, hp, hres, hi⟩
  · cases he
  · refine ⟨r, by rw [hi]; exact hr, ?_, ?_⟩
    · rw [Except.ok.inj hres]
    · rw [Except.ok.inj hres, ht]
  · obtain ⟨drains, hd⟩ := recordDrains_workers i2 workerId
      (r.placed (max next 1) (normalizeTargets targets)) r.registration.request.instanceId
      (max next 1) (targetsDrained r (normalizeTargets targets))
    refine ⟨{ r.placed (max next 1) (normalizeTargets targets) with drains := drains }, ?_, ?_, ?_⟩
    · rw [hi, notifyIf_workers, hd, Maps.getElem?_insert_eq, if_pos rfl]
    · rw [Except.ok.inj hres]
      rfl
    · rw [Except.ok.inj hres]
      rfl

/-- an operation tells at most one placement of the worker: the one it leaves in memory -/
theorem Op.answers_is (store : ControllerStateStore σ) (w : World p σ) (op : Op) {id : String}
    {i : Nat} (hi' : OfInstance (op.run store w).inner id i) :
    (op.answers store w).filterMap (answersOf id) = [] ∨
    ∃ a, (op.answers store w).filterMap (answersOf id) = [a] ∧
      a.Is (carriedPlacement (op.run store w).inner id i) := by
  cases op with
  | register request =>
    obtain ⟨res, inner', s', hrun⟩ : ∃ res inner' s', Controller.register store w.inner w.stored request
        = (res, inner', s') := ⟨_, _, _, rfl⟩
    have hworld : (Op.register request).run store w = ⟨inner', s'⟩ := by
      show World.after _ = _
      rw [hrun]
      rfl
    rw [hworld] at hi' ⊢
    unfold Op.answers
    simp only [hrun]
    cases res with
    | error e => exact .inl rfl
    | ok r =>
      by_cases e : request.workerId = id
      · obtain ⟨record, hr, hg⟩ := register_returned hrun
        rw [e] at hr
        refine .inr ⟨⟨r.currentPlacementGeneration, none⟩,
          by simp [List.filterMap_cons, answersOf, e], ?_⟩
        rw [carried_of_record hr (hi' record hr)]
        exact ⟨hg.symm, fun parts hp => (by cases hp)⟩
      · exact .inl (by simp [List.filterMap_cons, answersOf, e])
  | setTargets workerId startId targets =>
    obtain ⟨res, inner', s', hrun⟩ : ∃ res inner' s',
        Controller.setTargets store w.inner w.stored workerId startId targets
          = (res, inner', s') := ⟨_, _, _, rfl⟩
    have hworld : (Op.setTargets workerId startId targets).run store w = ⟨inner', s'⟩ := by
      show World.after _ = _
      rw [hrun]
      rfl
    rw [hworld] at hi' ⊢
    unfold Op.answers
    simp only [hrun]
    cases res with
    | error e => exact .inl rfl
    | ok r =>
      by_cases e : workerId = id
      · obtain ⟨record, hr, hg, hparts⟩ := setTargets_returned hrun
        rw [e] at hr
        refine .inr ⟨⟨r.generation, some r.parts⟩, by simp [answersOf, e], ?_⟩
        rw [carried_of_record hr (hi' record hr)]
        refine ⟨hg.symm, ?_⟩
        intro parts hp
        cases hp
        exact hparts
      · exact .inl (by simp [answersOf, e])
  | _ => exact .inl rfl

/-- a successful registration is seen -/
theorem Op.registered_mem (store : ControllerStateStore σ) (w : World p σ)
    {request : RegisterWorkerRequest} (h : (Op.register request).failure store w = none) :
    Event.registered request.workerId request.instanceId
      ∈ (Op.register request).answers store w := by
  have h' : failureOf (Controller.register store w.inner w.stored request) = none := h
  show Event.registered request.workerId request.instanceId ∈
    match (Controller.register store w.inner w.stored request).1 with
    | .ok r => [Event.registered request.workerId request.instanceId,
        .returned request.workerId ⟨r.currentPlacementGeneration, none⟩]
    | .error _ => []
  unfold failureOf at h'
  cases hres : (Controller.register store w.inner w.stored request).1 with
  | error e =>
    rw [hres] at h'
    cases h'
  | ok r => exact List.mem_cons_self

theorem Op.run_ofInstance (store : ControllerStateStore σ) (w : World p σ) (op : Op)
    {events : List Event} {id : String} {i : Nat} (hi : OfInstance w.inner id i)
    (hone : OneInstance (events ++ op.answers store w) id i) :
    OfInstance (op.run store w).inner id i := by
  intro r' hr'
  cases Op.run_recordChange store w op hr' with
  | kept hr => exact hi r' hr
  | fresh g t hop hfresh hid hc hnew =>
    have hok : op.failure store w = none := by
      cases hf : op.failure store w with
      | none => rfl
      | some e =>
        rw [failed_operation_atomic store w op e hf] at hr'
        exact absurd rfl (hnew r' hr')
    rw [hop] at hok hone
    have hmem := Op.registered_mem store w hok
    rw [hid] at hmem
    exact hone _ (List.mem_append_right _ hmem)
  | quiet r hr hs =>
    rw [hs.registration]
    exact hi r hr
  | placed r next startId targets drains _ hr hn h hd =>
    rw [h]
    exact hi r hr
  | excluded r hr hs hn h =>
    rw [h]
    exact hi r hr
  | completed r drainId live hr h =>
    rw [h]
    exact hi r hr

/-! ## the two invariants -/

/-- the answers for the worker so far are behind the placement it would get now -/
def PlacementsOk (row : σ → String → Option PersistedPlacement) (id : String) (i : Nat) :
    Life p σ × List Event → Prop
  | (.up w, events) =>
    OfInstance w.inner id i ∧
    Before (carriedPlacement w.inner id i) (rowPlacement (row w.stored id) i) ∧
    Answered id events (carriedPlacement w.inner id i)
  | (.down s, events) => Answered id events (rowPlacement (row s id) i)

section
variable {store : ControllerStateStore σ} {row : σ → String → Option PersistedPlacement}

theorem lifeStep_placementsOk (hrows : PlacementRows store row) {id : String} {i : Nat}
    {x x' : Life p σ × List Event} {act : Act} (h : PlacementsOk row id i x)
    (hstep : lifeStep store x act = some x') (hone : OneInstance x'.2 id i) :
    PlacementsOk row id i x' := by
  obtain ⟨r, hr, rfl⟩ := Option.map_eq_some_iff.mp hstep
  obtain ⟨l, events⟩ := x
  cases l with
  | up w =>
    obtain ⟨hi, hbefore, hans⟩ := h
    cases act with
    | op op =>
      cases hr
      have hone' : OneInstance (events ++ op.answers store w) id i := by
        intro j hj
        refine hone j ?_
        rw [← List.append_assoc]
        exact List.mem_append_left _ hj
      have hi' := Op.run_ofInstance store w op hi hone'
      obtain ⟨hmem, hrow⟩ := Op.run_before hrows w op hi hi' hbefore
      refine ⟨hi', hrow, hans.append hmem ?_⟩
      rw [List.filterMap_append, publications_answersOf, List.append_nil]
      exact Op.answers_is store w op hi'
    | placement workerId startId =>
      simp only [Life.step] at hr
      split at hr
      · rename_i placement hplacement
        cases hr
        refine ⟨hi, hbefore, hans.append (.refl _) ?_⟩
        by_cases e : workerId = id
        · unfold Controller.placement at hplacement
          cases hc : ensureCurrentStart w.inner workerId startId with
          | error err =>
            rw [hc] at hplacement
            cases hplacement
          | ok record =>
            rw [hc] at hplacement
            cases hplacement
            obtain ⟨hrecord, _⟩ := ensureCurrentStart_ok hc
            rw [e] at hrecord
            refine .inr ⟨⟨record.placementGeneration, some _⟩, by simp [answersOf, e]; rfl, ?_⟩
            rw [carried_of_record hrecord (hi record hrecord)]
            refine ⟨rfl, ?_⟩
            intro parts hp
            cases hp
            rfl
        · exact .inl (by simp [answersOf, e])
      · cases hr
        exact ⟨hi, hbefore, hans.append (.refl _) (.inl rfl)⟩
    | crash =>
      cases hr
      exact hans.append hbefore (.inl rfl)
    | crashDuring op beforeAdvance =>
      cases hr
      refine hans.append ?_ (.inl rfl)
      cases beforeAdvance with
      | true => exact Op.run_row_before (noAdvance_rows hrows) w op hi hbefore
      | false => exact Op.run_row_before hrows w op hi hbefore
    | restart historyLimit hl => cases hr
    | crashDuringRestart advances => cases hr
  | down s =>
    cases act with
    | op op => cases hr
    | placement workerId startId => cases hr
    | crash => cases hr
    | crashDuring op beforeAdvance => cases hr
    | restart historyLimit hl =>
      simp only [Life.step] at hr
      cases hres : restore p store historyLimit hl s with
      | mk a s' =>
        have hrow := restore_row hrows hres id
        rw [hres] at hr
        cases a with
        | error e =>
          cases hr
          refine Answered.append h ?_ (.inl rfl)
          rw [hrow]
          exact .refl _
        | ok inner =>
          cases hr
          have hcar := restore_carried hrows hres id i
          refine ⟨?_, ?_, ?_⟩
          · intro r hr
            have hw := (Started.restored historyLimit hl s s' inner hres).workers
            rw [hw] at hr
            simp at hr
          · show Before (carriedPlacement inner id i) (rowPlacement (row s' id) i)
            rw [hcar, hrow]
            exact .refl _
          · show Answered id _ (carriedPlacement inner id i)
            rw [hcar]
            exact Answered.append h (.refl _) (.inl (publications_answersOf _ _ id))
    | crashDuringRestart advances =>
      have hload := hrows.load_keeps s id
      simp only [Life.step] at hr
      split at hr
      · rename_i snapshot s1 he
        cases hr
        rw [he] at hload
        refine Answered.append h ?_ (.inl rfl)
        rw [restoreTopologies_row hrows _ rfl id, hload]
        exact .refl _
      · rename_i e s1 he
        cases hr
        rw [he] at hload
        refine Answered.append h ?_ (.inl rfl)
        rw [hload]
        exact .refl _

/-- events are only added -/
theorem lifeStep_prefix {x x' : Life p σ × List Event} {act : Act}
    (hstep : lifeStep store x act = some x') : x.2 <+: x'.2 := by
  obtain ⟨r, hr, rfl⟩ := Option.map_eq_some_iff.mp hstep
  exact List.prefix_append _ _

/-- over every run with failures, crashes and restarts -/
theorem counters_monotone {stored : σ → Nat → Nat} (hs : LawfulStore store stored)
    (hrows : PlacementRows store row) {ok : Life p σ × List Event → Act → Prop} {s : σ}
    {x : Life p σ × List Event} (h : Steps.Reach (lifeStep store) ok (.down s, []) x) :
    (∀ id i, OneInstance x.2 id i →
      (x.2.filterMap (answersOf id)).Pairwise Answer.Precedes) ∧
    (∀ i, (x.2.filterMap (publicationsOf i)).Pairwise fun a b => a.1 < b.1) := by
  refine ⟨?_, ?_⟩
  · intro id i hone
    have hinv := h.invariant (P := fun x => OneInstance x.2 id i → PlacementsOk row id i x)
      (fun _ => ⟨List.Pairwise.nil, by simp⟩) ?_
    · have hok := hinv hone
      obtain ⟨l, events⟩ := x
      cases l with
      | up w => exact hok.2.2.ordered
      | down s => exact hok.ordered
    · intro y act y' hy _ hstep hone'
      have hpre := lifeStep_prefix hstep
      exact lifeStep_placementsOk hrows (hy fun j hj => hone' j (hpre.subset hj)) hstep hone'
  · intro i
    refine (h.invariant (P := VersionsSound stored i) ⟨List.Pairwise.nil, by simp⟩ ?_).increasing
    intro y act y' hy _ hstep
    exact lifeStep_versionsSound hs i hy hstep

end

end

/-- a crash between the two store calls of `set_targets`, and a restart -/
def Fixture.crashedActs : List Act :=
  [.restart 8 Fixture.eight_pos] ++ (Fixture.registerLive "worker-0" "start-0" 1).map .op ++
    [.op (.setTargets "worker-0" "start-0" [Fixture.target 1 2]),
      .op (.applyStateReport "worker-0" "start-0" 1 1 true [Fixture.ready 1 2]),
      .crashDuring (.setTargets "worker-0" "start-0" []) true,
      .restart 8 (by decide),
      .op (.register (Fixture.registration "worker-0" "start-0")),
      .placement "worker-0" "start-0"]

def registersOnly (id : String) (i : Nat) (events : List Event) : Bool :=
  events.all fun e => match e with
    | .registered workerId j => workerId != id || j == i
    | _ => true

theorem oneInstance_of_registersOnly {id : String} {i : Nat} {events : List Event}
    (h : registersOnly id i events = true) : OneInstance events id i := by
  intro j hj
  have hall := List.all_eq_true.mp h _ hj
  simpa using hall

theorem counters_monotone_crashed :
    ∃ x : Life Fixture.parsers ControllerTables × List Event,
      (x.2.filterMap (answersOf "worker-0")).map Answer.generation = [0, 1, 2, 2] ∧
      (x.2.filterMap (publicationsOf 7)).map Prod.fst = [1, 2] ∧
      (x.2.filterMap (answersOf "worker-0")).Pairwise Answer.Precedes ∧
      (x.2.filterMap (publicationsOf 7)).Pairwise fun a b => a.1 < b.1 := by
  obtain ⟨x, hx, hb⟩ := (Option.any_eq_true
    (fun x : Life Fixture.parsers ControllerTables × List Event =>
      (x.2.filterMap (answersOf "worker-0")).map Answer.generation == [0, 1, 2, 2] &&
        (x.2.filterMap (publicationsOf 7)).map Prod.fst == [1, 2] &&
        registersOnly "worker-0" 7 x.2)
    (Steps.run (lifeStep PostgresControllerStateStore) (fun _ _ => true) (.down ⟨∅, ∅, []⟩, [])
      Fixture.crashedActs)).mp (by decide +kernel)
  rw [Bool.and_eq_true, Bool.and_eq_true, beq_iff_eq, beq_iff_eq] at hb
  have hmono := counters_monotone postgres_lawful postgres_rows (Steps.Reach.of_run .refl hx)
  exact ⟨x, hb.1.1, hb.1.2, hmono.1 "worker-0" 7 (oneInstance_of_registersOnly hb.2), hmono.2 7⟩

end ExpertKit.Controller

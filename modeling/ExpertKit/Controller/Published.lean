import ExpertKit.Controller.Runs

/-!
# Controller: the published routes are the ready routes

Every operation recomputes the routes of an `affected` key set only.  The invariant that makes this
enough is `Tight`: for every instance and key the stored route list is the list computed from the
worker records.  An operation that changes one record breaks it at most at the affected keys of one
instance, and `publishRoutes` repairs it there.

* `shown`                     what one record contributes to the routes of a key;
* `currentReplicas_congr`     the route list depends on the contributions only;
* `publishedReplicas_published`   a publication replaces exactly the affected keys;
* `Tight`, `publishRoutes_tight`   the invariant and how a publication restores it;
* `reachable_tight`, `published_routes_spec`   the invariant over runs, and the routes in words.
-/

set_option linter.unusedSectionVars false

namespace ExpertKit.Controller
open Std

section
variable {p : EndpointParsers} {σ : Type}

/-! ## contributions -/

def shown (instanceId : Nat) (key : ExpertKey) (w : WorkerRecord p) : Option WorkerRoute :=
  if serves instanceId key w then some (workerRoute w) else none

theorem currentReplicas_eq_filterMap (inner : Inner p) (i : Nat) (k : ExpertKey) :
    currentReplicas inner i k =
      ((Maps.values inner.workers).filterMap (shown i k)).insertionSort fun a b =>
        routeOrder a b := by
  have h : ∀ l : List (WorkerRecord p),
      (l.filter (serves i k)).map workerRoute = l.filterMap (shown i k) := by
    intro l
    induction l with
    | nil => rfl
    | cons w l ih =>
      by_cases hs : serves i k w = true
      · rw [List.filter_cons_of_pos hs, List.map_cons, ih,
          List.filterMap_cons_some (by rw [shown, if_pos hs])]
      · rw [List.filter_cons_of_neg hs, ih, List.filterMap_cons_none (by rw [shown, if_neg hs])]
  rw [currentReplicas, h]

theorem currentReplicas_congr {inner inner' : Inner p} {i : Nat} {k : ExpertKey}
    (h : ∀ id : String,
      (inner.workers[id]?).bind (shown i k) = (inner'.workers[id]?).bind (shown i k)) :
    currentReplicas inner i k = currentReplicas inner' i k := by
  rw [currentReplicas_eq_filterMap, currentReplicas_eq_filterMap,
    Maps.filterMap_values_congr inner.workers inner'.workers (shown i k) h]

/-- replacing one record by one with the same contribution keeps the route list -/
theorem currentReplicas_setWorker (inner : Inner p) (id : String) (w : WorkerRecord p) (i : Nat)
    (k : ExpertKey) (h : (inner.workers[id]?).bind (shown i k) = shown i k w) :
    currentReplicas (inner.setWorker id w) i k = currentReplicas inner i k := by
  apply currentReplicas_congr
  intro id'
  rw [setWorker_workers]
  by_cases e : id = id'
  · rw [if_pos e, ← e, h]
    rfl
  · rw [if_neg e]

theorem mem_readyKeys (w : WorkerRecord p) (k : ExpertKey) :
    k ∈ readyKeys w ↔ reportsReady w k = true := by
  unfold readyKeys reportsReady
  rw [ExtTreeSet.mem_ofList, List.contains_iff_mem, List.mem_filterMap]
  constructor
  · rintro ⟨⟨a, st⟩, hm, hif⟩
    split_ifs at hif with hr
    simp only [Option.some.injEq] at hif
    rw [← hif, ExtTreeMap.mem_toList_iff_getElem?_eq_some.mp hm]
    simpa using hr
  · intro h
    cases hk : w.expertStates[k]? with
    | none => rw [hk] at h; exact absurd h (by simp)
    | some st =>
      rw [hk] at h
      refine ⟨(k, st), ExtTreeMap.mem_toList_iff_getElem?_eq_some.mpr hk, ?_⟩
      rw [if_pos (by simpa using h)]

theorem shown_eq_none_of_not_ready {w : WorkerRecord p} {i : Nat} {k : ExpertKey}
    (h : k ∉ readyKeys w) : shown i k w = none := by
  rw [mem_readyKeys] at h
  simp [shown, serves, h]

theorem shown_eq_none_of_instance {w : WorkerRecord p} {i : Nat} {k : ExpertKey}
    (h : i ≠ w.registration.request.instanceId) : shown i k w = none := by
  simp [shown, serves, Ne.symm h]

theorem shown_eq_none_of_not_live {w : WorkerRecord p} {i : Nat} {k : ExpertKey}
    (h : w.live = false) : shown i k w = none := by
  simp [shown, serves, h]

/-! ## what a publication writes -/

theorem mem_routeChanges {inner : Inner p} {i : Nat} {affected : ExtTreeSet ExpertKey}
    {c : RouteEntry} (h : c ∈ routeChanges inner i affected) :
    c.key ∈ affected ∧ c.replicas = currentReplicas inner i c.key := by
  unfold routeChanges at h
  rw [List.mem_filterMap] at h
  obtain ⟨k, hk, hc⟩ := h
  split_ifs at hc with he
  simp only [Option.some.injEq] at hc
  rw [← hc]
  exact ⟨ExtTreeSet.mem_toList.mp hk, rfl⟩

theorem exists_routeChange {inner : Inner p} {i : Nat} {affected : ExtTreeSet ExpertKey}
    {k : ExpertKey} (hk : k ∈ affected)
    (hne : publishedReplicas inner i k ≠ currentReplicas inner i k) :
    ∃ c ∈ routeChanges inner i affected, c.key = k := by
  refine ⟨⟨k.layerId, k.expertId, currentReplicas inner i k⟩, ?_, rfl⟩
  unfold routeChanges
  rw [List.mem_filterMap]
  exact ⟨k, ExtTreeSet.mem_toList.mpr hk, if_neg hne⟩

/-- the changes of one publication are in strictly increasing key order -/
theorem routeChanges_sorted (inner : Inner p) (i : Nat) (affected : ExtTreeSet ExpertKey) :
    (routeChanges inner i affected).Pairwise fun a b => compare a.key b.key = .lt := by
  unfold routeChanges
  rw [List.pairwise_filterMap]
  refine ExtTreeSet.ordered_toList.imp ?_
  intro a b hlt c hc d hd
  split_ifs at hc with h1
  split_ifs at hd with h2
  simp only [Option.some.injEq] at hc hd
  rw [← hc, ← hd]
  exact hlt

/-- a change list with distinct keys: each key is written by its own change, the rest stays -/
theorem getElem?_foldl_applyChange (changes : List RouteEntry) (routes : RouteTable)
    (hd : changes.Pairwise fun a b => a.key ≠ b.key) (k : ExpertKey) :
    ((∀ c ∈ changes, c.key ≠ k) → (changes.foldl applyChange routes)[k]? = routes[k]?) ∧
    (∀ c ∈ changes, c.key = k → (changes.foldl applyChange routes)[k]?
      = if c.replicas.isEmpty then none else some c.replicas) := by
  induction changes generalizing routes with
  | nil => simp
  | cons c cs ih =>
    rw [List.pairwise_cons] at hd
    have hstep : (applyChange routes c)[k]?
        = if c.key = k then (if c.replicas.isEmpty then none else some c.replicas)
          else routes[k]? := by
      unfold applyChange
      split_ifs with he hk hk
      · rw [Maps.getElem?_erase_eq, if_pos hk]
      · rw [Maps.getElem?_erase_eq, if_neg hk]
      · rw [Maps.getElem?_insert_eq, if_pos hk]
      · rw [Maps.getElem?_insert_eq, if_neg hk]
    obtain ⟨ih1, ih2⟩ := ih (applyChange routes c) hd.2
    constructor
    · intro h
      rw [List.foldl_cons, ih1 (fun d hd' => h d (List.mem_cons_of_mem _ hd')), hstep,
        if_neg (h c List.mem_cons_self)]
    · intro d hd' hk
      rw [List.foldl_cons]
      rcases List.mem_cons.mp hd' with rfl | hm
      · have hrest : ∀ c' ∈ cs, c'.key ≠ k := by
          intro c' hc' e
          exact hd.1 c' hc' (hk.trans e.symm)
        rw [ih1 hrest, hstep, if_pos hk]
      · exact ih2 d hm hk

theorem routeChanges_distinct (inner : Inner p) (i : Nat) (affected : ExtTreeSet ExpertKey) :
    (routeChanges inner i affected).Pairwise fun a b => a.key ≠ b.key := by
  refine (routeChanges_sorted inner i affected).imp ?_
  intro a b hlt e
  rw [e, Std.compare_self] at hlt
  cases hlt

/-- the stored routes of an instance, empty before its first publication -/
def Inner.routes (inner : Inner p) (i : Nat) : RouteTable :=
  (inner.topologies[i]?).elim ∅ InstanceTopology.routes

theorem routes_published (inner : Inner p) (i v : Nat) (affected : ExtTreeSet ExpertKey) (j : Nat) :
    (inner.published i v affected).routes j =
      if i = j then (routeChanges inner i affected).foldl applyChange (inner.routes i)
      else inner.routes j := by
  unfold Inner.routes Inner.published
  simp only [Maps.getElem?_insert_eq]
  by_cases e : i = j
  · subst e
    rw [if_pos rfl, if_pos rfl]
    cases inner.topologies[i]? <;> rfl
  · rw [if_neg e, if_neg e]

theorem publishedReplicas_eq (inner : Inner p) (i : Nat) (k : ExpertKey) :
    publishedReplicas inner i k = ((inner.routes i)[k]?).getD [] := by
  unfold publishedReplicas Inner.routes
  cases inner.topologies[i]? with
  | none => simp
  | some t => rfl

/-- no key is stored with an empty route list -/
def NoEmptyRoute (inner : Inner p) : Prop := ∀ i (k : ExpertKey), (inner.routes i)[k]? ≠ some []

theorem published_getElem? (inner : Inner p) (i v : Nat) (affected : ExtTreeSet ExpertKey)
    (k : ExpertKey) :
    ((inner.published i v affected).routes i)[k]? = (inner.routes i)[k]? ∧
      (k ∈ affected → publishedReplicas inner i k = currentReplicas inner i k) ∨
    (k ∈ affected ∧ ((inner.published i v affected).routes i)[k]?
      = if (currentReplicas inner i k).isEmpty then none else some (currentReplicas inner i k)) := by
  rw [routes_published, if_pos rfl]
  obtain ⟨h1, h2⟩ := getElem?_foldl_applyChange (routeChanges inner i affected) (inner.routes i)
    (routeChanges_distinct inner i affected) k
  by_cases hc : ∃ c ∈ routeChanges inner i affected, c.key = k
  · obtain ⟨c, hm, hk⟩ := hc
    obtain ⟨ha, hr⟩ := mem_routeChanges hm
    rw [hk] at ha hr
    refine .inr ⟨ha, ?_⟩
    rw [h2 c hm hk, hr]
  · have hn : ∀ c ∈ routeChanges inner i affected, c.key ≠ k := fun c hm e => hc ⟨c, hm, e⟩
    refine .inl ⟨h1 hn, ?_⟩
    intro ha
    by_contra hne
    exact hc (exists_routeChange ha hne)

/-- a publication replaces the routes of the affected keys by the current ones -/
theorem publishedReplicas_published (inner : Inner p) (i v : Nat)
    (affected : ExtTreeSet ExpertKey) (j : Nat) (k : ExpertKey) :
    publishedReplicas (inner.published i v affected) j k =
      if i = j ∧ k ∈ affected then currentReplicas inner j k
      else publishedReplicas inner j k := by
  by_cases e : i = j
  · subst e
    rw [publishedReplicas_eq]
    rcases published_getElem? inner i v affected k with ⟨h, ha⟩ | ⟨ha, h⟩
    · rw [h, ← publishedReplicas_eq]
      by_cases hk : k ∈ affected
      · rw [if_pos ⟨rfl, hk⟩, ha hk]
      · rw [if_neg (fun hh => hk hh.2)]
    · have hik : i = i ∧ k ∈ affected := ⟨rfl, ha⟩
      rw [if_pos hik, h]
      cases currentReplicas inner i k <;> rfl
  · rw [if_neg (fun hh => e hh.1), publishedReplicas_eq, routes_published, if_neg e,
      publishedReplicas_eq]

theorem noEmptyRoute_published {inner : Inner p} (h : NoEmptyRoute inner) (i v : Nat)
    (affected : ExtTreeSet ExpertKey) : NoEmptyRoute (inner.published i v affected) := by
  intro j k
  by_cases e : i = j
  · subst e
    rcases published_getElem? inner i v affected k with ⟨h', _⟩ | ⟨_, h'⟩
    · rw [h']
      exact h i k
    · rw [h']
      cases currentReplicas inner i k <;> simp
  · rw [routes_published, if_neg e]
    exact h j k

/-! ## the invariant -/

def Tight (inner : Inner p) : Prop :=
  NoEmptyRoute inner ∧ ∀ i k, publishedReplicas inner i k = currentReplicas inner i k

/-- the invariant holds except possibly for the keys of `affected` in instance `i` -/
def TightUpTo (inner : Inner p) (i : Nat) (affected : ExtTreeSet ExpertKey) : Prop :=
  NoEmptyRoute inner ∧ ∀ j k, ¬ (i = j ∧ k ∈ affected) →
    publishedReplicas inner j k = currentReplicas inner j k

/-- a successful publication of the affected keys restores the invariant -/
theorem publishRoutes_tight {store : ControllerStateStore σ} {inner inner' : Inner p} {s s' : σ}
    {i : Nat} {affected : ExtTreeSet ExpertKey} {changed : Bool}
    (h : publishRoutes store inner s i affected = (.ok changed, inner', s'))
    (ht : TightUpTo inner i affected) : Tight inner' := by
  obtain ⟨hne, hp⟩ := ht
  rcases publishRoutes_cases h with ⟨_, hi, _, hc⟩ | ⟨e, he, _⟩ | ⟨v, _, hi, _⟩
  · subst hi
    refine ⟨hne, ?_⟩
    intro j k
    by_cases hjk : i = j ∧ k ∈ affected
    · obtain ⟨e, hk⟩ := hjk
      subst e
      by_contra hd
      obtain ⟨c, hm, _⟩ := exists_routeChange hk hd
      rw [hc] at hm
      cases hm
    · exact hp j k hjk
  · cases he
  · subst hi
    refine ⟨noEmptyRoute_published hne i v affected, ?_⟩
    intro j k
    rw [publishedReplicas_published]
    by_cases hjk : i = j ∧ k ∈ affected
    · rw [if_pos hjk]
      rfl
    · rw [if_neg hjk]
      exact hp j k hjk

/-- the record of one worker changes: the invariant survives wherever its contribution does -/
theorem Tight.setWorker {inner : Inner p} (h : Tight inner) (id : String) (w : WorkerRecord p)
    (i : Nat) (affected : ExtTreeSet ExpertKey)
    (hc : ∀ j k, ¬ (i = j ∧ k ∈ affected) →
      (inner.workers[id]?).bind (shown j k) = shown j k w) :
    TightUpTo (inner.setWorker id w) i affected := by
  refine ⟨h.1, ?_⟩
  intro j k hjk
  rw [currentReplicas_setWorker inner id w j k (hc j k hjk), ← h.2 j k]
  rfl

/-- a record with the same contributions everywhere -/
theorem Tight.setWorker_same {inner : Inner p} (h : Tight inner) (id : String)
    (w : WorkerRecord p) (hc : ∀ j k, (inner.workers[id]?).bind (shown j k) = shown j k w) :
    Tight (inner.setWorker id w) := by
  refine ⟨h.1, ?_⟩
  intro j k
  rw [currentReplicas_setWorker inner id w j k (hc j k), ← h.2 j k]
  rfl

/-- the invariant reads the workers and the topologies only -/
theorem Tight.congr {inner inner' : Inner p} (h : Tight inner)
    (hw : inner'.workers = inner.workers) (ht : inner'.topologies = inner.topologies) :
    Tight inner' := by
  obtain ⟨hne, hp⟩ := h
  refine ⟨?_, ?_⟩
  · intro i k
    unfold Inner.routes
    rw [ht]
    exact hne i k
  · intro i k
    have h1 : publishedReplicas inner' i k = publishedReplicas inner i k := by
      unfold publishedReplicas
      rw [ht]
    have h2 : currentReplicas inner' i k = currentReplicas inner i k := by
      unfold currentReplicas
      rw [hw]
    rw [h1, h2]
    exact hp i k

theorem Tight.notifyIf {inner : Inner p} (h : Tight inner) (b : Bool) :
    Tight (notifyIf b inner) :=
  h.congr (notifyIf_workers b inner) (notifyIf_topologies b inner)

/-! ## the operations keep the invariant -/

/-- the contribution of a record outside the READY keys of its instance -/
theorem shown_eq_none_of_not_affected {w : WorkerRecord p} {j : Nat} {k : ExpertKey}
    (h : ¬ (w.registration.request.instanceId = j ∧ k ∈ readyKeys w)) : shown j k w = none := by
  by_cases e : w.registration.request.instanceId = j
  · exact shown_eq_none_of_not_ready (fun hk => h ⟨e, hk⟩)
  · exact shown_eq_none_of_instance (Ne.symm e)

theorem registerProcess_tight {store : ControllerStateStore σ} {inner inner' : Inner p} {s s' : σ}
    {reg : ValidRegistration p} {r : Except ControllerStateError RegistrationResult}
    (h : registerProcess store inner s reg = (r, inner', s')) (ht : Tight inner) :
    Tight inner' := by
  rcases registerProcess_cases h with ⟨_, _, hi, _⟩ | ⟨g, t, _, _, _, _, hnew | hold⟩
  · rw [hi]
    exact ht
  · obtain ⟨hw, _, hi⟩ := hnew
    rw [hi]
    apply ht.setWorker_same
    intro j k
    rw [hw, shown_eq_none_of_not_live rfl]
    rfl
  · obtain ⟨old, changed, inner2, hw, hp, hi⟩ := hold
    rw [hi]
    apply Tight.notifyIf
    apply publishRoutes_tight hp
    apply ht.setWorker
    intro j k hjk
    rw [hw, shown_eq_none_of_not_live rfl]
    exact shown_eq_none_of_not_affected hjk

theorem heartbeat_tight {store : ControllerStateStore σ} {inner inner' : Inner p} {s s' : σ}
    {workerId startId : String} {lease sequence : Nat} {state : Int}
    {r : Except ControllerStateError HeartbeatResult}
    (h : heartbeat store inner s workerId startId lease sequence state = (r, inner', s'))
    (ht : Tight inner) : Tight inner' := by
  rcases heartbeat_cases h with ⟨hi, _⟩ | ⟨w, runState, b, hw, _, _, _, hlive | hdead⟩
  · rw [hi]
    exact ht
  · obtain ⟨hl, _, hi⟩ := hlive
    rw [hi]
    apply Tight.notifyIf
    apply ht.setWorker_same
    intro j k
    rw [hw]
    show shown j k w = shown j k (w.beat sequence runState)
    simp [shown, serves, WorkerRecord.beat, hl, workerRoute, reportsReady]
  · obtain ⟨hl, changed, inner2, hp, hi⟩ := hdead
    rw [hi]
    apply Tight.notifyIf
    apply publishRoutes_tight hp
    apply ht.setWorker
    intro j k hjk
    rw [hw, shown_eq_none_of_not_affected (w := w.beat sequence runState) hjk]
    exact shown_eq_none_of_not_live hl

theorem closeHeartbeat_tight {store : ControllerStateStore σ} {inner inner' : Inner p} {s s' : σ}
    {workerId startId : String} {lease : Nat} {r : Except ControllerStateError Bool}
    (h : closeHeartbeat store inner s workerId startId lease = (r, inner', s'))
    (ht : Tight inner) : Tight inner' := by
  rcases closeHeartbeat_cases h with ⟨hi, _⟩ | ⟨w, changed, inner2, hw, _, _, _, _, hp, hi⟩
  · rw [hi]
    exact ht
  · rw [hi]
    apply Tight.notifyIf
    apply publishRoutes_tight hp
    apply ht.setWorker
    intro j k hjk
    rw [hw, shown_eq_none_of_not_live rfl]
    exact shown_eq_none_of_not_affected hjk

theorem openHeartbeat_tight {inner inner' : Inner p} {s s' : σ} {workerId startId : String}
    {r : Except ControllerStateError Nat}
    (h : openHeartbeat inner s workerId startId = (r, inner', s')) (ht : Tight inner) :
    Tight inner' := by
  obtain ⟨_, hi | ⟨w, hw, _, _, hi⟩⟩ := openHeartbeat_cases h
  · rw [hi]
    exact ht
  · rw [hi]
    have h1 : Tight (inner.setWorker workerId
        { w with heartbeatLease := wrappingNext inner.nextHeartbeatLease, heartbeatOpen := true }) := by
      apply ht.setWorker_same
      intro j k
      rw [hw]
      rfl
    exact h1.congr rfl rfl

theorem recordDrains_tight {inner : Inner p} {workerId : String} {w : WorkerRecord p}
    {i generation : Nat} {experts : ExtTreeSet ExpertKey}
    (hw : inner.workers[workerId]? = some w) (ht : Tight inner) :
    Tight (recordDrains inner workerId w i generation experts).1 := by
  have h1 : ∀ drains, Tight (inner.setWorker workerId { w with drains := drains }) := by
    intro drains
    apply ht.setWorker_same
    intro j k
    rw [hw]
    rfl
  unfold recordDrains
  by_cases he : experts.isEmpty
  · simp only [he, ↓reduceIte]
    exact h1 _
  · simp only [he, Bool.false_eq_true, ↓reduceIte]
    exact (h1 _).congr rfl rfl

theorem mem_targetsAffected {w : WorkerRecord p} {targets : ExtTreeMap ExpertKey TargetExpert}
    {k : ExpertKey} : k ∈ targetsAffected w targets ↔ k ∈ w.targets ∨ k ∈ targets := by
  unfold targetsAffected
  rw [ExtTreeSet.mem_ofList, List.contains_iff_mem, List.mem_append, ExtTreeMap.mem_keys,
    ExtTreeMap.mem_keys]

theorem shown_placed {w : WorkerRecord p} {generation : Nat}
    {targets : ExtTreeMap ExpertKey TargetExpert} {j : Nat} {k : ExpertKey}
    (h : ¬ (w.registration.request.instanceId = j ∧ k ∈ targetsAffected w targets)) :
    shown j k (w.placed generation targets) = shown j k w := by
  by_cases e : w.registration.request.instanceId = j
  · have hk : ¬ (k ∈ w.targets ∨ k ∈ targets) := fun hk => h ⟨e, mem_targetsAffected.mpr hk⟩
    rw [not_or] at hk
    have h1 : w.targets.contains k = false := Bool.eq_false_iff.mpr fun hc =>
      hk.1 (ExtTreeMap.mem_iff_contains.mpr hc)
    have h2 : targets.contains k = false := Bool.eq_false_iff.mpr fun hc =>
      hk.2 (ExtTreeMap.mem_iff_contains.mpr hc)
    simp [shown, serves, WorkerRecord.placed, h1, h2]
  · rw [shown_eq_none_of_instance (Ne.symm e), shown_eq_none_of_instance]
    exact Ne.symm e

theorem setTargets_tight {store : ControllerStateStore σ} {inner inner' : Inner p} {s s' : σ}
    {workerId startId : String} {targets : List TargetExpert}
    {r : Except ControllerStateError Placement}
    (h : setTargets store inner s workerId startId targets = (r, inner', s'))
    (ht : Tight inner) : Tight inner' := by
  rcases setTargets_cases h with ⟨_, _, hi, _⟩ | ⟨_, _, _, _, _, _, hi, _⟩ |
    ⟨w, next, s1, changed, inner2, hw, _, _, _, _, hp, _, hi⟩
  · rw [hi]
    exact ht
  · rw [hi]
    exact ht
  · rw [hi]
    have hplaced : TightUpTo (inner.placed workerId w (max next 1) (normalizeTargets targets))
        w.registration.request.instanceId (targetsAffected w (normalizeTargets targets)) := by
      refine ht.setWorker workerId (w.placed (max next 1) (normalizeTargets targets)) _ _ ?_
      intro j k hjk
      rw [hw, shown_placed hjk]
      rfl
    have h2 : Tight inner2 := publishRoutes_tight hp hplaced
    have hw2 : inner2.workers[workerId]?
        = some (w.placed (max next 1) (normalizeTargets targets)) := by
      rw [publishRoutes_frame hp]
      show (inner.setWorker workerId (w.placed (max next 1)
        (normalizeTargets targets))).workers[workerId]? = _
      rw [setWorker_workers, if_pos rfl]
    exact (recordDrains_tight hw2 h2).notifyIf _

theorem getElem?_insertStates (states : List ExpertState) (m : ExtTreeMap ExpertKey ExpertState)
    (k : ExpertKey) (h : ∀ st ∈ states, st.key ≠ k) : (insertStates m states)[k]? = m[k]? := by
  unfold insertStates
  induction states generalizing m with
  | nil => rfl
  | cons st states ih =>
    rw [List.foldl_cons, ih _ (fun st' hm => h st' (List.mem_cons_of_mem _ hm)),
      Maps.getElem?_insert_eq, if_neg (h st List.mem_cons_self)]

theorem mem_reportAffected {w : WorkerRecord p} {full : Bool} {normalized : List ExpertState}
    {k : ExpertKey} : k ∈ reportAffected w full normalized ↔
      (full = true ∧ k ∈ w.expertStates) ∨ ∃ st ∈ normalized, st.key = k := by
  unfold reportAffected
  rw [ExtTreeSet.mem_ofList, List.contains_iff_mem, List.mem_append, List.mem_map]
  cases full with
  | true => simp [ExtTreeMap.mem_keys]
  | false => simp

/-- a report changes the state of the affected keys only -/
theorem reported_getElem? {w : WorkerRecord p} {sequence : Nat} {full : Bool}
    {normalized : List ExpertState} {k : ExpertKey} (h : k ∉ reportAffected w full normalized) :
    (w.reported sequence full normalized).expertStates[k]? = w.expertStates[k]? := by
  rw [mem_reportAffected, not_or] at h
  obtain ⟨hf, hn⟩ := h
  show (insertStates (if full then ∅ else w.expertStates) normalized)[k]? = _
  rw [getElem?_insertStates _ _ _ (fun st hm e => hn ⟨st, hm, e⟩)]
  cases full with
  | true =>
    have hk : k ∉ w.expertStates := fun hk => hf ⟨rfl, hk⟩
    rw [ExtTreeMap.getElem?_eq_none hk]
    simp
  | false => rfl

theorem shown_reported {w : WorkerRecord p} {sequence : Nat} {full : Bool}
    {normalized : List ExpertState} {j : Nat} {k : ExpertKey}
    (h : ¬ (w.registration.request.instanceId = j ∧ k ∈ reportAffected w full normalized)) :
    shown j k (w.reported sequence full normalized) = shown j k w := by
  by_cases e : w.registration.request.instanceId = j
  · have hk : reportsReady (w.reported sequence full normalized) k = reportsReady w k := by
      unfold reportsReady
      rw [reported_getElem? (fun hk => h ⟨e, hk⟩)]
    unfold shown serves
    rw [hk]
    rfl
  · rw [shown_eq_none_of_instance (Ne.symm e), shown_eq_none_of_instance]
    exact Ne.symm e

theorem applyStateReport_tight {store : ControllerStateStore σ} {inner inner' : Inner p}
    {s s' : σ} {workerId startId : String} {placementGeneration reportSequence : Nat}
    {full : Bool} {states : List ExpertState} {r : Except ControllerStateError StateReportResult}
    (h : applyStateReport store inner s workerId startId placementGeneration reportSequence full
      states = (r, inner', s')) (ht : Tight inner) : Tight inner' := by
  rcases applyStateReport_cases h with ⟨_, _, hi, _⟩ | ⟨_, hi, _⟩ |
    ⟨w, normalized, changed, inner2, hw, _, _, _, hp, _, hi⟩
  · rw [hi]
    exact ht
  · rw [hi]
    exact ht
  · rw [hi]
    apply Tight.notifyIf
    apply publishRoutes_tight hp
    apply ht.setWorker
    intro j k hjk
    rw [hw, shown_reported hjk]
    rfl

theorem drainAuthorizations_tight {store : ControllerStateStore σ} {inner inner' : Inner p}
    {s s' : σ} {workerId startId : String}
    {r : Except ControllerStateError (List DrainAuthorization)}
    (h : drainAuthorizations store inner s workerId startId = (r, inner', s'))
    (ht : Tight inner) : Tight inner' := by
  rcases drainAuthorizations_cases h with ⟨_, _, hi, _⟩ | ⟨_, _, _, _, _, hi, _⟩ |
    ⟨w, changed, inner2, hw, _, _, hp, _, hi⟩
  · rw [hi]
    exact ht
  · rw [hi]
    exact ht
  · rw [hi]
    apply Tight.notifyIf
    have h2 : Tight inner2 := by
      apply publishRoutes_tight hp
      apply ht.setWorker
      intro j k hjk
      have hx : shown j k { w with includedInTopology := false } = none := by
        simp [shown, serves]
      rw [hw, hx]
      exact shown_eq_none_of_not_affected hjk
    have hw2 : inner2.workers[workerId]? = some { w with includedInTopology := false } := by
      rw [publishRoutes_frame hp]
      show (inner.setWorker workerId { w with includedInTopology := false }).workers[workerId]? = _
      rw [setWorker_workers, if_pos rfl]
    have h3 : Tight (inner2.setWorker workerId
        { w with includedInTopology := false, drains := w.drains ++ [shutdownDrain inner2 w] }) := by
      apply h2.setWorker_same
      intro j k
      rw [hw2]
      rfl
    exact h3.congr rfl rfl

theorem completeDrain_tight {store : ControllerStateStore σ} {inner inner' : Inner p} {s s' : σ}
    {workerId startId : String} {drainId : Nat} {r : Except ControllerStateError Bool}
    (h : completeDrain store inner s workerId startId drainId = (r, inner', s'))
    (ht : Tight inner) : Tight inner' := by
  rcases completeDrain_cases h with ⟨_, _, hi, _⟩ | ⟨_, hi, _⟩ |
    ⟨w, drain, hw, _, _, _, _, ⟨_, _, hi⟩ | ⟨_, changed, inner2, hp, hi⟩⟩
  · rw [hi]
    exact ht
  · rw [hi]
    exact ht
  · rw [hi]
    apply ht.setWorker_same
    intro j k
    rw [hw]
    rfl
  · rw [hi]
    apply Tight.notifyIf
    apply publishRoutes_tight hp
    apply ht.setWorker
    intro j k hjk
    rw [hw, shown_eq_none_of_not_live rfl]
    exact shown_eq_none_of_not_affected hjk

theorem register_tight {store : ControllerStateStore σ} {inner inner' : Inner p} {s s' : σ}
    {request : RegisterWorkerRequest} {r : Except ControllerStateError RegistrationResult}
    (h : register store inner s request = (r, inner', s')) (ht : Tight inner) : Tight inner' := by
  rcases register_cases h with ⟨hi, _⟩ | ⟨reg, _, _, hr⟩
  · rw [hi]
    exact ht
  · exact registerProcess_tight hr ht

theorem Op.run_tight (store : ControllerStateStore σ) (w : World p σ) (op : Op)
    (ht : Tight w.inner) : Tight (op.run store w).inner := by
  cases op <;> apply World.after_of (fun w' => Tight w'.inner) <;> intro r inner' s' h
  · exact register_tight h ht
  · exact openHeartbeat_tight h ht
  · exact heartbeat_tight h ht
  · exact closeHeartbeat_tight h ht
  · exact setTargets_tight h ht
  · exact applyStateReport_tight h ht
  · exact drainAuthorizations_tight h ht
  · exact completeDrain_tight h ht

/-- no worker and no route -/
theorem tight_of_empty {inner : Inner p} (hw : inner.workers = ∅)
    (hr : ∀ i, inner.routes i = ∅) : Tight inner := by
  refine ⟨?_, ?_⟩
  · intro i k
    rw [hr i]
    simp
  · intro i k
    rw [publishedReplicas_eq, hr i, currentReplicas_eq_filterMap, hw]
    have he : Maps.values (∅ : ExtTreeMap String (WorkerRecord p)) = [] := by
      simp [Maps.values]
    rw [he]
    simp

theorem restore_tight {store : ControllerStateStore σ} {historyLimit : Nat}
    {h : 0 < historyLimit} {s s' : σ} {inner : Inner p}
    (hr : restore p store historyLimit h s = (.ok inner, s')) : Tight inner := by
  obtain ⟨snapshot, s1, topologies, _, ht, hi⟩ := restore_cases hr
  rw [hi]
  refine tight_of_empty rfl ?_
  intro i
  have hall := restoreTopologies_routes _ ht (by simp)
  show (topologies[i]?).elim ∅ InstanceTopology.routes = ∅
  cases hti : topologies[i]? with
  | none => rfl
  | some t => exact (hall i t hti).1

/-- in every reachable state the stored routes are the routes of the worker records -/
theorem reachable_tight {store : ControllerStateStore σ} {w : World p σ}
    (h : Reachable store w) : Tight w.inner := by
  induction h with
  | new hl hp s =>
    refine tight_of_empty rfl ?_
    intro i
    show (Option.elim (∅ : ExtTreeMap Nat InstanceTopology)[i]? ∅ InstanceTopology.routes) = ∅
    simp
  | restored hl hp s s' inner hr => exact restore_tight hr
  | step w op _ ih => exact Op.run_tight store w op ih

/-! ## the routes in words -/

/-- the worker record answers for `key` in the topology of instance `i` -/
structure Serving (w : WorkerRecord p) (i : Nat) (key : ExpertKey) : Prop where
  registered : w.registration.request.instanceId = i
  live : w.live = true
  included : w.includedInTopology = true
  target : key ∈ w.targets
  ready : ∃ st, w.expertStates[key]? = some st ∧ st.state = ExpertStateKind.ready.toInt

/-- the routes of exactly the serving workers, sorted by worker id -/
structure ServingRoutes (inner : Inner p) (i : Nat) (key : ExpertKey) (l : List WorkerRoute) :
    Prop where
  sorted : l.Pairwise fun a b => a.workerId < b.workerId
  exact : ∀ route, route ∈ l ↔
    ∃ (id : String) (w : WorkerRecord p), inner.workers[id]? = some w ∧ Serving w i key ∧
      route = workerRoute w

theorem serves_iff (w : WorkerRecord p) (i : Nat) (k : ExpertKey) :
    serves i k w = true ↔ Serving w i k := by
  have hready : reportsReady w k = true ↔
      ∃ st, w.expertStates[k]? = some st ∧ st.state = ExpertStateKind.ready.toInt := by
    unfold reportsReady
    cases w.expertStates[k]? with
    | none => simp
    | some st => simp [ExpertState.isReady]
  unfold serves
  rw [Bool.and_eq_true, Bool.and_eq_true, Bool.and_eq_true, Bool.and_eq_true, hready, beq_iff_eq,
    ← ExtTreeMap.mem_iff_contains]
  constructor
  · rintro ⟨⟨⟨⟨h1, h2⟩, h3⟩, h4⟩, h5⟩
    exact ⟨h1, h2, h3, h4, h5⟩
  · rintro ⟨h1, h2, h3, h4, h5⟩
    exact ⟨⟨⟨⟨h1, h2⟩, h3⟩, h4⟩, h5⟩

theorem mem_currentReplicas {inner : Inner p} {i : Nat} {k : ExpertKey} {route : WorkerRoute} :
    route ∈ currentReplicas inner i k ↔
      ∃ (id : String) (w : WorkerRecord p), inner.workers[id]? = some w ∧ Serving w i k ∧
        route = workerRoute w := by
  unfold currentReplicas
  rw [List.mem_insertionSort, List.mem_map]
  constructor
  · rintro ⟨w, hw, rfl⟩
    rw [List.mem_filter, Maps.mem_values] at hw
    obtain ⟨⟨id, hid⟩, hs⟩ := hw
    exact ⟨id, w, hid, (serves_iff w i k).mp hs, rfl⟩
  · rintro ⟨id, w, hw, hs, rfl⟩
    refine ⟨w, ?_, rfl⟩
    rw [List.mem_filter, Maps.mem_values]
    exact ⟨⟨id, hw⟩, (serves_iff w i k).mpr hs⟩

/-- the worker records lie in id order, so sorting their routes by id changes nothing -/
theorem currentReplicas_sorted {inner : Inner p} (hk : Keyed inner) (i : Nat) (k : ExpertKey) :
    (currentReplicas inner i k).Pairwise fun a b => a.workerId < b.workerId := by
  have hvalues : (Maps.values inner.workers).Pairwise fun a b =>
      compare (workerRoute a).workerId (workerRoute b).workerId = .lt := by
    apply Maps.pairwise_values
    intro a b v w hv hw hlt
    show compare v.registration.request.workerId w.registration.request.workerId = .lt
    rw [hk a v hv, hk b w hw]
    exact hlt
  have hroutes : (((Maps.values inner.workers).filter (serves i k)).map workerRoute).Pairwise
      fun a b => compare a.workerId b.workerId = .lt :=
    List.pairwise_map.mpr (hvalues.filter _)
  have hsame : currentReplicas inner i k
      = ((Maps.values inner.workers).filter (serves i k)).map workerRoute := by
    unfold currentReplicas
    apply List.Pairwise.insertionSort_eq
    refine hroutes.imp ?_
    intro a b hlt
    simp [routeOrder, hlt]
  rw [hsame]
  refine hroutes.imp ?_
  intro a b hlt
  exact compareOfLessAndEq_eq_lt.mp hlt

theorem servingRoutes_currentReplicas {inner : Inner p} (hk : Keyed inner) (i : Nat)
    (k : ExpertKey) : ServingRoutes inner i k (currentReplicas inner i k) :=
  ⟨currentReplicas_sorted hk i k, fun _ => mem_currentReplicas⟩

theorem ServingRoutes.unique {inner : Inner p} {i : Nat} {k : ExpertKey} {l l' : List WorkerRoute}
    (h : ServingRoutes inner i k l) (h' : ServingRoutes inner i k l') : l = l' := by
  have hirr : Std.Irrefl fun a b : WorkerRoute => a.workerId < b.workerId :=
    ⟨fun a => lt_irrefl a.workerId⟩
  have hanti : Std.Antisymm fun a b : WorkerRoute => a.workerId < b.workerId :=
    ⟨fun a b hab hba => absurd (hab.trans hba) (lt_irrefl _)⟩
  refine List.Pairwise.eq_of_mem_iff h.sorted h'.sorted ?_
  intro route
  rw [h.exact route, h'.exact route]

/-- the stored routes of every instance are exactly those of its serving workers -/
def PublishedSpec (inner : Inner p) : Prop :=
  ∀ (instanceId : Nat) (key : ExpertKey),
    (∀ l, ((inner.topologies[instanceId]?).bind fun t => t.routes[key]?) = some l ↔
      l ≠ [] ∧ ServingRoutes inner instanceId key l) ∧
    (((inner.topologies[instanceId]?).bind fun t => t.routes[key]?) = none ↔
      ∀ (id : String) (r : WorkerRecord p), inner.workers[id]? = some r →
        ¬ Serving r instanceId key)

theorem Tight.publishedSpec {inner : Inner p} (h : Tight inner) (hkeyed : Keyed inner) :
    PublishedSpec inner := by
  intro instanceId key
  obtain ⟨hne, hp⟩ := h
  have hs := servingRoutes_currentReplicas hkeyed instanceId key
  rw [← hp instanceId key] at hs
  have hroutes : ((inner.topologies[instanceId]?).bind fun t => t.routes[key]?)
      = (inner.routes instanceId)[key]? := by
    unfold Inner.routes
    cases inner.topologies[instanceId]? with
    | none => simp
    | some t => rfl
  rw [publishedReplicas_eq] at hs
  rw [hroutes]
  cases hk : (inner.routes instanceId)[key]? with
  | none =>
    rw [hk] at hs
    refine ⟨?_, ?_⟩
    · intro l
      constructor
      · intro e
        cases e
      · rintro ⟨hl, hl'⟩
        exact absurd (hl'.unique hs) hl
    · refine ⟨fun _ id r hr hv => ?_, fun _ => rfl⟩
      exact absurd ((hs.exact _).mpr ⟨id, r, hr, hv, rfl⟩) (by simp)
  | some l =>
    rw [hk] at hs
    have hl : l ≠ [] := fun e => hne instanceId key (by rw [hk, e])
    refine ⟨?_, ?_⟩
    · intro l'
      constructor
      · intro e
        cases e
        exact ⟨hl, hs⟩
      · rintro ⟨_, hl'⟩
        rw [hl'.unique hs]
        rfl
    · refine ⟨fun e => (by cases e), fun hnone => ?_⟩
      obtain ⟨route, hroute⟩ := List.exists_mem_of_ne_nil l hl
      obtain ⟨id, r, hr, hv, _⟩ := (hs.exact route).mp hroute
      exact absurd hv (hnone id r hr)

theorem published_routes_spec {store : ControllerStateStore σ} {w : World p σ}
    (h : Reachable store w) (instanceId : Nat) (key : ExpertKey) :
    (∀ l, ((w.inner.topologies[instanceId]?).bind fun t => t.routes[key]?) = some l ↔
      l ≠ [] ∧ ServingRoutes w.inner instanceId key l) ∧
    (((w.inner.topologies[instanceId]?).bind fun t => t.routes[key]?) = none ↔
      ∀ (id : String) (r : WorkerRecord p), w.inner.workers[id]? = some r →
        ¬ Serving r instanceId key) :=
  (reachable_tight h).publishedSpec (reachable_keyed h) instanceId key

end

/-- two live workers report expert (1, 2) -/
def Fixture.twoReady : World Fixture.parsers ControllerStoreSnapshot :=
  runOps TransientControllerStateStore Fixture.start
    (Fixture.registerLive "worker-1" "start-0" 1 ++ Fixture.registerLive "worker-0" "start-0" 2 ++
      [.setTargets "worker-1" "start-0" [Fixture.target 1 2],
        .setTargets "worker-0" "start-0" [Fixture.target 1 2],
        .applyStateReport "worker-1" "start-0" 1 1 true [Fixture.ready 1 2],
        .applyStateReport "worker-0" "start-0" 1 1 true [Fixture.ready 1 2]])

theorem published_routes_spec_twoReady :
    (Fixture.twoReady.inner.routes 7)[(⟨1, 2⟩ : ExpertKey)]?.map (List.map WorkerRoute.workerId)
        = some ["worker-0", "worker-1"] ∧
      ∀ l, ((Fixture.twoReady.inner.topologies[7]?).bind fun t =>
          t.routes[(⟨1, 2⟩ : ExpertKey)]?) = some l ↔
        l ≠ [] ∧ ServingRoutes Fixture.twoReady.inner 7 ⟨1, 2⟩ l :=
  ⟨by decide +kernel,
    (published_routes_spec (Fixture.start_reachable.runOps _) 7 ⟨1, 2⟩).1⟩

end ExpertKit.Controller

import ExpertKit.Controller.Incarnations

/-!
# Controller: two weight sessions of one process

`WeightSession::run` of `ek-computation/src/controller/service/weight_control/mod.rs`, fed by the
subscription of `weight_control/database.rs` and the channels of `dispatcher.rs`.  A Worker that
reconnects opens a newer session while the older one may still hold queued target lists.  Each
session sends its initial placement, and later ones only when its own `set_targets` changed it.

* `Dispatcher`, `Session`, `WeightControl`   the channels, the two sessions and the Controller;
* `WeightControl.step`       every step of the dispatcher, the forwarding tasks and the sessions;
* `placers`                  the sessions whose calls changed the placement, in the order of a run;
* `surviving_session_current_iff`   the newer stream ends with the current placement exactly when the
                             last of these calls is its own.
-/

set_option linter.unusedSectionVars false

namespace ExpertKit.Controller
open Std

/-! ## data -/

inductive Side where
  | older
  | newer
deriving DecidableEq, Repr

/-- one read of the worker's rows by `load_current_targets`; `none` is an error status -/
abbrev Loaded := Option (List TargetExpert)

inductive SessionPhase where
  | absent
  /-- the dispatcher knows the channel -/
  | subscribed
  /-- the initial targets were read -/
  | opened (initial : List TargetExpert)
  /-- the initial placement was sent -/
  | running
  | ended
deriving DecidableEq

structure Session where
  phase : SessionPhase
  subscriptionId : Nat
  /-- messages waiting for the forwarding task -/
  raw : Nat
  /-- what the forwarding task has read and not yet passed on -/
  loaded : Option Loaded
  updates : List Loaded
  /-- the generations sent on the stream -/
  sent : List Nat
deriving DecidableEq

def Session.absent : Session := ⟨.absent, 0, 0, none, [], []⟩

/-- `DispatcherImpl`, its entries for the one worker -/
structure Dispatcher where
  chStore : Option (Nat × Side)
  nextSubscriptionId : Nat
  lastFingerprint : Option Nat
deriving DecidableEq

def rawCapacity : Nat := 10

def placementUpdateBuffer : Nat := 4

def Dispatcher.subscribeWithLease (d : Dispatcher) (side : Side) : Dispatcher :=
  let subscriptionId := wrappingNext d.nextSubscriptionId
  ⟨some (subscriptionId, side), subscriptionId, none⟩

def Dispatcher.unsubscribeWithLease (d : Dispatcher) (subscriptionId : Nat) : Dispatcher :=
  if d.chStore.any fun entry => entry.1 == subscriptionId then { d with chStore := none } else d

structure WeightControl (p : EndpointParsers) (σ : Type) where
  world : World p σ
  /-- what `load_current_targets` reads now -/
  assigned : List TargetExpert
  dispatcher : Dispatcher
  older : Session
  newer : Session

inductive SessionStep where
  /-- the rows of the worker or of its peers change -/
  | assign (targets : List TargetExpert)
  /-- `Dispatcher::update` with the experts of one read -/
  | update (experts : List ExpertKey)
  | triggerWorker
  | subscribe (side : Side)
  | loadInitial (side : Side) (ok : Bool)
  /-- the first `set_targets` of the session -/
  | initial (side : Side)
  /-- the forwarding task takes one message and reads the rows -/
  | load (side : Side) (ok : Bool)
  | forward (side : Side)
  /-- `subscription.updates.recv()` and its `set_targets` -/
  | receive (side : Side)
  /-- the session returns -/
  | close (side : Side)
  /-- any other operation of the Controller -/
  | other (op : Op)
deriving DecidableEq

section
variable {p : EndpointParsers} {σ : Type}

/-! ## steps -/

def WeightControl.session (x : WeightControl p σ) : Side → Session
  | .older => x.older
  | .newer => x.newer

def WeightControl.setSession (x : WeightControl p σ) (side : Side) (session : Session) :
    WeightControl p σ :=
  match side with
  | .older => { x with older := session }
  | .newer => { x with newer := session }

/-- `ch.send(experts)` on the channel of the worker, if there is one -/
def WeightControl.sendRaw (x : WeightControl p σ) : Option (WeightControl p σ) :=
  match x.dispatcher.chStore with
  | none => some x
  | some (_, side) =>
    if (x.session side).raw < rawCapacity then
      some (x.setSession side { x.session side with raw := (x.session side).raw + 1 })
    else none

/-- one `set_targets` of a session; the initial placement is sent even when it did not change -/
def WeightControl.setTargets (store : ControllerStateStore σ) (id start : String)
    (x : WeightControl p σ) (side : Side) (session : Session) (initial : Bool)
    (targets : List TargetExpert) : WeightControl p σ :=
  match Controller.setTargets store x.world.inner x.world.stored id start targets with
  | (.error _, inner, s) =>
    { x with world := ⟨inner, s⟩ }.setSession side { session with phase := .ended }
  | (.ok placement, inner, s) =>
    { x with world := ⟨inner, s⟩ }.setSession side { session with
      phase := .running
      sent := if initial || placement.changed then session.sent ++ [placement.generation]
        else session.sent }

/-- the operation leaves the process in place and is not a `set_targets` of the worker -/
def Op.spares (id start : String) : Op → Bool
  | .register registration => registration.workerId != id || registration.startId == start
  | .setTargets workerId _ _ => workerId != id
  | _ => true

/-- the newer session is the one that subscribes after the older -/
def WeightControl.maySubscribe (x : WeightControl p σ) : Side → Bool
  | .older => x.older.phase = .absent ∧ x.newer.phase = .absent
  | .newer => x.older.phase ≠ .absent ∧ x.newer.phase = .absent

def WeightControl.step (store : ControllerStateStore σ) (hash : List ExpertKey → Nat)
    (id start : String) (x : WeightControl p σ) : SessionStep → Option (WeightControl p σ)
  | .assign targets => some { x with assigned := targets }
  | .update experts =>
    let fingerprint := hash (experts.mergeSort fun a b => (compare a b).isLE)
    if x.dispatcher.lastFingerprint = some fingerprint then some x
    else
      { x with dispatcher := { x.dispatcher with lastFingerprint := some fingerprint } }.sendRaw
  | .triggerWorker => x.sendRaw
  | .subscribe side =>
    if x.maySubscribe side then
      let dispatcher := x.dispatcher.subscribeWithLease side
      some ({ x with dispatcher := dispatcher }.setSession side
        ⟨.subscribed, dispatcher.nextSubscriptionId, 0, none, [], []⟩)
    else none
  | .loadInitial side ok =>
    if (x.session side).phase = .subscribed then
      if ok then
        some (x.setSession side { x.session side with phase := .opened x.assigned })
      else
        some ({ x with
            dispatcher := x.dispatcher.unsubscribeWithLease (x.session side).subscriptionId
          }.setSession side { x.session side with phase := .ended })
    else none
  | .initial side =>
    match (x.session side).phase with
    | .opened targets => some (x.setTargets store id start side (x.session side) true targets)
    | _ => none
  | .load side ok =>
    let session := x.session side
    if session.loaded = none ∧ 0 < session.raw then
      some (x.setSession side { session with
        raw := session.raw - 1, loaded := some (if ok then some x.assigned else none) })
    else none
  | .forward side =>
    let session := x.session side
    match session.loaded with
    | none => none
    | some loaded =>
      if session.updates.length < placementUpdateBuffer then
        some (x.setSession side { session with
          loaded := none, updates := session.updates ++ [loaded] })
      else none
  | .receive side =>
    let session := x.session side
    if session.phase = .running then
      match session.updates with
      | [] => none
      | none :: rest => some (x.setSession side { session with phase := .ended, updates := rest })
      | some targets :: rest =>
        some (x.setTargets store id start side { session with updates := rest } false targets)
    else none
  | .close side =>
    let session := x.session side
    if session.phase = .running ∨ session.phase = .ended then
      some ({ x with
          dispatcher := x.dispatcher.unsubscribeWithLease session.subscriptionId
        }.setSession side { session with phase := .ended })
    else none
  | .other op => if op.spares id start then some { x with world := op.run store x.world } else none

/-- a Controller and a dispatcher before the older session subscribes -/
def WeightControl.before (world : World p σ) (assigned : List TargetExpert)
    (dispatcher : Dispatcher) : WeightControl p σ :=
  ⟨world, assigned, dispatcher, .absent, .absent⟩

/-! ## the calls that change the placement -/

/-- the targets or the stored placement of the worker differ from the call -/
def differs (inner : Inner p) (id : String) (targets : List TargetExpert) : Bool :=
  (inner.workers[id]?).any fun worker =>
    !(decide (worker.targets = normalizeTargets targets) && persistedMatches inner id worker)

/-- the call asks for another placement and is accepted -/
def changesPlacement (store : ControllerStateStore σ) (w : World p σ) (id start : String)
    (targets : List TargetExpert) : Bool :=
  differs w.inner id targets &&
    (Controller.setTargets store w.inner w.stored id start targets).1.isOk

/-- the session that changes the placement in this step; the newer one's initial call counts -/
def SessionStep.placer (store : ControllerStateStore σ) (id start : String)
    (x : WeightControl p σ) : SessionStep → Option Side
  | .initial .newer => some .newer
  | .initial .older =>
    match x.older.phase with
    | .opened targets =>
      if changesPlacement store x.world id start targets then some .older else none
    | _ => none
  | .receive side =>
    match (x.session side).updates with
    | some targets :: _ =>
      if changesPlacement store x.world id start targets then some side else none
    | _ => none
  | _ => none

def placers (store : ControllerStateStore σ) (hash : List ExpertKey → Nat) (id start : String) :
    WeightControl p σ → List SessionStep → List Side
  | _, [] => []
  | x, l :: rest =>
    (l.placer store id start x).toList ++
      ((x.step store hash id start l).elim [] fun x' => placers store hash id start x' rest)

/-- every queued update is processed and the older session has ended -/
structure Settled (x : WeightControl p σ) : Prop where
  older : x.older.phase = .ended
  newer : x.newer.phase = .running
  raw : x.newer.raw = 0
  loaded : x.newer.loaded = none
  updates : x.newer.updates = []

instance (x : WeightControl p σ) : Decidable (Settled x) :=
  decidable_of_iff (x.older.phase = .ended ∧ x.newer.phase = .running ∧ x.newer.raw = 0 ∧
      x.newer.loaded = none ∧ x.newer.updates = [])
    ⟨fun h => ⟨h.1, h.2.1, h.2.2.1, h.2.2.2.1, h.2.2.2.2⟩,
      fun h => ⟨h.older, h.newer, h.raw, h.loaded, h.updates⟩⟩

/-! ## one call -/

/-- the process is current at this placement generation -/
def AtGeneration (inner : Inner p) (id start : String) (generation : Nat) : Prop :=
  ∃ r, inner.workers[id]? = some r ∧ r.registration.request.startId = start ∧
    r.placementGeneration = generation

/-- a call fails and changes nothing, finds its placement recorded, or moves to a newer one -/
theorem setTargets_generation {store : ControllerStateStore σ} {inner inner' : Inner p} {s s' : σ}
    {id start : String} {targets : List TargetExpert} {res : Except ControllerStateError Placement}
    (h : setTargets store inner s id start targets = (res, inner', s')) :
    (∃ e, res = .error e ∧ inner' = inner) ∨
    (∃ placement, res = .ok placement ∧ placement.changed = false ∧
      differs inner id targets = false ∧ inner' = inner ∧
      AtGeneration inner id start placement.generation) ∨
    (∃ placement generation, res = .ok placement ∧ placement.changed = true ∧
      differs inner id targets = true ∧ AtGeneration inner id start generation ∧
      AtGeneration inner' id start placement.generation ∧ generation < placement.generation) := by
  rcases setTargets_cases h with ⟨e, he, hi, _⟩ | ⟨r, hr, hs, ht, hm, hres, hi, _⟩ |
    ⟨r, next, s1, _, i2, hr, hs, hsize, hn, hsave, hp, hres, hi⟩
  · exact .inl ⟨e, he, hi⟩
  · refine .inr (.inl ⟨_, hres, rfl, ?_, hi, r, hr, hs, rfl⟩)
    simp [differs, hr, ht, hm]
  · refine .inr (.inr ⟨_, r.placementGeneration, hres, rfl, ?_, ⟨r, hr, hs, rfl⟩, ?_,
      checkedNext_lt hn⟩)
    · simpa [differs, hr, or_iff_not_imp_left] using hsize.2
    · obtain ⟨drains, hd⟩ := recordDrains_workers i2 id
        (r.placed (max next 1) (normalizeTargets targets)) r.registration.request.instanceId
        (max next 1) (targetsDrained r (normalizeTargets targets))
      refine ⟨{ r.placed (max next 1) (normalizeTargets targets) with drains := drains }, ?_, hs,
        rfl⟩
      rw [hi, notifyIf_workers, hd, Maps.getElem?_insert_eq, if_pos rfl]

theorem AtGeneration.unique {inner : Inner p} {id start : String} {g g' : Nat}
    (h : AtGeneration inner id start g) (h' : AtGeneration inner id start g') : g = g' := by
  obtain ⟨r, hr, _, hg⟩ := h
  obtain ⟨r', hr', _, hg'⟩ := h'
  rw [hr] at hr'
  cases hr'
  exact hg.symm.trans hg'

/-- the other operations keep the process and its generation -/
theorem Op.run_atGeneration (store : ControllerStateStore σ) (w : World p σ) (op : Op)
    {id start : String} {g : Nat} (hop : op.spares id start = true)
    (h : AtGeneration w.inner id start g) : AtGeneration (op.run store w).inner id start g := by
  obtain ⟨r, hr, hs, hg⟩ := h
  cases hr' : (op.run store w).inner.workers[id]? with
  | none =>
    rw [(Op.run_oneRecord store w op).none_of_none hr'] at hr
    cases hr
  | some r' =>
    refine ⟨r', hr', ?_⟩
    cases Op.run_recordChange store w op hr' with
    | kept h0 =>
      rw [hr] at h0
      cases h0
      exact ⟨hs, hg⟩
    | fresh g0 t0 hop' _ hid _ hnew =>
      rw [hop'] at hop
      simp only [Op.spares, hid, bne_self_eq_false, Bool.false_or, beq_iff_eq] at hop
      exact absurd (hs.trans hop.symm) (hnew r hr)
    | quiet r0 h0 hsame =>
      rw [hr] at h0
      cases h0
      exact ⟨by rw [hsame.registration, hs], by rw [hsame.generation, hg]⟩
    | placed _ _ _ _ _ hop' =>
      rw [hop'] at hop
      simp [Op.spares] at hop
    | excluded r0 h0 _ _ he =>
      rw [hr] at h0
      cases h0
      rw [he]
      exact ⟨hs, hg⟩
    | completed r0 _ _ h0 he =>
      rw [hr] at h0
      cases h0
      rw [he]
      exact ⟨hs, hg⟩

/-! ## the newer stream -/

/-- the last generation sent on the newer stream, against the calls that changed the placement -/
def Streamed (id start : String) (x : WeightControl p σ) (sides : List Side) : Prop :=
  x.newer.phase = .running → ∃ generation last, AtGeneration x.world.inner id start generation ∧
    x.newer.sent.getLast? = some last ∧
    ((sides.getLast? = some .newer ∧ last = generation) ∨
      (sides.getLast? = some .older ∧ last < generation))

/-- a step of the older session's calls -/
theorem Streamed.older_call {store : ControllerStateStore σ} {id start : String}
    {x : WeightControl p σ} {sides : List Side} (h : Streamed id start x sides)
    (session : Session) (initial : Bool) (targets : List TargetExpert) :
    Streamed id start (x.setTargets store id start .older session initial targets)
      (sides ++ (if changesPlacement store x.world id start targets then some Side.older
        else none).toList) := by
  intro hphase
  unfold WeightControl.setTargets at hphase ⊢
  unfold changesPlacement
  cases hc : Controller.setTargets store x.world.inner x.world.stored id start targets with
  | mk res rest =>
    obtain ⟨inner', s'⟩ := rest
    have hnewer : x.newer.phase = .running := by
      rw [hc] at hphase
      cases res <;> exact hphase
    obtain ⟨generation, last, hat, hlast, hside⟩ := h hnewer
    rcases setTargets_generation hc with ⟨e, rfl, rfl⟩ | ⟨placement, rfl, _, hd, rfl, _⟩ |
      ⟨placement, g, rfl, _, hd, hat0, hat', hlt⟩
    · simp only [Except.isOk, Except.toBool, Bool.and_false, Bool.false_eq_true, ↓reduceIte,
        Option.toList_none, List.append_nil]
      exact ⟨generation, last, hat, hlast, hside⟩
    · simp only [hd, Bool.false_and, Bool.false_eq_true, ↓reduceIte, Option.toList_none,
        List.append_nil]
      exact ⟨generation, last, hat, hlast, hside⟩
    · simp only [hd, Except.isOk, Except.toBool, Bool.and_true, ↓reduceIte, Option.toList_some]
      refine ⟨placement.generation, last, hat', hlast, .inr ⟨by simp, ?_⟩⟩
      have hg := hat0.unique hat
      rcases hside with ⟨_, hside⟩ | ⟨_, hside⟩ <;> omega

/-- an update of the newer session -/
theorem Streamed.newer_call {store : ControllerStateStore σ} {id start : String}
    {x : WeightControl p σ} {sides : List Side} (h : Streamed id start x sides)
    (hrunning : x.newer.phase = .running) (session : Session) (hsent : session.sent = x.newer.sent)
    (targets : List TargetExpert) :
    Streamed id start (x.setTargets store id start .newer session false targets)
      (sides ++ (if changesPlacement store x.world id start targets then some Side.newer
        else none).toList) := by
  obtain ⟨generation, last, hat, hlast, hside⟩ := h hrunning
  unfold WeightControl.setTargets changesPlacement
  cases hc : Controller.setTargets store x.world.inner x.world.stored id start targets with
  | mk res rest =>
    obtain ⟨inner', s'⟩ := rest
    rcases setTargets_generation hc with ⟨e, rfl, rfl⟩ | ⟨placement, rfl, hch, hd, rfl, _⟩ |
      ⟨placement, g, rfl, hch, hd, _, hat', _⟩
    · intro hphase
      cases hphase
    · intro _
      simp only [hd, Bool.false_and, Bool.false_eq_true, ↓reduceIte, Option.toList_none,
        List.append_nil]
      refine ⟨generation, last, hat, ?_, hside⟩
      simpa [WeightControl.setSession, hch, hsent] using hlast
    · intro _
      simp only [hd, Except.isOk, Except.toBool, Bool.and_true, ↓reduceIte, Option.toList_some]
      refine ⟨placement.generation, placement.generation, hat', ?_, .inl ⟨by simp, rfl⟩⟩
      simp [WeightControl.setSession, hch]

/-- the initial call of the newer session, which is always sent -/
theorem streamed_initial (store : ControllerStateStore σ) (id start : String)
    (x : WeightControl p σ) (sides : List Side) (session : Session) (targets : List TargetExpert) :
    Streamed id start (x.setTargets store id start .newer session true targets)
      (sides ++ [Side.newer]) := by
  unfold WeightControl.setTargets
  cases hc : Controller.setTargets store x.world.inner x.world.stored id start targets with
  | mk res rest =>
    obtain ⟨inner', s'⟩ := rest
    rcases setTargets_generation hc with ⟨e, rfl, _⟩ | ⟨placement, rfl, _, _, hi, hat⟩ |
      ⟨placement, g, rfl, _, _, _, hat, _⟩
    · intro hphase
      cases hphase
    · intro _
      subst hi
      refine ⟨placement.generation, placement.generation, hat, ?_, .inl ⟨by simp, rfl⟩⟩
      simp [WeightControl.setSession]
    · intro _
      refine ⟨placement.generation, placement.generation, hat, ?_, .inl ⟨by simp, rfl⟩⟩
      simp [WeightControl.setSession]

theorem sendRaw_cases {x x' : WeightControl p σ} (h : x.sendRaw = some x') :
    x'.world = x.world ∧ x'.newer.sent = x.newer.sent ∧ x'.newer.phase = x.newer.phase := by
  unfold WeightControl.sendRaw at h
  split at h
  · cases h
    exact ⟨rfl, rfl, rfl⟩
  · rename_i side _
    split_ifs at h
    cases h
    cases side <;> exact ⟨rfl, rfl, rfl⟩

def SessionStep.callsController : SessionStep → Bool
  | .initial _ | .receive _ | .other _ => true
  | _ => false

/-- the steps that call nothing on the Controller -/
theorem WeightControl.step_quiet {store : ControllerStateStore σ}
    {hash : List ExpertKey → Nat} {id start : String} {x x' : WeightControl p σ}
    {l : SessionStep} (hstep : x.step store hash id start l = some x')
    (hl : l.callsController = false) :
    x'.world = x.world ∧ (x'.newer.phase = .running →
      x'.newer.sent = x.newer.sent ∧ x.newer.phase = .running) := by
  cases l with
  | assign targets =>
    cases hstep
    exact ⟨rfl, fun hr => ⟨rfl, hr⟩⟩
  | update experts =>
    simp only [WeightControl.step] at hstep
    split_ifs at hstep
    · cases hstep
      exact ⟨rfl, fun hr => ⟨rfl, hr⟩⟩
    · obtain ⟨hw, hs, hp⟩ := sendRaw_cases hstep
      exact ⟨hw, fun hr => ⟨hs, hp ▸ hr⟩⟩
  | triggerWorker =>
    obtain ⟨hw, hs, hp⟩ := sendRaw_cases hstep
    exact ⟨hw, fun hr => ⟨hs, hp ▸ hr⟩⟩
  | subscribe side =>
    simp only [WeightControl.step] at hstep
    split_ifs at hstep
    cases hstep
    cases side
    · exact ⟨rfl, fun hr => ⟨rfl, hr⟩⟩
    · exact ⟨rfl, fun hr => (by cases hr)⟩
  | loadInitial side ok =>
    simp only [WeightControl.step] at hstep
    split_ifs at hstep
    all_goals
      cases hstep
      cases side
      · exact ⟨rfl, fun hr => ⟨rfl, hr⟩⟩
      · exact ⟨rfl, fun hr => (by cases hr)⟩
  | load side ok =>
    simp only [WeightControl.step] at hstep
    split_ifs at hstep
    all_goals
      cases hstep
      cases side <;> exact ⟨rfl, fun hr => ⟨rfl, hr⟩⟩
  | forward side =>
    simp only [WeightControl.step] at hstep
    split at hstep
    · cases hstep
    · split_ifs at hstep
      cases hstep
      cases side <;> exact ⟨rfl, fun hr => ⟨rfl, hr⟩⟩
  | close side =>
    simp only [WeightControl.step] at hstep
    split_ifs at hstep
    cases hstep
    cases side
    · exact ⟨rfl, fun hr => ⟨rfl, hr⟩⟩
    · exact ⟨rfl, fun hr => (by cases hr)⟩
  | initial side => cases hl
  | receive side => cases hl
  | other op => cases hl

theorem Streamed.quiet {store : ControllerStateStore σ} {hash : List ExpertKey → Nat}
    {id start : String} {x x' : WeightControl p σ} {l : SessionStep} {sides : List Side}
    (h : Streamed id start x sides) (hstep : x.step store hash id start l = some x')
    (hl : l.callsController = false) :
    Streamed id start x' (sides ++ (l.placer store id start x).toList) := by
  have hnone : l.placer store id start x = none := by
    cases l with
    | initial side => cases hl
    | receive side => cases hl
    | _ => rfl
  obtain ⟨hworld, hrest⟩ := WeightControl.step_quiet hstep hl
  rw [hnone, Option.toList_none, List.append_nil]
  intro hr
  obtain ⟨hsent, hphase⟩ := hrest hr
  rw [hworld, hsent]
  exact h hphase

theorem WeightControl.step_streamed {store : ControllerStateStore σ}
    {hash : List ExpertKey → Nat} {id start : String} {x x' : WeightControl p σ}
    {l : SessionStep} {sides : List Side} (hstep : x.step store hash id start l = some x')
    (h : Streamed id start x sides) :
    Streamed id start x' (sides ++ (l.placer store id start x).toList) := by
  cases l with
  | initial side =>
    simp only [WeightControl.step] at hstep
    split at hstep
    · rename_i targets hopened
      cases hstep
      cases side with
      | newer => exact streamed_initial store id start x sides x.newer targets
      | older =>
        have hplacer : (SessionStep.initial .older).placer store id start x =
            if changesPlacement store x.world id start targets then some .older else none := by
          simp only [SessionStep.placer, show x.older.phase = .opened targets from hopened]
        rw [hplacer]
        exact h.older_call x.older true targets
    · cases hstep
  | receive side =>
    simp only [WeightControl.step] at hstep
    split_ifs at hstep with hrunning
    split at hstep
    · cases hstep
    · rename_i rest hupdates
      cases hstep
      simp only [SessionStep.placer, hupdates, Option.toList_none, List.append_nil]
      cases side with
      | older => exact h
      | newer =>
        intro hr
        cases hr
    · rename_i targets rest hupdates
      cases hstep
      simp only [SessionStep.placer, hupdates]
      cases side with
      | older => exact h.older_call { x.older with updates := rest } false targets
      | newer => exact h.newer_call hrunning { x.newer with updates := rest } rfl targets
  | other op =>
    simp only [WeightControl.step] at hstep
    split_ifs at hstep with hop
    cases hstep
    simp only [SessionStep.placer, Option.toList_none, List.append_nil]
    intro hr
    obtain ⟨generation, last, hat, hlast, hside⟩ := h hr
    exact ⟨generation, last, Op.run_atGeneration store x.world op hop hat, hlast, hside⟩
  | assign targets => exact h.quiet hstep rfl
  | update experts => exact h.quiet hstep rfl
  | triggerWorker => exact h.quiet hstep rfl
  | subscribe side => exact h.quiet hstep rfl
  | loadInitial side ok => exact h.quiet hstep rfl
  | load side ok => exact h.quiet hstep rfl
  | forward side => exact h.quiet hstep rfl
  | close side => exact h.quiet hstep rfl

theorem streamed_run {store : ControllerStateStore σ} {hash : List ExpertKey → Nat}
    {id start : String} {x x' : WeightControl p σ} {ls : List SessionStep} {sides : List Side}
    (h : Streamed id start x sides)
    (hrun : Steps.run (fun x l => x.step store hash id start l) (fun _ _ => true) x ls
      = some x') :
    Streamed id start x' (sides ++ placers store hash id start x ls) := by
  induction ls generalizing x sides with
  | nil =>
    cases hrun
    simpa [placers] using h
  | cons l ls ih =>
    unfold Steps.run at hrun
    rw [if_pos rfl] at hrun
    obtain ⟨x1, hx1, hrest⟩ := Option.bind_eq_some_iff.mp hrun
    have hnext := ih (WeightControl.step_streamed hx1 h) hrest
    rw [placers, hx1]
    simpa using hnext

theorem surviving_session_current_iff {store : ControllerStateStore σ}
    {hash : List ExpertKey → Nat} {id start : String} {world : World p σ}
    {assigned : List TargetExpert} {dispatcher : Dispatcher} {ls : List SessionStep}
    {x : WeightControl p σ}
    (hrun : Steps.run (fun x l => x.step store hash id start l) (fun _ _ => true)
      (.before world assigned dispatcher) ls = some x) (hsettled : Settled x) :
    x.newer.sent.getLast? =
        (x.world.inner.workers[id]?).map WorkerRecord.placementGeneration ↔
      (placers store hash id start (.before world assigned dispatcher) ls).getLast?
        = some .newer := by
  have hbefore : Streamed id start (.before world assigned dispatcher) [] := by
    intro hr
    cases hr
  obtain ⟨generation, last, ⟨r, hr, _, hg⟩, hlast, hside⟩ :=
    streamed_run hbefore hrun hsettled.newer
  rw [List.nil_append] at hside
  rw [hlast, hr, Option.map_some, hg]
  rcases hside with ⟨hs, he⟩ | ⟨hs, hlt⟩
  · rw [hs, he]
    exact ⟨fun _ => rfl, fun _ => rfl⟩
  · rw [hs]
    constructor
    · intro he
      cases he
      exact absurd hlt (lt_irrefl _)
    · intro he
      cases he

end

namespace Fixture

def hash (keys : List ExpertKey) : Nat :=
  keys.foldl (fun h key => 1000003 * h + 1009 * key.layerId + key.expertId + 1) 0

/-- worker-0 is live and has no placement yet -/
def unplaced : WeightControl parsers ControllerStoreSnapshot :=
  .before (runOps TransientControllerStateStore start (registerLive "worker-0" "start-0" 1))
    [target 1 2] ⟨none, 0, none⟩

/-- the older session runs, and the newer one has read its initial targets -/
def overlapping : List SessionStep :=
  [.subscribe .older, .loadInitial .older true, .initial .older, .update [⟨1, 2⟩],
    .subscribe .newer, .loadInitial .newer true]

/-- the rows change before the older forwarding task reads them -/
def olderReadsLast : List SessionStep :=
  [.assign [target 1 2, target 1 3], .load .older true, .forward .older]

def newerUpdated : List SessionStep :=
  [.update [⟨1, 2⟩, ⟨1, 3⟩], .load .newer true, .forward .newer]

def sessionRun (ls : List SessionStep) : Option (WeightControl parsers ControllerStoreSnapshot) :=
  Steps.run (fun x l => x.step TransientControllerStateStore hash "worker-0" "start-0" l)
    (fun _ _ => true) unplaced ls

end Fixture

theorem surviving_session_current_updated :
    ∃ x, Fixture.sessionRun (Fixture.overlapping ++ [.initial .newer] ++ Fixture.olderReadsLast ++
        Fixture.newerUpdated ++ [.receive .newer, .receive .older, .close .older]) = some x ∧
      Settled x ∧ x.newer.sent.getLast? =
        (x.world.inner.workers["worker-0"]?).map WorkerRecord.placementGeneration := by
  obtain ⟨x, hx, hs⟩ := (Option.any_eq_true
    (fun x : WeightControl Fixture.parsers ControllerStoreSnapshot => decide (Settled x))
    (Fixture.sessionRun (Fixture.overlapping ++ [.initial .newer] ++ Fixture.olderReadsLast ++
      Fixture.newerUpdated ++ [.receive .newer, .receive .older, .close .older]))).mp
        (by decide +kernel)
  have hsettled : Settled x := of_decide_eq_true hs
  exact ⟨x, hx, hsettled, (surviving_session_current_iff hx hsettled).mpr (by decide +kernel)⟩

/-- the older session places the new targets first, so the newer one never sends them -/
theorem newer_session_misses_placement :
    ∃ x, Fixture.sessionRun (Fixture.overlapping ++ Fixture.olderReadsLast ++
        [.initial .newer, .receive .older] ++ Fixture.newerUpdated ++
        [.receive .newer, .close .older]) = some x ∧
      Settled x ∧ x.newer.sent = [1] ∧
      (x.world.inner.workers["worker-0"]?).map WorkerRecord.placementGeneration = some 2 := by
  obtain ⟨x, hx, hs⟩ := (Option.any_eq_true
    (fun x : WeightControl Fixture.parsers ControllerStoreSnapshot =>
      decide (Settled x) && x.newer.sent == [1] &&
        (x.world.inner.workers["worker-0"]?).map WorkerRecord.placementGeneration == some 2)
    (Fixture.sessionRun (Fixture.overlapping ++ Fixture.olderReadsLast ++
      [.initial .newer, .receive .older] ++ Fixture.newerUpdated ++
      [.receive .newer, .close .older]))).mp (by decide +kernel)
  rw [Bool.and_eq_true, Bool.and_eq_true, decide_eq_true_eq, beq_iff_eq, beq_iff_eq] at hs
  exact ⟨x, hx, hs.1.1, hs.1.2, hs.2⟩

end ExpertKit.Controller

import ExpertKit.Controller.State

/-!
# Controller: what each operation can do

One inversion lemma per operation.  An operation either leaves the memory exactly as it was (every
error, every duplicate, every stale lease), or it changes the record of one worker, publishes the
routes of the keys it affects (`publishRoutes` returned `ok`) and does its bookkeeping.  Later
modules use only these lemmas and never unfold an operation again.

* `setWorker_restore`      the rollback after a failed publication is exact;
* `publishRoutes_cases`    no change, a store failure, or one new topology revision;
* `heartbeat_cases`, `closeHeartbeat_cases`, `registerProcess_cases`, `setTargets_cases`,
  `applyStateReport_cases`, `drainAuthorizations_cases`, `completeDrain_cases`.
-/

set_option linter.unusedSectionVars false

namespace ExpertKit.Controller
open Std

section
variable {p : EndpointParsers} {σ : Type}

/-! ## records -/

theorem ensureCurrentStart_ok {inner : Inner p} {workerId startId : String} {w : WorkerRecord p}
    (h : ensureCurrentStart inner workerId startId = .ok w) :
    inner.workers[workerId]? = some w ∧ w.registration.request.startId = startId := by
  unfold ensureCurrentStart at h
  cases hw : inner.workers[workerId]? with
  | none => rw [hw] at h; exact absurd h (by simp)
  | some w' =>
    rw [hw] at h
    by_cases hs : w'.registration.request.startId = startId
    · simp only [hs, ne_eq, not_true_eq_false, ↓reduceIte, Except.ok.injEq] at h
      exact ⟨by rw [h], by rw [← h, hs]⟩
    · simp [hs] at h

theorem setWorker_workers (inner : Inner p) (id : String) (w : WorkerRecord p) (id' : String) :
    (inner.setWorker id w).workers[id']? = if id = id' then some w else inner.workers[id']? :=
  Maps.getElem?_insert_eq _ _ _ _

theorem notifyIf_workers (b : Bool) (inner : Inner p) :
    (notifyIf b inner).workers = inner.workers := by
  cases b <;> rfl

theorem notifyIf_topologies (b : Bool) (inner : Inner p) :
    (notifyIf b inner).topologies = inner.topologies := by
  cases b <;> rfl

/-- putting the previous record back undoes an update -/
theorem setWorker_restore (inner : Inner p) (id : String) (w previous : WorkerRecord p)
    (h : inner.workers[id]? = some previous) :
    (inner.setWorker id w).setWorker id previous = inner := by
  have hw : (inner.workers.insert id w).insert id previous = inner.workers := by
    apply ExtTreeMap.ext_getElem?
    intro id'
    rw [Maps.getElem?_insert_eq, Maps.getElem?_insert_eq]
    by_cases e : id = id'
    · rw [if_pos e, ← e, h]
    · rw [if_neg e, if_neg e]
  show { inner with workers := (inner.workers.insert id w).insert id previous } = inner
  rw [hw]

/-! ## publication -/

/-- the memory after the changes of the affected keys became revision `version` -/
def Inner.published (inner : Inner p) (instanceId version : Nat)
    (affected : ExtTreeSet ExpertKey) : Inner p :=
  { inner with
    topologies := inner.topologies.insert instanceId
      (((inner.topologies[instanceId]?).getD .default).commit inner.historyLimit
        (inner.topologyVersion instanceId) version (routeChanges inner instanceId affected)) }

theorem routeChanges_nil_of_isEmpty (inner : Inner p) (instanceId : Nat)
    (affected : ExtTreeSet ExpertKey) (h : affected.isEmpty) :
    routeChanges inner instanceId affected = [] := by
  have he : affected.toList = [] := by simpa using h
  unfold routeChanges
  rw [he]
  rfl

theorem publishRoutes_cases {store : ControllerStateStore σ} {inner inner' : Inner p} {s s' : σ}
    {instanceId : Nat} {affected : ExtTreeSet ExpertKey}
    {r : Except ControllerStateError Bool}
    (h : publishRoutes store inner s instanceId affected = (r, inner', s')) :
    (r = .ok false ∧ inner' = inner ∧ s' = s ∧ routeChanges inner instanceId affected = []) ∨
    (∃ e, r = .error (.persistence e.message) ∧ inner' = inner ∧
      store.advanceTopologyVersion s instanceId (inner.topologyVersion instanceId)
        = (.error e, s')) ∨
    (∃ v, r = .ok true ∧ inner' = inner.published instanceId v affected ∧
      routeChanges inner instanceId affected ≠ [] ∧
      store.advanceTopologyVersion s instanceId (inner.topologyVersion instanceId)
        = (.ok v, s')) := by
  unfold publishRoutes at h
  by_cases he : affected.isEmpty
  · rw [if_pos he] at h
    simp only [Prod.mk.injEq] at h
    exact .inl ⟨h.1.symm, h.2.1.symm, h.2.2.symm, routeChanges_nil_of_isEmpty _ _ _ he⟩
  · rw [if_neg he] at h
    by_cases hc : (routeChanges inner instanceId affected).isEmpty
    · simp only [hc, ↓reduceIte, Prod.mk.injEq] at h
      exact .inl ⟨h.1.symm, h.2.1.symm, h.2.2.symm, List.isEmpty_iff.mp hc⟩
    · simp only [hc, Bool.false_eq_true, ↓reduceIte] at h
      cases ha : store.advanceTopologyVersion s instanceId (inner.topologyVersion instanceId) with
      | mk a s1 =>
        rw [ha] at h
        cases a with
        | error e =>
          simp only [Prod.mk.injEq] at h
          obtain ⟨h1, h2, h3⟩ := h
          exact .inr (.inl ⟨e, h1.symm, h2.symm, by rw [h3]⟩)
        | ok v =>
          simp only [Prod.mk.injEq] at h
          obtain ⟨h1, h2, h3⟩ := h
          refine .inr (.inr ⟨v, h1.symm, h2.symm, ?_, by rw [h3]⟩)
          simpa using hc

/-- a publication leaves the workers and all counters alone -/
theorem publishRoutes_frame {store : ControllerStateStore σ} {inner inner' : Inner p} {s s' : σ}
    {instanceId : Nat} {affected : ExtTreeSet ExpertKey}
    {r : Except ControllerStateError Bool}
    (h : publishRoutes store inner s instanceId affected = (r, inner', s')) :
    inner' = { inner with topologies := inner'.topologies } := by
  rcases publishRoutes_cases h with ⟨_, h, _⟩ | ⟨_, _, h, _⟩ | ⟨_, _, h, _⟩
  · rw [h]
  · rw [h]
  · rw [h]
    rfl

theorem publishRoutes_error {store : ControllerStateStore σ} {inner inner' : Inner p} {s s' : σ}
    {instanceId : Nat} {affected : ExtTreeSet ExpertKey} {e : ControllerStateError}
    (h : publishRoutes store inner s instanceId affected = (.error e, inner', s')) :
    inner' = inner := by
  rcases publishRoutes_cases h with ⟨_, h, _⟩ | ⟨_, _, h, _⟩ | ⟨_, h, _⟩
  · exact h
  · exact h
  · cases h

theorem publishRoutes_calls {store : ControllerStateStore σ} {inner inner' : Inner p} {s s' : σ}
    {instanceId : Nat} {affected : ExtTreeSet ExpertKey} {r : Except ControllerStateError Bool}
    (h : publishRoutes store inner s instanceId affected = (r, inner', s')) :
    AdvanceCalls store s s' := by
  rcases publishRoutes_cases h with ⟨_, _, hs, _⟩ | ⟨_, _, _, ha⟩ | ⟨_, _, _, _, ha⟩
  · rw [hs]
    exact .refl
  · exact AdvanceCalls.refl.advance_of ha
  · exact AdvanceCalls.refl.advance_of ha

theorem publishOrRestore_cases {store : ControllerStateStore σ} {inner inner' : Inner p}
    {s s' : σ} {id : String} {w previous : WorkerRecord p} {instanceId : Nat}
    {affected : ExtTreeSet ExpertKey} {r : Except ControllerStateError Bool}
    (hp : inner.workers[id]? = some previous)
    (h : publishOrRestore store (inner.setWorker id w) s id previous instanceId affected
      = (r, inner', s')) :
    (∃ e, r = .error e ∧ inner' = inner ∧ AdvanceCalls store s s') ∨
    (∃ changed, r = .ok changed ∧
      publishRoutes store (inner.setWorker id w) s instanceId affected
        = (.ok changed, inner', s')) := by
  unfold publishOrRestore at h
  cases hq : publishRoutes store (inner.setWorker id w) s instanceId affected with
  | mk a rest =>
    obtain ⟨inner2, s2⟩ := rest
    rw [hq] at h
    cases a with
    | error e =>
      simp only [Prod.mk.injEq] at h
      obtain ⟨h1, h2, h3⟩ := h
      refine .inl ⟨e, h1.symm, ?_, h3 ▸ publishRoutes_calls hq⟩
      rw [← h2, publishRoutes_error hq]
      exact setWorker_restore inner id w previous hp
    | ok changed =>
      simp only [Prod.mk.injEq] at h
      obtain ⟨h1, h2, h3⟩ := h
      exact .inr ⟨changed, h1.symm, by rw [h2, h3]⟩

/-! ## registration and heartbeats -/

theorem registerProcess_cases {store : ControllerStateStore σ} {inner inner' : Inner p} {s s' : σ}
    {reg : ValidRegistration p} {r : Except ControllerStateError RegistrationResult}
    (h : registerProcess store inner s reg = (r, inner', s')) :
    (∃ e, r = .error e ∧ inner' = inner ∧ AdvanceCalls store s s') ∨
    (∃ g t version replaced,
      carriedPlacement inner reg.request.workerId reg.request.instanceId = (g, t) ∧
      r = .ok ⟨version, g, replaced⟩ ∧
      ((inner.workers[reg.request.workerId]? = none ∧ s' = s ∧
          inner' = inner.setWorker reg.request.workerId (.fresh reg g t)) ∨
        (∃ old changed inner2, inner.workers[reg.request.workerId]? = some old ∧
          publishRoutes store (inner.setWorker reg.request.workerId (.fresh reg g t)) s
            old.registration.request.instanceId (readyKeys old) = (.ok changed, inner2, s') ∧
          inner' = notifyIf changed inner2))) := by
  unfold registerProcess at h
  cases hc : carriedPlacement inner reg.request.workerId reg.request.instanceId with
  | mk g t =>
    cases hw : inner.workers[reg.request.workerId]? with
    | none =>
      simp only [hc, hw, Prod.mk.injEq] at h
      exact .inr ⟨g, t, _, _, rfl, h.1.symm, .inl ⟨rfl, h.2.2.symm, h.2.1.symm⟩⟩
    | some old =>
      simp only [hc, hw] at h
      cases hq : publishRoutes store (inner.setWorker reg.request.workerId (.fresh reg g t)) s
          old.registration.request.instanceId (readyKeys old) with
      | mk a rest =>
        obtain ⟨inner2, s2⟩ := rest
        rw [hq] at h
        cases a with
        | error e =>
          simp only [Prod.mk.injEq] at h
          refine .inl ⟨e, h.1.symm, ?_, h.2.2 ▸ publishRoutes_calls hq⟩
          rw [← h.2.1, publishRoutes_error hq]
          exact setWorker_restore inner _ _ old hw
        | ok changed =>
          simp only [Prod.mk.injEq] at h
          exact .inr ⟨g, t, _, _, rfl, h.1.symm,
            .inr ⟨old, changed, inner2, rfl, by rw [hq, h.2.2], h.2.1.symm⟩⟩

theorem register_cases {store : ControllerStateStore σ} {inner inner' : Inner p} {s s' : σ}
    {request : RegisterWorkerRequest} {r : Except ControllerStateError RegistrationResult}
    (h : register store inner s request = (r, inner', s')) :
    (inner' = inner ∧ s' = s) ∨
    (∃ reg : ValidRegistration p, reg.request = request ∧
      (∀ w, inner.workers[request.workerId]? = some w →
        w.registration.request.startId ≠ request.startId) ∧
      registerProcess store inner s reg = (r, inner', s')) := by
  unfold register at h
  split at h
  · simp only [Prod.mk.injEq] at h
    exact .inl ⟨h.2.1.symm, h.2.2.symm⟩
  · rename_i hv
    simp only at h
    split at h
    · split_ifs at h <;> simp only [Prod.mk.injEq] at h <;> exact .inl ⟨h.2.1.symm, h.2.2.symm⟩
    · rename_i hcur
      refine .inr ⟨⟨request, hv⟩, rfl, ?_, h⟩
      intro w hw hs
      rw [hw, Option.filter_some, if_pos (by simpa using hs)] at hcur
      exact absurd hcur (by simp)

theorem openHeartbeat_cases {inner inner' : Inner p} {s s' : σ} {workerId startId : String}
    {r : Except ControllerStateError Nat}
    (h : openHeartbeat inner s workerId startId = (r, inner', s')) :
    s' = s ∧ (inner' = inner ∨ ∃ w, inner.workers[workerId]? = some w ∧
      w.registration.request.startId = startId ∧
      r = .ok (wrappingNext inner.nextHeartbeatLease) ∧
      inner' = ({ inner with
        nextHeartbeatLease := wrappingNext inner.nextHeartbeatLease } : Inner p).setWorker workerId
          { w with heartbeatLease := wrappingNext inner.nextHeartbeatLease
                   heartbeatOpen := true }) := by
  unfold openHeartbeat at h
  cases hc : ensureCurrentStart inner workerId startId with
  | error e =>
    simp only [hc, Prod.mk.injEq] at h
    exact ⟨h.2.2.symm, .inl h.2.1.symm⟩
  | ok w =>
    simp only [hc, Prod.mk.injEq] at h
    obtain ⟨h1, h2⟩ := ensureCurrentStart_ok hc
    exact ⟨h.2.2.symm, .inr ⟨w, h1, h2, h.1.symm, h.2.1.symm⟩⟩

/-- the record after an applied heartbeat -/
def WorkerRecord.beat (w : WorkerRecord p) (sequence : Nat) (runState : WorkerRunState) :
    WorkerRecord p :=
  { w with live := true, lastHeartbeatSequence := some sequence, runState := runState }

theorem heartbeat_cases {store : ControllerStateStore σ} {inner inner' : Inner p} {s s' : σ}
    {workerId startId : String} {lease sequence : Nat} {state : Int}
    {r : Except ControllerStateError HeartbeatResult}
    (h : heartbeat store inner s workerId startId lease sequence state = (r, inner', s')) :
    (inner' = inner ∧ AdvanceCalls store s s') ∨
    (∃ w runState b, inner.workers[workerId]? = some w ∧
      w.registration.request.startId = startId ∧
      checkHeartbeat w lease sequence runState = none ∧ r = .ok .applied ∧
      ((w.live = true ∧ s' = s ∧
          inner' = notifyIf b (inner.setWorker workerId (w.beat sequence runState))) ∨
        (w.live = false ∧ ∃ changed inner2,
          publishRoutes store (inner.setWorker workerId (w.beat sequence runState)) s
            w.registration.request.instanceId (readyKeys (w.beat sequence runState))
            = (.ok changed, inner2, s') ∧ inner' = notifyIf b inner2))) := by
  unfold heartbeat at h
  split at h
  · simp only [Prod.mk.injEq] at h
    exact .inl ⟨h.2.1.symm, .of_eq h.2.2⟩
  · rename_i runState _
    cases hc : ensureCurrentStart inner workerId startId with
    | error e =>
      simp only [hc, Prod.mk.injEq] at h
      exact .inl ⟨h.2.1.symm, .of_eq h.2.2⟩
    | ok w =>
      obtain ⟨hw, hs⟩ := ensureCurrentStart_ok hc
      simp only [hc] at h
      cases hk : checkHeartbeat w lease sequence runState with
      | some o =>
        cases o <;> simp only [hk, Prod.mk.injEq] at h <;> exact .inl ⟨h.2.1.symm, .of_eq h.2.2⟩
      | none =>
        simp only [hk] at h
        cases hl : w.live with
        | true =>
          simp only [hl, Bool.not_true, Bool.false_eq_true, ↓reduceIte, Prod.mk.injEq] at h
          exact .inr ⟨w, runState, _, hw, hs, hk, h.1.symm, .inl ⟨hl, h.2.2.symm, h.2.1.symm⟩⟩
        | false =>
          simp only [hl, Bool.not_false, ↓reduceIte] at h
          split at h
          · rename_i e inner2 s2 hq
            rcases publishOrRestore_cases hw hq with ⟨e', he, hi, hcalls⟩ | ⟨changed, he, hp⟩
            · simp only [Prod.mk.injEq] at h
              exact .inl ⟨by rw [← h.2.1, hi], h.2.2 ▸ hcalls⟩
            · cases he
          · rename_i changed inner2 s2 hq
            rcases publishOrRestore_cases hw hq with ⟨e, he, hi, hcalls⟩ | ⟨changed', he, hp⟩
            · cases he
            · cases he
              simp only [Prod.mk.injEq] at h
              obtain ⟨h1, h2, h3⟩ := h
              subst h3
              exact .inr ⟨w, runState, _, hw, hs, hk, h1.symm,
                .inr ⟨hl, changed, inner2, hp, h2.symm⟩⟩

theorem closeHeartbeat_cases {store : ControllerStateStore σ} {inner inner' : Inner p} {s s' : σ}
    {workerId startId : String} {lease : Nat} {r : Except ControllerStateError Bool}
    (h : closeHeartbeat store inner s workerId startId lease = (r, inner', s')) :
    (inner' = inner ∧ AdvanceCalls store s s') ∨
    (∃ w changed inner2, inner.workers[workerId]? = some w ∧
      w.registration.request.startId = startId ∧ w.heartbeatLease = lease ∧
      w.heartbeatOpen = true ∧ r = .ok true ∧
      publishRoutes store (inner.setWorker workerId
          { w with heartbeatOpen := false, live := false }) s
        w.registration.request.instanceId (readyKeys w) = (.ok changed, inner2, s') ∧
      inner' = notifyIf changed inner2) := by
  unfold closeHeartbeat at h
  cases hc : ensureCurrentStart inner workerId startId with
  | error e =>
    simp only [hc, Prod.mk.injEq] at h
    exact .inl ⟨h.2.1.symm, .of_eq h.2.2⟩
  | ok w =>
    obtain ⟨hw, hs⟩ := ensureCurrentStart_ok hc
    simp only [hc] at h
    split_ifs at h with hlease hopen
    · simp only [Prod.mk.injEq] at h
      exact .inl ⟨h.2.1.symm, .of_eq h.2.2⟩
    · simp only [Prod.mk.injEq] at h
      exact .inl ⟨h.2.1.symm, .of_eq h.2.2⟩
    · cases hq : publishOrRestore store (inner.setWorker workerId
          { w with heartbeatOpen := false, live := false }) s workerId w
          w.registration.request.instanceId
          (readyKeys { w with heartbeatOpen := false, live := false }) with
      | mk a rest =>
        obtain ⟨inner2, s2⟩ := rest
        simp only [hq] at h
        rcases publishOrRestore_cases hw hq with ⟨e, he, hi, hcalls⟩ | ⟨changed, he, hp⟩
        · subst he
          simp only [Prod.mk.injEq] at h
          exact .inl ⟨by rw [← h.2.1, hi], h.2.2 ▸ hcalls⟩
        · subst he
          simp only [Prod.mk.injEq] at h
          obtain ⟨h1, h2, h3⟩ := h
          subst h3
          exact .inr ⟨w, changed, inner2, hw, hs, by simpa using hlease, by simpa using hopen,
            h1.symm, hp, h2.symm⟩

/-! ## placement -/

/-- the record after `set_targets` stored the new placement -/
def WorkerRecord.placed (w : WorkerRecord p) (generation : Nat)
    (targets : ExtTreeMap ExpertKey TargetExpert) : WorkerRecord p :=
  { w with placementGeneration := generation, targets := targets }

/-- the memory between the two store calls of `set_targets` -/
def Inner.placed (inner : Inner p) (workerId : String) (w : WorkerRecord p) (generation : Nat)
    (targets : ExtTreeMap ExpertKey TargetExpert) : Inner p :=
  { inner.setWorker workerId (w.placed generation targets) with
    persistedPlacements := inner.persistedPlacements.insert workerId
      ⟨workerId, w.registration.request.instanceId, generation, Maps.values targets⟩ }

def targetsAffected (w : WorkerRecord p) (normalized : ExtTreeMap ExpertKey TargetExpert) :
    ExtTreeSet ExpertKey :=
  ExtTreeSet.ofList (w.targets.keys ++ normalized.keys)

def targetsDrained (w : WorkerRecord p) (normalized : ExtTreeMap ExpertKey TargetExpert) :
    ExtTreeSet ExpertKey :=
  ExtTreeSet.ofList (removedReady w normalized ++ carriedDrains w normalized)

theorem restorePlacement_insert (m : ExtTreeMap String PersistedPlacement) (workerId : String)
    (placement : PersistedPlacement) :
    restorePlacement (m.insert workerId placement) workerId m[workerId]? = m := by
  apply ExtTreeMap.ext_getElem?
  intro a
  cases hk : m[workerId]? with
  | some previous =>
    show ((m.insert workerId placement).insert workerId previous)[a]? = m[a]?
    rw [Maps.getElem?_insert_eq, Maps.getElem?_insert_eq]
    by_cases e : workerId = a
    · rw [if_pos e, ← e, hk]
    · rw [if_neg e, if_neg e]
  | none =>
    show ((m.insert workerId placement).erase workerId)[a]? = m[a]?
    rw [Maps.getElem?_erase_eq, Maps.getElem?_insert_eq]
    by_cases e : workerId = a
    · rw [if_pos e, ← e, hk]
    · rw [if_neg e, if_neg e]

theorem placed_restore (inner : Inner p) (workerId : String) (w : WorkerRecord p)
    (generation : Nat) (targets : ExtTreeMap ExpertKey TargetExpert)
    (hw : inner.workers[workerId]? = some w) :
    ({ (inner.placed workerId w generation targets).setWorker workerId w with
      persistedPlacements := restorePlacement
        (inner.placed workerId w generation targets).persistedPlacements workerId
        inner.persistedPlacements[workerId]? } : Inner p) = inner := by
  have h1 := setWorker_restore inner workerId (w.placed generation targets) w hw
  have h2 := restorePlacement_insert inner.persistedPlacements workerId
    ⟨workerId, w.registration.request.instanceId, generation, Maps.values targets⟩
  show ({ (inner.setWorker workerId (w.placed generation targets)).setWorker workerId w with
    persistedPlacements := restorePlacement (inner.persistedPlacements.insert workerId
      ⟨workerId, w.registration.request.instanceId, generation, Maps.values targets⟩) workerId
      inner.persistedPlacements[workerId]? } : Inner p) = inner
  rw [h1, h2]

/-- the store calls of a `set_targets` that fails: perhaps its placement, then perhaps a version -/
def SaveCalls (store : ControllerStateStore σ) (inner : Inner p) (workerId startId : String)
    (targets : List TargetExpert) (s s' : σ) : Prop :=
  s' = s ∨ ∃ w next, inner.workers[workerId]? = some w ∧
    w.registration.request.startId = startId ∧ checkedNext w.placementGeneration = some next ∧
    AdvanceCalls store (store.savePlacement s workerId w.registration.request.instanceId
      (max next 1) (Maps.values (normalizeTargets targets))).2 s'

theorem SaveCalls.storeCalls {store : ControllerStateStore σ} {inner : Inner p}
    {workerId startId : String} {targets : List TargetExpert} {s s' : σ}
    (h : SaveCalls store inner workerId startId targets s s') : StoreCalls store s s' := by
  rcases h with rfl | ⟨w, next, _, _, _, hc⟩
  · exact .refl
  · exact (StoreCalls.save s _ _ _ _ .refl).trans hc.storeCalls

theorem setTargets_cases {store : ControllerStateStore σ} {inner inner' : Inner p} {s s' : σ}
    {workerId startId : String} {targets : List TargetExpert}
    {r : Except ControllerStateError Placement}
    (h : setTargets store inner s workerId startId targets = (r, inner', s')) :
    (∃ e, r = .error e ∧ inner' = inner ∧
      SaveCalls store inner workerId startId targets s s') ∨
    (∃ w, inner.workers[workerId]? = some w ∧ w.registration.request.startId = startId ∧
      w.targets = normalizeTargets targets ∧ persistedMatches inner workerId w = true ∧
      r = .ok ⟨w.placementGeneration, false,
        targetParts w.placementGeneration (Maps.values (normalizeTargets targets))⟩ ∧
      inner' = inner ∧ s' = s) ∨
    (∃ w next s1 changed inner2, inner.workers[workerId]? = some w ∧
      w.registration.request.startId = startId ∧
      ((normalizeTargets targets).size ≤ w.registration.device.maxExperts ∧
        ¬ (w.targets = normalizeTargets targets ∧ persistedMatches inner workerId w = true)) ∧
      checkedNext w.placementGeneration = some next ∧
      store.savePlacement s workerId w.registration.request.instanceId (max next 1)
        (Maps.values (normalizeTargets targets)) = (.ok (), s1) ∧
      publishRoutes store (inner.placed workerId w (max next 1) (normalizeTargets targets)) s1
        w.registration.request.instanceId (targetsAffected w (normalizeTargets targets))
        = (.ok changed, inner2, s') ∧
      r = .ok ⟨max next 1, true,
        targetParts (max next 1) (Maps.values (normalizeTargets targets))⟩ ∧
      inner' = notifyIf (changed || (recordDrains inner2 workerId
          (w.placed (max next 1) (normalizeTargets targets)) w.registration.request.instanceId
          (max next 1) (targetsDrained w (normalizeTargets targets))).2)
        (recordDrains inner2 workerId (w.placed (max next 1) (normalizeTargets targets))
          w.registration.request.instanceId (max next 1)
          (targetsDrained w (normalizeTargets targets))).1) := by
  unfold setTargets at h
  cases hc : ensureCurrentStart inner workerId startId with
  | error e =>
    simp only [hc, Prod.mk.injEq] at h
    exact .inl ⟨e, h.1.symm, h.2.1.symm, .inl h.2.2.symm⟩
  | ok w =>
    obtain ⟨hw, hs⟩ := ensureCurrentStart_ok hc
    simp only [hc] at h
    split_ifs at h with hmax hsame
    · simp only [Prod.mk.injEq] at h
      exact .inl ⟨_, h.1.symm, h.2.1.symm, .inl h.2.2.symm⟩
    · simp only [Prod.mk.injEq] at h
      exact .inr (.inl ⟨w, hw, hs, hsame.1, hsame.2, h.1.symm, h.2.1.symm, h.2.2.symm⟩)
    · cases hn : checkedNext w.placementGeneration with
      | none =>
        simp only [hn, Prod.mk.injEq] at h
        exact .inl ⟨_, h.1.symm, h.2.1.symm, .inl h.2.2.symm⟩
      | some next =>
        simp only [hn] at h
        cases hv : store.savePlacement s workerId w.registration.request.instanceId (max next 1)
            (Maps.values (normalizeTargets targets)) with
        | mk a s1 =>
          simp only [hv] at h
          cases a with
          | error e =>
            simp only [Prod.mk.injEq] at h
            exact .inl ⟨_, h.1.symm, h.2.1.symm, .inr ⟨w, next, hw, hs, hn, .of_eq (by rw [hv, h.2.2])⟩⟩
          | ok u =>
            cases u
            simp only at h
            split at h
            · rename_i e inner2 s2 hq
              simp only [Prod.mk.injEq] at h
              refine .inl ⟨e, h.1.symm, ?_, .inr ⟨w, next, hw, hs, hn, ?_⟩⟩
              · rw [← h.2.1, publishRoutes_error hq]
                exact placed_restore inner workerId w _ _ hw
              · rw [hv, ← h.2.2]
                exact publishRoutes_calls hq
            · rename_i changed inner2 s2 hq
              simp only [Prod.mk.injEq] at h
              obtain ⟨h1, h2, h3⟩ := h
              subst h3
              exact .inr (.inr ⟨w, next, s1, changed, inner2, hw, hs, ⟨by omega, hsame⟩, hn, hv,
                hq, h1.symm, h2.symm⟩)

/-! ## reports and drains -/

/-- the record after an applied report -/
def WorkerRecord.reported (w : WorkerRecord p) (reportSequence : Nat) (full : Bool)
    (normalized : List ExpertState) : WorkerRecord p :=
  { w with
    expertStates := insertStates (if full then ∅ else w.expertStates) normalized
    lastReport := some ⟨reportSequence, full, normalized⟩ }

def reportAffected (w : WorkerRecord p) (full : Bool) (normalized : List ExpertState) :
    ExtTreeSet ExpertKey :=
  ExtTreeSet.ofList ((if full then w.expertStates.keys else []) ++ normalized.map ExpertState.key)

theorem applyStateReport_cases {store : ControllerStateStore σ} {inner inner' : Inner p}
    {s s' : σ} {workerId startId : String} {placementGeneration reportSequence : Nat}
    {full : Bool} {states : List ExpertState} {r : Except ControllerStateError StateReportResult}
    (h : applyStateReport store inner s workerId startId placementGeneration reportSequence full
      states = (r, inner', s')) :
    (∃ e, r = .error e ∧ inner' = inner ∧ AdvanceCalls store s s') ∨
    (r = .ok .duplicate ∧ inner' = inner ∧ s' = s) ∨
    (∃ w normalized changed inner2, inner.workers[workerId]? = some w ∧
      w.registration.request.startId = startId ∧ normalizeStates states = .ok normalized ∧
      checkReport w placementGeneration reportSequence full normalized = none ∧
      publishRoutes store (inner.setWorker workerId (w.reported reportSequence full normalized)) s
        w.registration.request.instanceId (reportAffected w full normalized)
        = (.ok changed, inner2, s') ∧
      r = .ok .applied ∧ inner' = notifyIf changed inner2) := by
  unfold applyStateReport at h
  cases hn : normalizeStates states with
  | error e =>
    simp only [hn, Prod.mk.injEq] at h
    exact .inl ⟨e, h.1.symm, h.2.1.symm, .of_eq h.2.2⟩
  | ok normalized =>
    simp only [hn] at h
    cases hc : ensureCurrentStart inner workerId startId with
    | error e =>
      simp only [hc, Prod.mk.injEq] at h
      exact .inl ⟨e, h.1.symm, h.2.1.symm, .of_eq h.2.2⟩
    | ok w =>
      obtain ⟨hw, hs⟩ := ensureCurrentStart_ok hc
      simp only [hc] at h
      cases hk : checkReport w placementGeneration reportSequence full normalized with
      | some o =>
        cases o with
        | error e =>
          simp only [hk, Prod.mk.injEq] at h
          exact .inl ⟨e, h.1.symm, h.2.1.symm, .of_eq h.2.2⟩
        | ok d =>
          simp only [hk, Prod.mk.injEq] at h
          refine .inr (.inl ⟨?_, h.2.1.symm, h.2.2.symm⟩)
          have hd : d = .duplicate := by
            unfold checkReport at hk
            clear h hc hw hs hn
            split_ifs at hk
            · simp at hk
            · split at hk
              · simp at hk
              · split_ifs at hk
                · simp at hk
                · simpa using hk.symm
                · simp at hk
          rw [← h.1, hd]
      | none =>
        simp only [hk] at h
        split at h
        · rename_i e inner2 s2 hq
          rcases publishOrRestore_cases hw hq with ⟨e', he, hi, hcalls⟩ | ⟨changed, he, hp⟩
          · cases he
            simp only [Prod.mk.injEq] at h
            exact .inl ⟨e, h.1.symm, by rw [← h.2.1, hi], h.2.2 ▸ hcalls⟩
          · cases he
        · rename_i changed inner2 s2 hq
          rcases publishOrRestore_cases hw hq with ⟨e, he, hi, hcalls⟩ | ⟨changed', he, hp⟩
          · cases he
          · cases he
            simp only [Prod.mk.injEq] at h
            obtain ⟨h1, h2, h3⟩ := h
            subst h3
            exact .inr (.inr ⟨w, normalized, changed, inner2, hw, hs, rfl, hk, hp, h1.symm,
              h2.symm⟩)

/-- the whole-worker drain that `drain_authorizations` creates -/
def shutdownDrain (inner : Inner p) (w : WorkerRecord p) : DrainRecord :=
  ⟨wrappingNext inner.nextDrainId, w.placementGeneration,
    inner.topologyVersion w.registration.request.instanceId, true, readyKeys w, false⟩

theorem drainAuthorizations_cases {store : ControllerStateStore σ} {inner inner' : Inner p}
    {s s' : σ} {workerId startId : String}
    {r : Except ControllerStateError (List DrainAuthorization)}
    (h : drainAuthorizations store inner s workerId startId = (r, inner', s')) :
    (∃ e, r = .error e ∧ inner' = inner ∧ AdvanceCalls store s s') ∨
    (∃ w, inner.workers[workerId]? = some w ∧ w.registration.request.startId = startId ∧
      shouldCreateShutdown inner w = false ∧ r = .ok (incompleteDrains w) ∧ inner' = inner ∧
      s' = s) ∨
    (∃ w changed inner2, inner.workers[workerId]? = some w ∧
      w.registration.request.startId = startId ∧ shouldCreateShutdown inner w = true ∧
      publishRoutes store (inner.setWorker workerId { w with includedInTopology := false }) s
        w.registration.request.instanceId (readyKeys w) = (.ok changed, inner2, s') ∧
      r = .ok (incompleteDrains { w with
        includedInTopology := false, drains := w.drains ++ [shutdownDrain inner2 w] }) ∧
      inner' = notifyIf changed (({ inner2 with
          nextDrainId := wrappingNext inner2.nextDrainId } : Inner p).setWorker workerId
        { w with includedInTopology := false, drains := w.drains ++ [shutdownDrain inner2 w] })) := by
  unfold drainAuthorizations at h
  cases hc : ensureCurrentStart inner workerId startId with
  | error e =>
    simp only [hc, Prod.mk.injEq] at h
    exact .inl ⟨e, h.1.symm, h.2.1.symm, .of_eq h.2.2⟩
  | ok w =>
    obtain ⟨hw, hs⟩ := ensureCurrentStart_ok hc
    simp only [hc] at h
    split_ifs at h with hd
    · cases hq : publishOrRestore store
          (inner.setWorker workerId { w with includedInTopology := false }) s workerId w
          w.registration.request.instanceId (readyKeys w) with
      | mk a rest =>
        obtain ⟨inner2, s2⟩ := rest
        rw [hq] at h
        rcases publishOrRestore_cases hw hq with ⟨e, he, hi, hcalls⟩ | ⟨changed, he, hp⟩
        · subst he
          simp only [Prod.mk.injEq] at h
          exact .inl ⟨e, h.1.symm, by rw [← h.2.1, hi], h.2.2 ▸ hcalls⟩
        · subst he
          simp only [Prod.mk.injEq] at h
          obtain ⟨h1, h2, h3⟩ := h
          subst h3
          exact .inr (.inr ⟨w, changed, inner2, hw, hs, hd, hp, h1.symm, h2.symm⟩)
    · simp only [Prod.mk.injEq] at h
      exact .inr (.inl ⟨w, hw, hs, by simpa using hd, h.1.symm, h.2.1.symm, h.2.2.symm⟩)

/-- the record after a drain was marked completed -/
def WorkerRecord.completed (w : WorkerRecord p) (drainId : Nat) : WorkerRecord p :=
  { w with drains := markCompleted drainId w.drains }

theorem completeDrain_cases {store : ControllerStateStore σ} {inner inner' : Inner p} {s s' : σ}
    {workerId startId : String} {drainId : Nat} {r : Except ControllerStateError Bool}
    (h : completeDrain store inner s workerId startId drainId = (r, inner', s')) :
    (∃ e, r = .error e ∧ inner' = inner ∧ AdvanceCalls store s s') ∨
    (r = .ok false ∧ inner' = inner ∧ s' = s) ∨
    (∃ w drain, inner.workers[workerId]? = some w ∧ w.registration.request.startId = startId ∧
      w.drains.find? (fun d => d.drainId = drainId) = some drain ∧ drain.completed = false ∧
      r = .ok true ∧
      ((drain.stopAll = false ∧ s' = s ∧
          inner' = inner.setWorker workerId (w.completed drainId)) ∨
        (drain.stopAll = true ∧ ∃ changed inner2,
          publishRoutes store
            (inner.setWorker workerId { w.completed drainId with live := false }) s
            w.registration.request.instanceId (readyKeys w) = (.ok changed, inner2, s') ∧
          inner' = notifyIf changed inner2))) := by
  unfold completeDrain at h
  cases hc : ensureCurrentStart inner workerId startId with
  | error e =>
    simp only [hc, Prod.mk.injEq] at h
    exact .inl ⟨e, h.1.symm, h.2.1.symm, .of_eq h.2.2⟩
  | ok w =>
    obtain ⟨hw, hs⟩ := ensureCurrentStart_ok hc
    simp only [hc] at h
    cases hf : w.drains.find? (fun d => d.drainId = drainId) with
    | none =>
      simp only [hf, Prod.mk.injEq] at h
      exact .inl ⟨_, h.1.symm, h.2.1.symm, .of_eq h.2.2⟩
    | some drain =>
      simp only [hf] at h
      split_ifs at h with hd ha
      · simp only [Prod.mk.injEq] at h
        exact .inr (.inl ⟨h.1.symm, h.2.1.symm, h.2.2.symm⟩)
      · split at h
        · rename_i e inner2 s2 hq
          rcases publishOrRestore_cases hw hq with ⟨e', he, hi, hcalls⟩ | ⟨changed, he, hp⟩
          · cases he
            simp only [Prod.mk.injEq] at h
            exact .inl ⟨e, h.1.symm, by rw [← h.2.1, hi], h.2.2 ▸ hcalls⟩
          · cases he
        · rename_i changed inner2 s2 hq
          rcases publishOrRestore_cases hw hq with ⟨e, he, hi, hcalls⟩ | ⟨changed', he, hp⟩
          · cases he
          · cases he
            simp only [Prod.mk.injEq] at h
            obtain ⟨h1, h2, h3⟩ := h
            subst h3
            exact .inr (.inr ⟨w, drain, hw, hs, hf, by simpa using hd, h1.symm,
              .inr ⟨ha, changed, inner2, hp, h2.symm⟩⟩)
      · simp only [Prod.mk.injEq] at h
        exact .inr (.inr ⟨w, drain, hw, hs, hf, by simpa using hd, h.1.symm,
          .inl ⟨by simpa using ha, h.2.2.symm, h.2.1.symm⟩⟩)

end

end ExpertKit.Controller

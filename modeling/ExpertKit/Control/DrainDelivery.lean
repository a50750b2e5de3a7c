import ExpertKit.Controller.Drains
import ExpertKit.Worker.Parts

/-!
# Weight control: drain authorizations from the Controller to the Worker

`drain_authorizations` of the Controller against `DrainAuthorizationAssembler` of the Worker.  The
Controller fills the minimum topology version with the version of the instance, `0` before the first
publication, and names every READY expert; the Worker wants a positive version and at most
`max_experts` experts.

* `SameContent`, `Accepted`   the parts reassemble to what was sent;
* `DrainRecord.Deliverable`   what the Worker's checks amount to on a drain record;
* `drain_authorizations_accepted_iff`   exactly when everything returned is accepted;
* `unpublished_shutdown_rejected`       a shutdown before the first publication.
-/

set_option linter.unusedSectionVars false

namespace ExpertKit.Control
open Std Controller

section
variable {p : EndpointParsers} {σ : Type}

/-- the reassembled authorization says what every sent part says -/
structure SameContent (sent : Controller.DrainAuthorization) (received : Worker.DrainAuthorization) :
    Prop where
  drainId : received.drainId = sent.drainId
  fields : ∀ part ∈ sent.parts, part.drainId = received.drainId ∧
    part.placementGeneration = received.placementGeneration ∧
    part.minTopologyVersion = received.minTopologyVersion ∧
    part.stopAcceptingAllComputation = received.stopAcceptingAllComputation
  experts : received.experts = sent.parts.flatMap DrainAuthorizationPart.experts

/-- the assembler takes every part, completes one authorization and keeps nothing behind -/
def Accepted (a : Worker.DrainAuthorizationAssembler) (sent : Controller.DrainAuthorization) :
    Prop :=
  ∃ received, a.addAll sent.parts = (.ok [received], a) ∧ SameContent sent received

/-- an assembler of the Worker that can start this drain -/
structure ReadyFor (a : Worker.DrainAuthorizationAssembler) (maxExperts drainId : Nat) : Prop where
  maxExperts : a.maxExperts = maxExperts
  new : a.pending[drainId]? = none
  room : a.pending.size < Worker.maxPendingDrains

def Deliverable (d : DrainRecord) (maxExperts : Nat) : Prop :=
  0 < d.placementGeneration ∧ 0 < d.minTopologyVersion ∧ d.experts.size ≤ maxExperts

/-! ## one record -/

/-- what the record becomes on the Worker -/
def wireAuthorization (d : DrainRecord) : Worker.DrainAuthorization :=
  ⟨d.drainId, d.placementGeneration, d.minTopologyVersion, d.stopAll, d.experts.toList⟩

theorem drainAuthorization_parts (d : DrainRecord) :
    (drainAuthorization d).parts = Worker.drainParts (wireAuthorization d) := rfl

theorem sameContent_wire (d : DrainRecord) :
    SameContent (drainAuthorization d) (wireAuthorization d) := by
  refine ⟨rfl, ?_, ?_⟩
  · intro part hp
    rw [drainAuthorization_parts] at hp
    unfold Worker.drainParts Parts.multipart at hp
    obtain ⟨j, _, rfl⟩ := List.mem_map.mp hp
    exact ⟨rfl, rfl, rfl, rfl⟩
  · rw [drainAuthorization_parts, Worker.flatMap_drainParts]

theorem toList_nodup (s : ExtTreeSet ExpertKey) : s.toList.Nodup := by
  rw [List.nodup_iff_pairwise_ne]
  refine (ExtTreeSet.distinct_toList (t := s)).imp ?_
  intro a b hne e
  exact hne (Std.compare_eq_iff_eq.mpr e)

/-- the same content is received at most once -/
theorem SameContent.unique {sent : Controller.DrainAuthorization}
    {r r' : Worker.DrainAuthorization} (hne : sent.parts ≠ []) (h : SameContent sent r)
    (h' : SameContent sent r') : r = r' := by
  obtain ⟨part, hp⟩ := List.exists_mem_of_ne_nil _ hne
  obtain ⟨h1, h2, h3, h4⟩ := h.fields part hp
  obtain ⟨g1, g2, g3, g4⟩ := h'.fields part hp
  have he := h.experts.trans h'.experts.symm
  cases r
  cases r'
  simp_all

theorem accepted_iff {d : DrainRecord} (hd : DrainOk d) {a : Worker.DrainAuthorizationAssembler}
    {maxExperts : Nat} (hmax : 0 < maxExperts) (ha : ReadyFor a maxExperts d.drainId) :
    Accepted a (drainAuthorization d) ↔ Deliverable d maxExperts := by
  have hnamed : d.experts.toList = [] → d.stopAll = true := by
    intro hnil
    cases hs : d.stopAll with
    | true => rfl
    | false =>
      have hempty : d.experts.isEmpty = true := by simpa using hnil
      rw [hd.named hs] at hempty
      cases hempty
  have hiff : a.addAll (Worker.drainParts (wireAuthorization d)) = (.ok [wireAuthorization d], a) ↔
      0 < d.placementGeneration ∧ 0 < d.minTopologyVersion ∧
        (wireAuthorization d).experts.length ≤ a.maxExperts :=
    Worker.addAll_drainParts_iff ha.new ha.room (by rw [ha.maxExperts]; exact hmax)
      ⟨hd.id_pos, hd.id_le⟩ hd.generation_le hd.version_le (toList_nodup d.experts) hnamed
  have hlen : (wireAuthorization d).experts.length = d.experts.size := ExtTreeSet.length_toList
  rw [hlen, ha.maxExperts] at hiff
  constructor
  · rintro ⟨received, hadd, hsame⟩
    have hne : (drainAuthorization d).parts ≠ [] := by
      intro hnil
      have hl : (Worker.drainParts (wireAuthorization d)).length
          = Worker.drainPartCount (wireAuthorization d) := Worker.length_drainParts
      rw [← drainAuthorization_parts, hnil] at hl
      have hpos : 0 < Worker.drainPartCount (wireAuthorization d) := Parts.partCount_pos _ _
      rw [← hl] at hpos
      exact absurd hpos (Nat.lt_irrefl 0)
    rw [hsame.unique hne (sameContent_wire d)] at hadd
    exact hiff.mp hadd
  · intro h
    exact ⟨wireAuthorization d, hiff.mpr h, sameContent_wire d⟩

/-! ## everything that is returned -/

theorem forall_incomplete_iff {w : WorkerRecord p} (hw : RecordOk w) {maxExperts : Nat}
    (hmax : 0 < maxExperts) :
    (∀ auth ∈ incompleteDrains w, ∀ a, ReadyFor a maxExperts auth.drainId → Accepted a auth) ↔
      ∀ d ∈ w.drains, d.completed = false → Deliverable d maxExperts := by
  constructor
  · intro h d hd hc
    have hmem : drainAuthorization d ∈ incompleteDrains w := by
      unfold incompleteDrains
      exact List.mem_map.mpr ⟨d, List.mem_filter.mpr ⟨hd, by simp [hc]⟩, rfl⟩
    have hfresh : ReadyFor ⟨maxExperts, ∅⟩ maxExperts d.drainId :=
      ⟨rfl, by simp, by simp [Worker.maxPendingDrains]⟩
    exact (accepted_iff (hw.drains d hd) hmax hfresh).mp (h _ hmem _ hfresh)
  · intro h auth hauth a ha
    unfold incompleteDrains at hauth
    obtain ⟨d, hd, rfl⟩ := List.mem_map.mp hauth
    obtain ⟨hmem, hc⟩ := List.mem_filter.mp hd
    exact (accepted_iff (hw.drains d hmem) hmax ha).mpr (h d hmem (by simpa using hc))

theorem maxExperts_pos (w : WorkerRecord p) : 0 < w.registration.device.maxExperts := by
  have hv := w.registration.valid
  unfold validateRegistration at hv
  rw [w.registration.device_eq] at hv
  split_ifs at hv with h1 h2 h3 h4
  simp only at hv
  split_ifs at hv with h5
  simp only [Bool.or_eq_true, not_or, beq_iff_eq] at h5
  omega

theorem drain_authorizations_accepted_iff {store : ControllerStateStore σ}
    {stored : σ → Nat → Nat} (hs : LawfulStore store stored) (hu : U64Store store)
    {w : World p σ} (hw : Reachable store w) {workerId startId : String} {r : WorkerRecord p}
    (hr : w.inner.workers[workerId]? = some r) (hset : 0 < r.placementGeneration)
    {auths : List Controller.DrainAuthorization} {inner' : Inner p} {s' : σ}
    (h : drainAuthorizations store w.inner w.stored workerId startId = (.ok auths, inner', s')) :
    (∀ auth ∈ auths, ∀ a, ReadyFor a r.registration.device.maxExperts auth.drainId →
        Accepted a auth) ↔
      (∀ d ∈ r.drains, d.completed = false → Deliverable d r.registration.device.maxExperts) ∧
      (shouldCreateShutdown w.inner r = true →
        0 < w.inner.topologyVersion r.registration.request.instanceId ∧
          (readyKeys r).size ≤ r.registration.device.maxExperts) := by
  have hnum := reachable_numbered hs hu hw
  have hrec := hnum.records workerId r hr
  have hmax := maxExperts_pos r
  rcases drainAuthorizations_cases h with ⟨_, he, _⟩ | ⟨r', hr', _, hno, ha, _⟩ |
    ⟨r', changed, inner2, hr', _, hyes, hp, ha, hi⟩
  · cases he
  · rw [hr] at hr'
    cases hr'
    cases ha
    rw [forall_incomplete_iff hrec hmax, hno]
    exact ⟨fun hd => ⟨hd, fun hc => by cases hc⟩, fun hd => hd.1⟩
  · rw [hr] at hr'
    cases hr'
    cases ha
    have hrec' : RecordOk ({ r with includedInTopology := false
                                    drains := r.drains ++ [shutdownDrain inner2 r] }) := by
      have hnum' := Op.run_numbered hs hu w (.drainAuthorizations workerId startId) hnum
      refine hnum'.records workerId _ ?_
      show (drainAuthorizations store w.inner w.stored workerId startId).2.1.workers[workerId]? = _
      rw [h]
      show inner'.workers[workerId]? = _
      rw [hi, notifyIf_workers, setWorker_workers, if_pos rfl]
    rw [forall_incomplete_iff hrec' hmax]
    have hver := shutdown_version hs hnum.versions hyes hp
    have hnew : Deliverable (shutdownDrain inner2 r) r.registration.device.maxExperts ↔
        0 < w.inner.topologyVersion r.registration.request.instanceId ∧
          (readyKeys r).size ≤ r.registration.device.maxExperts := by
      unfold Deliverable
      rw [hver]
      exact ⟨fun hd => hd.2, fun hd => ⟨hset, hd⟩⟩
    constructor
    · intro hd
      refine ⟨fun d hm => hd d (List.mem_append_left _ hm), fun _ => ?_⟩
      exact hnew.mp (hd _ (List.mem_append_right _ (List.mem_singleton_self _)) rfl)
    · rintro ⟨hold, hshut⟩ d hm hc
      rcases List.mem_append.mp hm with hm | hm
      · exact hold d hm hc
      · rw [List.mem_singleton] at hm
        rw [hm]
        exact hnew.mpr (hshut hyes)

end

/-! ## a shutdown with and without a published topology -/

def start : World Fixture.parsers U64Snapshot :=
  ⟨newState Fixture.parsers 8 Fixture.eight_pos, ⟨.empty, by simp [ControllerStoreSnapshot.empty]⟩⟩

theorem start_reachable : Reachable U64TransientStore start := .new 8 (by decide) _

/-- two workers serve expert (1, 2); `worker-0` says that it is shutting down -/
def servedShutdown : World Fixture.parsers U64Snapshot :=
  runOps U64TransientStore start
    (Fixture.registerLive "worker-1" "start-0" 1 ++ Fixture.registerLive "worker-0" "start-0" 2 ++
      [.setTargets "worker-1" "start-0" [Fixture.target 1 2],
        .setTargets "worker-0" "start-0" [Fixture.target 1 2],
        .applyStateReport "worker-1" "start-0" 1 1 true [Fixture.ready 1 2],
        .applyStateReport "worker-0" "start-0" 1 1 true [Fixture.ready 1 2],
        .heartbeat "worker-0" "start-0" 2 2 2])

/-- the record of `worker-0` -/
def recordOf (w : World Fixture.parsers U64Snapshot) :
    Option (WorkerRecord Fixture.parsers) := w.inner.workers["worker-0"]?

/-- the authorizations of `worker-0` -/
def authorizationsOf (w : World Fixture.parsers U64Snapshot) :
    Except ControllerStateError (List Controller.DrainAuthorization) :=
  (drainAuthorizations U64TransientStore w.inner w.stored "worker-0" "start-0").1

/-- the whole-worker drain that `worker-0` is sent -/
def servedDrain : Controller.DrainAuthorization :=
  ⟨1, [⟨1, 1, 3, true, 0, 1, [⟨1, 2⟩]⟩]⟩

theorem servedShutdown_condition : ∃ r, recordOf servedShutdown = some r ∧
    0 < r.placementGeneration ∧ r.drains = [] ∧ r.registration.device.maxExperts = 256 ∧
    0 < servedShutdown.inner.topologyVersion r.registration.request.instanceId ∧
    (readyKeys r).size ≤ r.registration.device.maxExperts := by
  have hsome : (recordOf servedShutdown).isSome = true := by decide +kernel
  obtain ⟨r, hr⟩ := Option.isSome_iff_exists.mp hsome
  have hall : (recordOf servedShutdown).all (fun r => decide (0 < r.placementGeneration ∧
      r.drains = [] ∧ r.registration.device.maxExperts = 256 ∧
      0 < servedShutdown.inner.topologyVersion r.registration.request.instanceId ∧
      (readyKeys r).size ≤ r.registration.device.maxExperts)) = true := by decide +kernel
  rw [hr] at hall
  exact ⟨r, hr, of_decide_eq_true hall⟩

theorem drain_authorizations_accepted_served :
    authorizationsOf servedShutdown = .ok [servedDrain] ∧ Accepted ⟨256, ∅⟩ servedDrain := by
  have hauth : authorizationsOf servedShutdown = .ok [servedDrain] := by decide +kernel
  refine ⟨hauth, ?_⟩
  obtain ⟨r, hr, hset, hdrains, hmax, hver, hsize⟩ := servedShutdown_condition
  have hiff := drain_authorizations_accepted_iff u64Transient_lawful u64Transient_u64
    (start_reachable.runOps _) hr hset (Prod.ext hauth rfl)
  refine hiff.mpr ⟨?_, fun _ => ⟨hver, hsize⟩⟩ servedDrain (List.mem_singleton_self _) _ ?_
  · rw [hdrains]
    intro d hd
    cases hd
  · rw [hmax]
    exact ⟨rfl, by simp, by decide⟩

/-- a live worker with targets shuts down before anything was published for its instance -/
def unpublishedShutdown : World Fixture.parsers U64Snapshot :=
  runOps U64TransientStore start
    [.register (Fixture.registration "worker-0" "start-0"), .openHeartbeat "worker-0" "start-0",
      .heartbeat "worker-0" "start-0" 1 1 2, .setTargets "worker-0" "start-0" [Fixture.target 1 2]]

theorem unpublished_shutdown_rejected :
    Reachable U64TransientStore unpublishedShutdown ∧
    (recordOf unpublishedShutdown).map WorkerRecord.placementGeneration = some 1 ∧
    authorizationsOf unpublishedShutdown = .ok [⟨1, [⟨1, 1, 0, true, 0, 1, []⟩]⟩] ∧
    (Worker.DrainAuthorizationAssembler.addAll ⟨256, ∅⟩ [⟨1, 1, 0, true, 0, 1, []⟩]).1
      = .error ⟨"min_topology_version must be a positive uint64"⟩ ∧
    ¬ Accepted ⟨256, ∅⟩ ⟨1, [⟨1, 1, 0, true, 0, 1, []⟩]⟩ := by
  have hadd : (Worker.DrainAuthorizationAssembler.addAll ⟨256, ∅⟩ [⟨1, 1, 0, true, 0, 1, []⟩]).1
      = .error ⟨"min_topology_version must be a positive uint64"⟩ := by decide +kernel
  refine ⟨start_reachable.runOps _, by decide +kernel, by decide +kernel, hadd, ?_⟩
  rintro ⟨received, hok, _⟩
  rw [hok] at hadd
  cases hadd

end ExpertKit.Control

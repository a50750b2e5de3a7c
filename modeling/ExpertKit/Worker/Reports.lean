import ExpertKit.Worker.Changes
import ExpertKit.Worker.DrainSafety

/-!
# Worker: the reports of a session

The messages that a session has put in its stream, and the steps that do not touch them.  On every
run the reporter accepts each change that the Manager reports.

* `enqueued`, `produced`   the messages of the stream;
* `Setting`        what the reporter accepts every change for;
* `Quiet`          a step that neither makes nor moves a report;
* `step_ok`        the setting is kept, and every step is quiet unless it reports.
-/

set_option linter.unusedSectionVars false

namespace ExpertKit.Worker
open Std WeightManager ExpertStateReporter

/-! ## the messages of a stream -/

/-- what was put in the queue of the stream, sent or not -/
def enqueued (s : Session) : List WorkerWeightMessage :=
  s.stream ++ s.sending ++ s.outbound.flatten

/-- with the update that was taken and not put -/
def produced (s : Session) : List WorkerWeightMessage :=
  enqueued s ++ (s.updates.map .stateUpdates).toList

/-! ## the setting -/

/-- what a removal under way has checked -/
structure RemovalOk (m : WeightManager) (drain : ActiveDrain) (request : RemovalRequest) :
    Prop where
  positive : 0 < request.placementGeneration
  inShape : ∀ k ∈ request.keys, m.config.inShape k = true
  keys : ∀ k, k ∈ request.keys ↔ k ∈ drain.authorization.experts
  placed : drain.phase = .withdrawing request → 0 < m.placementGeneration

structure DrainsOk (m : WeightManager) (active : ExtTreeMap Nat ActiveDrain) : Prop where
  keyed : ∀ (id : Nat) (drain : ActiveDrain), active[id]? = some drain →
    drain.authorization.drainId = id
  removal : ∀ (id : Nat) (drain : ActiveDrain) (request : RemovalRequest),
    active[id]? = some drain →
    drain.phase = .removing request ∨ drain.phase = .withdrawing request →
    RemovalOk m drain request

/-- the list is of a valid generation, and the boundary of the snapshot is in the past -/
def ConsumerOk (changeIndex : Nat) : Consumer → Prop
  | .acquiring placement => placement.placementGeneration ≤ uint64Max
  | .applying placement => placement.placementGeneration ≤ uint64Max
  | .observing _ boundary => boundary ≤ changeIndex
  | .reporting _ _ boundary => boundary ≤ changeIndex
  | _ => True

theorem ConsumerOk.mono {changeIndex changeIndex' : Nat} {consumer : Consumer}
    (h : ConsumerOk changeIndex consumer) (hle : changeIndex ≤ changeIndex') :
    ConsumerOk changeIndex' consumer := by
  cases consumer with
  | observing placement boundary => exact Nat.le_trans h hle
  | reporting generation states boundary => exact Nat.le_trans h hle
  | _ => exact h

/-- the reporter has the shape of the Manager, and every generation in force is a valid one -/
structure Setting (s : Session) : Prop where
  manager : ManagerOk s.manager
  layers : s.reporter.numLayers = s.manager.config.numLayers
  experts : s.reporter.expertsPerLayer = s.manager.config.expertsPerLayer
  placed : ∀ k ∈ s.manager.targets, 0 < s.manager.placementGeneration
  bounded : s.manager.placementGeneration ≤ uint64Max
  assembler : s.targets.generation ≤ uint64Max
  consumer : ConsumerOk s.reporter.changeIndex s.consumer
  drains : DrainsOk s.manager s.activeDrains

theorem setting_new (config : ManagerConfig) (maxUpdates : Nat) (hu : 0 < maxUpdates)
    (hu' : maxUpdates ≤ maxExpertsPerControlPart) (receiver : Transport.ReceiverQueue) :
    Setting (.new config maxUpdates hu hu' receiver) := by
  refine ⟨managerOk_new config, rfl, rfl, ?_, Nat.zero_le _, Nat.zero_le _, trivial, ?_, ?_⟩
  · intro k hk
    exact absurd hk (by simp [Session.new, WeightManager.new])
  · intro id drain hd
    exact absurd hd (by simp [Session.new])
  · intro id drain request hd
    exact absurd hd (by simp [Session.new])

theorem Setting.accepts {s : Session} (h : Setting s) {g : Nat} {change : ExpertStateChange}
    (hgen : change.placementGeneration = g) (hpos : 0 < g) (hmax : g ≤ uint64Max)
    (hshape : s.manager.config.inShape change.key = true) : s.reporter.Accepts change := by
  subst hgen
  refine ⟨hpos, hmax, ?_⟩
  unfold inShape
  rw [h.layers, h.experts]
  exact hshape

/-! ### drains -/

theorem DrainsOk.mono {m m' : WeightManager} {active : ExtTreeMap Nat ActiveDrain}
    (h : DrainsOk m active) (hconfig : m'.config = m.config)
    (hgen : m.placementGeneration ≤ m'.placementGeneration) : DrainsOk m' active := by
  refine ⟨h.keyed, fun id drain request hd hp => ?_⟩
  have hok := h.removal id drain request hd hp
  exact ⟨hok.positive, hconfig ▸ hok.inShape, hok.keys, fun hw => by
    have := hok.placed hw
    omega⟩

theorem DrainsOk.insert {m : WeightManager} {active : ExtTreeMap Nat ActiveDrain}
    (h : DrainsOk m active) (drain : ActiveDrain)
    (hnew : ∀ request, drain.phase = .removing request ∨ drain.phase = .withdrawing request →
      RemovalOk m drain request) :
    DrainsOk m (active.insert drain.authorization.drainId drain) := by
  refine ⟨fun id d hd => ?_, fun id d request hd hp => ?_⟩ <;>
    rw [Maps.getElem?_insert_eq] at hd <;> split_ifs at hd with hid
  · cases hd
    exact hid
  · exact h.keyed id d hd
  · cases hd
    exact hnew request hp
  · exact h.removal id d request hd hp

/-- drains that end or are cancelled -/
theorem DrainsOk.sub {m : WeightManager} {active active' : ExtTreeMap Nat ActiveDrain}
    (h : DrainsOk m active)
    (hsub : ∀ (id : Nat) (drain : ActiveDrain), active'[id]? = some drain →
      active[id]? = some drain ∨ drain.phase = .cancelled ∧ drain.authorization.drainId = id) :
    DrainsOk m active' := by
  refine ⟨fun id d hd => ?_, fun id d request hd hp => ?_⟩ <;>
    rcases hsub id d hd with hd | ⟨hcancelled, hid⟩
  · exact h.keyed id d hd
  · exact hid
  · exact h.removal id d request hd hp
  · rw [hcancelled] at hp
    rcases hp with hp | hp <;> cases hp

theorem DrainsOk.erase {m : WeightManager} {active : ExtTreeMap Nat ActiveDrain}
    (h : DrainsOk m active) (id : Nat) : DrainsOk m (active.erase id) := by
  refine h.sub fun id' drain hd => .inl ?_
  rw [Maps.getElem?_erase_eq] at hd
  split_ifs at hd
  exact hd

/-! ## quiet steps -/

/-- the consumer holds a full state report -/
def Consumer.holdsReport : Consumer → Bool
  | .reporting _ _ _ => true
  | .enqueueing _ => true
  | _ => false

/-- the step neither makes nor moves a report; the Manager reports its changes -/
structure Quiet (s s' : Session) : Prop where
  enqueued : enqueued s' = enqueued s
  updates : s'.updates = s.updates
  snapshotReady : s'.snapshotReady = s.snapshotReady
  completions : s'.completions = s.completions
  lastEnqueued : s'.lastEnqueuedReportSequence = s.lastEnqueuedReportSequence
  consumer : s'.consumer = s.consumer ∨ s'.consumer.holdsReport = false
  changes : ∃ changes, Emits s.manager s'.manager changes ∧
    Numbers s.reporter s'.reporter changes

/-- the labels of the steps that make or move a report or a completion -/
def Label.reports : Label → Bool
  | .observe | .report | .enqueueFull | .takeUpdates | .enqueueUpdates | .collectCompletions
  | .flushCompletions | .awaitCompletions | .putCompletions | .reconnect => true
  | _ => false

/-- a step keeps the setting, and is quiet unless it reports -/
structure StepOk (s s' : Session) (l : Label) : Prop where
  setting : Setting s'
  quiet : l.reports = false → Quiet s s'

section
variable {s s' : Session} {l : Label} {id : Nat}

/-- the Manager and the reporter are as before -/
theorem Setting.frame (h : Setting s) (hm : s'.manager = s.manager)
    (hl : s'.reporter.numLayers = s.reporter.numLayers)
    (he : s'.reporter.expertsPerLayer = s.reporter.expertsPerLayer)
    (hi : s.reporter.changeIndex ≤ s'.reporter.changeIndex) (ht : s'.targets = s.targets)
    (hc : s'.consumer = s.consumer ∨ ConsumerOk s'.reporter.changeIndex s'.consumer)
    (hd : DrainsOk s.manager s'.activeDrains) : Setting s' := by
  refine ⟨hm ▸ h.manager, ?_, ?_, hm ▸ h.placed, hm ▸ h.bounded, ht ▸ h.assembler, ?_, hm ▸ hd⟩
  · rw [hl, hm]
    exact h.layers
  · rw [he, hm]
    exact h.experts
  · rcases hc with hc | hc
    · rw [hc]
      exact h.consumer.mono hi
    · exact hc

/-- a step outside the Manager, the reporter and the stream -/
theorem StepOk.frame (h : Setting s) (hm : s'.manager = s.manager)
    (hr : s'.reporter = s.reporter) (ht : s'.targets = s.targets)
    (hc : s'.consumer = s.consumer ∨ s'.consumer.holdsReport = false ∧
      ConsumerOk s.reporter.changeIndex s'.consumer)
    (hd : DrainsOk s.manager s'.activeDrains) (hq : enqueued s' = enqueued s)
    (hu : s'.updates = s.updates) (hsnap : s'.snapshotReady = s.snapshotReady)
    (hcomp : s'.completions = s.completions)
    (hlast : s'.lastEnqueuedReportSequence = s.lastEnqueuedReportSequence) : StepOk s s' l :=
  ⟨h.frame hm (by rw [hr]) (by rw [hr]) (by rw [hr]) ht (hc.imp_right fun hc => hr ▸ hc.2) hd,
    fun _ => ⟨hq, hu, hsnap, hcomp, hlast, hc.imp_right And.left, [],
      hm ▸ .same _, hr ▸ .same rfl rfl rfl rfl rfl rfl⟩⟩

/-- only the drains and their books change -/
theorem StepOk.drains (h : Setting s) {active : ExtTreeMap Nat ActiveDrain}
    (hd : DrainsOk s.manager active) (superseded completed : List DrainAuthorization)
    (error : Option String) (drained : Bool) (receiver : Transport.ReceiverQueue) :
    StepOk s { s with
      activeDrains := active
      supersededDrains := superseded
      completedDrains := completed
      drainError := error
      shutdownDrained := drained
      receiver := receiver } l :=
  .frame h rfl rfl rfl (.inl rfl) hd rfl rfl rfl rfl rfl

/-- only the receiver changes -/
theorem StepOk.receiver (h : Setting s) (q : Transport.ReceiverQueue) :
    StepOk s { s with receiver := q } l :=
  .frame h rfl rfl rfl (.inl rfl) h.drains rfl rfl rfl rfl rfl

theorem StepOk.failDrain (h : Setting s) (drain : ActiveDrain) (message : String) :
    StepOk s (s.failDrain drain message) l :=
  .drains h (h.drains.erase _) s.supersededDrains s.completedDrains _ s.shutdownDrained s.receiver

theorem StepOk.endSuperseded (h : Setting s) (drain : ActiveDrain) :
    StepOk s (s.endSuperseded drain) l := by
  obtain ⟨superseded, error, heq⟩ := endSuperseded_cases s drain
  rw [heq]
  exact .drains h (h.drains.erase _) superseded s.completedDrains error s.shutdownDrained s.receiver

theorem StepOk.fail (h : Setting s) (message : String) : StepOk s (s.fail message) l :=
  .frame h rfl rfl rfl (.inr ⟨rfl, trivial⟩) h.drains rfl rfl rfl rfl rfl

theorem StepOk.setPhase (h : Setting s) (drain : ActiveDrain) (phase : DrainPhase)
    (hnew : ∀ request, phase = .removing request ∨ phase = .withdrawing request →
      RemovalOk s.manager { drain with phase := phase } request) :
    StepOk s (s.setPhase drain phase) l :=
  .drains h (h.drains.insert { drain with phase := phase } hnew) s.supersededDrains
    s.completedDrains s.drainError s.shutdownDrained s.receiver

/-- the Manager changes, and reports it -/
theorem StepOk.emits (h : Setting s) {m : WeightManager} {changes : List ExpertStateChange}
    {active : ExtTreeMap Nat ActiveDrain} (hm : Emits s.manager m changes) (hok : ManagerOk m)
    (hplaced : (∃ k, k ∈ m.targets) ∨ changes ≠ [] → 0 < m.placementGeneration)
    (hbound : m.placementGeneration ≤ uint64Max) (hd : DrainsOk m active) :
    Setting { s with
      manager := m, reporter := s.reporter.emit changes, activeDrains := active } ∧
    Emits s.manager m changes ∧ Numbers s.reporter (s.reporter.emit changes) changes := by
  have hnumbers : Numbers s.reporter (s.reporter.emit changes) changes := by
    refine emit_spec changes fun change hc => ?_
    exact h.accepts (hm.generation change hc)
      (hplaced (.inr (List.ne_nil_of_mem hc))) hbound (hm.inShape change hc)
  refine ⟨⟨hok, ?_, ?_, fun k hk => hplaced (.inl ⟨k, hk⟩), hbound, h.assembler,
    h.consumer.mono hnumbers.changeIndex, hd⟩,
    hm, hnumbers⟩
  · show (s.reporter.emit changes).numLayers = m.config.numLayers
    rw [hnumbers.layers, hm.config]
    exact h.layers
  · show (s.reporter.emit changes).expertsPerLayer = m.config.expertsPerLayer
    rw [hnumbers.experts, hm.config]
    exact h.experts

/-! ### every step -/

theorem enqueued_dequeue (hs : s.dequeue = some s') : enqueued s' = enqueued s := by
  unfold Session.dequeue at hs
  split at hs
  · rename_i group rest hsending hout
    cases hs
    show s.stream ++ group ++ rest.flatten = s.stream ++ s.sending ++ s.outbound.flatten
    rw [hsending, hout, List.flatten_cons, List.append_nil, List.append_assoc]
  · cases hs

theorem enqueued_send (hs : s.send = some s') : enqueued s' = enqueued s := by
  unfold Session.send at hs
  split at hs
  · cases hs
  · rename_i message rest hsending
    cases hs
    show s.stream ++ [message] ++ rest ++ s.outbound.flatten
      = s.stream ++ s.sending ++ s.outbound.flatten
    rw [hsending, List.append_assoc s.stream, List.singleton_append]

theorem add_bounded {a : TargetListAssembler} (h : a.generation ≤ uint64Max)
    (part : TargetExpertListPart) : (a.add part).2.generation ≤ uint64Max := by
  have hadvance : part.placementGeneration ≤ uint64Max →
      (a.advance part).generation ≤ uint64Max := by
    intro hpart
    unfold TargetListAssembler.advance
    split_ifs
    · exact hpart
    · exact h
  unfold TargetListAssembler.add
  split
  · exact h
  · rename_i hvalid
    have hpart := ((validatePositiveUint64_iff _ _).mp hvalid).2
    split_ifs
    · exact h
    · split
      · exact h
      · simp only
        split_ifs
        · exact hadvance hpart
        · split
          · split_ifs
            · exact hadvance hpart
            · rw [(TargetListAssembler.finishTargets_generation _ _).1]
              exact hadvance hpart
          · rw [(TargetListAssembler.finishTargets_generation _ _).1]
            exact hadvance hpart

theorem StepOk.targets (h : Setting s) {a : TargetListAssembler} (ha : a.generation ≤ uint64Max)
    {consumer : Consumer} (hc : consumer = s.consumer ∨ consumer.holdsReport = false ∧
      ConsumerOk s.reporter.changeIndex consumer) :
    StepOk s { s with targets := a, consumer := consumer } l := by
  refine ⟨⟨h.manager, h.layers, h.experts, h.placed, h.bounded, ha, ?_, h.drains⟩,
    fun _ => ⟨rfl, rfl, rfl, rfl, rfl, hc.imp_right And.left, [], .same _,
      .same rfl rfl rfl rfl rfl rfl⟩⟩
  rcases hc with rfl | hc
  · exact h.consumer
  · exact hc.2

theorem StepOk.receive {message : ControllerWeightMessage} (h : Setting s)
    (hs : s.receive message = some s') : StepOk s s' l := by
  unfold Session.receive at hs
  split_ifs at hs
  cases message with
  | targets part =>
    have hbound := add_bounded h.assembler part
    have hplacement := (s.targets.add_generation part).2
    simp only at hs
    split at hs
    · rename_i e a heq
      cases hs
      rw [heq] at hbound
      exact .targets h hbound (.inr ⟨rfl, trivial⟩)
    · rename_i a heq
      cases hs
      rw [heq] at hbound
      exact .targets h hbound (.inl rfl)
    · rename_i placement a heq
      cases hs
      rw [heq] at hbound hplacement
      refine .targets h hbound (.inr ⟨rfl, ?_⟩)
      show placement.placementGeneration ≤ uint64Max
      rw [hplacement placement rfl]
      exact hbound
  | stateAck reportSequence =>
    simp only at hs
    split at hs
    · cases hs
      exact .fail h _
    · rename_i applied r heq
      cases hs
      have hr : ∃ last, r = { s.reporter with lastAcknowledgedSequence := last } := by
        unfold acknowledge at heq
        split_ifs at heq <;> cases heq
        · exact ⟨_, rfl⟩
        · exact ⟨_, rfl⟩
      obtain ⟨last, rfl⟩ := hr
      exact ⟨h.frame rfl rfl rfl (Nat.le_refl _) rfl (.inl rfl) h.drains, fun _ => ⟨rfl, rfl, rfl,
        rfl, rfl, .inl rfl, [], .same _, .same rfl rfl rfl rfl rfl rfl⟩⟩
  | drain part =>
    have hadd : ∀ a, StepOk s { s with drains := a } l := fun a =>
      .frame h rfl rfl rfl (.inl rfl) h.drains rfl rfl rfl rfl rfl
    have hfail : ∀ a message, StepOk s ({ s with drains := a }.fail message) l := fun a message =>
      .frame h rfl rfl rfl (.inr ⟨rfl, trivial⟩) h.drains rfl rfl rfl
        rfl rfl
    simp only at hs
    split at hs
    · cases hs
      exact hfail _ _
    · cases hs
      exact hadd _
    · rename_i authorization a heq
      split at hs
      · cases hs
        exact hfail _ _
      · rename_i s'' hstart
        cases hs
        rcases startDrain_cases hstart with ⟨superseded, rfl⟩ | ⟨_, _, rfl⟩
        · exact .frame h rfl rfl rfl (.inl rfl) h.drains rfl rfl rfl rfl rfl
        · refine .frame h rfl rfl rfl (.inl rfl) ?_ rfl rfl rfl rfl rfl
          exact h.drains.insert ⟨authorization, .created⟩ (by rintro r (hr | hr) <;> cases hr)
  | unset =>
    cases hs
    exact .fail h _

theorem StepOk.lockTransition (h : Setting s) (hs : s.lockTransition = some s') :
    StepOk s s' l := by
  unfold Session.lockTransition at hs
  split at hs
  · rename_i placement hc
    have hbound : placement.placementGeneration ≤ uint64Max := by
      have hconsumer := h.consumer
      rw [hc] at hconsumer
      exact hconsumer
    split_ifs at hs
    · obtain ⟨superseded, active, heq, hactive⟩ := supersedeAll_cases
        placement.placementGeneration (Maps.values s.activeDrains) s
      split at hs
      · rename_i e s1 hall
        cases hs
        rw [hall] at heq
        rw [show s1 = _ from heq]
        exact .frame h rfl rfl rfl (.inr ⟨rfl, trivial⟩)
          (h.drains.sub hactive) rfl rfl rfl rfl rfl
      · rename_i s1 hall
        cases hs
        rw [hall] at heq
        rw [show s1 = _ from heq]
        exact .frame h rfl rfl rfl (.inr ⟨rfl, hbound⟩) (h.drains.sub hactive) rfl rfl rfl rfl rfl
    · cases hs
      exact .frame h rfl rfl rfl (.inr ⟨rfl, hbound⟩) h.drains rfl rfl rfl rfl rfl
  · cases hs

theorem StepOk.applyTargets (h : Setting s) (hs : s.applyTargets = some s') : StepOk s s' l := by
  unfold Session.applyTargets at hs
  split at hs
  · rename_i placement hc
    have hbound : placement.placementGeneration ≤ uint64Max := by
      have hconsumer := h.consumer
      rw [hc] at hconsumer
      exact hconsumer
    split at hs
    · cases hs
      exact .fail h _
    · rename_i applied m changes heq
      obtain ⟨hm, hok, hle, hgen⟩ := Emits.applyTargets h.manager heq
      have hplaced : (∃ k, k ∈ m.targets) ∨ changes ≠ [] → 0 < m.placementGeneration := by
        rcases hgen with ⟨rfl, rfl⟩ | ⟨hgen, hpos⟩
        · rintro (⟨k, hk⟩ | hne)
          · exact h.placed k hk
          · exact absurd rfl hne
        · exact fun _ => hgen ▸ hpos
      have hmax : m.placementGeneration ≤ uint64Max := by
        rcases hgen with ⟨rfl, _⟩ | ⟨hgen, _⟩
        · exact h.bounded
        · exact hgen ▸ hbound
      obtain ⟨hset, hemits, hnumbers⟩ := StepOk.emits h hm hok hplaced hmax
        (h.drains.mono hm.config hle)
      have hstep : ∀ consumer, consumer.holdsReport = false →
          ConsumerOk (s.reporter.emit changes).changeIndex consumer → StepOk s { s with
            manager := m
            reporter := s.reporter.emit changes
            currentPlacementGeneration := placement.placementGeneration
            currentTargetKeys := placement.experts.map TargetExpert.key
            consumer := consumer } l := by
        intro consumer hholds hconsumer
        exact ⟨hset.frame rfl rfl rfl (Nat.le_refl _) rfl (.inr hconsumer) hset.drains,
          fun _ => ⟨rfl, rfl, rfl, rfl, rfl, .inr hholds, changes, hemits, hnumbers⟩⟩
      simp only at hs
      split_ifs at hs
      · cases hs
        exact hstep .idle rfl trivial
      · cases hs
        exact hstep _ rfl (Nat.le_refl _)
  · cases hs

/-- steps that report; they keep the setting -/
theorem StepOk.reporting (h : Setting s) (hl : l.reports = true) (hm : s'.manager = s.manager)
    (hr : s'.reporter.numLayers = s.reporter.numLayers ∧
      s'.reporter.expertsPerLayer = s.reporter.expertsPerLayer ∧
      s'.reporter.changeIndex = s.reporter.changeIndex) (ht : s'.targets = s.targets)
    (hc : s'.consumer = s.consumer ∨ ConsumerOk s'.reporter.changeIndex s'.consumer)
    (hd : s'.activeDrains = s.activeDrains) : StepOk s s' l := by
  refine ⟨h.frame hm hr.1 hr.2.1 hr.2.2.ge ht hc (hd ▸ h.drains), fun hquiet => ?_⟩
  rw [hl] at hquiet
  cases hquiet

theorem StepOk.observe (h : Setting s) (hl : l.reports = true) (hs : s.observe = some s') :
    StepOk s s' l := by
  unfold Session.observe at hs
  split at hs
  · rename_i placement boundary hc
    have hboundary : boundary ≤ s.reporter.changeIndex := by
      have hconsumer := h.consumer
      rw [hc] at hconsumer
      exact hconsumer
    simp only at hs
    split_ifs at hs
    · cases hs
      exact .fail h _
    · cases hs
      exact .reporting h hl rfl ⟨rfl, rfl, rfl⟩ rfl (.inr trivial) rfl
    · cases hs
      exact .reporting h hl rfl ⟨rfl, rfl, rfl⟩ rfl (.inr hboundary) rfl
  · cases hs

theorem StepOk.report (h : Setting s) (hl : l.reports = true) (hs : s.report = some s') :
    StepOk s s' l := by
  unfold Session.report at hs
  split at hs
  · split at hs
    · cases hs
      exact .fail h _
    · rename_i parts r heq
      cases hs
      have hr := fullStateParts_spec heq
      exact .reporting h hl rfl ⟨hr.layers, hr.experts, hr.changeIndex⟩ rfl (.inr trivial) rfl
  · cases hs

theorem StepOk.enqueueFull (h : Setting s) (hl : l.reports = true)
    (hs : s.enqueueFull = some s') : StepOk s s' l := by
  unfold Session.enqueueFull at hs
  split at hs
  · split_ifs at hs
    cases hs
    exact .reporting h hl rfl ⟨rfl, rfl, rfl⟩ rfl (.inr trivial) rfl
  · cases hs

theorem StepOk.takeUpdates (h : Setting s) (hl : l.reports = true)
    (hs : s.takeUpdates = some s') : StepOk s s' l := by
  unfold Session.takeUpdates at hs
  split_ifs at hs
  split at hs
  · cases hs
  · rename_i updates r heq
    cases hs
    have hr := takeUpdates_spec heq
    exact .reporting h hl rfl ⟨hr.layers, hr.experts, hr.changeIndex⟩ rfl (.inl rfl) rfl

theorem StepOk.enqueueUpdates (h : Setting s) (hl : l.reports = true)
    (hs : s.enqueueUpdates = some s') : StepOk s s' l := by
  unfold Session.enqueueUpdates at hs
  split at hs
  · cases hs
  · split_ifs at hs
    cases hs
    exact .reporting h hl rfl ⟨rfl, rfl, rfl⟩ rfl (.inl rfl) rfl

/-- the steps of the completion pump -/
theorem StepOk.completions (h : Setting s) (hl : l.reports = true)
    (hs : s.collectCompletions = some s' ∨ s.flushCompletions = some s' ∨
      s.awaitCompletions = some s' ∨ s.putCompletions = some s') : StepOk s s' l := by
  rcases hs with hs | hs | hs | hs
  · unfold Session.collectCompletions at hs
    split_ifs at hs
    cases hs
    exact .reporting h hl rfl ⟨rfl, rfl, rfl⟩ rfl (.inl rfl) rfl
  · unfold Session.flushCompletions at hs
    split at hs
    · split_ifs at hs
      cases hs
      exact .reporting h hl rfl ⟨rfl, rfl, rfl⟩ rfl (.inl rfl) rfl
    · cases hs
  · unfold Session.awaitCompletions at hs
    split at hs
    · split_ifs at hs
      cases hs
      exact .reporting h hl rfl ⟨rfl, rfl, rfl⟩ rfl (.inl rfl) rfl
    · cases hs
  · unfold Session.putCompletions at hs
    split at hs
    · split_ifs at hs
      cases hs
      exact .reporting h hl rfl ⟨rfl, rfl, rfl⟩ rfl (.inl rfl) rfl
    · cases hs

theorem StepOk.dequeue (h : Setting s) (hs : s.dequeue = some s') : StepOk s s' l := by
  have hq := enqueued_dequeue hs
  unfold Session.dequeue at hs
  split at hs
  · cases hs
    exact .frame h rfl rfl rfl (.inl rfl) h.drains hq rfl rfl rfl rfl
  · cases hs

theorem StepOk.send (h : Setting s) (hs : s.send = some s') : StepOk s s' l := by
  have hq := enqueued_send hs
  unfold Session.send at hs
  split at hs
  · cases hs
  · cases hs
    exact .frame h rfl rfl rfl (.inl rfl) h.drains hq rfl rfl rfl rfl

theorem StepOk.beginDrain (h : Setting s) (hs : s.beginDrain id = some s') : StepOk s s' l := by
  unfold Session.beginDrain at hs
  split at hs
  · split_ifs at hs
    · cases hs
      exact .endSuperseded h _
    · split at hs
      · cases hs
        exact .failDrain h _ _
      · cases hs
        rename_i q _
        exact .drains h (h.drains.insert ⟨_, .gated⟩ (by rintro r (hr | hr) <;> cases hr))
          s.supersededDrains s.completedDrains s.drainError s.shutdownDrained q
  · cases hs

theorem StepOk.waitIdle (h : Setting s) (hs : s.waitIdle id = some s') : StepOk s s' l := by
  unfold Session.waitIdle at hs
  split at hs
  · split_ifs at hs
    cases hs
    exact .setPhase h _ _ (by rintro r (hr | hr) <;> cases hr)
  · cases hs

theorem StepOk.expire (h : Setting s) (hs : s.expire id = some s') : StepOk s s' l := by
  unfold Session.expire at hs
  split at hs
  · split_ifs at hs
    cases hs
    exact .failDrain h _ _
  · cases hs

theorem StepOk.startRemoval (h : Setting s) (hs : s.startRemoval id = some s') :
    StepOk s s' l := by
  unfold Session.startRemoval at hs
  split at hs
  · split_ifs at hs
    · cases hs
      exact .endSuperseded h _
    · split at hs
      · cases hs
        exact .failDrain h _ _
      · rename_i authorization _ _ _ request hreq
        cases hs
        obtain ⟨hgen, _, hpos, _, hshape, hkeys⟩ := removalRequest_spec hreq
        refine .setPhase h _ _ ?_
        rintro r (hr | hr) <;> cases hr
        exact ⟨hgen ▸ hpos, fun k hk => hshape k ((hkeys k).mp hk), hkeys, nofun⟩
  · cases hs

theorem StepOk.beginWithdrawal (h : Setting s) (hs : s.beginWithdrawal id = some s') :
    StepOk s s' l := by
  unfold Session.beginWithdrawal at hs
  split at hs
  · rename_i authorization request hd
    have hok := h.drains.removal id _ request hd (.inl rfl)
    split at hs
    · cases hs
      exact .failDrain h _ _
    · split_ifs at hs
      · cases hs
        exact .endSuperseded h _
      · cases hs
        exact .failDrain h _ _
    · rename_i hcheck
      cases hs
      refine .setPhase h _ _ ?_
      rintro r (hr | hr) <;> cases hr
      have hpos := hok.positive
      refine ⟨hpos, hok.inShape, hok.keys, fun _ => ?_⟩
      rw [← (checkRemoval_true hcheck).1]
      exact hpos
  · cases hs

theorem StepOk.finishRemoval (h : Setting s) (hs : s.finishRemoval id = some s') :
    StepOk s s' l := by
  unfold Session.finishRemoval at hs
  split at hs
  · rename_i authorization request hd
    have hok := h.drains.removal id _ request hd (.inr rfl)
    obtain ⟨⟨bytes, ready, states, hcore⟩, _⟩ := s.manager.finishRemoval_spec request
    have hm : Emits s.manager (s.manager.finishRemoval request).1 _ := .finishRemoval hok.inShape
    have hgen : (s.manager.finishRemoval request).1.placementGeneration
        = s.manager.placementGeneration := by rw [hcore]
    have hdrains := (h.drains.mono hm.config hgen.ge).insert ⟨authorization, .removed⟩
      (by rintro r (hr | hr) <;> cases hr)
    obtain ⟨hset, hemits, hnumbers⟩ := StepOk.emits h hm (h.manager.finishRemoval hok.inShape)
      (fun _ => hgen ▸ hok.placed rfl) (hgen ▸ h.bounded) hdrains
    cases hs
    exact ⟨hset.frame rfl rfl rfl (Nat.le_refl _) rfl (.inl rfl) hset.drains, fun _ => ⟨rfl, rfl,
      rfl, rfl, rfl, .inl rfl, _, hemits, hnumbers⟩⟩
  · cases hs

theorem StepOk.flushDrain (h : Setting s) (hs : s.flushDrain id = some s') : StepOk s s' l := by
  unfold Session.flushDrain at hs
  split at hs
  · split_ifs at hs
    cases hs
    exact .setPhase h _ _ (by rintro r (hr | hr) <;> cases hr)
  · cases hs

theorem StepOk.completeDrain (h : Setting s) (hs : s.completeDrain id = some s') :
    StepOk s s' l := by
  unfold Session.completeDrain at hs
  split at hs
  · split_ifs at hs
    cases hs
    exact .drains h (h.drains.erase _) s.supersededDrains _ s.drainError _ s.receiver
  · cases hs

theorem StepOk.reap (h : Setting s) (hs : s.reap id = some s') : StepOk s s' l := by
  unfold Session.reap at hs
  split at hs
  · cases hs
    exact .drains h (h.drains.erase _) s.supersededDrains s.completedDrains s.drainError
      s.shutdownDrained s.receiver
  · cases hs

/-- the end of a load, or of a part of it -/
theorem StepOk.load (h : Setting s) {m : WeightManager} {changes : List ExpertStateChange}
    (hm : Emits s.manager m changes) (hok : ManagerOk m) (htargets : m.targets = s.manager.targets)
    (hgen : m.placementGeneration = s.manager.placementGeneration)
    (hchanges : changes ≠ [] → ∃ k, k ∈ s.manager.targets) (hs : s.load (m, changes) = some s') :
    StepOk s s' l := by
  unfold Session.load at hs
  split_ifs at hs
  cases hs
  have hplaced : (∃ k, k ∈ m.targets) ∨ changes ≠ [] → 0 < m.placementGeneration := by
    intro hor
    rw [hgen]
    obtain ⟨k, hk⟩ : ∃ k, k ∈ s.manager.targets := by
      rcases hor with hk | hne
      · exact htargets ▸ hk
      · exact hchanges hne
    exact h.placed k hk
  obtain ⟨hset, hemits, hnumbers⟩ := StepOk.emits h hm hok hplaced (hgen ▸ h.bounded)
    (h.drains.mono hm.config hgen.ge)
  exact ⟨hset, fun _ => ⟨rfl, rfl, rfl, rfl, rfl, .inl rfl, _, hemits, hnumbers⟩⟩

theorem StepOk.finishReady (h : Setting s) {key : ExpertKey}
    (hs : s.load (s.manager.finishReady key) = some s') : StepOk s s' l := by
  have hframe : (s.manager.finishReady key).1.targets = s.manager.targets ∧
      (s.manager.finishReady key).1.placementGeneration = s.manager.placementGeneration ∧
      ((s.manager.finishReady key).2 ≠ [] → key ∈ s.manager.targets) := by
    rcases s.manager.finishReady_cases key with ⟨heq, _⟩ | ⟨ht, _, heq | ⟨bytes, heq⟩⟩ <;> rw [heq]
    · exact ⟨rfl, rfl, fun hne => absurd rfl hne⟩
    all_goals
      obtain ⟨loads, states, hcore⟩ := WeightManager.setState_core _ key _
      exact ⟨by rw [hcore], by rw [hcore], fun _ => ht⟩
  exact .load h (.finishReady h.manager key) (h.manager.finishReady key) hframe.1 hframe.2.1
    (fun hne => ⟨key, hframe.2.2 hne⟩) hs

theorem StepOk.finishFailure (h : Setting s) {key : ExpertKey} {failure : LoadFailure}
    (hs : s.load (s.manager.finishFailure key failure) = some s') : StepOk s s' l := by
  have hok := (ManagerOp.run_ok h.manager (.finishFailure key failure)).1
  have hframe : (s.manager.finishFailure key failure).1.targets = s.manager.targets ∧
      (s.manager.finishFailure key failure).1.placementGeneration = s.manager.placementGeneration ∧
      ((s.manager.finishFailure key failure).2 ≠ [] → key ∈ s.manager.targets) := by
    rcases s.manager.finishFailure_cases key failure with heq | ⟨ht, _, heq⟩ <;> rw [heq]
    · exact ⟨rfl, rfl, fun hne => absurd rfl hne⟩
    · obtain ⟨loads, states, hcore⟩ := WeightManager.setState_core s.manager key (.failed failure)
      exact ⟨by rw [hcore], by rw [hcore], fun _ => ht⟩
  exact .load h (.finishFailure h.manager key failure) hok hframe.1 hframe.2.1
    (fun hne => ⟨key, hframe.2.2 hne⟩) hs

theorem StepOk.loadEnded (h : Setting s) {key : ExpertKey} {cancelled : Bool}
    (hs : s.load (s.manager.loadEnded key cancelled, []) = some s') : StepOk s s' l := by
  have hframe : (s.manager.loadEnded key cancelled).targets = s.manager.targets ∧
      (s.manager.loadEnded key cancelled).placementGeneration
        = s.manager.placementGeneration := by
    rcases s.manager.loadEnded_cases key cancelled with ⟨loads, heq⟩ | ⟨_, loads, heq⟩ <;> rw [heq]
    · exact ⟨rfl, rfl⟩
    · exact ⟨rfl, rfl⟩
  exact .load h (.loadEnded h.manager key cancelled) (h.manager.loadEnded key cancelled) hframe.1
    hframe.2 (fun hne => absurd rfl hne) hs

theorem StepOk.beginShutdown (h : Setting s) (hs : s.beginShutdown = some s') :
    StepOk s s' l := by
  have hok := (ManagerOp.run_ok h.manager .beginShutdown).1
  have hcore : ∃ loads down, s.manager.beginShutdown
      = { s.manager with shuttingDown := down, loadTasks := loads } := by
    unfold WeightManager.beginShutdown
    split_ifs
    · exact ⟨_, _, rfl⟩
    · exact ⟨_, _, rfl⟩
  obtain ⟨loads, down, heq⟩ := hcore
  change ManagerOk s.manager.beginShutdown at hok
  rw [heq] at hok
  have hload : s.load ({ s.manager with shuttingDown := down, loadTasks := loads }, [])
      = some s' := by
    unfold Session.beginShutdown at hs
    unfold Session.load
    rw [heq] at hs
    exact hs
  have hemits : Emits s.manager { s.manager with shuttingDown := down, loadTasks := loads } [] :=
    .none rfl fun _ => Iff.rfl
  exact .load h hemits hok rfl rfl (fun hne => absurd rfl hne) hload
end

/-! ### all steps -/

/-- the setting is kept, and the steps that do not report are quiet -/
theorem step_ok {s s' : Session} {l : Label} (h : Setting s) (hs : step s l = some s') :
    StepOk s s' l := by
  cases l with
  | receive message => exact .receive h hs
  | lockTransition => exact .lockTransition h hs
  | applyTargets => exact .applyTargets h hs
  | observe => exact .observe h rfl hs
  | report => exact .report h rfl hs
  | enqueueFull => exact .enqueueFull h rfl hs
  | takeUpdates => exact .takeUpdates h rfl hs
  | enqueueUpdates => exact .enqueueUpdates h rfl hs
  | collectCompletions => exact .completions h rfl (.inl hs)
  | flushCompletions => exact .completions h rfl (.inr (.inl hs))
  | awaitCompletions => exact .completions h rfl (.inr (.inr (.inl hs)))
  | putCompletions => exact .completions h rfl (.inr (.inr (.inr hs)))
  | dequeue => exact .dequeue h hs
  | send => exact .send h hs
  | reconnect =>
    cases hs
    exact .reporting h rfl rfl ⟨rfl, rfl, rfl⟩ rfl (.inr trivial) rfl
  | beginDrain id => exact .beginDrain h hs
  | waitIdle id => exact .waitIdle h hs
  | expire id => exact .expire h hs
  | startRemoval id => exact .startRemoval h hs
  | beginWithdrawal id => exact .beginWithdrawal h hs
  | finishRemoval id => exact .finishRemoval h hs
  | flushDrain id => exact .flushDrain h hs
  | completeDrain id => exact .completeDrain h hs
  | reap id => exact .reap h hs
  | finishReady key => exact .finishReady h hs
  | finishFailure key failure => exact .finishFailure h hs
  | loadEnded key cancelled => exact .loadEnded h hs
  | beginShutdown => exact .beginShutdown h hs
  | admitBatch item layerId expertIds bytes =>
    cases hs
    exact .receiver h _
  | take =>
    cases hs
    exact .receiver h _
  | cancelWaiting item =>
    cases hs
    exact .receiver h _
  | finish item =>
    cases hs
    exact .receiver h _

end ExpertKit.Worker

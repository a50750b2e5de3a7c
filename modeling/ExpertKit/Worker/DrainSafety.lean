import ExpertKit.Lib.Steps
import ExpertKit.Worker.Session

/-!
# Worker: drains withdraw only idle experts

Over every interleaving of the session: when an expert drain withdraws an expert, no admitted batch
names it, and none is admitted before the expert is READY again.  A history variable records the
experts that an expert drain has withdrawn and that have not become READY since.

The admission gate of an expert is opened in two places.  Under the transition lock it is opened for
READY targets of the Manager; but a queued report opens it when the report leaves the queue, for what
was READY when the report was built.

* `withdrawnAfter`     the history variable;
* `orderly`            a drain is not newer than the applied placement, and a report that leaves the
                       queue is still true of the current targets;
* `DrainInv`           what ties targets, gates, admitted counts and drain phases together;
* `drain_safety`       in every orderly run no admitted batch names a withdrawn expert;
* `stale_report_opens_gate`   a run where a stale report admits one.
-/

set_option linter.unusedSectionVars false

namespace ExpertKit.Worker
open Std Transport

/-! ## withdrawn experts -/

/-- the session with the experts that expert drains have withdrawn since they were last READY -/
structure Observed where
  session : Session
  withdrawn : ExtTreeSet ExpertKey

def withdrawnAfter (s : Session) (withdrawn : ExtTreeSet ExpertKey) :
    Label → ExtTreeSet ExpertKey
  | .beginWithdrawal drainId =>
    match s.activeDrains[drainId]? with
    | some ⟨authorization, .removing request⟩ =>
      match s.manager.checkRemoval request with
      | .ok true =>
        if authorization.stopAcceptingAllComputation then withdrawn
        else (s.manager.withdrawn request).foldl (fun w key => w.insert key) withdrawn
      | _ => withdrawn
    | _ => withdrawn
  | .finishReady key =>
    if s.managerFree = true ∧ key ∈ (s.manager.finishReady key).1.readyKeys then withdrawn.erase key
    else withdrawn
  | _ => withdrawn

def observedStep (o : Observed) (label : Label) : Option Observed :=
  (step o.session label).map fun s => ⟨s, withdrawnAfter o.session o.withdrawn label⟩

/-- an expert drain is started at or after its placement, and a report leaves the queue while the
targets it reports READY are READY -/
def orderly (o : Observed) : Label → Bool
  | .receive (.drain part) =>
    match (o.session.drains.add part).1 with
    | .ok (some authorization) => authorization.stopAcceptingAllComputation ||
        decide (authorization.placementGeneration ≤ o.session.currentPlacementGeneration)
    | _ => true
  | .dequeue =>
    match o.session.outbound with
    | [] => true
    | group :: _ =>
      (o.session.readyReported group).all fun key => decide (key ∈ o.session.manager.readyKeys)
  | _ => true

/-! ## the invariant -/

def Unused (q : ReceiverQueue) (k : ExpertKey) : Prop := Counter.count q.admittedExperts k = 0

/-- the gates of the drain are closed and its removal has not begun -/
def DrainPhase.closed : DrainPhase → Bool
  | .gated => true
  | .idle => true
  | .removing _ => true
  | _ => false

/-- the drain has seen its experts idle and its removal has not begun -/
def DrainPhase.idled : DrainPhase → Bool
  | .idle => true
  | .removing _ => true
  | _ => false

structure DrainOk (s : Session) (drain : ActiveDrain) : Prop where
  timely : drain.phase ≠ .cancelled →
    drain.authorization.stopAcceptingAllComputation = false →
    drain.authorization.placementGeneration ≤ s.currentPlacementGeneration
  closed : drain.phase.closed = true →
    drain.authorization.stopAcceptingAllComputation = false →
    drain.authorization.placementGeneration = s.currentPlacementGeneration →
    ∀ k ∈ drain.authorization.experts, k ∉ s.manager.targets → Gated s.receiver k
  idled : drain.phase.idled = true →
    drain.authorization.stopAcceptingAllComputation = false →
    drain.authorization.placementGeneration = s.currentPlacementGeneration →
    ∀ k ∈ drain.authorization.experts, k ∉ s.manager.targets → Unused s.receiver k
  request : ∀ r, drain.phase = .removing r ∨ drain.phase = .withdrawing r →
    r.placementGeneration = drain.authorization.placementGeneration ∧
    r.wholeWorkerShutdown = drain.authorization.stopAcceptingAllComputation ∧
    (∀ k, k ∈ r.keys ↔ k ∈ drain.authorization.experts) ∧
    ∀ k ∈ r.keys, s.manager.config.inShape k = true

/-- a withdrawal that names the expert is under way -/
def Leaving (s : Session) (k : ExpertKey) : Prop :=
  ∃ (id : Nat) (drain : ActiveDrain) (r : RemovalRequest), s.activeDrains[id]? = some drain ∧
    drain.phase = .withdrawing r ∧ k ∈ r.keys

structure DrainInv (s : Session) (withdrawn : ExtTreeSet ExpertKey) : Prop where
  tracked : ∃ active, Tracked s.receiver active
  manager : ManagerOk s.manager
  generation : s.currentPlacementGeneration = s.manager.placementGeneration
  keys : ∀ k, k ∈ s.currentTargetKeys ↔ k ∈ s.manager.targets
  assembler : s.manager.placementGeneration ≤ s.targets.generation
  consumer : ∀ placement, s.consumer = .acquiring placement ∨ s.consumer = .applying placement →
    placement.placementGeneration = s.targets.generation
  lock : s.consumer.holds = true →
    ∀ (id : Nat) (drain : ActiveDrain), s.activeDrains[id]? = some drain →
      drain.phase.holds = false
  keyed : ∀ (id : Nat) (drain : ActiveDrain), s.activeDrains[id]? = some drain →
    drain.authorization.drainId = id
  drains : ∀ (id : Nat) (drain : ActiveDrain), s.activeDrains[id]? = some drain → DrainOk s drain
  withdrawn : ∀ k ∈ withdrawn, Gated s.receiver k ∧ Unused s.receiver k ∧
    (k ∉ s.manager.readyKeys ∨ k ∉ s.manager.targets ∧ Leaving s k)

/-! ## locks -/

theorem transitionFree_iff (s : Session) : s.transitionFree = true ↔
    s.consumer.holds = false ∧
      ∀ (id : Nat) (drain : ActiveDrain), s.activeDrains[id]? = some drain →
        drain.phase.holds = false := by
  unfold Session.transitionFree
  simp only [Bool.and_eq_true, Bool.not_eq_true', List.all_eq_true]
  refine and_congr_right fun _ => ?_
  constructor
  · intro h id drain hd
    exact h drain (Maps.mem_values.mpr ⟨id, hd⟩)
  · intro h drain hd
    obtain ⟨id, hd⟩ := Maps.mem_values.mp hd
    exact h id drain hd

theorem managerFree_iff (s : Session) : s.managerFree = true ↔
    ∀ (id : Nat) (drain : ActiveDrain), s.activeDrains[id]? = some drain →
      drain.phase.withdraws = false := by
  unfold Session.managerFree
  simp only [List.all_eq_true, Bool.not_eq_true']
  constructor
  · intro h id drain hd
    exact h drain (Maps.mem_values.mpr ⟨id, hd⟩)
  · intro h drain hd
    obtain ⟨id, hd⟩ := Maps.mem_values.mp hd
    exact h id drain hd

theorem not_leaving_of_managerFree {s : Session} (h : s.managerFree = true) (k : ExpertKey) :
    ¬ Leaving s k := by
  rintro ⟨id, drain, r, hd, hp, _⟩
  have hw := (managerFree_iff s).mp h id drain hd
  rw [hp] at hw
  cases hw

theorem managerFree_of_holds {s : Session} {withdrawn : ExtTreeSet ExpertKey}
    (h : DrainInv s withdrawn) (hc : s.consumer.holds = true) : s.managerFree = true := by
  rw [managerFree_iff]
  intro id drain hd
  have hp := h.lock hc id drain hd
  cases hphase : drain.phase with
  | withdrawing r =>
    rw [hphase] at hp
    cases hp
  | _ => rfl

/-- with the Manager lock free, a withdrawn expert is not ready -/
theorem DrainInv.not_ready {s : Session} {withdrawn : ExtTreeSet ExpertKey}
    (h : DrainInv s withdrawn) (hfree : s.managerFree = true) {k : ExpertKey}
    (hk : k ∈ withdrawn) : k ∉ s.manager.readyKeys := by
  obtain ⟨_, _, hr | ⟨_, hl⟩⟩ := h.withdrawn k hk
  · exact hr
  · exact absurd hl (not_leaving_of_managerFree hfree k)

/-! ## steps of one part of the state -/

section
variable {s : Session} {withdrawn : ExtTreeSet ExpertKey}

/-- steps that touch neither the Manager, the receiver, the drains nor the placement -/
theorem DrainInv.frame {s' : Session} (h : DrainInv s withdrawn)
    (hm : s'.manager = s.manager) (hq : s'.receiver = s.receiver)
    (ha : s'.activeDrains = s.activeDrains)
    (hg : s'.currentPlacementGeneration = s.currentPlacementGeneration)
    (hk : s'.currentTargetKeys = s.currentTargetKeys)
    (ht : s.targets.generation ≤ s'.targets.generation)
    (hc : ∀ placement, s'.consumer = .acquiring placement ∨ s'.consumer = .applying placement →
      placement.placementGeneration = s'.targets.generation)
    (hl : s'.consumer.holds = true → s.consumer.holds = true ∨ s.transitionFree = true) :
    DrainInv s' withdrawn := by
  refine ⟨hq ▸ h.tracked, hm ▸ h.manager, ?_, ?_, ?_, hc, ?_, ?_, ?_, ?_⟩
  · rw [hg, hm]
    exact h.generation
  · rw [hk, hm]
    exact h.keys
  · rw [hm]
    exact Nat.le_trans h.assembler ht
  · rw [ha]
    intro hholds
    rcases hl hholds with hl | hl
    · exact h.lock hl
    · exact ((transitionFree_iff s).mp hl).2
  · rw [ha]
    exact h.keyed
  · rw [ha]
    intro id drain hd
    obtain ⟨h1, h2, h3, h4⟩ := h.drains id drain hd
    exact ⟨by rw [hg]; exact h1, by rw [hg, hm, hq]; exact h2, by rw [hg, hm, hq]; exact h3,
      by rw [hm]; exact h4⟩
  · unfold Leaving
    rw [hq, hm, ha]
    exact h.withdrawn

/-- steps of the receiver that open no gate -/
theorem DrainInv.receiver {q : ReceiverQueue} (h : DrainInv s withdrawn)
    (ht : ∃ active, Tracked q active) (hg : ∀ k, Gated s.receiver k → Gated q k)
    (hu : ∀ k, Gated s.receiver k → Unused s.receiver k → Unused q k) :
    DrainInv { s with receiver := q } withdrawn := by
  refine ⟨ht, h.manager, h.generation, h.keys, h.assembler, h.consumer, h.lock, h.keyed, ?_, ?_⟩
  · intro id drain hd
    have hok := h.drains id drain hd
    refine ⟨hok.timely, ?_, ?_, hok.request⟩
    · intro hp hs he k hk hkt
      exact hg k (hok.closed hp hs he k hk hkt)
    · intro hp hs he k hk hkt
      have hclosed : drain.phase.closed = true := by
        cases hphase : drain.phase <;> rw [hphase] at hp <;> first | rfl | cases hp
      exact hu k (hok.closed hclosed hs he k hk hkt) (hok.idled hp hs he k hk hkt)
  · intro k hk
    obtain ⟨h1, h2, h3⟩ := h.withdrawn k hk
    exact ⟨hg k h1, hu k h1 h2, h3⟩

/-- gates of current targets that are not withdrawn may be opened -/
theorem DrainInv.clear (h : DrainInv s withdrawn) (keys : List ExpertKey)
    (ht : ∀ k ∈ keys, k ∈ s.currentTargetKeys) (hw : ∀ k ∈ keys, k ∉ withdrawn) :
    DrainInv { s with receiver := s.receiver.clearExpertDrains keys } withdrawn := by
  have hgate : ∀ k, k ∉ keys → Gated s.receiver k →
      Gated (s.receiver.clearExpertDrains keys) k := by
    intro k hk hg
    unfold Gated
    rw [ReceiverQueue.getElem?_clearExpertDrains, if_neg hk]
    exact hg
  obtain ⟨active, htr⟩ := h.tracked
  refine ⟨⟨active, htr.gates _ _⟩, h.manager, h.generation, h.keys, h.assembler, h.consumer,
    h.lock, h.keyed, ?_, ?_⟩
  · intro id drain hd
    have hok := h.drains id drain hd
    refine ⟨hok.timely, ?_, hok.idled, hok.request⟩
    intro hp hs he k hk hkt
    refine hgate k ?_ (hok.closed hp hs he k hk hkt)
    intro hmem
    exact hkt ((h.keys k).mp (ht k hmem))
  · intro k hk
    obtain ⟨h1, h2, h3⟩ := h.withdrawn k hk
    exact ⟨hgate k (fun hmem => hw k hmem hk) h1, h2, h3⟩

/-- one drain changes its phase, or is added -/
theorem DrainInv.setPhase (h : DrainInv s withdrawn) (drain : ActiveDrain) (phase : DrainPhase)
    (hold : ∀ old, s.activeDrains[drain.authorization.drainId]? = some old →
      old.phase.withdraws = false)
    (hok : DrainOk s { drain with phase := phase })
    (hlock : s.consumer.holds = true → phase.holds = false) :
    DrainInv (s.setPhase drain phase) withdrawn := by
  refine ⟨h.tracked, h.manager, h.generation, h.keys, h.assembler, h.consumer, ?_, ?_, ?_, ?_⟩
  · intro hc id d hd
    change (s.activeDrains.insert _ _)[id]? = some d at hd
    rw [Maps.getElem?_insert_eq] at hd
    split_ifs at hd with hid
    · cases hd
      exact hlock hc
    · exact h.lock hc id d hd
  · intro id d hd
    change (s.activeDrains.insert _ _)[id]? = some d at hd
    rw [Maps.getElem?_insert_eq] at hd
    split_ifs at hd with hid
    · cases hd
      exact hid
    · exact h.keyed id d hd
  · intro id d hd
    change (s.activeDrains.insert _ _)[id]? = some d at hd
    rw [Maps.getElem?_insert_eq] at hd
    split_ifs at hd with hid
    · cases hd
      exact ⟨hok.timely, hok.closed, hok.idled, hok.request⟩
    · have hd' := h.drains id d hd
      exact ⟨hd'.timely, hd'.closed, hd'.idled, hd'.request⟩
  · intro k hk
    obtain ⟨h1, h2, h3⟩ := h.withdrawn k hk
    refine ⟨h1, h2, h3.imp_right (And.imp_right ?_)⟩
    rintro ⟨id, d, r, hd, hp, hr⟩
    refine ⟨id, d, r, ?_, hp, hr⟩
    show (s.activeDrains.insert _ _)[id]? = some d
    rw [Maps.getElem?_insert_eq, if_neg]
    · exact hd
    · rintro rfl
      have hw := hold d hd
      rw [hp] at hw
      cases hw

/-- one drain that withdraws nothing ends -/
theorem DrainInv.drop (h : DrainInv s withdrawn) (id : Nat)
    (hold : ∀ old, s.activeDrains[id]? = some old → old.phase.withdraws = false) :
    DrainInv { s with activeDrains := s.activeDrains.erase id } withdrawn := by
  have hsub : ∀ (id' : Nat) (d : ActiveDrain), (s.activeDrains.erase id)[id']? = some d →
      s.activeDrains[id']? = some d := by
    intro id' d hd
    rw [Maps.getElem?_erase_eq] at hd
    split_ifs at hd
    exact hd
  refine ⟨h.tracked, h.manager, h.generation, h.keys, h.assembler, h.consumer, ?_, ?_, ?_, ?_⟩
  · intro hc id' d hd
    exact h.lock hc id' d (hsub id' d hd)
  · intro id' d hd
    exact h.keyed id' d (hsub id' d hd)
  · intro id' d hd
    have hd' := h.drains id' d (hsub id' d hd)
    exact ⟨hd'.timely, hd'.closed, hd'.idled, hd'.request⟩
  · intro k hk
    obtain ⟨h1, h2, h3⟩ := h.withdrawn k hk
    refine ⟨h1, h2, h3.imp_right (And.imp_right ?_)⟩
    rintro ⟨id', d, r, hd, hp, hr⟩
    refine ⟨id', d, r, ?_, hp, hr⟩
    show (s.activeDrains.erase id)[id']? = some d
    rw [Maps.getElem?_erase_eq, if_neg]
    · exact hd
    · rintro rfl
      have hw := hold d hd
      rw [hp] at hw
      cases hw

/-- steps of the Manager that keep the placement, with its lock free -/
theorem DrainInv.load {m : WeightManager} {r : ExpertStateReporter}
    {withdrawn' : ExtTreeSet ExpertKey} (h : DrainInv s withdrawn) (hok : ManagerOk m)
    (hconfig : m.config = s.manager.config)
    (hgen : m.placementGeneration = s.manager.placementGeneration)
    (htargets : m.targets = s.manager.targets)
    (hw : ∀ k ∈ withdrawn', k ∈ withdrawn ∧ k ∉ m.readyKeys) :
    DrainInv { s with manager := m, reporter := r } withdrawn' := by
  refine ⟨h.tracked, hok, h.generation.trans hgen.symm, ?_, ?_, h.consumer, h.lock, h.keyed, ?_, ?_⟩
  · intro k
    show k ∈ s.currentTargetKeys ↔ k ∈ m.targets
    rw [htargets]
    exact h.keys k
  · show m.placementGeneration ≤ _
    rw [hgen]
    exact h.assembler
  · intro id drain hd
    have hd' := h.drains id drain hd
    refine ⟨hd'.timely, ?_, ?_, ?_⟩
    · show _ → _ → _ → ∀ k ∈ _, k ∉ m.targets → _
      rw [htargets]
      exact hd'.closed
    · show _ → _ → _ → ∀ k ∈ _, k ∉ m.targets → _
      rw [htargets]
      exact hd'.idled
    · intro r hr
      show _ ∧ _ ∧ _ ∧ ∀ k ∈ r.keys, m.config.inShape k = true
      rw [hconfig]
      exact hd'.request r hr
  · intro k hk
    obtain ⟨hkw, hkr⟩ := hw k hk
    obtain ⟨h1, h2, _⟩ := h.withdrawn k hkw
    exact ⟨h1, h2, .inl hkr⟩

/-! ## superseded drains -/

theorem rememberSuperseded_cases {authorization : DrainAuthorization} {s' : Session}
    (h : s.rememberSuperseded authorization = .ok s') :
    ∃ superseded, s' = { s with supersededDrains := superseded } := by
  unfold Session.rememberSuperseded at h
  split at h
  · split_ifs at h
    cases h
    exact ⟨s.supersededDrains, rfl⟩
  · cases h
    exact ⟨_, rfl⟩

theorem endSuperseded_cases (s : Session) (drain : ActiveDrain) :
    ∃ superseded error, s.endSuperseded drain = { s with
      supersededDrains := superseded
      drainError := error
      activeDrains := s.activeDrains.erase drain.authorization.drainId } := by
  unfold Session.endSuperseded
  split
  · exact ⟨_, _, rfl⟩
  · rename_i s' hs
    obtain ⟨superseded, rfl⟩ := rememberSuperseded_cases hs
    exact ⟨superseded, s.drainError, rfl⟩

/-- the loop only cancels drains -/
theorem supersedeAll_cases (generation : Nat) (l : List ActiveDrain) (s : Session) :
    ∃ superseded active, (Session.supersedeAll generation l s).2
        = { s with supersededDrains := superseded, activeDrains := active } ∧
      ∀ (id : Nat) (drain : ActiveDrain), active[id]? = some drain →
        s.activeDrains[id]? = some drain ∨
          drain.phase = .cancelled ∧ drain.authorization.drainId = id := by
  induction l generalizing s with
  | nil => exact ⟨_, _, rfl, fun id drain hd => .inl hd⟩
  | cons d l ih =>
    unfold Session.supersedeAll
    split_ifs
    · split
      · exact ⟨_, _, rfl, fun id drain hd => .inl hd⟩
      · rename_i s' hs
        obtain ⟨superseded, rfl⟩ := rememberSuperseded_cases hs
        obtain ⟨superseded', active, heq, hactive⟩ := ih
          ({ s with supersededDrains := superseded }.setPhase d .cancelled)
        refine ⟨superseded', active, heq, ?_⟩
        intro id drain hd
        rcases hactive id drain hd with hd | hd
        · change (s.activeDrains.insert _ _)[id]? = some drain at hd
          rw [Maps.getElem?_insert_eq] at hd
          split_ifs at hd with hid
          · cases hd
            exact .inr ⟨rfl, hid⟩
          · exact .inl hd
        · exact .inr hd
    · exact ih s

/-- no drain holds the lock when its owner cancels the older ones -/
theorem DrainInv.supersede (h : DrainInv s withdrawn) (hfree : s.transitionFree = true)
    {superseded : List DrainAuthorization} {active : ExtTreeMap Nat ActiveDrain}
    (hactive : ∀ (id : Nat) (drain : ActiveDrain), active[id]? = some drain →
      s.activeDrains[id]? = some drain ∨
        drain.phase = .cancelled ∧ drain.authorization.drainId = id)
    {consumer : Consumer} (hc : ∀ placement, consumer = .acquiring placement ∨
      consumer = .applying placement → placement.placementGeneration = s.targets.generation) :
    DrainInv { s with
      supersededDrains := superseded, activeDrains := active, consumer := consumer } withdrawn := by
  have hholds := ((transitionFree_iff s).mp hfree).2
  have hmanager : s.managerFree = true := by
    rw [managerFree_iff]
    intro id drain hd
    have hp := hholds id drain hd
    cases hphase : drain.phase with
    | withdrawing r =>
      rw [hphase] at hp
      cases hp
    | _ => rfl
  refine ⟨h.tracked, h.manager, h.generation, h.keys, h.assembler, hc, ?_, ?_, ?_, ?_⟩
  · intro _ id drain hd
    rcases hactive id drain hd with hd | ⟨hp, _⟩
    · exact hholds id drain hd
    · rw [hp]
      rfl
  · intro id drain hd
    rcases hactive id drain hd with hd | ⟨_, hid⟩
    · exact h.keyed id drain hd
    · exact hid
  · intro id drain hd
    rcases hactive id drain hd with hd | ⟨hp, _⟩
    · have hd' := h.drains id drain hd
      exact ⟨hd'.timely, hd'.closed, hd'.idled, hd'.request⟩
    · refine ⟨fun hne => absurd hp hne, ?_, ?_, ?_⟩
      · intro hclosed
        rw [hp] at hclosed
        cases hclosed
      · intro hidled
        rw [hp] at hidled
        cases hidled
      · intro r hr
        rw [hp] at hr
        rcases hr with hr | hr <;> cases hr
  · intro k hk
    obtain ⟨h1, h2, _⟩ := h.withdrawn k hk
    exact ⟨h1, h2, .inl (h.not_ready hmanager hk)⟩

/-! ## the response consumer -/

theorem startDrain_cases {authorization : DrainAuthorization} {s' : Session}
    (h : s.startDrain authorization = .ok s') :
    (∃ superseded, s' = { s with supersededDrains := superseded }) ∨
    (s.activeDrains[authorization.drainId]? = none ∧ s.isSuperseded authorization = false ∧
      s' = s.setPhase ⟨authorization, .created⟩ .created) := by
  unfold Session.startDrain at h
  split at h
  · split_ifs at h
    cases h
    exact .inl ⟨_, rfl⟩
  · split at h
    · split_ifs at h
      cases h
      exact .inl ⟨_, rfl⟩
    · split at h
      · split_ifs at h
        cases h
        exact .inl ⟨_, rfl⟩
      · rename_i hnone
        split_ifs at h with hsup
        · exact .inl (rememberSuperseded_cases h)
        · cases h
          exact .inr ⟨hnone, by simpa using hsup, rfl⟩

/-- the session stops reading the stream, or reads on -/
theorem DrainInv.settle (h : DrainInv s withdrawn) {s' : Session}
    (hs : ∃ consumer, s' = { s with consumer := consumer } ∧ consumer.holds = false ∧
      ∀ placement, consumer ≠ .acquiring placement) : DrainInv s' withdrawn := by
  obtain ⟨consumer, rfl, hholds, hacq⟩ := hs
  refine h.frame rfl rfl rfl rfl rfl (Nat.le_refl _) ?_ ?_
  · rintro placement (hc | hc)
    · exact absurd hc (hacq placement)
    · have hc : consumer = .applying placement := hc
      rw [hc] at hholds
      cases hholds
  · intro hc
    have hc : consumer.holds = true := hc
    rw [hholds] at hc
    cases hc

theorem DrainInv.fail (h : DrainInv s withdrawn) (message : String) :
    DrainInv (s.fail message) withdrawn :=
  h.settle ⟨_, rfl, rfl, fun placement hc => by cases hc⟩

/-- the consumer waits for the next message -/
theorem DrainInv.read (h : DrainInv s withdrawn) (hidle : s.consumer = .idle)
    (a : TargetListAssembler) (d : DrainAuthorizationAssembler) (r : ExpertStateReporter)
    (hmono : s.targets.generation ≤ a.generation) :
    DrainInv { s with targets := a, drains := d, reporter := r } withdrawn := by
  refine h.frame rfl rfl rfl rfl rfl hmono ?_ .inl
  show ∀ placement, s.consumer = _ ∨ s.consumer = _ → _
  rw [hidle]
  rintro placement (hp | hp) <;> cases hp

theorem DrainInv.receive {message : ControllerWeightMessage} {s' : Session}
    (h : DrainInv s withdrawn) (hok : orderly ⟨s, withdrawn⟩ (.receive message) = true)
    (hs : s.receive message = some s') : DrainInv s' withdrawn := by
  unfold Session.receive at hs
  split_ifs at hs with hidle
  rw [ne_eq, not_not] at hidle
  cases message with
  | targets part =>
    obtain ⟨hmono, hplacement⟩ := s.targets.add_generation part
    simp only at hs
    split at hs
    · rename_i e a heq
      cases hs
      rw [heq] at hmono
      exact (h.read hidle a s.drains s.reporter hmono).fail _
    · rename_i a heq
      cases hs
      rw [heq] at hmono
      exact h.read hidle a s.drains s.reporter hmono
    · rename_i placement a heq
      cases hs
      rw [heq] at hmono hplacement
      refine h.frame rfl rfl rfl rfl rfl hmono ?_ (fun hh => by cases hh)
      rintro placement' (hp | hp)
      · cases hp
        exact hplacement placement rfl
      · cases hp
  | stateAck reportSequence =>
    simp only at hs
    split at hs
    · cases hs
      exact h.fail _
    · cases hs
      exact h.read hidle s.targets s.drains _ (Nat.le_refl _)
  | drain part =>
    simp only at hs
    split at hs
    · cases hs
      exact (h.read hidle s.targets _ s.reporter (Nat.le_refl _)).fail _
    · cases hs
      exact h.read hidle s.targets _ s.reporter (Nat.le_refl _)
    · rename_i authorization a heq
      have h' := h.read hidle s.targets a s.reporter (Nat.le_refl _)
      split at hs
      · cases hs
        exact h'.fail _
      · rename_i s'' hstart
        cases hs
        rcases startDrain_cases hstart with ⟨superseded, rfl⟩ | ⟨hnone, _, rfl⟩
        · exact h'.frame rfl rfl rfl rfl rfl (Nat.le_refl _) h'.consumer .inl
        · refine h'.setPhase _ _ ?_ ?_ (fun _ => rfl)
          · intro old hold
            have hnone : s.activeDrains[authorization.drainId]? = none := hnone
            have hold : s.activeDrains[authorization.drainId]? = some old := hold
            rw [hnone] at hold
            cases hold
          · refine ⟨?_, fun hp => (by cases hp), fun hp => (by cases hp), ?_⟩
            · intro _ hstop
              unfold orderly at hok
              simp only [heq] at hok
              rw [show authorization.stopAcceptingAllComputation = false from hstop] at hok
              simpa using hok
            · rintro r (hr | hr) <;> cases hr
  | unset =>
    cases hs
    exact h.fail _

theorem DrainInv.lockTransition {s' : Session} (h : DrainInv s withdrawn)
    (hs : s.lockTransition = some s') : DrainInv s' withdrawn := by
  unfold Session.lockTransition at hs
  split at hs
  · rename_i placement hc
    have hgen := h.consumer placement (.inl hc)
    split_ifs at hs with hfree hnew
    · obtain ⟨superseded, active, heq, hactive⟩ := supersedeAll_cases
        placement.placementGeneration (Maps.values s.activeDrains) s
      rw [Bool.not_eq_false] at hfree
      split at hs
      · rename_i e s1 hall
        cases hs
        rw [hall] at heq
        rw [show s1 = _ from heq]
        exact h.supersede hfree hactive (by rintro p (hp | hp) <;> cases hp)
      · rename_i s1 hall
        cases hs
        rw [hall] at heq
        rw [show s1 = _ from heq]
        refine h.supersede hfree hactive ?_
        rintro p (hp | hp) <;> cases hp
        exact hgen
    · cases hs
      rw [Bool.not_eq_false] at hfree
      refine h.frame rfl rfl rfl rfl rfl (Nat.le_refl _) ?_ (fun _ => .inr hfree)
      rintro p (hp | hp) <;> cases hp
      exact hgen
  · cases hs

/-- a new placement: older drains no longer count, and withdrawn experts stay not ready -/
theorem DrainInv.place {m : WeightManager} {r : ExpertStateReporter} {consumer : Consumer}
    {generation : Nat} {keys : List ExpertKey} (h : DrainInv s withdrawn)
    (hfree : s.managerFree = true) (hok : ManagerOk m) (hconfig : m.config = s.manager.config)
    (hgen : m.placementGeneration = generation) (hkeys : ∀ k, k ∈ keys ↔ k ∈ m.targets)
    (hready : m.readyKeys = s.manager.readyKeys) (hle : generation ≤ s.targets.generation)
    (hsame : s.currentPlacementGeneration < generation ∨
      s.currentPlacementGeneration = generation ∧ m.targets = s.manager.targets)
    (hc : ∀ placement, consumer = .acquiring placement ∨ consumer = .applying placement →
      placement.placementGeneration = s.targets.generation)
    (hl : consumer.holds = true → s.consumer.holds = true) :
    DrainInv { s with
      manager := m
      reporter := r
      currentPlacementGeneration := generation
      currentTargetKeys := keys
      consumer := consumer } withdrawn := by
  refine ⟨h.tracked, hok, hgen.symm, hkeys, hgen ▸ hle, hc, fun hholds => h.lock (hl hholds),
    h.keyed, ?_, ?_⟩
  · intro id drain hd
    have hd' := h.drains id drain hd
    refine ⟨?_, ?_, ?_, ?_⟩
    · intro hp hstop
      have hle := hd'.timely hp hstop
      show _ ≤ generation
      omega
    · intro hp hstop he k hk hkt
      have hne : drain.phase ≠ .cancelled := by
        intro hcan
        rw [hcan] at hp
        cases hp
      have hle := hd'.timely hne hstop
      have he : drain.authorization.placementGeneration = generation := he
      obtain hlt | ⟨heq, htargets⟩ := hsame
      · omega
      · have hkt : k ∉ m.targets := hkt
        rw [htargets] at hkt
        exact hd'.closed hp hstop (by omega) k hk hkt
    · intro hp hstop he k hk hkt
      have hne : drain.phase ≠ .cancelled := by
        intro hcan
        rw [hcan] at hp
        cases hp
      have hle := hd'.timely hne hstop
      have he : drain.authorization.placementGeneration = generation := he
      obtain hlt | ⟨heq, htargets⟩ := hsame
      · omega
      · have hkt : k ∉ m.targets := hkt
        rw [htargets] at hkt
        exact hd'.idled hp hstop (by omega) k hk hkt
    · intro r hr
      show _ ∧ _ ∧ _ ∧ ∀ k ∈ r.keys, m.config.inShape k = true
      rw [hconfig]
      exact hd'.request r hr
  · intro k hk
    obtain ⟨h1, h2, _⟩ := h.withdrawn k hk
    refine ⟨h1, h2, .inl ?_⟩
    show k ∉ m.readyKeys
    rw [hready]
    exact h.not_ready hfree hk

theorem DrainInv.applyTargets {s' : Session} (h : DrainInv s withdrawn)
    (hs : s.applyTargets = some s') : DrainInv s' withdrawn := by
  unfold Session.applyTargets at hs
  split at hs
  · rename_i placement hc
    have hgen := h.consumer placement (.inr hc)
    have hholds : s.consumer.holds = true := by
      rw [hc]
      rfl
    have hfree := managerFree_of_holds h hholds
    split at hs
    · cases hs
      exact h.fail _
    · rename_i applied m changes heq
      obtain ⟨resolved, hv, _, hcases⟩ := WeightManager.applyTargets_cases heq
      have hresolved := WeightManager.validateTargets_keys hv
      have hle := h.assembler
      have hcur := h.generation
      -- the list is the current one, or a newer one
      have hm : ManagerOk m ∧ m.config = s.manager.config ∧
          m.placementGeneration = placement.placementGeneration ∧ m.targets = resolved ∧
          m.readyKeys = s.manager.readyKeys ∧
          (s.currentPlacementGeneration < placement.placementGeneration ∨
            s.currentPlacementGeneration = placement.placementGeneration ∧
              m.targets = s.manager.targets) := by
        rcases hcases with ⟨_, rfl, _, hlt | ⟨heq, hsame⟩⟩ | ⟨_, hlt, _, hinst⟩
        · omega
        · exact ⟨h.manager, rfl, heq.symm, hsame.symm, rfl, .inr ⟨by omega, rfl⟩⟩
        · have hm : m = (s.manager.install placement.placementGeneration resolved).1 :=
            congrArg Prod.fst hinst
          obtain ⟨loads, states, hcore⟩ :=
            (s.manager.install_spec placement.placementGeneration resolved).1
          have hok : ManagerOk (s.manager.install placement.placementGeneration resolved).1 :=
            h.manager.install placement.placementGeneration
              (WeightManager.validateTargets_spec hv).1
          rw [← hm] at hok
          rw [hcore] at hm
          refine ⟨hok, ?_, ?_, ?_, ?_, .inl (by omega)⟩ <;> rw [hm] <;> rfl
      obtain ⟨hok, hconfig, hmgen, htargets, hready, hsame⟩ := hm
      have hkeys : ∀ k, k ∈ placement.experts.map TargetExpert.key ↔ k ∈ m.targets := by
        intro k
        rw [htargets, hresolved]
      have hle' : placement.placementGeneration ≤ s.targets.generation := Nat.le_of_eq hgen
      simp only at hs
      split_ifs at hs
      · cases hs
        exact h.place hfree hok hconfig hmgen hkeys hready hle' hsame
          (by rintro p (hp | hp) <;> cases hp) (fun _ => hholds)
      · cases hs
        exact h.place hfree hok hconfig hmgen hkeys hready hle' hsame
          (by rintro p (hp | hp) <;> cases hp) (fun _ => hholds)
  · cases hs

theorem mem_readyTargets {states : List (ExpertKey × LocalState)} {k : ExpertKey}
    (h : k ∈ s.readyTargets states) : (k, LocalState.ready) ∈ states ∧ k ∈ s.currentTargetKeys := by
  unfold Session.readyTargets at h
  obtain ⟨⟨k', state⟩, hmem, rfl⟩ := List.mem_map.mp h
  obtain ⟨hmem, hcond⟩ := List.mem_filter.mp hmem
  simp only [Bool.and_eq_true, decide_eq_true_eq] at hcond
  obtain ⟨rfl, hk⟩ := hcond
  exact ⟨hmem, hk⟩

theorem DrainInv.observe {s' : Session} (h : DrainInv s withdrawn)
    (hs : s.observe = some s') : DrainInv s' withdrawn := by
  unfold Session.observe at hs
  split at hs
  · rename_i placement boundary hc
    have hfree := managerFree_of_holds h (by rw [hc]; rfl)
    simp only at hs
    split_ifs at hs
    · cases hs
      exact h.fail _
    all_goals
      cases hs
      refine (h.clear (s.readyTargets s.manager.snapshot.2) (fun k hk => (mem_readyTargets hk).2)
        ?_).settle ⟨_, rfl, rfl, fun placement hc => by cases hc⟩
      intro k hk hw
      have hmem := ExtTreeMap.mem_toList_iff_getElem?_eq_some.mp (mem_readyTargets hk).1
      exact h.not_ready hfree hw ((h.manager.ready_iff k).mpr hmem)
  · cases hs

/-! ## the stream -/

/-- steps of the pumps -/
theorem DrainInv.pump {s' : Session} (h : DrainInv s withdrawn) (hm : s'.manager = s.manager)
    (hq : s'.receiver = s.receiver) (ha : s'.activeDrains = s.activeDrains)
    (hg : s'.currentPlacementGeneration = s.currentPlacementGeneration)
    (hk : s'.currentTargetKeys = s.currentTargetKeys) (ht : s'.targets = s.targets)
    (hc : s'.consumer = s.consumer) : DrainInv s' withdrawn := by
  refine h.frame hm hq ha hg hk (Nat.le_of_eq (by rw [ht])) ?_ ?_
  · rw [hc, ht]
    exact h.consumer
  · rw [hc]
    exact .inl

theorem DrainInv.stream {s' : Session} {label : Label} (h : DrainInv s withdrawn)
    (hl : label ∈ [Label.report, .enqueueFull, .takeUpdates, .enqueueUpdates, .collectCompletions,
      .flushCompletions, .awaitCompletions, .putCompletions, .send, .reconnect])
    (hs : step s label = some s') : DrainInv s' withdrawn := by
  have hidle : ∀ (consumer : Consumer), consumer = .idle ∨ (∃ group, consumer = .enqueueing group) →
      consumer.holds = false ∧ ∀ placement, consumer ≠ .acquiring placement := by
    rintro consumer (rfl | ⟨group, rfl⟩)
    · exact ⟨rfl, fun placement hc => by cases hc⟩
    · exact ⟨rfl, fun placement hc => by cases hc⟩
  simp only [List.mem_cons, List.not_mem_nil, or_false] at hl
  rcases hl with rfl | rfl | rfl | rfl | rfl | rfl | rfl | rfl | rfl | rfl
  · change s.report = some s' at hs
    unfold Session.report at hs
    split at hs
    · split at hs
      · cases hs
        exact h.fail _
      · rename_i parts r _
        cases hs
        have h' : DrainInv { s with reporter := r } withdrawn :=
          h.pump rfl rfl rfl rfl rfl rfl rfl
        exact h'.settle ⟨_, rfl, hidle _ (.inr ⟨_, rfl⟩)⟩
    · cases hs
  · change s.enqueueFull = some s' at hs
    unfold Session.enqueueFull at hs
    split at hs
    · split_ifs at hs
      cases hs
      rename_i group _ _
      have h' : DrainInv { s.enqueueReports group with snapshotReady := true } withdrawn :=
        h.pump rfl rfl rfl rfl rfl rfl rfl
      exact h'.settle ⟨_, rfl, hidle _ (.inl rfl)⟩
    · cases hs
  · change s.takeUpdates = some s' at hs
    unfold Session.takeUpdates at hs
    split_ifs at hs
    split at hs
    · cases hs
    · cases hs
      exact h.pump rfl rfl rfl rfl rfl rfl rfl
  · change s.enqueueUpdates = some s' at hs
    unfold Session.enqueueUpdates at hs
    split at hs
    · cases hs
    · split_ifs at hs
      cases hs
      exact h.pump rfl rfl rfl rfl rfl rfl rfl
  · change s.collectCompletions = some s' at hs
    unfold Session.collectCompletions at hs
    split_ifs at hs
    cases hs
    exact h.pump rfl rfl rfl rfl rfl rfl rfl
  · change s.flushCompletions = some s' at hs
    unfold Session.flushCompletions at hs
    split at hs
    · split_ifs at hs
      cases hs
      exact h.pump rfl rfl rfl rfl rfl rfl rfl
    · cases hs
  · change s.awaitCompletions = some s' at hs
    unfold Session.awaitCompletions at hs
    split at hs
    · split_ifs at hs
      cases hs
      exact h.pump rfl rfl rfl rfl rfl rfl rfl
    · cases hs
  · change s.putCompletions = some s' at hs
    unfold Session.putCompletions at hs
    split at hs
    · split_ifs at hs
      cases hs
      exact h.pump rfl rfl rfl rfl rfl rfl rfl
    · cases hs
  · change s.send = some s' at hs
    unfold Session.send at hs
    split at hs
    · cases hs
    · cases hs
      exact h.pump rfl rfl rfl rfl rfl rfl rfl
  · cases hs
    refine h.frame rfl rfl rfl rfl rfl (Nat.le_refl _) ?_ (fun hh => by cases hh)
    rintro placement (hp | hp) <;> cases hp

theorem mem_readyReported {group : Group} {k : ExpertKey} (h : k ∈ s.readyReported group) :
    k ∈ s.currentTargetKeys := by
  unfold Session.readyReported at h
  simpa using (List.mem_filter.mp h).2

theorem DrainInv.dequeue {s' : Session} (h : DrainInv s withdrawn)
    (hok : orderly ⟨s, withdrawn⟩ .dequeue = true) (hs : s.dequeue = some s') :
    DrainInv s' withdrawn := by
  unfold Session.dequeue at hs
  split at hs
  · rename_i group rest _ hout
    cases hs
    unfold orderly at hok
    simp only [hout, List.all_eq_true, decide_eq_true_eq] at hok
    refine (h.clear (s.readyReported group) (fun k => mem_readyReported) ?_).pump rfl rfl rfl rfl
      rfl rfl rfl
    intro k hk hw
    obtain ⟨_, _, hr | ⟨ht, _⟩⟩ := h.withdrawn k hw
    · exact hr (hok k hk)
    · exact ht ((h.keys k).mp (mem_readyReported hk))
  · cases hs

/-! ## drains -/

/-- a drain that withdraws nothing ends, whatever it leaves in the books -/
theorem DrainInv.ended (h : DrainInv s withdrawn) {drain : ActiveDrain} {id : Nat}
    (hd : s.activeDrains[id]? = some drain) (hw : drain.phase.withdraws = false)
    (superseded completed : List DrainAuthorization) (error : Option String) (drained : Bool) :
    DrainInv { s with
      activeDrains := s.activeDrains.erase drain.authorization.drainId
      supersededDrains := superseded
      completedDrains := completed
      drainError := error
      shutdownDrained := drained } withdrawn := by
  have hid := h.keyed id drain hd
  refine (h.drop drain.authorization.drainId ?_).pump rfl rfl rfl rfl rfl rfl rfl
  rw [hid]
  intro old hold
  rw [hd] at hold
  cases hold
  exact hw

theorem DrainInv.failDrain (h : DrainInv s withdrawn) {drain : ActiveDrain} {id : Nat}
    (hd : s.activeDrains[id]? = some drain) (hw : drain.phase.withdraws = false)
    (message : String) : DrainInv (s.failDrain drain message) withdrawn :=
  h.ended hd hw s.supersededDrains s.completedDrains _ s.shutdownDrained

theorem DrainInv.endSuperseded (h : DrainInv s withdrawn) {drain : ActiveDrain} {id : Nat}
    (hd : s.activeDrains[id]? = some drain) (hw : drain.phase.withdraws = false) :
    DrainInv (s.endSuperseded drain) withdrawn := by
  obtain ⟨superseded, error, heq⟩ := endSuperseded_cases s drain
  rw [heq]
  exact h.ended hd hw superseded s.completedDrains error s.shutdownDrained

/-- a drain that withdraws nothing enters another phase -/
theorem DrainInv.advance (h : DrainInv s withdrawn) {drain : ActiveDrain} {id : Nat}
    (hd : s.activeDrains[id]? = some drain) (hw : drain.phase.withdraws = false)
    {phase : DrainPhase} (hok : DrainOk s { drain with phase := phase })
    (hlock : s.consumer.holds = true → phase.holds = false) :
    DrainInv (s.setPhase drain phase) withdrawn := by
  refine h.setPhase drain phase ?_ hok hlock
  rw [h.keyed id drain hd]
  intro old hold
  rw [hd] at hold
  cases hold
  exact hw

theorem DrainInv.beginDrain {s' : Session} {id : Nat} (h : DrainInv s withdrawn)
    (hs : s.beginDrain id = some s') : DrainInv s' withdrawn := by
  unfold Session.beginDrain at hs
  split at hs
  · rename_i authorization hd
    split_ifs at hs
    · cases hs
      exact h.endSuperseded hd rfl
    · split at hs
      · cases hs
        exact h.failDrain hd rfl _
      · rename_i q hq
        cases hs
        obtain ⟨draining, stop, rfl, hgates, _⟩ := ReceiverQueue.beginDrain_cases hq
        obtain ⟨active, htr⟩ := h.tracked
        have h' := h.receiver ⟨active, htr.gates draining stop⟩
          (fun k hk => (hgates k).mpr (.inr hk)) (fun k _ hu => hu)
        have hok := h'.drains id _ hd
        refine h'.advance hd rfl ⟨fun _ => hok.timely (by simp), ?_, fun hp => (by cases hp), ?_⟩
          (fun _ => rfl)
        · intro _ _ _ k hk _
          exact (hgates k).mpr (.inl hk)
        · rintro r (hr | hr) <;> cases hr
  · cases hs

theorem DrainInv.waitIdle {s' : Session} {id : Nat} (h : DrainInv s withdrawn)
    (hs : s.waitIdle id = some s') : DrainInv s' withdrawn := by
  unfold Session.waitIdle at hs
  split at hs
  · rename_i authorization hd
    split_ifs at hs with hidle
    cases hs
    have hok := h.drains id _ hd
    refine h.advance hd rfl ⟨fun _ => hok.timely (by simp), fun _ => hok.closed rfl, ?_, ?_⟩
      (fun _ => rfl)
    · intro _ hstop _ k hk _
      have hstop : authorization.stopAcceptingAllComputation = false := hstop
      unfold Session.drained at hidle
      rw [hstop, if_neg (by simp)] at hidle
      unfold ReceiverQueue.expertsIdle at hidle
      exact beq_iff_eq.mp (List.all_eq_true.mp hidle k hk)
    · rintro r (hr | hr) <;> cases hr
  · cases hs

theorem DrainInv.expire {s' : Session} {id : Nat} (h : DrainInv s withdrawn)
    (hs : s.expire id = some s') : DrainInv s' withdrawn := by
  unfold Session.expire at hs
  split at hs
  · rename_i authorization hd
    split_ifs at hs
    cases hs
    exact h.failDrain hd rfl _
  · cases hs

theorem DrainInv.startRemoval {s' : Session} {id : Nat} (h : DrainInv s withdrawn)
    (hs : s.startRemoval id = some s') : DrainInv s' withdrawn := by
  unfold Session.startRemoval at hs
  split at hs
  · rename_i authorization hd
    split_ifs at hs with hfree
    · cases hs
      exact h.endSuperseded hd rfl
    · split at hs
      · cases hs
        exact h.failDrain hd rfl _
      · rename_i request hreq
        cases hs
        obtain ⟨hgen, hwhole, _, _, hshape, hkeys⟩ := removalRequest_spec hreq
        have hok := h.drains id _ hd
        rw [Bool.not_eq_false] at hfree
        have hholds := ((transitionFree_iff s).mp hfree).1
        refine h.advance hd rfl ⟨fun _ => hok.timely (by simp), fun _ => hok.closed rfl,
          fun _ => hok.idled rfl, ?_⟩ ?_
        · rintro r (hr | hr)
          · cases hr
            exact ⟨hgen, hwhole, hkeys, fun k hk => hshape k ((hkeys k).mp hk)⟩
          · cases hr
        · intro hc
          rw [hholds] at hc
          cases hc
  · cases hs

theorem mem_foldl_insert (l : List ExpertKey) (w : ExtTreeSet ExpertKey) (k : ExpertKey) :
    k ∈ l.foldl (fun w key => w.insert key) w ↔ k ∈ l ∨ k ∈ w := by
  induction l generalizing w with
  | nil => simp
  | cons a l ih =>
    rw [List.foldl_cons, ih, ExtTreeSet.mem_insert, Std.compare_eq_iff_eq, List.mem_cons,
      eq_comm (a := a)]
    tauto

theorem checkRemoval_true {m : WeightManager} {request : RemovalRequest}
    (h : m.checkRemoval request = .ok true) :
    request.placementGeneration = m.placementGeneration ∧
      (request.wholeWorkerShutdown = false → ∀ k ∈ request.keys, k ∉ m.targets) := by
  unfold WeightManager.checkRemoval at h
  split_ifs at h with h1 h2 h3
  · cases h
  · refine ⟨by omega, ?_⟩
    intro hwhole k hk hkt
    exact h3 ⟨⟨k, hk, hkt⟩, hwhole⟩

theorem DrainInv.beginWithdrawal {s' : Session} {id : Nat} (h : DrainInv s withdrawn)
    (hs : s.beginWithdrawal id = some s') :
    DrainInv s' (withdrawnAfter s withdrawn (.beginWithdrawal id)) := by
  unfold Session.beginWithdrawal at hs
  unfold withdrawnAfter
  split at hs
  · rename_i authorization request hd
    simp only [hd]
    have hok := h.drains id _ hd
    have hholds : s.consumer.holds = true → False := by
      intro hc
      have hp := h.lock hc id _ hd
      cases hp
    split at hs
    · rename_i e hcheck
      cases hs
      simp only [hcheck]
      exact h.failDrain hd rfl _
    · rename_i hcheck
      simp only [hcheck]
      split_ifs at hs
      · cases hs
        exact h.endSuperseded hd rfl
      · cases hs
        exact h.failDrain hd rfl _
    · rename_i hcheck
      cases hs
      simp only [hcheck]
      obtain ⟨hgen, htargets⟩ := checkRemoval_true hcheck
      obtain ⟨hrgen, hwhole, hkeys, hshape⟩ := hok.request request (.inl rfl)
      have hnext : DrainInv (s.setPhase ⟨authorization, .removing request⟩ (.withdrawing request))
          withdrawn := by
        refine h.advance hd rfl ⟨fun _ => hok.timely (by simp), fun hp => (by cases hp),
          fun hp => (by cases hp), ?_⟩ (fun hc => (hholds hc).elim)
        rintro r (hr | hr)
        · cases hr
        · cases hr
          exact ⟨hrgen, hwhole, hkeys, hshape⟩
      split_ifs with hstop
      · exact hnext
      · rw [Bool.not_eq_true] at hstop
        obtain ⟨h1, h2, h3, h4, h5, h6, h7, h8, h9, h10⟩ := hnext
        refine ⟨h1, h2, h3, h4, h5, h6, h7, h8, h9, ?_⟩
        intro k hk
        rcases (mem_foldl_insert _ _ _).mp hk with hk | hk
        · have hkr : k ∈ request.keys := (List.mem_filter.mp hk).1
          have hke := (hkeys k).mp hkr
          have hkt := htargets (hwhole.trans hstop) k hkr
          have hcur : authorization.placementGeneration = s.currentPlacementGeneration := by
            rw [h.generation, ← hgen]
            exact hrgen.symm
          refine ⟨hok.closed rfl hstop hcur k hke hkt, hok.idled rfl hstop hcur k hke hkt,
            .inr ⟨hkt, id, ⟨authorization, .withdrawing request⟩, request, ?_, rfl, hkr⟩⟩
          show (s.activeDrains.insert authorization.drainId _)[id]? = _
          rw [show authorization.drainId = id from h.keyed id _ hd, Maps.getElem?_insert_eq,
            if_pos rfl]
        · exact h10 k hk
  · cases hs

theorem DrainInv.finishRemoval {s' : Session} {id : Nat} (h : DrainInv s withdrawn)
    (hs : s.finishRemoval id = some s') : DrainInv s' withdrawn := by
  unfold Session.finishRemoval at hs
  split at hs
  · rename_i authorization request hd
    cases hs
    have hok := h.drains id _ hd
    obtain ⟨_, _, _, hshape⟩ := hok.request request (.inr rfl)
    obtain ⟨⟨bytes, ready, states, hcore⟩, hready, _⟩ := s.manager.finishRemoval_spec request
    have hm := h.manager.finishRemoval hshape
    have hid : authorization.drainId = id := h.keyed id _ hd
    have hlook : ∀ (id' : Nat) (drain : ActiveDrain),
        (s.activeDrains.insert authorization.drainId ⟨authorization, .removed⟩)[id']? = some drain →
        (id' = id ∧ drain = ⟨authorization, .removed⟩) ∨
          (id' ≠ id ∧ s.activeDrains[id']? = some drain) := by
      intro id' drain hd'
      rw [Maps.getElem?_insert_eq, hid] at hd'
      split_ifs at hd' with he
      · exact .inl ⟨he.symm, (Option.some.inj hd').symm⟩
      · exact .inr ⟨Ne.symm he, hd'⟩
    refine ⟨h.tracked, hm, ?_, ?_, ?_, h.consumer, ?_, ?_, ?_, ?_⟩
    · show s.currentPlacementGeneration = (s.manager.finishRemoval request).1.placementGeneration
      rw [hcore]
      exact h.generation
    · show ∀ k, k ∈ s.currentTargetKeys ↔ k ∈ (s.manager.finishRemoval request).1.targets
      rw [hcore]
      exact h.keys
    · show (s.manager.finishRemoval request).1.placementGeneration ≤ _
      rw [hcore]
      exact h.assembler
    · intro hc id' drain hd'
      rcases hlook id' drain hd' with ⟨_, rfl⟩ | ⟨_, hd'⟩
      · rfl
      · exact h.lock hc id' drain hd'
    · intro id' drain hd'
      rcases hlook id' drain hd' with ⟨rfl, rfl⟩ | ⟨_, hd'⟩
      · exact hid
      · exact h.keyed id' drain hd'
    · intro id' drain hd'
      rcases hlook id' drain hd' with ⟨_, rfl⟩ | ⟨_, hd'⟩
      · refine ⟨fun _ => hok.timely (by simp), fun hp => (by cases hp), fun hp => (by cases hp), ?_⟩
        rintro r (hr | hr) <;> cases hr
      · have hd'' := h.drains id' drain hd'
        refine ⟨hd''.timely, ?_, ?_, ?_⟩
        · show _ → _ → _ → ∀ k ∈ _, k ∉ (s.manager.finishRemoval request).1.targets → _
          rw [hcore]
          exact hd''.closed
        · show _ → _ → _ → ∀ k ∈ _, k ∉ (s.manager.finishRemoval request).1.targets → _
          rw [hcore]
          exact hd''.idled
        · intro r hr
          show _ ∧ _ ∧ _ ∧ ∀ k ∈ r.keys,
            (s.manager.finishRemoval request).1.config.inShape k = true
          rw [hcore]
          exact hd''.request r hr
    · intro k hk
      obtain ⟨h1, h2, h3⟩ := h.withdrawn k hk
      refine ⟨h1, h2, ?_⟩
      show k ∉ (s.manager.finishRemoval request).1.readyKeys ∨
        k ∉ (s.manager.finishRemoval request).1.targets ∧ _
      rw [hready k, show (s.manager.finishRemoval request).1.targets = s.manager.targets by
        rw [hcore]]
      by_cases hkr : k ∈ request.keys
      · exact .inl fun hc => hc.2 hkr
      · refine (h3.imp (fun hn hc => hn hc.1) (And.imp_right ?_))
        rintro ⟨id', drain, r, hd', hp, hr⟩
        refine ⟨id', drain, r, ?_, hp, hr⟩
        show (s.activeDrains.insert authorization.drainId _)[id']? = some drain
        rw [Maps.getElem?_insert_eq, hid, if_neg]
        · exact hd'
        · rintro rfl
          rw [hd] at hd'
          cases hd'
          cases hp
          exact hkr hr
  · cases hs

theorem DrainInv.flushDrain {s' : Session} {id : Nat} (h : DrainInv s withdrawn)
    (hs : s.flushDrain id = some s') : DrainInv s' withdrawn := by
  unfold Session.flushDrain at hs
  split at hs
  · rename_i authorization hd
    split_ifs at hs
    cases hs
    have hok := h.drains id _ hd
    refine h.advance hd rfl ⟨fun _ => hok.timely (by simp), fun hp => (by cases hp),
      fun hp => (by cases hp), ?_⟩ (fun _ => rfl)
    rintro r (hr | hr) <;> cases hr
  · cases hs

theorem DrainInv.completeDrain {s' : Session} {id : Nat} (h : DrainInv s withdrawn)
    (hs : s.completeDrain id = some s') : DrainInv s' withdrawn := by
  unfold Session.completeDrain at hs
  split at hs
  · rename_i authorization sequence hd
    split_ifs at hs
    cases hs
    exact h.ended hd rfl s.supersededDrains _ s.drainError _
  · cases hs

theorem DrainInv.reap {s' : Session} {id : Nat} (h : DrainInv s withdrawn)
    (hs : s.reap id = some s') : DrainInv s' withdrawn := by
  unfold Session.reap at hs
  split at hs
  · rename_i authorization hd
    cases hs
    exact h.ended hd rfl s.supersededDrains s.completedDrains s.drainError s.shutdownDrained
  · cases hs

/-! ## loads and batches -/

theorem load_cases {s' : Session} {result : WeightManager × List ExpertStateChange}
    (h : s.load result = some s') : s.managerFree = true ∧
      s' = { s with manager := result.1, reporter := s.reporter.emit result.2 } := by
  unfold Session.load at h
  split_ifs at h with hfree
  cases h
  exact ⟨hfree, rfl⟩

/-- a load that makes nothing ready -/
theorem DrainInv.loaded {s' : Session} {result : WeightManager × List ExpertStateChange}
    (h : DrainInv s withdrawn) (hs : s.load result = some s') (hok : ManagerOk result.1)
    (hconfig : result.1.config = s.manager.config)
    (hgen : result.1.placementGeneration = s.manager.placementGeneration)
    (htargets : result.1.targets = s.manager.targets)
    (hready : result.1.readyKeys = s.manager.readyKeys) : DrainInv s' withdrawn := by
  obtain ⟨hfree, rfl⟩ := load_cases hs
  refine h.load hok hconfig hgen htargets ?_
  intro k hk
  exact ⟨hk, hready ▸ h.not_ready hfree hk⟩

theorem DrainInv.finishReady {s' : Session} {key : ExpertKey} (h : DrainInv s withdrawn)
    (hs : s.load (s.manager.finishReady key) = some s') :
    DrainInv s' (withdrawnAfter s withdrawn (.finishReady key)) := by
  have hok := h.manager.finishReady key
  obtain ⟨hfree, hs'⟩ := load_cases hs
  -- either only states and loads change, or the key joins the ready ones
  have hcore : (s.manager.SameCore (s.manager.finishReady key).1) ∨
      ∃ bytes, ({ s.manager with
        readyKeys := s.manager.readyKeys.insert key
        loadedDeviceBytes := bytes } : WeightManager).SameCore (s.manager.finishReady key).1 := by
    rcases s.manager.finishReady_cases key with ⟨heq, _⟩ | ⟨_, _, heq | ⟨bytes, heq⟩⟩
    · rw [heq]
      exact .inl (.refl _)
    · rw [heq]
      exact .inl (WeightManager.setState_core _ _ _)
    · rw [heq]
      exact .inr ⟨bytes, WeightManager.setState_core _ _ _⟩
  unfold withdrawnAfter
  simp only
  rcases hcore with ⟨loads, states, heq⟩ | ⟨bytes, loads, states, heq⟩
  · have hsame := h.loaded hs hok (by rw [heq]) (by rw [heq]) (by rw [heq]) (by rw [heq])
    split_ifs
    · obtain ⟨h1, h2, h3, h4, h5, h6, h7, h8, h9, h10⟩ := hsame
      exact ⟨h1, h2, h3, h4, h5, h6, h7, h8, h9, fun k hk => h10 k (ExtTreeSet.mem_of_mem_erase hk)⟩
    · exact hsame
  · have hmem : ∀ k, k ∈ (s.manager.finishReady key).1.readyKeys ↔
        key = k ∨ k ∈ s.manager.readyKeys := by
      intro k
      rw [heq]
      show k ∈ s.manager.readyKeys.insert key ↔ _
      rw [ExtTreeSet.mem_insert, Std.compare_eq_iff_eq]
    rw [if_pos ⟨hfree, (hmem key).mpr (.inl rfl)⟩, hs']
    refine h.load hok (by rw [heq]) (by rw [heq]) (by rw [heq]) ?_
    intro k hk
    obtain ⟨hne, hk⟩ := ExtTreeSet.mem_erase.mp hk
    refine ⟨hk, ?_⟩
    rw [hmem]
    rintro (rfl | hr)
    · exact hne (Std.compare_eq_iff_eq.mpr rfl)
    · exact h.not_ready hfree hk hr

theorem DrainInv.finishFailure {s' : Session} {key : ExpertKey} {failure : LoadFailure}
    (h : DrainInv s withdrawn) (hs : s.load (s.manager.finishFailure key failure) = some s') :
    DrainInv s' withdrawn := by
  have hok := (ManagerOp.run_ok h.manager (.finishFailure key failure)).1
  have hcore : s.manager.SameCore (s.manager.finishFailure key failure).1 := by
    rcases s.manager.finishFailure_cases key failure with heq | ⟨_, _, heq⟩
    · rw [heq]
      exact .refl _
    · rw [heq]
      exact WeightManager.setState_core _ _ _
  obtain ⟨loads, states, heq⟩ := hcore
  exact h.loaded hs hok (by rw [heq]) (by rw [heq]) (by rw [heq]) (by rw [heq])

theorem DrainInv.loadEnded {s' : Session} {key : ExpertKey} {cancelled : Bool}
    (h : DrainInv s withdrawn) (hs : s.load (s.manager.loadEnded key cancelled, []) = some s') :
    DrainInv s' withdrawn := by
  have hok := h.manager.loadEnded key cancelled
  rcases s.manager.loadEnded_cases key cancelled with ⟨loads, heq⟩ | ⟨_, loads, heq⟩
  · exact h.loaded hs hok (by rw [heq]) (by rw [heq]) (by rw [heq]) (by rw [heq])
  · exact h.loaded hs hok (by rw [heq]) (by rw [heq]) (by rw [heq]) (by rw [heq])

theorem DrainInv.beginShutdown {s' : Session} (h : DrainInv s withdrawn)
    (hs : s.beginShutdown = some s') : DrainInv s' withdrawn := by
  have hok := (ManagerOp.run_ok h.manager .beginShutdown).1
  unfold Session.beginShutdown at hs
  split_ifs at hs with hfree
  cases hs
  have hcore : ∃ loads down, s.manager.beginShutdown
      = { s.manager with shuttingDown := down, loadTasks := loads } := by
    unfold WeightManager.beginShutdown
    split_ifs
    · exact ⟨_, _, rfl⟩
    · exact ⟨_, _, rfl⟩
  obtain ⟨loads, down, heq⟩ := hcore
  refine h.load hok (by rw [heq]) (by rw [heq]) (by rw [heq]) ?_
  intro k hk
  refine ⟨hk, ?_⟩
  rw [heq]
  exact h.not_ready hfree hk

/-- batches pass only open gates, and otherwise leave -/
theorem queueOp_gates (q : ReceiverQueue) (op : QueueOp)
    (hop : (∃ item layerId expertIds bytes, op = .admitBatch item layerId expertIds bytes) ∨
      op = .take ∨ (∃ item, op = .cancelWaiting item) ∨ ∃ item, op = .finish item) :
    (∀ k, Gated q k → Gated (op.run q) k) ∧
      ∀ k, Gated q k → Unused q k → Unused (op.run q) k := by
  rcases hop with ⟨item, layerId, expertIds, bytes, rfl⟩ | rfl | ⟨item, rfl⟩ | ⟨item, rfl⟩
  · unfold QueueOp.run
    simp only
    split
    · exact ⟨fun k hk => hk, fun k _ hu => hu⟩
    · rename_i rejection q' heq
      rcases ReceiverQueue.admitBatch_cases heq with ⟨_, rfl⟩ | ⟨entry, _, _, _, _, hopen, _, _, rfl⟩
      · exact ⟨fun k hk => hk, fun k _ hu => hu⟩
      · refine ⟨fun k hk => hk, ?_⟩
        intro k hk hu
        have hnot : k ∉ entry.keys := by
          intro hmem
          unfold Gated at hk
          rw [hopen k hmem] at hk
          cases hk
        show Counter.count (Counter.addAll q.admittedExperts entry.keys) k = 0
        rw [Counter.count_addAll, List.count_eq_zero.mpr hnot]
        exact hu
  · show (∀ k, _ → Gated ((q.take).elim q Prod.snd) k) ∧
      ∀ k, _ → _ → Unused ((q.take).elim q Prod.snd) k
    unfold ReceiverQueue.take
    cases q.waiting with
    | nil => exact ⟨fun k hk => hk, fun k _ hu => hu⟩
    | cons entry rest => exact ⟨fun k hk => hk, fun k _ hu => hu⟩
  · show (∀ k, _ → Gated (q.cancelWaiting item).2 k) ∧
      ∀ k, _ → _ → Unused (q.cancelWaiting item).2 k
    rcases q.cancelWaiting_cases item with heq | ⟨entry, _, _, heq⟩
    · rw [heq]
      exact ⟨fun k hk => hk, fun k _ hu => hu⟩
    · rw [heq]
      refine ⟨fun k hk => hk, ?_⟩
      intro k _ hu
      show Counter.count (Counter.dropAll q.admittedExperts entry.keys) k = 0
      rw [Counter.count_dropAll, show Counter.count q.admittedExperts k = 0 from hu]
      exact Nat.zero_sub _
  · unfold QueueOp.run
    simp only
    split
    · exact ⟨fun k hk => hk, fun k _ hu => hu⟩
    · rename_i q' heq
      obtain ⟨entry, _, _, rfl⟩ := ReceiverQueue.finish_cases heq
      refine ⟨fun k hk => hk, ?_⟩
      intro k _ hu
      show Counter.count (Counter.dropAll q.admittedExperts entry.keys) k = 0
      rw [Counter.count_dropAll, show Counter.count q.admittedExperts k = 0 from hu]
      exact Nat.zero_sub _

theorem DrainInv.batch (h : DrainInv s withdrawn) (op : QueueOp)
    (hop : (∃ item layerId expertIds bytes, op = .admitBatch item layerId expertIds bytes) ∨
      op = .take ∨ (∃ item, op = .cancelWaiting item) ∨ ∃ item, op = .finish item) :
    DrainInv { s with receiver := op.run s.receiver } withdrawn := by
  obtain ⟨active, htr⟩ := h.tracked
  obtain ⟨hg, hu⟩ := queueOp_gates s.receiver op hop
  exact h.receiver (op.run_tracked htr) hg hu

end

/-! ## runs -/

theorem drainInv_step {o o' : Observed} {label : Label} (h : DrainInv o.session o.withdrawn)
    (hok : orderly o label = true) (ho : observedStep o label = some o') :
    DrainInv o'.session o'.withdrawn := by
  obtain ⟨s, withdrawn⟩ := o
  obtain ⟨s', hs, rfl⟩ := Option.map_eq_some_iff.mp ho
  show DrainInv s' (withdrawnAfter s withdrawn label)
  clear ho
  cases label with
  | receive message => exact h.receive hok hs
  | lockTransition => exact h.lockTransition hs
  | applyTargets => exact h.applyTargets hs
  | observe => exact h.observe hs
  | report => exact h.stream (by simp) hs
  | enqueueFull => exact h.stream (by simp) hs
  | takeUpdates => exact h.stream (by simp) hs
  | enqueueUpdates => exact h.stream (by simp) hs
  | collectCompletions => exact h.stream (by simp) hs
  | flushCompletions => exact h.stream (by simp) hs
  | awaitCompletions => exact h.stream (by simp) hs
  | putCompletions => exact h.stream (by simp) hs
  | dequeue => exact h.dequeue hok hs
  | send => exact h.stream (by simp) hs
  | reconnect => exact h.stream (by simp) hs
  | beginDrain id => exact h.beginDrain hs
  | waitIdle id => exact h.waitIdle hs
  | expire id => exact h.expire hs
  | startRemoval id => exact h.startRemoval hs
  | beginWithdrawal id => exact h.beginWithdrawal hs
  | finishRemoval id => exact h.finishRemoval hs
  | flushDrain id => exact h.flushDrain hs
  | completeDrain id => exact h.completeDrain hs
  | reap id => exact h.reap hs
  | finishReady key => exact h.finishReady hs
  | finishFailure key failure => exact h.finishFailure hs
  | loadEnded key cancelled => exact h.loadEnded hs
  | beginShutdown => exact h.beginShutdown hs
  | admitBatch item layerId expertIds bytes =>
    cases hs
    exact h.batch _ (.inl ⟨item, layerId, expertIds, bytes, rfl⟩)
  | take =>
    cases hs
    exact h.batch _ (.inr (.inl rfl))
  | cancelWaiting item =>
    cases hs
    exact h.batch _ (.inr (.inr (.inl ⟨item, rfl⟩)))
  | finish item =>
    cases hs
    exact h.batch _ (.inr (.inr (.inr ⟨item, rfl⟩)))

section
variable {config : ManagerConfig} {maxUpdates : Nat} {hu : 0 < maxUpdates}
  {hu' : maxUpdates ≤ maxExpertsPerControlPart} {maxPending maxBytes : Nat} {hp : 0 < maxPending}

theorem drainInv_new :
    DrainInv (.new config maxUpdates hu hu' (.new maxPending maxBytes hp)) ∅ := by
  refine ⟨⟨[], tracked_new _ _ _⟩, managerOk_new config, rfl, ?_, Nat.le_refl _, ?_, ?_, ?_, ?_, ?_⟩
  · simp [Session.new, WeightManager.new]
  · rintro placement (hc | hc) <;> cases hc
  · intro hc
    cases hc
  · simp [Session.new]
  · simp [Session.new]
  · simp

/-- in every orderly run: no waiting or active batch names an expert that an expert drain withdrew
and that has not become READY again -/
theorem drain_safety {o : Observed}
    (h : Steps.Reach observedStep (fun o label => orderly o label = true)
      ⟨.new config maxUpdates hu hu' (.new maxPending maxBytes hp), ∅⟩ o)
    {k : ExpertKey} (hk : k ∈ o.withdrawn) {item : Nat} {entry : Entry}
    (he : o.session.receiver.entries[item]? = some entry) : k ∉ entry.keys := by
  have hinv := h.invariant (P := fun o => DrainInv o.session o.withdrawn) drainInv_new
    (fun _ _ _ hi hok hs => drainInv_step hi hok hs)
  obtain ⟨active, htr⟩ := hinv.tracked
  exact htr.not_named (hinv.withdrawn k hk).2.1 he

end

/-! ## two runs of a small Worker -/

namespace Small

def config : ManagerConfig := ⟨1, 2, "cuda:0", 2, 1, by decide⟩

theorem four_pos : 0 < 4 := by decide

/-- two experts in one layer, four waiting batches -/
def start : Observed :=
  ⟨.new config 8 eight_pos eight_le (.new 4 16 four_pos), ∅⟩

/-- a target list in one part -/
def targets (generation : Nat) (expertIds : List Nat) : Label :=
  .receive (.targets ⟨generation, 0, 1, expertIds.map fun e => ⟨0, e, "cuda:0", []⟩⟩)

/-- an expert drain in one part -/
def drain (drainId generation : Nat) (expertIds : List Nat) : Label :=
  .receive (.drain ⟨drainId, generation, 1, false, 0, 1, expertIds.map fun e => ⟨0, e⟩⟩)

/-- a target list is received and applied -/
def place (generation : Nat) (expertIds : List Nat) : List Label :=
  [targets generation expertIds, .lockTransition, .applyTargets, .observe]

/-- the first list of a stream also queues the full state -/
def openWith (generation : Nat) (expertIds : List Nat) : List Label :=
  place generation expertIds ++ [.report, .enqueueFull]

/-- an expert is loaded and its state is sent -/
def loadAndSend (expertId : Nat) : List Label :=
  [.finishReady ⟨0, expertId⟩, .loadEnded ⟨0, expertId⟩ false, .takeUpdates, .enqueueUpdates,
    .dequeue, .send]

/-- an expert drain runs until its experts are removed -/
def remove (drainId generation : Nat) (expertIds : List Nat) : List Label :=
  [drain drainId generation expertIds, .beginDrain drainId, .waitIdle drainId,
    .startRemoval drainId, .beginWithdrawal drainId, .finishRemoval drainId]

/-- expert 0 is loaded, drained and removed while expert 1 stays, and a batch for 1 arrives -/
def oneRemoved : List Label :=
  openWith 1 [0, 1] ++ [.dequeue, .send] ++ loadAndSend 0 ++ loadAndSend 1 ++ place 2 [1] ++
    remove 1 2 [0] ++ [.admitBatch 7 0 [1] 1]

/-- expert 0 is loaded and reported; after a reconnect its full state waits in the queue while it is
drained, removed and assigned again; then the report leaves the queue and a batch arrives -/
def staleReport : List Label :=
  openWith 1 [0] ++ [.dequeue, .send] ++ loadAndSend 0 ++ [.reconnect] ++ openWith 1 [0] ++
    place 2 [] ++ remove 1 2 [0] ++ place 3 [0] ++ [.dequeue, .admitBatch 7 0 [0] 1]

end Small

theorem drain_safety_oneRemoved :
    ∃ o entry, Steps.run observedStep orderly Small.start Small.oneRemoved = some o ∧
      (⟨0, 0⟩ : ExpertKey) ∈ o.withdrawn ∧ o.session.receiver.entries[7]? = some entry ∧
      (⟨0, 0⟩ : ExpertKey) ∉ entry.keys := by
  have hrun : (Steps.run observedStep orderly Small.start Small.oneRemoved).any (fun o =>
      o.withdrawn.contains ⟨0, 0⟩ && (o.session.receiver.entries[7]?).isSome) = true := by
    decide +kernel
  obtain ⟨o, ho, hcond⟩ := (Option.any_eq_true _ _).mp hrun
  rw [Bool.and_eq_true] at hcond
  obtain ⟨entry, he⟩ := Option.isSome_iff_exists.mp hcond.2
  have hk : (⟨0, 0⟩ : ExpertKey) ∈ o.withdrawn := ExtTreeSet.mem_iff_contains.mpr hcond.1
  exact ⟨o, entry, ho, hk, he, drain_safety (Steps.Reach.refl.of_run ho) hk he⟩

/-- the gate of a withdrawn expert opens and a batch that names it is admitted -/
theorem stale_report_opens_gate :
    ∃ o entry, Steps.run observedStep (fun _ _ => true) Small.start Small.staleReport = some o ∧
      (⟨0, 0⟩ : ExpertKey) ∈ o.withdrawn ∧ o.session.receiver.entries[7]? = some entry ∧
      (⟨0, 0⟩ : ExpertKey) ∈ entry.keys := by
  have hrun : (Steps.run observedStep (fun _ _ => true) Small.start Small.staleReport).any (fun o =>
      o.withdrawn.contains ⟨0, 0⟩ &&
        (o.session.receiver.entries[7]?).any fun entry => entry.keys.contains ⟨0, 0⟩) = true := by
    decide +kernel
  obtain ⟨o, ho, hcond⟩ := (Option.any_eq_true _ _).mp hrun
  rw [Bool.and_eq_true] at hcond
  obtain ⟨entry, he, hentry⟩ := (Option.any_eq_true _ _).mp hcond.2
  exact ⟨o, entry, ho, ExtTreeSet.mem_iff_contains.mpr hcond.1, he,
    List.contains_iff_mem.mp hentry⟩

end ExpertKit.Worker

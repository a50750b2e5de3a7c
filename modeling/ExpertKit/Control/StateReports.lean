import ExpertKit.Controller.State
import ExpertKit.Lib.Ledger
import ExpertKit.Worker.Reports

/-!
# Control: state reports are faithful

What the Controller records from the messages of one stream, where the last state of an expert wins,
and what is still pending in the reporter: together they are the READY experts of the Manager, over
every interleaving of the session and any number of streams.

* `recorded`, `recordsReady`   the records after the messages of a stream;
* `Faithful`          what ties the messages and the pending changes to the Manager;
* `Sequenced`          what ties the messages to the sequence numbers;
* `reports_faithful`   both, for every state reached.
-/

set_option linter.unusedSectionVars false

namespace ExpertKit.Control
open Std
open Controller (insertStates)
open Worker Worker.WeightManager Worker.ExpertStateReporter

/-! ## what the Controller records -/

/-- the records after the reports of the messages, of a stream that starts with its snapshot -/
def recorded (messages : List WorkerWeightMessage) : ExtTreeMap ExpertKey ExpertState :=
  insertStates ∅ (messages.flatMap Session.reportedStates)

def recordsReady (messages : List WorkerWeightMessage) (k : ExpertKey) : Bool :=
  ((recorded messages)[k]?).any ExpertState.isReady

theorem insertStates_cases (states : List ExpertState) (m : ExtTreeMap ExpertKey ExpertState)
    (k : ExpertKey) :
    (∃ state ∈ states, state.key = k ∧ (insertStates m states)[k]? = some state) ∨
      (∀ state ∈ states, state.key ≠ k) ∧ (insertStates m states)[k]? = m[k]? := by
  induction states generalizing m with
  | nil => exact .inr ⟨by simp, rfl⟩
  | cons state rest ih =>
    rcases ih (m.insert state.key state) with ⟨st, hin, hk, hst⟩ | ⟨hnone, hsame⟩
    · exact .inl ⟨st, List.mem_cons_of_mem _ hin, hk, hst⟩
    · rw [Maps.getElem?_insert_eq] at hsame
      split_ifs at hsame with hk
      · exact .inl ⟨state, List.mem_cons_self, hk, hsame⟩
      · refine .inr ⟨fun st hin => ?_, hsame⟩
        rcases List.mem_cons.mp hin with rfl | hin
        · exact hk
        · exact hnone st hin

theorem recorded_append (messages more : List WorkerWeightMessage) :
    recorded (messages ++ more)
      = insertStates (recorded messages) (more.flatMap Session.reportedStates) := by
  unfold recorded insertStates
  rw [List.flatMap_append, List.foldl_append]

/-- later messages that agree about an expert decide it, unless none names it -/
theorem recordsReady_append {messages more : List WorkerWeightMessage} {k : ExpertKey} {v : Prop}
    (h : ∀ state ∈ more.flatMap Session.reportedStates, state.key = k →
      (state.isReady = true ↔ v)) :
    (recordsReady (messages ++ more) k = true ↔ v) ∨
      (∀ state ∈ more.flatMap Session.reportedStates, state.key ≠ k) ∧
        recordsReady (messages ++ more) k = recordsReady messages k := by
  unfold recordsReady
  rw [recorded_append]
  rcases insertStates_cases (more.flatMap Session.reportedStates) (recorded messages) k with
    ⟨state, hin, hk, heq⟩ | ⟨hnone, heq⟩ <;> rw [heq]
  · exact .inl (h state hin hk)
  · exact .inr ⟨hnone, rfl⟩

/-- messages without states change no record -/
theorem recordsReady_silent {messages more rest : List WorkerWeightMessage}
    (h : more.flatMap Session.reportedStates = []) (k : ExpertKey) :
    recordsReady (messages ++ more ++ rest) k = recordsReady (messages ++ rest) k := by
  unfold recordsReady recorded
  rw [List.flatMap_append, List.flatMap_append, h, List.append_nil, List.flatMap_append]

/-! ## records and pending changes -/

/-- a change is pending for the expert -/
def Pending (r : ExpertStateReporter) (k : ExpertKey) : Prop := ∃ p, r.pending[k]? = some p

/-- the records after the messages are right about every expert without a pending change -/
def Told (s : Session) (messages : List WorkerWeightMessage) : Prop :=
  ∀ k, Pending s.reporter k ∨ (recordsReady messages k = true ↔ s.manager.Ready k)

structure Faithful (s : Session) : Prop where
  /-- a pending change is the last one of its expert -/
  pending : ∀ (k : ExpertKey) (p : PendingState), s.reporter.pending[k]? = some p →
    p.change.key = k ∧ p.changeIndex ≤ s.reporter.changeIndex ∧
      (p.change.state = .ready ↔ s.manager.Ready k)
  /-- a snapshot that was read is right about every expert that has not changed since -/
  reporting : ∀ (generation : Nat) (states : List (ExpertKey × LocalState)) (boundary : Nat),
    s.consumer = .reporting generation states boundary → s.snapshotReady = false ∧
      ∀ k, (∃ p, s.reporter.pending[k]? = some p ∧ boundary < p.changeIndex) ∨
        ((k, .ready) ∈ states ↔ s.manager.Ready k)
  enqueueing : ∀ group, s.consumer = .enqueueing group → s.snapshotReady = false ∧ Told s group
  told : s.snapshotReady = true → Told s (produced s)
  /-- nothing is sent before the snapshot -/
  silent : s.snapshotReady = false → produced s = [] ∧ s.completions = .waiting

theorem faithful_new (config : ManagerConfig) (maxUpdates : Nat) (hu : 0 < maxUpdates)
    (hu' : maxUpdates ≤ maxExpertsPerControlPart) (receiver : Transport.ReceiverQueue) :
    Faithful (.new config maxUpdates hu hu' receiver) := by
  refine ⟨fun k p hp => ?_, nofun, nofun, nofun, fun _ => ⟨rfl, rfl⟩⟩
  exact absurd hp (by simp [Session.new, ExpertStateReporter.new])

section
variable {s s' : Session}

theorem produced_nil (h : produced s = []) : enqueued s = [] ∧ s.updates = none := by
  obtain ⟨h1, h2⟩ := List.append_eq_nil_iff.mp h
  refine ⟨h1, ?_⟩
  cases hu : s.updates with
  | none => rfl
  | some u =>
    rw [hu] at h2
    cases h2

theorem produced_enqueueFull (h : produced s = []) (group : Group) :
    produced { s.enqueueReports group with consumer := .idle, snapshotReady := true } = group := by
  obtain ⟨hnil, hupdates⟩ := produced_nil h
  show s.stream ++ s.sending ++ (s.outbound ++ [group]).flatten
    ++ (s.updates.map .stateUpdates).toList = group
  rw [List.flatten_append, ← List.append_assoc, show s.stream ++ s.sending
    ++ s.outbound.flatten = [] from hnil, hupdates]
  simp

theorem produced_takeUpdates (h : s.updates = none) (r : ExpertStateReporter)
    (updates : ExpertStateUpdates) :
    produced { s with reporter := r, updates := some updates }
      = produced s ++ [.stateUpdates updates] := by
  unfold produced
  rw [h]
  simp
  rfl

/-- the queue takes over the update that was taken -/
theorem enqueued_enqueueUpdates {updates : ExpertStateUpdates} (h : s.updates = some updates) :
    enqueued { s.enqueueReports [.stateUpdates updates] with updates := none } = produced s := by
  show s.stream ++ s.sending ++ (s.outbound ++ [[WorkerWeightMessage.stateUpdates updates]]).flatten
    = s.stream ++ s.sending ++ s.outbound.flatten
      ++ (s.updates.map WorkerWeightMessage.stateUpdates).toList
  rw [h]
  simp

theorem produced_enqueueUpdates {updates : ExpertStateUpdates} (h : s.updates = some updates) :
    produced { s.enqueueReports [.stateUpdates updates] with updates := none } = produced s :=
  (List.append_nil _).trans (enqueued_enqueueUpdates h)

/-- the completion pump puts only completions in the queue -/
theorem enqueued_pump {outbound : List Group} {drainIds : List Nat}
    (hout : outbound.flatten = s.outbound.flatten ++ drainIds.map .drainComplete)
    (completions : Completions) (sent : List Nat) :
    enqueued { s with outbound := outbound, completions := completions, sentCompletions := sent }
      = enqueued s ++ drainIds.map .drainComplete := by
  show s.stream ++ s.sending ++ outbound.flatten = _
  rw [hout, ← List.append_assoc]
  rfl

/-- changes of the Manager are pending, and every other expert is as before -/
theorem emitted {changes : List ExpertStateChange}
    (hm : Emits s.manager s'.manager changes) (hr : Numbers s.reporter s'.reporter changes)
    (k : ExpertKey) :
    (∃ p, s'.reporter.pending[k]? = some p ∧ p.change.key = k ∧
      s.reporter.changeIndex < p.changeIndex ∧ p.changeIndex ≤ s'.reporter.changeIndex ∧
      (p.change.state = .ready ↔ s'.manager.Ready k)) ∨
    s'.reporter.pending[k]? = s.reporter.pending[k]? ∧
      (s'.manager.Ready k ↔ s.manager.Ready k) := by
  rcases hr.pending k with ⟨p, hp, hmem, hk, hlow, hhigh⟩ | ⟨hnone, hsame⟩
  · have hagree := hm.agree p.change hmem
    rw [hk] at hagree
    exact .inl ⟨p, hp, hk, hlow, hhigh, hagree⟩
  · exact .inr ⟨hsame, hm.kept k hnone⟩

theorem Faithful.quiet (hset : Setting s) (h : Faithful s) (hq : Quiet s s') : Faithful s' := by
  obtain ⟨changes, hm, hr⟩ := hq.changes
  have hemitted := emitted hm hr
  have htold : ∀ messages, Told s messages → Told s' messages := by
    intro messages ht k
    rcases hemitted k with ⟨p, hp, _⟩ | ⟨hsame, hready⟩
    · exact .inl ⟨p, hp⟩
    · unfold Pending
      rw [hsame, hready]
      exact ht k
  have hproduced : produced s' = produced s := by
    unfold produced
    rw [hq.enqueued, hq.updates]
  have hconsumer : ∀ consumer, consumer.holdsReport = true → s'.consumer = consumer →
      s.consumer = consumer := by
    intro consumer hholds hc
    rcases hq.consumer with hsame | hnot
    · exact hsame ▸ hc
    · rw [hc, hholds] at hnot
      cases hnot
  refine ⟨fun k p hp => ?_, fun generation states boundary hc => ?_, fun group hc => ?_, ?_, ?_⟩
  · rcases hemitted k with ⟨p', hp', hk, _, hhigh, hagree⟩ | ⟨hsame, hready⟩
    · rw [hp] at hp'
      cases hp'
      exact ⟨hk, hhigh, hagree⟩
    · rw [hsame] at hp
      obtain ⟨hk, hle, hagree⟩ := h.pending k p hp
      exact ⟨hk, hle.trans hr.changeIndex, hagree.trans hready.symm⟩
  · have hc' := hconsumer _ rfl hc
    obtain ⟨hsnap, hstates⟩ := h.reporting generation states boundary hc'
    have hboundary := hset.consumer
    rw [hc'] at hboundary
    refine ⟨hq.snapshotReady ▸ hsnap, fun k => ?_⟩
    rcases hemitted k with ⟨p, hp, _, hlow, _⟩ | ⟨hsame, hready⟩
    · exact .inl ⟨p, hp, Nat.lt_of_le_of_lt hboundary hlow⟩
    · rw [hsame, hready]
      exact hstates k
  · obtain ⟨hsnap, ht⟩ := h.enqueueing group (hconsumer _ rfl hc)
    exact ⟨hq.snapshotReady ▸ hsnap, htold _ ht⟩
  · rw [hq.snapshotReady, hproduced]
    exact fun hsnap => htold _ (h.told hsnap)
  · rw [hq.snapshotReady, hproduced, hq.completions]
    exact h.silent

/-- steps of the consumer that leave the stream alone -/
theorem Faithful.consumer (h : Faithful s) {consumer : Consumer}
    (hreporting : ∀ (generation : Nat) (states : List (ExpertKey × LocalState)) (boundary : Nat),
      consumer = .reporting generation states boundary → s.snapshotReady = false ∧
        ∀ k, (k, .ready) ∈ states ↔ s.manager.Ready k)
    (henqueueing : ∀ group, consumer ≠ .enqueueing group) (q : Transport.ReceiverQueue) :
    Faithful { s with receiver := q, consumer := consumer } := by
  refine ⟨h.pending, fun generation states boundary hc => ?_, fun group hc => ?_, h.told, h.silent⟩
  · obtain ⟨hsnap, hstates⟩ := hreporting generation states boundary hc
    exact ⟨hsnap, fun k => .inr (hstates k)⟩
  · exact absurd hc (henqueueing group)

theorem Faithful.observe (h : Faithful s) (hs : s.observe = some s') : Faithful s' := by
  unfold Session.observe at hs
  split at hs
  · simp only at hs
    split_ifs at hs with hgen hsnap
    · cases hs
      exact h.consumer (by rintro _ _ _ ⟨⟩) (by rintro _ ⟨⟩) s.receiver
    · cases hs
      exact h.consumer (by rintro _ _ _ ⟨⟩) (by rintro _ ⟨⟩) _
    · cases hs
      rw [Bool.not_eq_true] at hsnap
      refine h.consumer ?_ (by rintro _ ⟨⟩) _
      rintro generation states boundary ⟨⟩
      exact ⟨hsnap, fun k => ExtTreeMap.mem_toList_iff_getElem?_eq_some⟩
  · cases hs

theorem recordsReady_states {states : List (ExpertKey × LocalState)}
    (hnodup : (states.map Prod.fst).Nodup) {messages : List WorkerWeightMessage}
    (hmessages : messages.flatMap Session.reportedStates
      = states.map fun state => encodeState state.1 state.2) (k : ExpertKey) :
    recordsReady messages k = true ↔ (k, .ready) ∈ states := by
  unfold recordsReady recorded
  rw [hmessages]
  rcases insertStates_cases (states.map fun state => encodeState state.1 state.2) ∅ k with
    ⟨state, hin, hk, heq⟩ | ⟨hnone, heq⟩ <;> rw [heq]
  · obtain ⟨⟨key, value⟩, hentry, rfl⟩ := List.mem_map.mp hin
    obtain rfl : key = k := hk
    show (encodeState key value).isReady = true ↔ _
    rw [encodeState_isReady]
    constructor
    · rintro rfl
      exact hentry
    · intro hready
      exact congrArg Prod.snd (List.inj_on_of_nodup_map hnodup hentry hready rfl)
  · rw [ExtTreeMap.getElem?_empty]
    refine ⟨nofun, fun hready => ?_⟩
    exact absurd rfl (hnone _ (List.mem_map_of_mem hready))

theorem Faithful.report (h : Faithful s) (hs : s.report = some s') : Faithful s' := by
  unfold Session.report at hs
  split at hs
  · rename_i generation states boundary hc
    split at hs
    · cases hs
      exact h.consumer (by rintro _ _ _ ⟨⟩) (by rintro _ ⟨⟩) s.receiver
    · rename_i parts r heq
      cases hs
      have hr := fullStateParts_spec heq
      obtain ⟨hsnap, hstates⟩ := h.reporting generation states boundary hc
      refine ⟨fun k p hp => ?_, nofun, fun group hgroup => ?_, fun hready => ?_, h.silent⟩
      · obtain ⟨hk, hle, hagree⟩ := h.pending k p ((hr.pending k p).mp hp).1
        exact ⟨hk, hr.changeIndex ▸ hle, hagree⟩
      · cases hgroup
        refine ⟨hsnap, fun k => ?_⟩
        rcases hstates k with ⟨p, hp, hlt⟩ | hstate
        · exact .inl ⟨p, (hr.pending k p).mpr ⟨hp, hlt⟩⟩
        · refine .inr (Iff.trans ?_ hstate)
          refine recordsReady_states hr.nodup ?_ k
          rw [List.flatMap_map]
          exact hr.states
      · rw [show s.snapshotReady = true from hready] at hsnap
        cases hsnap
  · cases hs

theorem Faithful.enqueueFull (h : Faithful s) (hs : s.enqueueFull = some s') : Faithful s' := by
  unfold Session.enqueueFull at hs
  split at hs
  · rename_i group hc
    split_ifs at hs
    cases hs
    obtain ⟨hsnap, ht⟩ := h.enqueueing group hc
    refine ⟨h.pending, nofun, nofun, fun _ => ?_, nofun⟩
    rw [produced_enqueueFull (h.silent hsnap).1]
    exact ht
  · cases hs

/-- a change that is taken was the last one of its expert -/
theorem Faithful.taken (h : Faithful s) {updates : ExpertStateUpdates} {r : ExpertStateReporter}
    (heq : s.reporter.takeUpdates = some (updates, r)) :
    ∀ state ∈ [WorkerWeightMessage.stateUpdates updates].flatMap Session.reportedStates,
      (state.isReady = true ↔ s.manager.Ready state.key) := by
  intro state hstate
  rw [List.flatMap_singleton] at hstate
  obtain ⟨key, p, hp, _, rfl⟩ := (takeUpdates_spec heq).taken state hstate
  obtain ⟨hk, _, hagree⟩ := h.pending key p hp
  rw [encodeState_isReady, encodeState_key, hagree, hk]

theorem Faithful.takeUpdates (h : Faithful s) (hs : s.takeUpdates = some s') : Faithful s' := by
  unfold Session.takeUpdates at hs
  split_ifs at hs with hguard
  rw [not_or, Bool.not_eq_false, not_not] at hguard
  obtain ⟨hsnap, hupdates⟩ := hguard
  split at hs
  · cases hs
  · rename_i updates r heq
    cases hs
    have hr := takeUpdates_spec heq
    have hbusy : ∀ consumer, s.consumer = consumer → consumer.holdsReport = true → False := by
      intro consumer hc hholds
      cases consumer with
      | reporting generation states boundary =>
        rw [(h.reporting generation states boundary hc).1] at hsnap
        cases hsnap
      | enqueueing group =>
        rw [(h.enqueueing group hc).1] at hsnap
        cases hsnap
      | _ => cases hholds
    refine ⟨fun k p hp => ?_, fun generation states boundary hc => (hbusy _ hc rfl).elim,
      fun group hc => (hbusy _ hc rfl).elim, fun _ => ?_, fun hnot => ?_⟩
    · rcases hr.pending k with ⟨_, hnone⟩ | ⟨_, hsame⟩
      · rw [show r.pending[k]? = some p from hp] at hnone
        cases hnone
      · obtain ⟨hk, hle, hagree⟩ := h.pending k p (hsame ▸ hp)
        exact ⟨hk, hr.changeIndex ▸ hle, hagree⟩
    · rw [produced_takeUpdates hupdates]
      intro k
      rcases recordsReady_append fun state hin (hk : state.key = k) => hk ▸ h.taken heq state hin
        with hready | ⟨hnone, hsame⟩
      · exact .inr hready
      · rcases hr.pending k with ⟨⟨state, hstate, hkey⟩, _⟩ | ⟨_, hpending⟩
        · exact absurd hkey (hnone state (by rw [List.flatMap_singleton]; exact hstate))
        · rw [hsame]
          unfold Pending
          show (∃ p, r.pending[k]? = some p) ∨ _
          rw [hpending]
          exact h.told hsnap k
    · rw [show s.snapshotReady = false from hnot] at hsnap
      cases hsnap

theorem Faithful.enqueueUpdates (h : Faithful s) (hs : s.enqueueUpdates = some s') :
    Faithful s' := by
  unfold Session.enqueueUpdates at hs
  split at hs
  · cases hs
  · rename_i updates hupdates
    split_ifs at hs
    cases hs
    refine ⟨h.pending, h.reporting, h.enqueueing, ?_, ?_⟩
    · rw [produced_enqueueUpdates hupdates]
      exact h.told
    · rw [produced_enqueueUpdates hupdates]
      exact h.silent

/-- the completion pump runs only after the snapshot -/
theorem Faithful.pumping (h : Faithful s) (hc : s.completions ≠ .waiting) :
    s.snapshotReady = true := by
  by_contra hsnap
  exact hc (h.silent (Bool.not_eq_true _ ▸ hsnap)).2

theorem Faithful.pump (h : Faithful s) (hsnap : s.snapshotReady = true) (completions : Completions)
    (sent drainIds : List Nat) (outbound : List Group)
    (hout : outbound.flatten = s.outbound.flatten ++ drainIds.map .drainComplete) :
    Faithful { s with
      outbound := outbound, completions := completions, sentCompletions := sent } := by
  refine ⟨h.pending, h.reporting, h.enqueueing, fun _ => ?_, fun hnot => ?_⟩
  · have hsilent : (drainIds.map WorkerWeightMessage.drainComplete).flatMap
        Session.reportedStates = [] := by
      rw [List.flatMap_map]
      exact List.flatMap_eq_nil_iff.mpr fun _ _ => rfl
    intro k
    unfold produced
    rw [enqueued_pump hout, recordsReady_silent hsilent]
    exact h.told hsnap k
  · rw [show s.snapshotReady = false from hnot] at hsnap
    cases hsnap

/-- the steps of the completion pump put only completions in the queue -/
theorem pump_cases (hs : s.collectCompletions = some s' ∨ s.flushCompletions = some s' ∨
    s.awaitCompletions = some s' ∨ s.putCompletions = some s') :
    (s.snapshotReady = true ∨ s.completions ≠ .waiting) ∧
      ∃ completions sent outbound, ∃ drainIds : List Nat,
        s' = { s with
          outbound := outbound, completions := completions, sentCompletions := sent } ∧
        outbound.flatten = s.outbound.flatten ++ drainIds.map .drainComplete := by
  rcases hs with hs | hs | hs | hs
  · unfold Session.collectCompletions at hs
    split_ifs at hs with hguard
    cases hs
    rw [not_or, Bool.not_eq_false] at hguard
    exact ⟨.inl hguard.1, _, s.sentCompletions, s.outbound, [], rfl, by simp⟩
  · unfold Session.flushCompletions at hs
    split at hs
    · rename_i drainIds hc
      split_ifs at hs
      cases hs
      exact ⟨.inr (by rw [hc]; nofun), _, s.sentCompletions, s.outbound, [], rfl, by simp⟩
    · cases hs
  · unfold Session.awaitCompletions at hs
    split at hs
    · rename_i drainIds sequence hc
      split_ifs at hs
      cases hs
      exact ⟨.inr (by rw [hc]; nofun), _, s.sentCompletions, s.outbound, [], rfl, by simp⟩
    · cases hs
  · unfold Session.putCompletions at hs
    split at hs
    · rename_i drainIds hc
      split_ifs at hs
      cases hs
      exact ⟨.inr (by rw [hc]; nofun), _, _, _, drainIds, rfl, by simp⟩
    · cases hs

theorem Faithful.completions (h : Faithful s)
    (hs : s.collectCompletions = some s' ∨ s.flushCompletions = some s' ∨
      s.awaitCompletions = some s' ∨ s.putCompletions = some s') : Faithful s' := by
  obtain ⟨hactive, completions, sent, outbound, drainIds, rfl, hout⟩ := pump_cases hs
  exact h.pump (hactive.elim id h.pumping) completions sent drainIds outbound hout

theorem Faithful.reconnect (h : Faithful s) : Faithful s.reconnect :=
  ⟨h.pending, nofun, nofun, nofun, fun _ => ⟨rfl, rfl⟩⟩

theorem Faithful.step {l : Label} (hset : Setting s) (h : Faithful s) (hs : step s l = some s') :
    Faithful s' := by
  cases l with
  | observe => exact h.observe hs
  | report => exact h.report hs
  | enqueueFull => exact h.enqueueFull hs
  | takeUpdates => exact h.takeUpdates hs
  | enqueueUpdates => exact h.enqueueUpdates hs
  | collectCompletions => exact h.completions (.inl hs)
  | flushCompletions => exact h.completions (.inr (.inl hs))
  | awaitCompletions => exact h.completions (.inr (.inr (.inl hs)))
  | putCompletions => exact h.completions (.inr (.inr (.inr hs)))
  | reconnect =>
    cases hs
    exact h.reconnect
  | _ => exact h.quiet hset ((step_ok hset hs).quiet rfl)
end

/-! ## sequences -/

/-- an update has a later sequence than every message before it -/
def Before (a b : WorkerWeightMessage) : Prop :=
  ∀ u, b = .stateUpdates u → Session.reportSequence a < u.reportSequence

/-- sequences grow along the stream, and an update is never empty and never too long -/
structure Sequenced (maxUpdates : Nat) (s : Session) : Prop where
  limit : s.reporter.maxUpdates = maxUpdates
  last : s.lastEnqueuedReportSequence ≤ s.reporter.lastReportSequence
  updates : ∀ u, s.updates = some u → s.lastEnqueuedReportSequence < u.reportSequence ∧
    u.reportSequence = s.reporter.lastReportSequence
  group : ∀ group, s.consumer = .enqueueing group → ∀ message ∈ group,
    (∃ part, message = .fullState part) ∧
      Session.reportSequence message ≤ s.reporter.lastReportSequence
  known : ∀ message ∈ produced s, Session.reportSequence message ≤ s.reporter.lastReportSequence
  increasing : (produced s).Pairwise Before
  batches : ∀ u, .stateUpdates u ∈ produced s →
    0 < u.experts.length ∧ u.experts.length ≤ maxUpdates

section
variable {s s' : Session} {maxUpdates : Nat}

theorem sequenced_new (config : ManagerConfig) (maxUpdates : Nat) (hu : 0 < maxUpdates)
    (hu' : maxUpdates ≤ maxExpertsPerControlPart) (receiver : Transport.ReceiverQueue) :
    Sequenced maxUpdates (.new config maxUpdates hu hu' receiver) :=
  ⟨rfl, Nat.le_refl _, nofun, nofun, nofun, .nil, nofun⟩

theorem Sequenced.quiet (h : Sequenced maxUpdates s) (hq : Quiet s s') :
    Sequenced maxUpdates s' := by
  obtain ⟨changes, _, hr⟩ := hq.changes
  have hproduced : produced s' = produced s := by
    unfold produced
    rw [hq.enqueued, hq.updates]
  refine ⟨hr.limit.trans h.limit, ?_, fun u hu => ?_, fun group hc => ?_, ?_, ?_, ?_⟩
  · rw [hq.lastEnqueued, hr.reported]
    exact h.last
  · rw [hq.lastEnqueued, hr.reported]
    exact h.updates u (hq.updates ▸ hu)
  · rw [hr.reported]
    rcases hq.consumer with hsame | hnot
    · exact h.group group (hsame ▸ hc)
    · rw [hc] at hnot
      cases hnot
  · rw [hproduced, hr.reported]
    exact h.known
  · rw [hproduced]
    exact h.increasing
  · rw [hproduced]
    exact h.batches

/-- steps of the consumer that leave the stream alone -/
theorem Sequenced.consumer (h : Sequenced maxUpdates s) {consumer : Consumer}
    (hc : ∀ group, consumer ≠ .enqueueing group) (q : Transport.ReceiverQueue) :
    Sequenced maxUpdates { s with receiver := q, consumer := consumer } :=
  ⟨h.limit, h.last, h.updates, fun group hg => absurd hg (hc group), h.known, h.increasing,
    h.batches⟩

theorem Sequenced.observe (h : Sequenced maxUpdates s) (hs : s.observe = some s') :
    Sequenced maxUpdates s' := by
  unfold Session.observe at hs
  split at hs
  · simp only at hs
    split_ifs at hs
    · cases hs
      exact h.consumer (by rintro _ ⟨⟩) s.receiver
    · cases hs
      exact h.consumer (by rintro _ ⟨⟩) _
    · cases hs
      exact h.consumer (by rintro _ ⟨⟩) _
  · cases hs

theorem Sequenced.report (hf : Faithful s) (h : Sequenced maxUpdates s) (hs : s.report = some s') :
    Sequenced maxUpdates s' := by
  unfold Session.report at hs
  split at hs
  · rename_i generation states boundary hc
    split at hs
    · cases hs
      exact h.consumer (by rintro _ ⟨⟩) s.receiver
    · rename_i parts r heq
      cases hs
      have hr := fullStateParts_spec heq
      have hlast := h.last
      obtain ⟨hnil, hupdates⟩ := produced_nil (hf.silent (hf.reporting _ _ _ hc).1).1
      have hproduced : produced { s with
          reporter := r, consumer := .enqueueing (parts.map .fullState) } = [] := by
        show enqueued s ++ (s.updates.map WorkerWeightMessage.stateUpdates).toList = []
        rw [hnil, hupdates]
        rfl
      refine ⟨hr.limit.trans h.limit, ?_, fun u hu => ?_, fun group hg => ?_, ?_, ?_, ?_⟩
      · show s.lastEnqueuedReportSequence ≤ r.lastReportSequence
        rw [hr.reported]
        omega
      · have hu : s.updates = some u := hu
        rw [hupdates] at hu
        cases hu
      · cases hg
        intro message hm
        obtain ⟨part, hpart, rfl⟩ := List.mem_map.mp hm
        exact ⟨⟨part, rfl⟩, (hr.sequence part hpart).le⟩
      all_goals
        rw [hproduced]
      · nofun
      · exact .nil
      · nofun
  · cases hs

theorem Sequenced.enqueueFull (hf : Faithful s) (h : Sequenced maxUpdates s)
    (hs : s.enqueueFull = some s') : Sequenced maxUpdates s' := by
  unfold Session.enqueueFull at hs
  split at hs
  · rename_i group hc
    split_ifs at hs
    cases hs
    have hsilent := (hf.silent (hf.enqueueing group hc).1).1
    have hgroup := h.group group hc
    have hnot : ∀ u, .stateUpdates u ∉ group := by
      intro u hu
      obtain ⟨part, hpart⟩ := (hgroup _ hu).1
      cases hpart
    refine ⟨h.limit, ?_, fun u hu => ?_, nofun, ?_, ?_, ?_⟩
    · refine Nat.max_le.mpr ⟨h.last, Ledger.foldl_max_le.mpr ⟨Nat.zero_le _, fun x hx => ?_⟩⟩
      obtain ⟨message, hm, rfl⟩ := List.mem_map.mp hx
      exact (hgroup message hm).2
    · have hu : s.updates = some u := hu
      rw [(produced_nil hsilent).2] at hu
      cases hu
    all_goals
      rw [produced_enqueueFull hsilent]
    · exact fun message hm => (hgroup message hm).2
    · exact List.pairwise_of_forall_mem_list fun a _ b hb u hu => absurd (hu ▸ hb) (hnot u)
    · exact fun u hu => absurd hu (hnot u)
  · cases hs

theorem Sequenced.takeUpdates (hf : Faithful s) (h : Sequenced maxUpdates s)
    (hs : s.takeUpdates = some s') : Sequenced maxUpdates s' := by
  unfold Session.takeUpdates at hs
  split_ifs at hs with hguard
  rw [not_or, Bool.not_eq_false, not_not] at hguard
  obtain ⟨hsnap, hupdates⟩ := hguard
  split at hs
  · cases hs
  · rename_i updates r heq
    cases hs
    have hr := takeUpdates_spec heq
    have hlast := h.last
    have hsequence := hr.sequence
    have hreported := hr.reported
    refine ⟨hr.limit.trans h.limit, ?_, fun u hu => ?_, fun group hc => ?_, ?_, ?_, ?_⟩
    · show s.lastEnqueuedReportSequence ≤ r.lastReportSequence
      omega
    · cases hu
      exact ⟨by show s.lastEnqueuedReportSequence < _; omega, hreported.symm⟩
    · rw [(hf.enqueueing group hc).1] at hsnap
      cases hsnap
    all_goals
      rw [produced_takeUpdates hupdates]
    · intro message hm
      show Session.reportSequence message ≤ r.lastReportSequence
      rcases List.mem_append.mp hm with hm | hm
      · have hknown := h.known message hm
        omega
      · rw [List.mem_singleton.mp hm]
        exact hreported.ge
    · refine List.pairwise_append.mpr ⟨h.increasing, List.pairwise_singleton _ _, ?_⟩
      intro a ha b hb u hu
      rw [List.mem_singleton.mp hb] at hu
      cases hu
      have hknown := h.known a ha
      omega
    · intro u hu
      rcases List.mem_append.mp hu with hu | hu
      · exact h.batches u hu
      · cases List.mem_singleton.mp hu
        exact ⟨hr.count.1, h.limit ▸ hr.count.2⟩

theorem Sequenced.enqueueUpdates (h : Sequenced maxUpdates s) (hs : s.enqueueUpdates = some s') :
    Sequenced maxUpdates s' := by
  unfold Session.enqueueUpdates at hs
  split at hs
  · cases hs
  · rename_i updates hupdates
    split_ifs at hs
    cases hs
    refine ⟨h.limit, ?_, nofun, h.group, ?_, ?_, ?_⟩
    · refine Nat.max_le.mpr ⟨h.last, ?_⟩
      have hsequence := (h.updates updates hupdates).2
      show max 0 updates.reportSequence ≤ s.reporter.lastReportSequence
      omega
    all_goals
      rw [produced_enqueueUpdates hupdates]
    · exact h.known
    · exact h.increasing
    · exact h.batches

theorem Sequenced.completions (h : Sequenced maxUpdates s)
    (hs : s.collectCompletions = some s' ∨ s.flushCompletions = some s' ∨
      s.awaitCompletions = some s' ∨ s.putCompletions = some s') : Sequenced maxUpdates s' := by
  obtain ⟨_, completions, sent, outbound, drainIds, rfl, hout⟩ := pump_cases hs
  have hproduced : produced { s with
      outbound := outbound, completions := completions, sentCompletions := sent }
        = enqueued s ++ drainIds.map .drainComplete
          ++ (s.updates.map WorkerWeightMessage.stateUpdates).toList := by
    unfold produced
    rw [enqueued_pump hout]
  have hmem : ∀ message ∈ enqueued s ++ drainIds.map .drainComplete
      ++ (s.updates.map WorkerWeightMessage.stateUpdates).toList,
      message ∈ produced s ∨ ∃ drainId, message = .drainComplete drainId := by
    intro message hm
    rcases List.mem_append.mp hm with hm | hm
    · rcases List.mem_append.mp hm with hm | hm
      · exact .inl (List.mem_append_left _ hm)
      · obtain ⟨drainId, _, rfl⟩ := List.mem_map.mp hm
        exact .inr ⟨drainId, rfl⟩
    · exact .inl (List.mem_append_right _ hm)
  have hcompletion : ∀ b ∈ drainIds.map WorkerWeightMessage.drainComplete, ∀ a, Before a b := by
    intro b hb a u hu
    obtain ⟨drainId, _, rfl⟩ := List.mem_map.mp hb
    cases hu
  refine ⟨h.limit, h.last, h.updates, h.group, ?_, ?_, ?_⟩ <;> rw [hproduced]
  · intro message hm
    rcases hmem message hm with hm | ⟨drainId, rfl⟩
    · exact h.known message hm
    · exact Nat.zero_le _
  · obtain ⟨henqueued, hupdates, hcross⟩ := List.pairwise_append.mp h.increasing
    refine List.pairwise_append.mpr ⟨List.pairwise_append.mpr ⟨henqueued,
      List.pairwise_of_forall_mem_list fun a _ b hb => hcompletion b hb a,
      fun a _ b hb => hcompletion b hb a⟩, hupdates, fun a ha b hb u hu => ?_⟩
    rcases List.mem_append.mp ha with ha | ha
    · exact hcross a ha b hb u hu
    · -- a completion has no sequence, and the update has one
      obtain ⟨drainId, _, rfl⟩ := List.mem_map.mp ha
      have hu' : s.updates = some u := by
        rw [Option.mem_toList, Option.map_eq_some_iff] at hb
        obtain ⟨u', hu', rfl⟩ := hb
        cases hu
        exact hu'
      exact Nat.zero_lt_of_lt (h.updates u hu').1
  · intro u hu
    rcases hmem _ hu with hu | ⟨drainId, hu⟩
    · exact h.batches u hu
    · cases hu

theorem Sequenced.reconnect (h : Sequenced maxUpdates s) : Sequenced maxUpdates s.reconnect :=
  ⟨h.limit, h.last, nofun, nofun, nofun, .nil, nofun⟩

theorem Sequenced.step {l : Label} (hset : Setting s) (hf : Faithful s) (h : Sequenced maxUpdates s)
    (hs : step s l = some s') : Sequenced maxUpdates s' := by
  cases l with
  | observe => exact h.observe hs
  | report => exact h.report hf hs
  | enqueueFull => exact h.enqueueFull hf hs
  | takeUpdates => exact h.takeUpdates hf hs
  | enqueueUpdates => exact h.enqueueUpdates hs
  | collectCompletions => exact h.completions (.inl hs)
  | flushCompletions => exact h.completions (.inr (.inl hs))
  | awaitCompletions => exact h.completions (.inr (.inr (.inl hs)))
  | putCompletions => exact h.completions (.inr (.inr (.inr hs)))
  | reconnect =>
    cases hs
    exact h.reconnect
  | _ => exact h.quiet ((step_ok hset hs).quiet rfl)
end

/-! ## runs -/

/-- what every state reached has -/
structure Reporting (maxUpdates : Nat) (s : Session) : Prop where
  setting : Setting s
  faithful : Faithful s
  sequenced : Sequenced maxUpdates s

theorem Reporting.step {maxUpdates : Nat} {s s' : Session} {l : Label} (h : Reporting maxUpdates s)
    (hs : step s l = some s') : Reporting maxUpdates s' :=
  ⟨(step_ok h.setting hs).setting, h.faithful.step h.setting hs,
    h.sequenced.step h.setting h.faithful hs⟩

/-- the states that a session reaches, over any number of streams -/
def Reaches (start s : Session) : Prop := Steps.Reach step (fun _ _ => True) start s

/-- whether the expert is READY by the pending change, or else by the records of the stream -/
def readyByReports (s : Session) (k : ExpertKey) : Bool :=
  match s.reporter.pending[k]? with
  | some p => decide (p.change.state = .ready)
  | none => recordsReady (produced s) k

section
variable {config : ManagerConfig} {maxUpdates : Nat} {hu : 0 < maxUpdates}
  {hu' : maxUpdates ≤ maxExpertsPerControlPart} {receiver : Transport.ReceiverQueue} {s : Session}

theorem reporting_new (config : ManagerConfig) (maxUpdates : Nat) (hu : 0 < maxUpdates)
    (hu' : maxUpdates ≤ maxExpertsPerControlPart) (receiver : Transport.ReceiverQueue) :
    Reporting maxUpdates (.new config maxUpdates hu hu' receiver) :=
  ⟨setting_new config maxUpdates hu hu' receiver, faithful_new config maxUpdates hu hu' receiver,
    sequenced_new config maxUpdates hu hu' receiver⟩

theorem reaches_reporting (h : Reaches (.new config maxUpdates hu hu' receiver) s) :
    Reporting maxUpdates s :=
  Steps.Reach.invariant (P := Reporting maxUpdates) h
    (reporting_new config maxUpdates hu hu' receiver) fun _ _ _ hinv _ hs => hinv.step hs

/-- once the snapshot of a stream is queued, its messages and the pending changes together tell
exactly the READY experts of the Manager -/
theorem Reporting.ready (h : Reporting maxUpdates s) (hready : s.snapshotReady = true)
    (k : ExpertKey) : readyByReports s k = true ↔ k ∈ s.manager.readyKeys := by
  rw [h.setting.manager.ready_iff]
  unfold readyByReports
  split
  · rename_i p hp
    rw [decide_eq_true_eq]
    exact (h.faithful.pending k p hp).2.2
  · rename_i hnone
    rcases h.faithful.told hready k with ⟨p, hp⟩ | htold
    · rw [hnone] at hp
      cases hp
    · exact htold

/-- over every interleaving and any number of streams: once the snapshot of the stream is queued,
its messages, where the last state of an expert wins, and the pending changes over them tell exactly
the READY experts; and on every stream each update has a later sequence than all messages before it,
and names at least one and at most `maxUpdates` experts -/
theorem reports_faithful (h : Reaches (.new config maxUpdates hu hu' receiver) s) :
    (s.snapshotReady = true →
      ∀ k, readyByReports s k = true ↔ k ∈ s.manager.readyKeys) ∧
    (produced s).Pairwise Before ∧
    ∀ u, .stateUpdates u ∈ produced s → 0 < u.experts.length ∧ u.experts.length ≤ maxUpdates := by
  have hinv := reaches_reporting h
  exact ⟨hinv.ready, hinv.sequenced.increasing, hinv.sequenced.batches⟩
end

namespace Reported
open Small

/-- the snapshot is queued; one loaded expert is in an update not yet queued, the other pending -/
def heldAndPending : List Label :=
  openWith 1 [0, 1] ++ [.finishReady ⟨0, 0⟩, .takeUpdates, .finishReady ⟨0, 1⟩]

end Reported

theorem reports_faithful_heldAndPending :
    ∃ s, Reaches Small.start.session s ∧ s.updates.isSome = true ∧
      s.reporter.pending.contains ⟨0, 1⟩ = true ∧ s.snapshotReady = true ∧
      ∀ k, readyByReports s k = true ↔ k ∈ s.manager.readyKeys := by
  have hrun : (Steps.run step (fun _ _ => true) Small.start.session Reported.heldAndPending).any
      (fun s => s.updates.isSome && (s.reporter.pending.contains ⟨0, 1⟩ && s.snapshotReady))
        = true := by decide +kernel
  obtain ⟨s, hs, hcond⟩ := (Option.any_eq_true _ _).mp hrun
  rw [Bool.and_eq_true, Bool.and_eq_true] at hcond
  have hreach : Reaches Small.start.session s :=
    (Steps.Reach.refl.of_run hs).mono fun _ _ _ => trivial
  exact ⟨s, hreach, hcond.1, hcond.2.1, hcond.2.2, (reports_faithful hreach).1 hcond.2.2⟩

end ExpertKit.Control

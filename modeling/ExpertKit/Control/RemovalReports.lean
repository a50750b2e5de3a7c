import ExpertKit.Control.StateReports

/-!
# Control: removals are reported before their completion

Over every interleaving of the session and any number of streams: on the stream that carries the
completion of a drain, the messages before it tell for every expert a state of the Manager at or
after the removal of that drain.

* `Books`            what a step does to the drains that have removed their experts;
* `RemovedFor`       the removal of a drain is a label of the run;
* `Reflects`         messages that tell for each expert a state after one of its later prefixes;
* `removal_before_completion`   the completions at the end of every run.
-/

set_option linter.unusedSectionVars false

namespace ExpertKit.Control
open Std
open Worker Worker.WeightManager Worker.ExpertStateReporter

/-! ## drains that have removed their experts -/

/-- the removal was performed -/
def hasRemoved : DrainPhase → Bool
  | .removed => true
  | .flushed _ => true
  | _ => false

/-- only a removal lets a drain end, and only such a drain is completed -/
structure Books (s s' : Session) (l : Label) : Prop where
  ended : ∀ (id : Nat) (drain : ActiveDrain), s'.activeDrains[id]? = some drain →
    hasRemoved drain.phase = true →
    (∃ old, s.activeDrains[id]? = some old ∧ old.authorization = drain.authorization ∧
      hasRemoved old.phase = true) ∨
    l = .finishRemoval id ∧ ∃ request,
      s.activeDrains[id]? = some ⟨drain.authorization, .withdrawing request⟩
  completed : ∀ authorization ∈ s'.completedDrains, authorization ∈ s.completedDrains ∨
    ∃ old : ActiveDrain, s.activeDrains[authorization.drainId]? = some old ∧
      old.authorization = authorization ∧ hasRemoved old.phase = true

section
variable {s s' : Session} {l : Label} {id : Nat}

theorem Books.sub (hc : s'.completedDrains = s.completedDrains)
    (ha : ∀ (id : Nat) (drain : ActiveDrain), s'.activeDrains[id]? = some drain →
      s.activeDrains[id]? = some drain ∨ hasRemoved drain.phase = false) :
    Books s s' l := by
  refine ⟨fun id drain hd hended => ?_, fun authorization ha => .inl (hc ▸ ha)⟩
  rcases ha id drain hd with hd | hnot
  · exact .inl ⟨drain, hd, rfl, hended⟩
  · rw [hended] at hnot
    cases hnot

theorem Books.same (hc : s'.completedDrains = s.completedDrains)
    (ha : s'.activeDrains = s.activeDrains) : Books s s' l :=
  .sub hc fun _ _ hd => .inl (ha ▸ hd)

theorem Books.erase (hc : s'.completedDrains = s.completedDrains)
    (ha : s'.activeDrains = s.activeDrains.erase id) : Books s s' l := by
  refine .sub hc fun id' drain hd => .inl ?_
  rw [ha, Maps.getElem?_erase_eq] at hd
  split_ifs at hd
  exact hd

theorem Books.insert {drain : ActiveDrain} (hnot : hasRemoved drain.phase = false)
    (hc : s'.completedDrains = s.completedDrains)
    (ha : s'.activeDrains = s.activeDrains.insert id drain) : Books s s' l := by
  refine .sub hc fun id' d hd => ?_
  rw [ha, Maps.getElem?_insert_eq] at hd
  split_ifs at hd
  · cases hd
    exact .inr hnot
  · exact .inl hd

theorem Books.endSuperseded (s : Session) (drain : ActiveDrain) :
    Books s (s.endSuperseded drain) l := by
  obtain ⟨superseded, error, heq⟩ := endSuperseded_cases s drain
  rw [heq]
  exact .erase rfl rfl

theorem Books.receive {message : ControllerWeightMessage} (hs : s.receive message = some s') :
    Books s s' l := by
  unfold Session.receive at hs
  split_ifs at hs
  cases message with
  | targets part =>
    simp only at hs
    split at hs <;> cases hs <;> exact .same rfl rfl
  | stateAck reportSequence =>
    simp only at hs
    split at hs <;> cases hs <;> exact .same rfl rfl
  | drain part =>
    simp only at hs
    split at hs
    · cases hs
      exact .same rfl rfl
    · cases hs
      exact .same rfl rfl
    · split at hs
      · cases hs
        exact .same rfl rfl
      · rename_i s'' hstart
        cases hs
        rcases startDrain_cases hstart with ⟨superseded, rfl⟩ | ⟨_, _, rfl⟩
        · exact .same rfl rfl
        · exact .insert rfl rfl rfl
  | unset =>
    cases hs
    exact .same rfl rfl

theorem Books.lockTransition (hs : s.lockTransition = some s') : Books s s' l := by
  unfold Session.lockTransition at hs
  split at hs
  · rename_i placement _
    split_ifs at hs
    · obtain ⟨superseded, active, heq, hactive⟩ := supersedeAll_cases
        placement.placementGeneration (Maps.values s.activeDrains) s
      have hsub : ∀ (id : Nat) (drain : ActiveDrain), active[id]? = some drain →
          s.activeDrains[id]? = some drain ∨ hasRemoved drain.phase = false := by
        intro id drain hd
        refine (hactive id drain hd).imp_right fun hcancelled => ?_
        rw [hcancelled.1]
        rfl
      split at hs
      all_goals
        rename_i hall
        cases hs
        rw [hall] at heq
        obtain rfl := show _ = _ from heq
        exact .sub rfl hsub
    · cases hs
      exact .same rfl rfl
  · cases hs

/-- one phase after another -/
theorem Books.advance {authorization : DrainAuthorization} {before after : DrainPhase}
    (hset : Setting s) (hd : s.activeDrains[id]? = some ⟨authorization, before⟩)
    (hended : hasRemoved after = true → hasRemoved before = true)
    (hc : s'.completedDrains = s.completedDrains)
    (ha : s'.activeDrains = s.activeDrains.insert authorization.drainId ⟨authorization, after⟩) :
    Books s s' l := by
  have hid : authorization.drainId = id := hset.drains.keyed id _ hd
  refine ⟨fun id' d hd' hended' => ?_, fun a hmem => .inl (hc ▸ hmem)⟩
  rw [ha, Maps.getElem?_insert_eq] at hd'
  split_ifs at hd' with heq
  · cases hd'
    rw [← heq, hid]
    exact .inl ⟨_, hd, rfl, hended hended'⟩
  · exact .inl ⟨d, hd', rfl, hended'⟩

theorem Books.applyTargets (hs : s.applyTargets = some s') : Books s s' l := by
  unfold Session.applyTargets at hs
  split at hs
  · split at hs
    · cases hs
      exact .same rfl rfl
    · simp only at hs
      split_ifs at hs <;> cases hs <;> exact .same rfl rfl
  · cases hs

theorem Books.observe (hs : s.observe = some s') : Books s s' l := by
  unfold Session.observe at hs
  split at hs
  · simp only at hs
    split_ifs at hs <;> cases hs <;> exact .same rfl rfl
  · cases hs

theorem Books.report (hs : s.report = some s') : Books s s' l := by
  unfold Session.report at hs
  split at hs
  · split at hs <;> cases hs <;> exact .same rfl rfl
  · cases hs

theorem Books.enqueueFull (hs : s.enqueueFull = some s') : Books s s' l := by
  unfold Session.enqueueFull at hs
  split at hs
  · split_ifs at hs
    cases hs
    exact .same rfl rfl
  · cases hs

theorem Books.takeUpdates (hs : s.takeUpdates = some s') : Books s s' l := by
  unfold Session.takeUpdates at hs
  split_ifs at hs
  split at hs <;> cases hs
  exact .same rfl rfl

theorem Books.enqueueUpdates (hs : s.enqueueUpdates = some s') : Books s s' l := by
  unfold Session.enqueueUpdates at hs
  split at hs
  · cases hs
  · split_ifs at hs
    cases hs
    exact .same rfl rfl

theorem Books.completions (hs : s.collectCompletions = some s' ∨ s.flushCompletions = some s' ∨
    s.awaitCompletions = some s' ∨ s.putCompletions = some s') : Books s s' l := by
  obtain ⟨_, completions, sent, outbound, drainIds, rfl, _⟩ := pump_cases hs
  exact .same rfl rfl

theorem Books.stream (hs : s.dequeue = some s' ∨ s.send = some s') : Books s s' l := by
  rcases hs with hs | hs
  · unfold Session.dequeue at hs
    split at hs <;> cases hs
    exact .same rfl rfl
  · unfold Session.send at hs
    split at hs <;> cases hs
    exact .same rfl rfl

theorem Books.beginDrain (hs : s.beginDrain id = some s') : Books s s' l := by
  unfold Session.beginDrain at hs
  split at hs
  · split_ifs at hs
    · cases hs
      exact .endSuperseded s _
    · split at hs
      · cases hs
        exact .erase rfl rfl
      · cases hs
        exact .insert rfl rfl rfl
  · cases hs

theorem Books.waitIdle (hs : s.waitIdle id = some s') : Books s s' l := by
  unfold Session.waitIdle at hs
  split at hs
  · split_ifs at hs
    cases hs
    exact .insert rfl rfl rfl
  · cases hs

theorem Books.expire (hs : s.expire id = some s') : Books s s' l := by
  unfold Session.expire at hs
  split at hs
  · split_ifs at hs
    cases hs
    exact .erase rfl rfl
  · cases hs

theorem Books.startRemoval (hs : s.startRemoval id = some s') : Books s s' l := by
  unfold Session.startRemoval at hs
  split at hs
  · split_ifs at hs
    · cases hs
      exact .endSuperseded s _
    · split at hs
      · cases hs
        exact .erase rfl rfl
      · cases hs
        exact .insert rfl rfl rfl
  · cases hs

theorem Books.beginWithdrawal (hs : s.beginWithdrawal id = some s') : Books s s' l := by
  unfold Session.beginWithdrawal at hs
  split at hs
  · split at hs
    · cases hs
      exact .erase rfl rfl
    · split_ifs at hs
      · cases hs
        exact .endSuperseded s _
      · cases hs
        exact .erase rfl rfl
    · cases hs
      exact .insert rfl rfl rfl
  · cases hs

/-- the one step that performs a removal -/
theorem Books.finishRemoval (hset : Setting s) (hs : s.finishRemoval id = some s') :
    Books s s' (.finishRemoval id) := by
  unfold Session.finishRemoval at hs
  split at hs
  · rename_i authorization request hd
    have hid : authorization.drainId = id := hset.drains.keyed id _ hd
    cases hs
    refine ⟨fun id' drain hd' hended => ?_, fun a ha => .inl ha⟩
    change (s.activeDrains.insert authorization.drainId ⟨authorization, .removed⟩)[id']?
      = some drain at hd'
    rw [Maps.getElem?_insert_eq] at hd'
    split_ifs at hd' with heq
    · cases hd'
      rw [← heq, hid]
      exact .inr ⟨rfl, request, hd⟩
    · exact .inl ⟨drain, hd', rfl, hended⟩
  · cases hs

theorem Books.flushDrain (hset : Setting s) (hs : s.flushDrain id = some s') : Books s s' l := by
  unfold Session.flushDrain at hs
  split at hs
  · rename_i authorization hd
    split_ifs at hs
    cases hs
    exact .advance hset hd (fun _ => rfl) rfl rfl
  · cases hs

theorem mem_putDrain {drains : List DrainAuthorization} {authorization a : DrainAuthorization}
    (h : a ∈ Session.putDrain drains authorization) : a ∈ drains ∨ a = authorization := by
  unfold Session.putDrain at h
  split_ifs at h
  · obtain ⟨drain, hdrain, heq⟩ := List.mem_map.mp h
    split_ifs at heq
    · exact .inr heq.symm
    · exact .inl (heq ▸ hdrain)
  · exact (List.mem_append.mp h).imp_right List.mem_singleton.mp

theorem mem_makeRoom {drains : List DrainAuthorization} {a : DrainAuthorization}
    (h : a ∈ Session.makeRoom drains) : a ∈ drains := by
  unfold Session.makeRoom at h
  split_ifs at h
  · exact List.mem_of_mem_tail h
  · exact h

theorem Books.completeDrain (hset : Setting s) (hs : s.completeDrain id = some s') :
    Books s s' l := by
  unfold Session.completeDrain at hs
  split at hs
  · rename_i authorization sequence hd
    have hid : authorization.drainId = id := hset.drains.keyed id _ hd
    split_ifs at hs
    cases hs
    refine ⟨fun id' drain hd' hended => .inl ⟨drain, ?_, rfl, hended⟩, fun a ha => ?_⟩
    · change (s.activeDrains.erase authorization.drainId)[id']? = some drain at hd'
      rw [Maps.getElem?_erase_eq] at hd'
      split_ifs at hd'
      exact hd'
    · rcases mem_putDrain ha with ha | rfl
      · exact .inl (mem_makeRoom ha)
      · exact .inr ⟨_, hid ▸ hd, rfl, rfl⟩
  · cases hs

theorem Books.load {result : WeightManager × List ExpertStateChange}
    (hs : s.load result = some s') : Books s s' l := by
  unfold Session.load at hs
  split_ifs at hs
  cases hs
  exact .same rfl rfl

theorem step_books (hset : Setting s) (hs : step s l = some s') : Books s s' l := by
  cases l with
  | receive message => exact .receive hs
  | lockTransition => exact .lockTransition hs
  | applyTargets => exact .applyTargets hs
  | observe => exact .observe hs
  | report => exact .report hs
  | enqueueFull => exact .enqueueFull hs
  | takeUpdates => exact .takeUpdates hs
  | enqueueUpdates => exact .enqueueUpdates hs
  | collectCompletions => exact .completions (.inl hs)
  | flushCompletions => exact .completions (.inr (.inl hs))
  | awaitCompletions => exact .completions (.inr (.inr (.inl hs)))
  | putCompletions => exact .completions (.inr (.inr (.inr hs)))
  | dequeue => exact .stream (.inl hs)
  | send => exact .stream (.inr hs)
  | reconnect =>
    cases hs
    exact .same rfl rfl
  | beginDrain id => exact .beginDrain hs
  | waitIdle id => exact .waitIdle hs
  | expire id => exact .expire hs
  | startRemoval id => exact .startRemoval hs
  | beginWithdrawal id => exact .beginWithdrawal hs
  | finishRemoval id => exact .finishRemoval hset hs
  | flushDrain id => exact .flushDrain hset hs
  | completeDrain id => exact .completeDrain hset hs
  | reap id =>
    change s.reap id = some s' at hs
    unfold Session.reap at hs
    split at hs <;> cases hs
    exact .erase rfl rfl
  | finishReady key => exact .load hs
  | finishFailure key failure => exact .load hs
  | loadEnded key cancelled => exact .load hs
  | beginShutdown =>
    change s.beginShutdown = some s' at hs
    unfold Session.beginShutdown at hs
    split_ifs at hs
    cases hs
    exact .same rfl rfl
  | admitBatch item layerId expertIds bytes =>
    cases hs
    exact .same rfl rfl
  | take =>
    cases hs
    exact .same rfl rfl
  | cancelWaiting item =>
    cases hs
    exact .same rfl rfl
  | finish item =>
    cases hs
    exact .same rfl rfl
end

/-! ## what the messages tell -/

/-- the labels lead from the start to the state -/
abbrev Ran (start : Session) (ls : List Label) (s : Session) : Prop :=
  Steps.run step (fun _ _ => true) start ls = some s

/-- the messages tell for each expert its state after some prefix of the run, from `n` labels on -/
def Reflects (start : Session) (ls : List Label) (n : Nat) (messages : List WorkerWeightMessage) :
    Prop :=
  ∀ k, ∃ m x, n ≤ m ∧ m ≤ ls.length ∧ Ran start (ls.take m) x ∧
    (recordsReady messages k = true ↔ x.manager.Ready k)

/-- a label of the run is the removal of the drain, and what follows it has the property -/
def RemovedFor (start : Session) (ls : List Label) (authorization : DrainAuthorization)
    (P : Nat → Prop) : Prop :=
  ∃ request n s₁ s₂, ls[n]? = some (.finishRemoval authorization.drainId) ∧
    Ran start (ls.take n) s₁ ∧ Ran start (ls.take (n + 1)) s₂ ∧
    s₁.activeDrains[authorization.drainId]? = some ⟨authorization, .withdrawing request⟩ ∧
    (∀ k ∈ authorization.experts, k ∉ s₂.manager.readyKeys) ∧ P (n + 1)

/-- the same for some drain of that id -/
def RemovedBefore (start : Session) (ls : List Label) (drainId : Nat) (P : Nat → Prop) : Prop :=
  ∃ authorization : DrainAuthorization, authorization.drainId = drainId ∧
    RemovedFor start ls authorization P

section
variable {start s s' : Session} {ls : List Label} {l : Label} {n : Nat} {P Q : Nat → Prop}

theorem Ran.next (h : Ran start ls s) (hs : step s l = some s') : Ran start (ls ++ [l]) s' := by
  unfold Ran at h ⊢
  rw [Steps.run_append, h, Option.bind_some, Steps.run, if_pos rfl, hs]
  rfl

theorem take_next (hn : n ≤ ls.length) : (ls ++ [l]).take n = ls.take n :=
  List.take_append_of_le_length hn

theorem Reflects.next {messages : List WorkerWeightMessage} (h : Reflects start ls n messages) :
    Reflects start (ls ++ [l]) n messages := by
  intro k
  obtain ⟨m, x, hn, hm, hx, htell⟩ := h k
  refine ⟨m, x, hn, ?_, ?_, htell⟩
  · rw [List.length_append]
    omega
  · rwa [take_next hm]

/-- more messages that are right about the experts they name -/
theorem Reflects.append {messages more : List WorkerWeightMessage} (hran : Ran start ls s)
    (hn : n ≤ ls.length) (h : Reflects start ls n messages)
    (hmore : ∀ state ∈ more.flatMap Session.reportedStates,
      (state.isReady = true ↔ s.manager.Ready state.key)) :
    Reflects start ls n (messages ++ more) := by
  intro k
  obtain ⟨m, x, h1, h2, h3, h4⟩ := h k
  rcases @recordsReady_append messages more k (s.manager.Ready k)
    (fun state hin hk => hk ▸ hmore state hin) with heq | ⟨_, hsame⟩
  · refine ⟨ls.length, s, hn, Nat.le_refl _, ?_, heq⟩
    rwa [List.take_length]
  · exact ⟨m, x, h1, h2, h3, hsame ▸ h4⟩

theorem RemovedFor.next {authorization : DrainAuthorization}
    (h : RemovedFor start ls authorization P)
    (hP : ∀ n, n ≤ (ls ++ [l]).length → P n → Q n) :
    RemovedFor start (ls ++ [l]) authorization Q := by
  obtain ⟨request, n, s₁, s₂, h1, h2, h3, h4, h5, h6⟩ := h
  have hn : n < ls.length := (List.getElem?_eq_some_iff.mp h1).1
  refine ⟨request, n, s₁, s₂, ?_, ?_, ?_, h4, h5, hP _ ?_ h6⟩
  · rwa [List.getElem?_append_left hn]
  · rwa [take_next hn.le]
  · rwa [take_next hn]
  · rw [List.length_append]
    omega

theorem RemovedBefore.next {drainId : Nat} (h : RemovedBefore start ls drainId P)
    (hP : ∀ n, n ≤ (ls ++ [l]).length → P n → Q n) :
    RemovedBefore start (ls ++ [l]) drainId Q := by
  obtain ⟨authorization, hid, hr⟩ := h
  exact ⟨authorization, hid, hr.next hP⟩
end

/-! ## completions -/

/-- every completion under way is of a removal in the past; once the reports before it were flushed,
the messages of the stream tell states after the removal -/
structure Completing (start : Session) (ls : List Label) (s : Session) : Prop where
  removed : ∀ (id : Nat) (drain : ActiveDrain), s.activeDrains[id]? = some drain →
    hasRemoved drain.phase = true → RemovedFor start ls drain.authorization fun _ => True
  completed : ∀ authorization ∈ s.completedDrains,
    RemovedFor start ls authorization fun _ => True
  flushing : ∀ drainIds, s.completions = .flushing drainIds → ∀ drainId ∈ drainIds,
    RemovedBefore start ls drainId fun _ => True
  /-- the reports may still wait for room in the queue -/
  awaiting : ∀ drainIds sequence, s.completions = .awaiting drainIds sequence →
    ∀ drainId ∈ drainIds, RemovedBefore start ls drainId fun n => Reflects start ls n (produced s) ∧
      (s.lastEnqueuedReportSequence < sequence ∨ Reflects start ls n (enqueued s))
  putting : ∀ drainIds, s.completions = .putting drainIds → ∀ drainId ∈ drainIds,
    RemovedBefore start ls drainId fun n =>
      Reflects start ls n (produced s) ∧ Reflects start ls n (enqueued s)
  sent : ∀ i drainId, (enqueued s)[i]? = some (.drainComplete drainId) →
    RemovedBefore start ls drainId fun n => Reflects start ls n ((enqueued s).take i)

theorem completing_new (config : ManagerConfig) (maxUpdates : Nat) (hu : 0 < maxUpdates)
    (hu' : maxUpdates ≤ maxExpertsPerControlPart) (receiver : Transport.ReceiverQueue)
    (start : Session) : Completing start [] (.new config maxUpdates hu hu' receiver) := by
  refine ⟨fun id drain hd => ?_, nofun, nofun, nofun, nofun, fun i drainId h => ?_⟩
  · exact absurd hd (by simp [Session.new])
  · exact absurd h (by simp [enqueued, Session.new])

section
variable {start s s' : Session} {ls : List Label} {l : Label} {maxUpdates : Nat}

/-- drains that removed their experts did so in the past -/
theorem Completing.books (hran : Ran start ls s) (hset : Setting s) (h : Completing start ls s)
    (hs : step s l = some s') :
    (∀ (id : Nat) (drain : ActiveDrain), s'.activeDrains[id]? = some drain →
      hasRemoved drain.phase = true →
        RemovedFor start (ls ++ [l]) drain.authorization fun _ => True) ∧
    ∀ authorization ∈ s'.completedDrains,
      RemovedFor start (ls ++ [l]) authorization fun _ => True := by
  have hbooks := step_books hset hs
  refine ⟨fun id drain hd hended => ?_, fun authorization ha => ?_⟩
  · rcases hbooks.ended id drain hd hended with ⟨old, hold, hauth, hended⟩ | ⟨rfl, request, hold⟩
    · exact hauth ▸ (h.removed id old hold hended).next fun _ _ hr => hr
    · have hid : drain.authorization.drainId = id :=
        hset.drains.keyed id ⟨drain.authorization, .withdrawing request⟩ hold
      subst hid
      refine ⟨request, ls.length, s, s', List.getElem?_concat_length, ?_, ?_, hold, fun k hk => ?_,
        trivial⟩
      · rwa [List.take_left]
      · rw [List.take_of_length_le (by simp)]
        exact hran.next hs
      have hok := hset.drains.removal _ _ request hold (.inr rfl)
      change s.finishRemoval drain.authorization.drainId = some s' at hs
      unfold Session.finishRemoval at hs
      rw [hold] at hs
      cases hs
      intro hready
      exact (((s.manager.finishRemoval_spec request).2.1 k).mp hready).2 ((hok.keys k).mpr hk)
  · rcases hbooks.completed authorization ha with ha | ⟨old, hold, rfl, hended⟩
    · exact (h.completed authorization ha).next fun _ _ hr => hr
    · exact (h.removed _ old hold hended).next fun _ _ hr => hr

/-- steps that leave the stream and the completion pump alone -/
theorem Completing.still (hran : Ran start ls s) (hset : Setting s) (h : Completing start ls s)
    (hs : step s l = some s') (hq : enqueued s' = enqueued s) (hp : produced s' = produced s)
    (hc : s'.completions = s.completions)
    (hl : s'.lastEnqueuedReportSequence = s.lastEnqueuedReportSequence) :
    Completing start (ls ++ [l]) s' := by
  obtain ⟨hremoved, hcompleted⟩ := h.books hran hset hs
  refine ⟨hremoved, hcompleted, ?_, ?_, ?_, ?_⟩
  · rw [hc]
    exact fun drainIds hd drainId hm => (h.flushing drainIds hd drainId hm).next fun _ _ hr => hr
  · rw [hc, hq, hp, hl]
    refine fun drainIds sequence hd drainId hm =>
      (h.awaiting drainIds sequence hd drainId hm).next fun _ _ hr => ?_
    exact ⟨hr.1.next, hr.2.imp_right fun hr => hr.next⟩
  · rw [hc, hq, hp]
    exact fun drainIds hd drainId hm => (h.putting drainIds hd drainId hm).next
      fun _ _ hr => ⟨hr.1.next, hr.2.next⟩
  · rw [hq]
    exact fun i drainId hi => (h.sent i drainId hi).next fun _ _ hr => hr.next

/-- nothing was put in the stream, and the completion pump has not started -/
theorem Completing.silent (hran : Ran start ls s) (hset : Setting s) (h : Completing start ls s)
    (hs : step s l = some s') (hc : s'.completions = .waiting)
    (hq : ∀ drainId, .drainComplete drainId ∉ enqueued s') : Completing start (ls ++ [l]) s' := by
  obtain ⟨hremoved, hcompleted⟩ := h.books hran hset hs
  refine ⟨hremoved, hcompleted, ?_, ?_, ?_, fun i drainId hi => ?_⟩
  · rw [hc]
    nofun
  · rw [hc]
    nofun
  · rw [hc]
    nofun
  · exact absurd (List.mem_of_getElem? hi) (hq drainId)

theorem Completing.observe (hran : Ran start ls s) (hset : Setting s) (h : Completing start ls s)
    (hs : s.observe = some s') : Completing start (ls ++ [.observe]) s' := by
  have hstep : step s .observe = some s' := hs
  unfold Session.observe at hs
  split at hs
  · simp only at hs
    split_ifs at hs <;> cases hs <;> exact h.still hran hset hstep rfl rfl rfl rfl
  · cases hs

theorem Completing.report (hran : Ran start ls s) (hset : Setting s) (h : Completing start ls s)
    (hs : s.report = some s') : Completing start (ls ++ [.report]) s' := by
  have hstep : step s .report = some s' := hs
  unfold Session.report at hs
  split at hs
  · split at hs <;> cases hs <;> exact h.still hran hset hstep rfl rfl rfl rfl
  · cases hs

theorem Completing.enqueueFull (hran : Ran start ls s) (hinv : Reporting maxUpdates s)
    (h : Completing start ls s) (hs : s.enqueueFull = some s') :
    Completing start (ls ++ [.enqueueFull]) s' := by
  have hstep : step s .enqueueFull = some s' := hs
  unfold Session.enqueueFull at hs
  split at hs
  · rename_i group hc
    split_ifs at hs
    cases hs
    obtain ⟨hsilent, hwaiting⟩ := hinv.faithful.silent (hinv.faithful.enqueueing group hc).1
    refine h.silent hran hinv.setting hstep hwaiting fun drainId hm => ?_
    have hgroup : WorkerWeightMessage.drainComplete drainId ∈ group := by
      rw [← produced_enqueueFull hsilent group]
      exact List.mem_append_left _ hm
    obtain ⟨part, hpart⟩ := (hinv.sequenced.group group hc _ hgroup).1
    cases hpart
  · cases hs

theorem Completing.takeUpdates (hran : Ran start ls s) (hinv : Reporting maxUpdates s)
    (h : Completing start ls s) (hs : s.takeUpdates = some s') :
    Completing start (ls ++ [.takeUpdates]) s' := by
  have hstep : step s .takeUpdates = some s' := hs
  obtain ⟨hremoved, hcompleted⟩ := h.books hran hinv.setting hstep
  unfold Session.takeUpdates at hs
  split_ifs at hs with hguard
  rw [not_or, Bool.not_eq_false, not_not] at hguard
  split at hs
  · cases hs
  · rename_i updates r heq
    cases hs
    have htaken := hinv.faithful.taken heq
    have hproduced := produced_takeUpdates hguard.2 r updates
    refine ⟨hremoved, hcompleted, fun drainIds hd drainId hm => ?_,
      fun drainIds sequence hd drainId hm => ?_, fun drainIds hd drainId hm => ?_,
      fun i drainId hi => ?_⟩
    · exact (h.flushing drainIds hd drainId hm).next fun _ _ hr => hr
    · refine (h.awaiting drainIds sequence hd drainId hm).next fun _ hreached hr => ?_
      rw [hproduced]
      exact ⟨hr.1.next.append (hran.next hstep) hreached htaken,
        hr.2.imp_right fun hr => hr.next⟩
    · refine (h.putting drainIds hd drainId hm).next fun _ hreached hr => ?_
      rw [hproduced]
      exact ⟨hr.1.next.append (hran.next hstep) hreached htaken, hr.2.next⟩
    · exact (h.sent i drainId hi).next fun _ _ hr => hr.next

theorem Completing.enqueueUpdates (hran : Ran start ls s) (hinv : Reporting maxUpdates s)
    (h : Completing start ls s) (hs : s.enqueueUpdates = some s') :
    Completing start (ls ++ [.enqueueUpdates]) s' := by
  have hstep : step s .enqueueUpdates = some s' := hs
  obtain ⟨hremoved, hcompleted⟩ := h.books hran hinv.setting hstep
  unfold Session.enqueueUpdates at hs
  split at hs
  · cases hs
  · rename_i updates hupdates
    split_ifs at hs
    cases hs
    have henqueued := enqueued_enqueueUpdates hupdates
    have hproduced := produced_enqueueUpdates hupdates
    refine ⟨hremoved, hcompleted, fun drainIds hd drainId hm => ?_,
      fun drainIds sequence hd drainId hm => ?_, fun drainIds hd drainId hm => ?_,
      fun i drainId hi => ?_⟩
    · exact (h.flushing drainIds hd drainId hm).next fun _ _ hr => hr
    · refine (h.awaiting drainIds sequence hd drainId hm).next fun _ _ hr => ?_
      rw [hproduced, henqueued]
      exact ⟨hr.1.next, .inr (hr.1.next)⟩
    · refine (h.putting drainIds hd drainId hm).next fun _ _ hr => ?_
      rw [hproduced, henqueued]
      exact ⟨hr.1.next, hr.1.next⟩
    · -- the new message is no completion
      have hlast : produced s = enqueued s ++ [.stateUpdates updates] := by
        unfold produced
        rw [hupdates]
        rfl
      rw [henqueued, hlast] at hi ⊢
      have hlt : i < (enqueued s).length := by
        by_contra hge
        rw [List.getElem?_append_right (by omega), List.getElem?_singleton] at hi
        split_ifs at hi
        cases hi
      rw [List.getElem?_append_left hlt] at hi
      rw [List.take_append_of_le_length hlt.le]
      exact (h.sent i drainId hi).next fun _ _ hr => hr.next

theorem Completing.collectCompletions (hran : Ran start ls s) (hset : Setting s)
    (h : Completing start ls s) (hs : s.collectCompletions = some s') :
    Completing start (ls ++ [.collectCompletions]) s' := by
  have hstep : step s .collectCompletions = some s' := hs
  obtain ⟨hremoved, hcompleted⟩ := h.books hran hset hstep
  unfold Session.collectCompletions at hs
  split_ifs at hs
  cases hs
  refine ⟨hremoved, hcompleted, fun drainIds hd drainId hm => ?_, nofun, nofun,
    fun i drainId hi => ?_⟩
  · cases hd
    obtain ⟨authorization, ha, hid⟩ := List.mem_map.mp (List.mem_of_mem_filter hm)
    exact ⟨authorization, hid, hcompleted authorization ha⟩
  · exact (h.sent i drainId hi).next fun _ _ hr => hr.next

/-- with nothing pending, the messages tell the states of now -/
theorem Reporting.reflects {n : Nat} (hinv : Reporting maxUpdates s)
    (hready : s.snapshotReady = true) (hempty : s.reporter.pending.isEmpty = true)
    (hran : Ran start ls s') (hn : n ≤ ls.length) (hm : s'.manager = s.manager) :
    Reflects start ls n (produced s) := by
  intro k
  refine ⟨ls.length, s', hn, Nat.le_refl _, ?_, ?_⟩
  · rwa [List.take_length]
  rw [hm]
  refine (hinv.faithful.told hready k).resolve_left ?_
  rintro ⟨p, hp⟩
  rw [ExtTreeMap.isEmpty_iff.mp hempty, ExtTreeMap.getElem?_empty] at hp
  cases hp

theorem Completing.flushCompletions (hran : Ran start ls s) (hinv : Reporting maxUpdates s)
    (h : Completing start ls s) (hs : s.flushCompletions = some s') :
    Completing start (ls ++ [.flushCompletions]) s' := by
  have hstep : step s .flushCompletions = some s' := hs
  obtain ⟨hremoved, hcompleted⟩ := h.books hran hinv.setting hstep
  unfold Session.flushCompletions at hs
  split at hs
  · rename_i drainIds' hc
    split_ifs at hs with hempty
    cases hs
    have hready := hinv.faithful.pumping (by rw [hc]; nofun)
    refine ⟨hremoved, hcompleted, nofun, fun drainIds sequence hd drainId hm => ?_, nofun,
      fun i drainId hi => ?_⟩
    · cases hd
      refine (h.flushing drainIds' hc drainId hm).next fun _ hreached _ => ?_
      have hreflects := hinv.reflects hready hempty (hran.next hstep) hreached rfl
      refine ⟨hreflects, ?_⟩
      cases hupdates : s.updates with
      | some updates =>
        have hlast := hinv.sequenced.updates updates hupdates
        exact .inl (hlast.2 ▸ hlast.1)
      | none =>
        right
        unfold produced at hreflects
        rw [hupdates] at hreflects
        exact (List.append_nil (enqueued s)) ▸ hreflects
    · exact (h.sent i drainId hi).next fun _ _ hr => hr.next
  · cases hs

theorem Completing.awaitCompletions (hran : Ran start ls s) (hset : Setting s)
    (h : Completing start ls s) (hs : s.awaitCompletions = some s') :
    Completing start (ls ++ [.awaitCompletions]) s' := by
  have hstep : step s .awaitCompletions = some s' := hs
  obtain ⟨hremoved, hcompleted⟩ := h.books hran hset hstep
  unfold Session.awaitCompletions at hs
  split at hs
  · rename_i drainIds' sequence hc
    split_ifs at hs with hlast
    cases hs
    refine ⟨hremoved, hcompleted, nofun, nofun, fun drainIds hd drainId hm => ?_,
      fun i drainId hi => ?_⟩
    · cases hd
      refine (h.awaiting drainIds' sequence hc drainId hm).next fun _ _ hr => ?_
      exact ⟨hr.1.next, (hr.2.resolve_left hlast).next⟩
    · exact (h.sent i drainId hi).next fun _ _ hr => hr.next
  · cases hs

theorem Completing.putCompletions (hran : Ran start ls s) (hset : Setting s)
    (h : Completing start ls s) (hs : s.putCompletions = some s') :
    Completing start (ls ++ [.putCompletions]) s' := by
  have hstep : step s .putCompletions = some s' := hs
  obtain ⟨hremoved, hcompleted⟩ := h.books hran hset hstep
  unfold Session.putCompletions at hs
  split at hs
  · rename_i drainIds hc
    split_ifs at hs
    cases hs
    have hout : (s.outbound ++ [drainIds.map WorkerWeightMessage.drainComplete]).flatten
        = s.outbound.flatten ++ drainIds.map .drainComplete := by simp
    have henqueued := enqueued_pump hout .waiting (s.sentCompletions ++ drainIds)
    refine ⟨hremoved, hcompleted, nofun, nofun, nofun, fun i drainId hi => ?_⟩
    rw [henqueued] at hi ⊢
    by_cases hlt : i < (enqueued s).length
    · rw [List.getElem?_append_left hlt] at hi
      rw [List.take_append_of_le_length hlt.le]
      exact (h.sent i drainId hi).next fun _ _ hr => hr.next
    · rw [Nat.not_lt] at hlt
      rw [List.getElem?_append_right hlt] at hi
      have hm : drainId ∈ drainIds := by
        obtain ⟨d, hd, heq⟩ := List.mem_map.mp (List.mem_of_getElem? hi)
        cases heq
        exact hd
      refine (h.putting drainIds hc drainId hm).next fun _ hreached hr => ?_
      rw [List.take_append, List.take_of_length_le hlt]
      refine hr.2.next.append (hran.next hstep) hreached fun state hstate => ?_
      obtain ⟨message, hmessage, hin⟩ := List.mem_flatMap.mp hstate
      obtain ⟨d, _, rfl⟩ := List.mem_map.mp (List.mem_of_mem_take hmessage)
      cases hin
  · cases hs

theorem Completing.step (hran : Ran start ls s) (hinv : Reporting maxUpdates s)
    (h : Completing start ls s) (hs : step s l = some s') : Completing start (ls ++ [l]) s' := by
  have hset := hinv.setting
  have hquiet : l.reports = false → Completing start (ls ++ [l]) s' := by
    intro hl
    have hq := (step_ok hset hs).quiet hl
    refine h.still hran hset hs hq.enqueued ?_ hq.completions hq.lastEnqueued
    unfold produced
    rw [hq.enqueued, hq.updates]
  cases l with
  | observe => exact h.observe hran hset hs
  | report => exact h.report hran hset hs
  | enqueueFull => exact h.enqueueFull hran hinv hs
  | takeUpdates => exact h.takeUpdates hran hinv hs
  | enqueueUpdates => exact h.enqueueUpdates hran hinv hs
  | collectCompletions => exact h.collectCompletions hran hset hs
  | flushCompletions => exact h.flushCompletions hran hinv hs
  | awaitCompletions => exact h.awaitCompletions hran hset hs
  | putCompletions => exact h.putCompletions hran hset hs
  | reconnect =>
    cases hs
    exact h.silent (l := .reconnect) hran hset rfl rfl (by nofun)
  | _ => exact hquiet rfl
end

/-! ## runs -/

section
variable {config : ManagerConfig} {maxUpdates : Nat} {hu : 0 < maxUpdates}
  {hu' : maxUpdates ≤ maxExpertsPerControlPart} {receiver : Transport.ReceiverQueue} {s : Session}
  {ls : List Label}

theorem ran_completing (h : Ran (.new config maxUpdates hu hu' receiver) ls s) :
    Completing (.new config maxUpdates hu hu' receiver) ls s := by
  have hinv : Reporting maxUpdates s ∧
      Completing (.new config maxUpdates hu hu' receiver) (ls.take ls.length) s := by
    refine Steps.run_take_invariant (P := fun n s => Reporting maxUpdates s ∧
        Completing (.new config maxUpdates hu hu' receiver) (ls.take n) s)
      ⟨reporting_new config maxUpdates hu hu' receiver,
        completing_new config maxUpdates hu hu' receiver _⟩ ?_ (Nat.le_refl _)
        (by rwa [List.take_length])
    intro n x l y hx hi hl hs
    have hnext := hi.2.step hx hi.1 hs
    rw [List.take_add_one, hl]
    exact ⟨hi.1.step hs, hnext⟩
  rw [List.take_length] at hinv
  exact hinv.2

/-- over every interleaving and any number of streams: before each completion of a drain on a
stream, a label of the run is the removal of that drain, after which its experts are not ready, and
the messages before the completion on the same stream tell for every expert a state of the Manager
after a prefix of the run that has the removal in it -/
theorem removal_before_completion (h : Ran (.new config maxUpdates hu hu' receiver) ls s)
    {i drainId : Nat} (hi : (enqueued s)[i]? = some (.drainComplete drainId)) :
    ∃ (authorization : DrainAuthorization) (request : RemovalRequest) (n : Nat) (s₁ s₂ : Session),
      authorization.drainId = drainId ∧ ls[n]? = some (.finishRemoval drainId) ∧
      Ran (.new config maxUpdates hu hu' receiver) (ls.take n) s₁ ∧
      Ran (.new config maxUpdates hu hu' receiver) (ls.take (n + 1)) s₂ ∧
      s₁.activeDrains[drainId]? = some ⟨authorization, .withdrawing request⟩ ∧
      (∀ k ∈ authorization.experts, k ∉ s₂.manager.readyKeys) ∧
      ∀ k, ∃ m x, n < m ∧ m ≤ ls.length ∧
        Ran (.new config maxUpdates hu hu' receiver) (ls.take m) x ∧
        (recordsReady ((enqueued s).take i) k = true ↔ k ∈ x.manager.readyKeys) := by
  obtain ⟨authorization, rfl, request, n, s₁, s₂, h1, h2, h3, h4, h5, h6⟩ :=
    (ran_completing h).sent i drainId hi
  refine ⟨authorization, request, n, s₁, s₂, rfl, h1, h2, h3, h4, h5, fun k => ?_⟩
  obtain ⟨m, x, hn, hm, hx, htell⟩ := h6 k
  have hreach : Reaches (.new config maxUpdates hu hu' receiver) x :=
    (Steps.Reach.refl.of_run hx).mono fun _ _ _ => trivial
  exact ⟨m, x, hn, hm, hx,
    htell.trans ((reaches_reporting hreach).setting.manager.ready_iff k).symm⟩
end

namespace Reported
open Small

/-- expert 0 is loaded and reported, drained and removed; the completion follows the update -/
def completed : List Label :=
  openWith 1 [0, 1] ++ [.dequeue, .send] ++ loadAndSend 0 ++ place 2 [1] ++ remove 1 2 [0] ++
    [.takeUpdates, .flushDrain 1, .enqueueUpdates, .completeDrain 1, .collectCompletions,
      .flushCompletions, .awaitCompletions, .putCompletions]

end Reported

theorem removal_before_completion_completed :
    ∃ s n, Ran Small.start.session Reported.completed s ∧
      (enqueued s)[3]? = some (.drainComplete 1) ∧
      Reported.completed[n]? = some (.finishRemoval 1) ∧
      ∃ m x, n < m ∧ m ≤ Reported.completed.length ∧
        Ran Small.start.session (Reported.completed.take m) x ∧
        (recordsReady ((enqueued s).take 3) ⟨0, 0⟩ = true ↔
          (⟨0, 0⟩ : ExpertKey) ∈ x.manager.readyKeys) := by
  have hrun : (Steps.run step (fun _ _ => true) Small.start.session Reported.completed).any
      (fun s => (enqueued s)[3]? == some (.drainComplete 1)) = true := by decide +kernel
  obtain ⟨s, hs, hcond⟩ := (Option.any_eq_true _ _).mp hrun
  have hi := beq_iff_eq.mp hcond
  obtain ⟨_, _, n, _, _, _, hn, _, _, _, _, htell⟩ := removal_before_completion hs hi
  exact ⟨s, n, hs, hi, hn, htell ⟨0, 0⟩⟩

end ExpertKit.Control

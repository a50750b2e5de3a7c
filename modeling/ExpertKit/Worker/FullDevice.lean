import ExpertKit.Worker.Tracking

/-!
# Worker: targets that meet a full device

Capacity is counted over the ready experts, those that wait for their drain included.  A load that
finds no room (or no free fused slot) records a failure, and nothing but a newer list starts it again.

* `succeeds`            the steps of runs in which all sources and conversions succeed;
* `roomFor`             the load finds room;
* `FullOk`, `FullOk.step`   the invariant of such runs;
* `Final`, `Final.step`   a failure that stays until a newer list;
* `settled_targets`     when the loads are over, every target is READY or met a full device;
* `swap_abandoned`      a list that replaces an expert at full capacity.
-/

set_option linter.unusedSectionVars false

namespace ExpertKit.Worker
open Std

/-! ## runs in which every source succeeds -/

/-- sources and conversions succeed, and only experts that left the targets are drained -/
def succeeds : LoadLabel → Bool
  | .acquired _ (.failed _) | .acquired _ .raised => false
  | .converted _ result => decide (result = ConvertResult.ready)
  | .beginShutdown => false
  | .beginRemoval _ _ whole => !whole
  | _ => true

/-- the conversion finds a slot, and the ready object finds room -/
def roomFor (s : LiveManager) : LoadLabel → Bool
  | .claim key => !s.fused || s.owners.contains key ||
      decide (s.owners.size < s.manager.config.maxExperts)
  | .publish key => s.hasRoom || !s.manager.targets.contains key || s.manager.readyKeys.contains key
  | _ => true

/-- the failure of a load that met a full device -/
def fullDevice (f : LoadFailure) : Prop :=
  f = WeightManager.capacityFailure ∨
    ∃ source, f = conversionFailure source .internal "no free fused weight slot" internal_specified

/-! ## the invariant -/

namespace LoadPhase

/-- the load may own a fused slot before its object is published -/
def holdsSlot : Option LoadPhase → Bool
  | some (.converting _ .running _) | some (.converting _ (.done .ready) _)
  | some (.publishing false _) => true
  | _ => false

/-- the load has no object yet -/
def early : Option LoadPhase → Bool
  | none | some .waitingLimit | some .readingTarget | some .acquiring
  | some (.converting _ .queued _) => true
  | _ => false

/-- a failure under way is that of a full device; `full` is false in runs that never meet one -/
def fine (full : Prop) : LoadPhase → Prop
  | .recordingFailure failure _ => full ∧ fullDevice failure
  | .settingFatal => False
  | .converting _ (.done result) _ =>
    result = .ready ∨ (full ∧ result = .internal "no free fused weight slot")
  | _ => True

end LoadPhase

structure KeyFull (full : Prop) (s : LiveManager) (k : ExpertKey) : Prop where
  slot : k ∈ s.owners → k ∈ s.manager.readyKeys ∨ LoadPhase.holdsSlot s.phases[k]? = true
  fresh : k ∈ s.manager.loadTasks → LoadPhase.early s.phases[k]? = true → k ∉ s.manager.readyKeys
  phase : ∀ p, s.phases[k]? = some p → p.fine full
  failed : ∀ f, s.manager.states[k]? = some (.failed f) → full ∧ fullDevice f

structure FullOk (full : Prop) (s : LiveManager) : Prop where
  base : Tracked s
  running : s.manager.shuttingDown = false
  alive : s.fatal = false
  keys : ∀ k, KeyFull full s k

theorem fullOk_new (full : Prop) (config : ManagerConfig) (fused : Bool) (limit : Nat)
    (hlimit : 0 < limit) : FullOk full (.new config fused limit hlimit) := by
  refine ⟨tracked_new config fused limit hlimit, rfl, rfl, fun k => ⟨?_, ?_, ?_, ?_⟩⟩
  all_goals simp [LiveManager.new, WeightManager.new]

/-- nothing about the expert changes, but that its slot or its failure may be gone -/
theorem KeyFull.mono {full : Prop} {s s' : LiveManager} {k : ExpertKey} (h : KeyFull full s k)
    (howners : k ∈ s'.owners → k ∈ s.owners)
    (hready : k ∈ s'.manager.readyKeys ↔ k ∈ s.manager.readyKeys)
    (hloads : k ∈ s'.manager.loadTasks → k ∈ s.manager.loadTasks ∨ k ∉ s.manager.readyKeys)
    (hphases : s'.phases[k]? = s.phases[k]?)
    (hstates : ∀ f, s'.manager.states[k]? = some (.failed f) →
      s.manager.states[k]? = some (.failed f)) : KeyFull full s' k := by
  refine ⟨?_, ?_, ?_, fun f hf => h.failed f (hstates f hf)⟩
  · rw [hready, hphases]
    exact fun hk => h.slot (howners hk)
  · rw [hready, hphases]
    intro hk hearly
    exact (hloads hk).elim (fun hk => h.fresh hk hearly) id
  · rw [hphases]
    exact h.phase

/-! ## a step of a load -/

theorem loadEnded_ready (m : WeightManager) (key : ExpertKey) (cancelled : Bool) :
    (m.loadEnded key cancelled).readyKeys = m.readyKeys := by
  rcases m.loadEnded_cases key cancelled with ⟨loads, heq⟩ | ⟨_, loads, heq⟩ <;> rw [heq]

theorem finishFailure_ready (m : WeightManager) (key : ExpertKey) (failure : LoadFailure) :
    (m.finishFailure key failure).1.readyKeys = m.readyKeys := by
  rcases m.finishFailure_cases key failure with heq | ⟨_, _, heq⟩
  · rw [heq]
  · rw [heq, (m.setState_core key (.failed failure)).readyKeys]

theorem finishReady_ready {m : WeightManager} {key k : ExpertKey} (hk : k ≠ key) :
    k ∈ (m.finishReady key).1.readyKeys ↔ k ∈ m.readyKeys := by
  rcases m.finishReady_cases key with ⟨heq, _⟩ | ⟨_, _, heq | ⟨bytes, heq⟩⟩
  · rw [heq]
  · rw [heq, (m.setState_core key (.failed WeightManager.capacityFailure)).readyKeys]
  · rw [heq, (WeightManager.setState_core { m with
      readyKeys := m.readyKeys.insert key, loadedDeviceBytes := bytes } key .ready).readyKeys]
    show k ∈ m.readyKeys.insert key ↔ _
    rw [ExtTreeSet.mem_insert, Std.compare_eq_iff_eq]
    exact or_iff_right (fun h => hk h.symm)

theorem mem_of_mem_erase {t : ExtTreeSet ExpertKey} {key k : ExpertKey} (h : k ∈ t.erase key) :
    k ∈ t ∧ k ≠ key := by
  rw [ExtTreeSet.mem_erase, ne_eq, Std.compare_eq_iff_eq] at h
  exact ⟨h.2, fun e => h.1 e.symm⟩

/-- the other experts keep their slots and their ready objects -/
theorem TaskStep.slots {s s' : LiveManager} {key k : ExpertKey} {l : LoadLabel}
    (ht : TaskStep s key l s') (hk : k ≠ key) :
    (k ∈ s'.owners → k ∈ s.owners) ∧ (k ∈ s'.manager.readyKeys ↔ k ∈ s.manager.readyKeys) := by
  cases ht with
  | claimed source cancelled owners hp hc =>
    refine ⟨?_, Iff.rfl⟩
    intro hmem
    change k ∈ owners at hmem
    rcases hc with ⟨_, rfl⟩ | hc
    · exact hmem
    · unfold LiveManager.claimSlot at hc
      split_ifs at hc
      cases hc
      rw [ExtTreeSet.mem_insert, Std.compare_eq_iff_eq] at hmem
      exact hmem.resolve_left (fun h => hk h.symm)
  | executed source work result cancelled owners hp hleft hready howners =>
    refine ⟨?_, Iff.rfl⟩
    intro hmem
    change k ∈ owners at hmem
    rcases howners with rfl | rfl
    · exact hmem
    · exact (mem_of_mem_erase hmem).1
  | converted source result cancelled hflag hp =>
    cases result with
    | ready =>
      cases cancelled with
      | true => exact ⟨fun hmem => (mem_of_mem_erase hmem).1, Iff.rfl⟩
      | false => exact ⟨id, Iff.rfl⟩
    | unsupported diagnostic => exact ⟨id, Iff.rfl⟩
    | internal diagnostic => exact ⟨id, Iff.rfl⟩
    | fatal => exact ⟨id, Iff.rfl⟩
  | failed failure leased hflag hp hfree =>
    refine ⟨id, ?_⟩
    show k ∈ (s.manager.finishFailure key failure).1.readyKeys ↔ _
    rw [finishFailure_ready]
  | finished cancelled hp hfree =>
    show (k ∈ (s.finishReady key).owners → k ∈ s.owners) ∧
      (k ∈ (s.finishReady key).manager.readyKeys ↔ k ∈ s.manager.readyKeys)
    unfold LiveManager.finishReady
    split_ifs
    · split
      · exact ⟨fun hmem => (mem_of_mem_erase hmem).1, Iff.rfl⟩
      · exact ⟨id, finishReady_ready hk⟩
    · exact ⟨fun hmem => (mem_of_mem_erase hmem).1, finishReady_ready hk⟩
  | ended cancelled hflag hp hfree =>
    refine ⟨id, ?_⟩
    show k ∈ (s.manager.loadEnded key cancelled).readyKeys ↔ _
    rw [loadEnded_ready]
  | _ => exact ⟨id, Iff.rfl⟩

theorem KeyFull.frame {full : Prop} {s s' : LiveManager} {key k : ExpertKey} {l : LoadLabel}
    (h : KeyFull full s k) (hlive : LiveOk s) (ht : TaskStep s key l s') (hk : k ≠ key) :
    KeyFull full s' k := by
  have hframe := ht.frame hlive
  obtain ⟨howners, hready⟩ := ht.slots hk
  refine h.mono howners hready ?_ (hframe.phases k hk) ?_
  · rw [mem_iff_getElem?, mem_iff_getElem?, hframe.loads k hk]
    exact .inl
  · rw [hframe.states k hk]
    exact fun f hf => hf

/-- the task goes on, and its slot goes with it -/
theorem KeyFull.moved {full : Prop} {s s' : LiveManager} {key : ExpertKey} {phase : LoadPhase}
    (h : KeyFull full s key) (hin : key ∈ s.manager.loadTasks)
    (hphase : s'.phases[key]? = some phase)
    (hready : s'.manager.readyKeys = s.manager.readyKeys)
    (hstates : s'.manager.states = s.manager.states) (hfine : phase.fine full)
    (hearly : LoadPhase.early (some phase) = true → LoadPhase.early s.phases[key]? = true)
    (howners : key ∈ s'.owners → LoadPhase.holdsSlot (some phase) = true ∨ key ∈ s.owners ∧
      (LoadPhase.holdsSlot s.phases[key]? = true → LoadPhase.holdsSlot (some phase) = true)) :
    KeyFull full s' key := by
  refine ⟨?_, ?_, ?_, ?_⟩
  · rw [hready, hphase]
    intro hmem
    rcases howners hmem with hh | ⟨hold, hkeep⟩
    · exact .inr hh
    · exact (h.slot hold).imp_right hkeep
  · rw [hready, hphase]
    exact fun _ he => h.fresh hin (hearly he)
  · rw [hphase]
    intro p hp
    cases hp
    exact hfine
  · rw [hstates]
    exact h.failed

theorem fine_interrupted {full : Prop} {p : Option LoadPhase}
    (h : ∀ q, p = some q → q.fine full) : (LoadPhase.interrupted p).fine full := by
  cases p with
  | none => trivial
  | some q =>
    have hq := h q rfl
    cases q with
    | converting source work cancelled => cases work <;> exact hq
    | recordingFailure failure leased => cases leased <;> trivial
    | _ => trivial

theorem early_interrupted {p : Option LoadPhase}
    (h : LoadPhase.early (some (LoadPhase.interrupted p)) = true) : LoadPhase.early p = true := by
  cases p with
  | none => rfl
  | some q =>
    cases q with
    | converting source work cancelled => cases work <;> exact h
    | recordingFailure failure leased => cases leased <;> cases h
    | _ => first | rfl | cases h

theorem holdsSlot_interrupted {p : Option LoadPhase} (h : LoadPhase.holdsSlot p = true) :
    LoadPhase.holdsSlot (some (LoadPhase.interrupted p)) = true := by
  cases p with
  | none => cases h
  | some q =>
    cases q with
    | converting source work cancelled =>
      cases work with
      | done result => cases result <;> exact h
      | _ => exact h
    | publishing done cancelled => cases done <;> exact h
    | _ => cases h

/-- the queued conversion of an expert finds its position without a slot -/
theorem KeyFull.not_owner {full : Prop} {s : LiveManager} {key : ExpertKey}
    (h : KeyFull full s key) (hin : key ∈ s.manager.loadTasks) {source : WeightSource}
    {cancelled : Bool} (hp : s.phases[key]? = some (.converting source .queued cancelled)) :
    key ∉ s.owners := by
  intro hmem
  have hfresh := h.fresh hin (by rw [hp]; rfl)
  rcases h.slot hmem with hr | hh
  · exact hfresh hr
  · rw [hp] at hh
    cases hh

/-- the claim failed, so the device was full -/
theorem claim_full {full : Prop} {s : LiveManager} {key : ExpertKey} {message : String}
    (hno : key ∉ s.owners) (hfused : s.fused = true) (hc : s.claimSlot key = .error message)
    (hroom : full ∨ roomFor s (.claim key) = true) :
    full ∧ message = "no free fused weight slot" := by
  unfold LiveManager.claimSlot at hc
  rw [if_neg hno] at hc
  split_ifs at hc with hsize
  cases hc
  refine ⟨hroom.resolve_right ?_, rfl⟩
  intro hr
  change (!s.fused || s.owners.contains key ||
    decide (s.owners.size < s.manager.config.maxExperts)) = true at hr
  have hcontains : s.owners.contains key = false := by
    rw [← Bool.not_eq_true, ExtTreeSet.contains_iff_mem]
    exact hno
  rw [hfused, hcontains] at hr
  simp only [Bool.not_true, Bool.false_or, decide_eq_true_eq] at hr
  omega

/-- the object is published, or its slot is free again and the failure is that of a full device -/
theorem KeyFull.finished {full : Prop} {s : LiveManager} {key : ExpertKey} {cancelled : Bool}
    (h : KeyFull full s key) (hlive : LiveOk s)
    (hroom : full ∨ roomFor s (.publish key) = true) :
    KeyFull full ((s.finishReady key).setPhase key (.publishing true cancelled)) key := by
  have hphase := getElem?_setPhase (s.finishReady key) key (.publishing true cancelled)
  refine ⟨?_, fun _ he => ?_, fun p hp => ?_, ?_⟩
  · intro hmem
    change key ∈ (s.finishReady key).owners at hmem
    left
    show key ∈ (s.finishReady key).manager.readyKeys
    rw [(LiveManager.finishReady_eq hlive key).1]
    unfold LiveManager.finishReady at hmem
    split_ifs at hmem with hc
    · have hroom' : s.manager.loadedDeviceBytes + s.manager.config.readyWeightBytes
          ≤ s.manager.config.deviceWeightCapacityBytes := of_decide_eq_true hc.2.2
      rw [(finishReady_room hc.1 hc.2.1 hroom').1]
      exact ExtTreeSet.mem_insert_self
    · exact absurd rfl (mem_of_mem_erase hmem).2
  · rw [hphase] at he
    cases he
  · rw [hphase] at hp
    cases hp
    trivial
  · intro f hf
    change (s.finishReady key).manager.states[key]? = some (.failed f) at hf
    rw [(LiveManager.finishReady_eq hlive key).1] at hf
    unfold WeightManager.finishReady at hf
    split_ifs at hf with hno hfull
    · exact h.failed f hf
    · rw [WeightManager.setState_states, if_pos rfl] at hf
      cases hf
      refine ⟨hroom.resolve_right ?_, .inl rfl⟩
      rw [not_or, not_not] at hno
      intro hr
      change (s.hasRoom || !s.manager.targets.contains key || s.manager.readyKeys.contains key)
        = true at hr
      have htarget : s.manager.targets.contains key = true := ExtTreeMap.contains_iff_mem.mpr hno.1
      have hready : s.manager.readyKeys.contains key = false := by
        rw [← Bool.not_eq_true, ExtTreeSet.contains_iff_mem]
        exact hno.2
      rw [htarget, hready] at hr
      simp only [LiveManager.hasRoom, Bool.not_true, Bool.or_false, decide_eq_true_eq] at hr
      omega
    · rw [WeightManager.setState_states, if_pos rfl] at hf
      cases hf

theorem KeyFull.task {full : Prop} {s s' : LiveManager} {key : ExpertKey} {l : LoadLabel}
    (htr : Tracked s) (h : KeyFull full s key) (ht : TaskStep s key l s')
    (hsucc : succeeds l = true) (hroom : full ∨ roomFor s l = true) : KeyFull full s' key := by
  have hin : s.phases[key]? ≠ none → key ∈ s.manager.loadTasks := (htr.keys key).started
  cases ht with
  | delivered hflag hp =>
    refine ⟨?_, ?_, ?_, h.failed⟩
    all_goals
      have hphase : (s.phases.insert key (LoadPhase.interrupted s.phases[key]?))[key]?
          = some (LoadPhase.interrupted s.phases[key]?) := by
        rw [Maps.getElem?_insert_eq, if_pos rfl]
    · intro hmem
      exact (h.slot hmem).imp_right fun hh => by rw [hphase]; exact holdsSlot_interrupted hh
    · intro _ he
      rw [hphase] at he
      exact h.fresh (mem_of_flag hflag) (early_interrupted he)
    · intro p hp'
      rw [hphase] at hp'
      cases hp'
      exact fine_interrupted h.phase
  | started hflag hp | admitted hflag hp | assigned hflag hp hfree _ | leased _ hflag hp =>
    refine h.moved (mem_of_flag hflag) (getElem?_setPhase s key _) rfl rfl trivial ?_ ?_
    · exact fun _ => by rw [hp]; rfl
    · exact fun hmem => .inr ⟨hmem, fun hh => by rw [hp] at hh; cases hh⟩
  | unassigned hflag hp hfree ht =>
    refine h.moved (mem_of_flag hflag) (getElem?_setPhase s key _) rfl rfl trivial ?_ ?_
    · exact fun he => by cases he
    · exact fun hmem => .inr ⟨hmem, fun hh => by rw [hp] at hh; cases hh⟩
  | refused failure hflag hp => cases hsucc
  | raised hflag hp => cases hsucc
  | claimed source cancelled owners hp hc =>
    refine h.moved (hin (by simp [hp])) (getElem?_setPhase _ key _) rfl rfl trivial ?_ ?_
    · exact fun he => by cases he
    · exact fun _ => .inl rfl
  | unclaimed source cancelled message hp hfused hc =>
    have hno := h.not_owner (hin (by simp [hp])) hp
    obtain ⟨hfull, rfl⟩ := claim_full hno hfused hc hroom
    refine h.moved (hin (by simp [hp])) (getElem?_setPhase s key _) rfl rfl
      (.inr ⟨hfull, rfl⟩) ?_ ?_
    · exact fun he => by cases he
    · exact fun hmem => absurd hmem hno
  | executed source work result cancelled owners hp hleft hready howners =>
    have hr : result = .ready := of_decide_eq_true hsucc
    subst hr
    refine h.moved (hin (by simp [hp])) (getElem?_setPhase _ key _) rfl rfl (.inl rfl) ?_ ?_
    · exact fun he => by cases he
    · exact fun _ => .inl rfl
  | converted source result cancelled hflag hp =>
    have hfine := h.phase _ hp
    have hmove : ∀ (phase : LoadPhase) (owners : ExtTreeSet ExpertKey), phase.fine full →
        LoadPhase.early (some phase) = false →
        (key ∈ owners → LoadPhase.holdsSlot (some phase) = true ∨ key ∈ s.owners ∧
          (LoadPhase.holdsSlot s.phases[key]? = true →
            LoadPhase.holdsSlot (some phase) = true)) →
        KeyFull full ({ s with owners := owners }.setPhase key phase) key := by
      intro phase owners hf he ho
      refine h.moved (mem_of_flag hflag) (getElem?_setPhase _ key phase) rfl rfl hf ?_ ho
      exact fun h' => by rw [he] at h'; cases h'
    cases result with
    | ready =>
      cases cancelled with
      | true =>
        refine hmove (.closing true) (s.owners.erase key) trivial rfl ?_
        exact fun hmem => absurd rfl (mem_of_mem_erase hmem).2
      | false => exact hmove (.publishing false false) s.owners trivial rfl fun _ => .inl rfl
    | unsupported diagnostic => exact hfine.elim (fun h => by cases h) fun h => by cases h.2
    | internal diagnostic =>
      obtain ⟨hfull, hmsg⟩ := hfine.resolve_left (fun h => by cases h)
      cases hmsg
      refine hmove _ s.owners ⟨hfull, .inr ⟨source, rfl⟩⟩ rfl ?_
      exact fun hmem => .inr ⟨hmem, fun hh => by rw [hp] at hh; cases hh⟩
    | fatal => exact hfine.elim (fun h => by cases h) fun h => by cases h.2
  | failed failure leased hflag hp hfree =>
    have hfine := h.phase _ hp
    have hphase := getElem?_setPhase { s with
      manager := (s.manager.finishFailure key failure).1 } key
      (if leased then .closing false else .ending false)
    refine ⟨?_, fun _ he => ?_, fun p hp' => ?_, ?_⟩
    · intro hmem
      left
      show key ∈ (s.manager.finishFailure key failure).1.readyKeys
      rw [finishFailure_ready]
      exact (h.slot hmem).resolve_right fun hh => by rw [hp] at hh; cases hh
    · rw [hphase] at he
      cases leased <;> cases he
    · rw [hphase] at hp'
      cases hp'
      cases leased <;> trivial
    · intro f hf
      change (s.manager.finishFailure key failure).1.states[key]? = some (.failed f) at hf
      rcases s.manager.finishFailure_cases key failure with heq | ⟨_, _, heq⟩
      · rw [heq] at hf
        exact h.failed f hf
      · rw [heq, WeightManager.setState_states, if_pos rfl] at hf
        cases hf
        exact hfine
  | died hflag hp hfree => exact (h.phase _ hp).elim
  | finished cancelled hp hfree => exact h.finished htr.live hroom
  | published cancelled hflag hp =>
    refine h.moved (mem_of_flag hflag) (getElem?_setPhase s key _) rfl rfl trivial ?_ ?_
    · exact fun he => by cases he
    · exact fun hmem => .inr ⟨hmem, fun hh => by rw [hp] at hh; cases hh⟩
  | closed cancelled hflag hp =>
    refine h.moved (mem_of_flag hflag) (getElem?_setPhase s key _) rfl rfl trivial ?_ ?_
    · exact fun he => by cases he
    · exact fun hmem => .inr ⟨hmem, fun hh => by rw [hp] at hh; cases hh⟩
  | ended cancelled hflag hp hfree =>
    have hloads := s.manager.loadEnded_loads key key cancelled
    rw [if_pos rfl] at hloads
    refine ⟨?_, ?_, ?_, ?_⟩
    · intro hmem
      left
      show key ∈ (s.manager.loadEnded key cancelled).readyKeys
      rw [loadEnded_ready]
      exact (h.slot hmem).resolve_right fun hh => by rw [hp] at hh; cases hh
    · intro hmem _
      change key ∈ (s.manager.loadEnded key cancelled).loadTasks at hmem
      show key ∉ (s.manager.loadEnded key cancelled).readyKeys
      rw [mem_iff_getElem?, hloads] at hmem
      rw [loadEnded_ready]
      split_ifs at hmem with hc
      · exact hc.2.2.2
      · obtain ⟨b, hb⟩ := hmem
        cases hb
    · intro p hp'
      change (s.phases.erase key)[key]? = some p at hp'
      rw [Maps.getElem?_erase_eq, if_pos rfl] at hp'
      cases hp'
    · intro f hf
      change (s.manager.loadEnded key cancelled).states[key]? = some (.failed f) at hf
      rcases s.manager.loadEnded_cases key cancelled with ⟨loads, heq⟩ | ⟨_, loads, heq⟩
      · rw [heq] at hf
        exact h.failed f hf
      · rw [heq, Maps.getElem?_erase_eq, if_pos rfl] at hf
        cases hf

/-! ## every step -/

theorem KeyFull.install {full : Prop} {s : LiveManager} {k : ExpertKey} (h : KeyFull full s k)
    {generation : Nat} {resolved : ExtTreeMap ExpertKey TargetExpert} :
    KeyFull full { s with manager := (s.manager.install generation resolved).1 } k := by
  obtain ⟨hcore, hstates⟩ := s.manager.install_spec generation resolved
  have hready : (s.manager.install generation resolved).1.readyKeys = s.manager.readyKeys :=
    hcore.readyKeys
  refine h.mono id ?_ ?_ rfl ?_
  · show k ∈ (s.manager.install generation resolved).1.readyKeys ↔ _
    rw [hready]
  · intro hmem
    change k ∈ (s.manager.install generation resolved).1.loadTasks at hmem
    rw [mem_iff_getElem?, s.manager.install_loads generation resolved k] at hmem
    obtain ⟨b, hb⟩ := hmem
    split_ifs at hb with h1 h2 h3
    · exact .inr h2.1
    · exact .inl (mem_iff_getElem?.mpr ⟨b, hb⟩)
    · obtain ⟨b', hb', _⟩ := Option.map_eq_some_iff.mp hb
      exact .inl (mem_iff_getElem?.mpr ⟨b', hb'⟩)
    · exact .inl (mem_iff_getElem?.mpr ⟨b, hb⟩)
  · intro f hf
    change (s.manager.install generation resolved).1.states[k]? = some (.failed f) at hf
    rw [hstates k] at hf
    split_ifs at hf
    · exact hf
    · cases hf
    · exact hf

theorem FullOk.removal {full : Prop} {s s' : LiveManager} {l : LoadLabel} (h : FullOk full s)
    (htr : Tracked s') (hs : s.step l = some s')
    (hl : (∃ generation keys whole, l = .beginRemoval generation keys whole) ∨ l = .withdraw ∨
      l = .finishRemoval) : FullOk full s' := by
  obtain ⟨generation, keys, whole, rfl⟩ | rfl | rfl := hl
  · obtain rfl | ⟨request, _, _, _, rfl⟩ := beginRemoval_live h.base.live hs
    · exact h
    · exact ⟨htr, h.running, h.alive, fun k =>
        (h.keys k).mono id Iff.rfl .inl rfl fun _ hf => hf⟩
  · obtain ⟨request, key, rest, _, rfl⟩ := withdraw_live h.base.live hs
    refine ⟨htr, h.running, h.alive, fun k => ⟨?_, ?_, (h.keys k).phase, (h.keys k).failed⟩⟩
    · intro hmem
      obtain ⟨hold, hne⟩ := mem_of_mem_erase hmem
      refine ((h.keys k).slot hold).imp_left fun hr => ?_
      show k ∈ s.manager.readyKeys.erase key
      rw [ExtTreeSet.mem_erase, ne_eq, Std.compare_eq_iff_eq]
      exact ⟨fun e => hne e.symm, hr⟩
    · intro hin he hr
      exact (h.keys k).fresh hin he (mem_of_mem_erase hr).1
  · obtain ⟨request, _, rfl⟩ := finishRemoval_live hs
    have hstates := s.manager.setRemoved_states request.keys
    have hloads := s.manager.setRemoved_loads request.keys
    have hcore := s.manager.setRemoved_core request.keys
    refine ⟨htr, ?_, h.alive, fun k => (h.keys k).mono id ?_ ?_ rfl ?_⟩
    · obtain ⟨_, _, heq⟩ := hcore
      rw [heq]
      exact h.running
    · show k ∈ (s.manager.setRemoved request.keys).1.readyKeys ↔ _
      rw [hcore.readyKeys]
    · show k ∈ (s.manager.setRemoved request.keys).1.loadTasks → _
      rw [hloads]
      exact .inl
    · intro f hf
      change (s.manager.setRemoved request.keys).1.states[k]? = some (.failed f) at hf
      rw [hstates k] at hf
      split_ifs at hf
      · cases hf
      · exact hf

theorem FullOk.task {full : Prop} {s s' : LiveManager} {key : ExpertKey} {l : LoadLabel}
    (h : FullOk full s) (htr : tracked s l = true) (ht : TaskStep s key l s')
    (hsucc : succeeds l = true) (hroom : full ∨ roomFor s l = true) : FullOk full s' := by
  have hframe := ht.frame h.base.live
  refine ⟨h.base.task htr ht, hframe.shuttingDown.trans h.running, ?_, ?_⟩
  · cases ht with
    | converted source result cancelled hflag hp =>
      cases result with
      | ready => cases cancelled <;> exact h.alive
      | _ => exact h.alive
    | finished cancelled hp hfree =>
      exact (LiveManager.finishReady_eq h.base.live key).2.2.2.trans h.alive
    | died hflag hp hfree => exact ((h.keys key).phase _ hp).elim
    | _ => exact h.alive
  · intro k
    by_cases hk : k = key
    · subst hk
      exact (h.keys k).task h.base ht hsucc hroom
    · exact (h.keys k).frame h.base.live ht hk

theorem FullOk.step {full : Prop} {s s' : LiveManager} {l : LoadLabel} (h : FullOk full s)
    (htr : tracked s l = true) (hsucc : succeeds l = true)
    (hroom : full ∨ roomFor s l = true) (hs : s.step l = some s') : FullOk full s' := by
  have ht := h.base.step htr hs
  cases l with
  | applyTargets generation targets =>
    obtain ⟨_, rfl | ⟨resolved, _, _, _, rfl⟩⟩ := applyTargets_live hs
    · exact h
    · refine ⟨ht, ?_, h.alive, fun k => (h.keys k).install⟩
      obtain ⟨_, _, heq⟩ := (s.manager.install_spec generation resolved).1
      rw [heq]
      exact h.running
  | beginShutdown => cases hsucc
  | cancel key =>
    obtain ⟨hin, rfl⟩ := cancel_live hs
    refine ⟨ht, h.running, h.alive, fun k => (h.keys k).mono id Iff.rfl ?_ rfl fun _ hf => hf⟩
    intro hmem
    rcases ExtTreeMap.mem_insert.mp hmem with he | hold
    · exact .inl (Std.compare_eq_iff_eq.mp he ▸ hin)
    · exact .inl hold
  | beginRemoval generation keys whole => exact h.removal ht hs (.inl ⟨_, _, _, rfl⟩)
  | withdraw => exact h.removal ht hs (.inr (.inl rfl))
  | finishRemoval => exact h.removal ht hs (.inr (.inr rfl))
  | acquireMany layerId expertIds =>
    change s.acquireMany layerId expertIds = some s' at hs
    unfold LiveManager.acquireMany at hs
    split at hs
    all_goals
      cases hs
      exact ⟨ht, h.running, h.alive, fun k =>
        (h.keys k).mono id Iff.rfl .inl rfl fun _ hf => hf⟩
  | closeLease i =>
    change s.closeLease i = some s' at hs
    unfold LiveManager.closeLease at hs
    split at hs
    · cases hs
    · split at hs
      all_goals
        cases hs
        exact ⟨ht, h.running, h.alive, fun k =>
          (h.keys k).mono id Iff.rfl .inl rfl fun _ hf => hf⟩
  | _ => exact h.task htr (LiveManager.taskStep_of_step hs rfl) hsucc hroom

/-! ## a failure is final -/

/-- since the list of `generation` the expert is FAILED and no task loads it, or the list is a newer
one -/
structure Final (generation : Nat) (k : ExpertKey) (f : LoadFailure) (s : LiveManager) : Prop where
  since : generation ≤ s.manager.placementGeneration
  target : s.manager.placementGeneration = generation → k ∈ s.manager.targets
  failed : s.manager.placementGeneration = generation → s.manager.states[k]? = some (.failed f)
  unloaded : s.manager.placementGeneration = generation → k ∉ s.manager.loadTasks

section
variable {generation : Nat} {k : ExpertKey} {f : LoadFailure}

theorem Final.of_same {s s' : LiveManager} (h : Final generation k f s)
    (hgen : s'.manager.placementGeneration = s.manager.placementGeneration)
    (htargets : s'.manager.targets = s.manager.targets)
    (hstates : s.manager.placementGeneration = generation →
      s'.manager.states[k]? = s.manager.states[k]?)
    (hloads : s.manager.placementGeneration = generation →
      k ∈ s'.manager.loadTasks → k ∈ s.manager.loadTasks) : Final generation k f s' := by
  refine ⟨?_, ?_, ?_, ?_⟩
  · rw [hgen]
    exact h.since
  · rw [hgen, htargets]
    exact h.target
  · intro he
    rw [hgen] at he
    rw [hstates he]
    exact h.failed he
  · intro he hin
    rw [hgen] at he
    exact h.unloaded he (hloads he hin)

/-- the task of another expert goes on -/
theorem Final.task {s s' : LiveManager} {key : ExpertKey} {l : LoadLabel}
    (h : Final generation k f s) (hok : Tracked s) (ht : TaskStep s key l s') :
    Final generation k f s' := by
  have hframe := ht.frame hok.live
  have hne : s.manager.placementGeneration = generation → k ≠ key := by
    rintro he rfl
    exact h.unloaded he (ht.loading hok)
  refine h.of_same hframe.generation hframe.targets (fun he => hframe.states k (hne he)) ?_
  intro he
  rw [mem_iff_getElem?, mem_iff_getElem?, hframe.loads k (hne he)]
  exact id

/-- the states of a drain are recorded: no target is among its experts -/
theorem Final.finishRemoval {full : Prop} {s s' : LiveManager} (h : Final generation k f s)
    (hok : FullOk full s) (hs : s.finishRemoval = some s') : Final generation k f s' := by
  obtain ⟨request, hr, rfl⟩ := finishRemoval_live hs
  obtain ⟨loads, states, hcore⟩ := s.manager.setRemoved_core request.keys
  refine h.of_same ?_ ?_ ?_ ?_
  · rw [hcore]
  · rw [hcore]
  · intro he
    have hnot : k ∉ request.keys := by
      rcases hok.base.removing request [] hr with hsd | hf | hno
      · rw [hok.running] at hsd
        cases hsd
      · rw [hok.alive] at hf
        cases hf
      · exact fun hk => hno k hk (h.target he)
    show (s.manager.setRemoved request.keys).1.states[k]? = _
    rw [s.manager.setRemoved_states, if_neg hnot]
  · intro _
    show k ∈ (s.manager.setRemoved request.keys).1.loadTasks → _
    rw [s.manager.setRemoved_loads]
    exact id

theorem Final.step {full : Prop} {s s' : LiveManager} {l : LoadLabel} (h : Final generation k f s)
    (hok : FullOk full s) (hsucc : succeeds l = true) (hs : s.step l = some s') :
    Final generation k f s' := by
  have hsame : ∀ x : LiveManager, x.manager = s.manager → Final generation k f x := by
    intro x hx
    exact h.of_same (by rw [hx]) (by rw [hx]) (fun _ => by rw [hx]) (fun _ => by rw [hx]; exact id)
  cases l with
  | applyTargets newer targets =>
    obtain ⟨_, rfl | ⟨resolved, _, hlt, _, rfl⟩⟩ := applyTargets_live hs
    · exact h
    · have hgen : (s.manager.install newer resolved).1.placementGeneration = newer := by
        obtain ⟨_, _, heq⟩ := (s.manager.install_spec newer resolved).1
        rw [heq]
        rfl
      have hlater : generation < (s.manager.install newer resolved).1.placementGeneration := by
        rw [hgen]
        exact h.since.trans_lt hlt
      exact ⟨hlater.le, fun he => absurd he hlater.ne', fun he => absurd he hlater.ne',
        fun he => absurd he hlater.ne'⟩
  | beginShutdown => cases hsucc
  | cancel key =>
    obtain ⟨hin, rfl⟩ := cancel_live hs
    refine h.of_same rfl rfl (fun _ => rfl) fun _ hmem => ?_
    rcases ExtTreeMap.mem_insert.mp hmem with he | hold
    · exact Std.compare_eq_iff_eq.mp he ▸ hin
    · exact hold
  | beginRemoval newer keys whole =>
    obtain rfl | ⟨request, _, _, _, rfl⟩ := beginRemoval_live hok.base.live hs
    · exact h
    · exact hsame _ rfl
  | withdraw =>
    obtain ⟨request, key, rest, _, rfl⟩ := withdraw_live hok.base.live hs
    exact h.of_same rfl rfl (fun _ => rfl) fun _ => id
  | finishRemoval => exact h.finishRemoval hok hs
  | acquireMany layerId expertIds =>
    change s.acquireMany layerId expertIds = some s' at hs
    unfold LiveManager.acquireMany at hs
    split at hs
    all_goals
      cases hs
      exact hsame _ rfl
  | closeLease i =>
    change s.closeLease i = some s' at hs
    unfold LiveManager.closeLease at hs
    split at hs
    · cases hs
    · split at hs
      all_goals
        cases hs
        exact hsame _ rfl
  | _ => exact h.task hok.base (LiveManager.taskStep_of_step hs rfl)

end

/-! ## every run -/

/-- the loads of a Manager are over -/
def LiveManager.loadsOver (s : LiveManager) : Bool :=
  s.manager.loadTasks.keys.all fun key => decide (s.phases[key]? = some .finished)

theorem Tracked.loads_empty {s : LiveManager} (h : Tracked s) (hover : s.loadsOver = true)
    (k : ExpertKey) : k ∉ s.manager.loadTasks := fun hin =>
  (h.keys k).unfinished
    (of_decide_eq_true (List.all_eq_true.mp hover k (ExtTreeMap.mem_keys.mpr hin)))

theorem FullOk.targets {full : Prop} {s : LiveManager} (h : FullOk full s)
    (hover : s.loadsOver = true) :
    ∀ k ∈ s.manager.targets, s.manager.states[k]? = some .ready ∨
      ∃ f, s.manager.states[k]? = some (.failed f) ∧ full ∧ fullDevice f := by
  intro k hk
  rcases (h.base.keys k).progress h.running h.alive hk with hr | ⟨f, hf⟩ | ⟨hin, _⟩
  · exact .inl hr
  · exact .inr ⟨f, hf, (h.keys k).failed f hf⟩
  · exact absurd hin (h.base.loads_empty hover k)

theorem FullOk.final {full : Prop} {s s' : LiveManager} (h : FullOk full s)
    (hover : s.loadsOver = true) {k : ExpertKey} (hk : k ∈ s.manager.targets) {f : LoadFailure}
    (hf : s.manager.states[k]? = some (.failed f))
    (hreach : Steps.Reach LiveManager.step (fun s l => tracked s l = true ∧ succeeds l = true) s s')
    (hroom : full) : Final s.manager.placementGeneration k f s' := by
  have hstart : Final s.manager.placementGeneration k f s :=
    ⟨le_rfl, fun _ => hk, fun _ => hf, fun _ => h.base.loads_empty hover k⟩
  have hrun := hreach.invariant (P := fun x =>
    FullOk full x ∧ Final s.manager.placementGeneration k f x) ⟨h, hstart⟩
    fun _ _ _ hx hl hs => ⟨hx.1.step hl.1 hl.2 (.inl hroom) hs, hx.2.step hx.1 hl.2 hs⟩
  exact hrun.2

/-- all sources succeed and no load task is lost: when the loads are over every target is READY, or
its load met a full device and it stays FAILED in every run from there to a newer list; and where
every load finds room, all targets are READY -/
theorem settled_targets (config : ManagerConfig) (fused : Bool) (limit : Nat) (hlimit : 0 < limit)
    {s : LiveManager} (hover : s.loadsOver = true) :
    (Steps.Reach LiveManager.step (fun s l => tracked s l = true ∧ succeeds l = true)
      (.new config fused limit hlimit) s →
      ∀ k ∈ s.manager.targets, s.manager.states[k]? = some .ready ∨
        ∃ f, s.manager.states[k]? = some (.failed f) ∧ fullDevice f ∧
          ∀ s', Steps.Reach LiveManager.step
              (fun s l => tracked s l = true ∧ succeeds l = true) s s' →
            s'.manager.placementGeneration = s.manager.placementGeneration →
            k ∈ s'.manager.targets ∧ s'.manager.states[k]? = some (.failed f)) ∧
    (Steps.Reach LiveManager.step
      (fun s l => (tracked s l = true ∧ succeeds l = true) ∧ roomFor s l = true)
      (.new config fused limit hlimit) s →
      ∀ k ∈ s.manager.targets, s.manager.states[k]? = some .ready) := by
  constructor
  · intro h k hk
    have hok : FullOk True s := h.invariant (fullOk_new True config fused limit hlimit)
      fun _ _ _ hok hl hs => hok.step hl.1 hl.2 (.inl trivial) hs
    rcases hok.targets hover k hk with hr | ⟨f, hf, _, hfull⟩
    · exact .inl hr
    · refine .inr ⟨f, hf, hfull, fun s' hreach hgen => ?_⟩
      have hfinal := hok.final hover hk hf hreach trivial
      exact ⟨hfinal.target hgen, hfinal.failed hgen⟩
  · intro h k hk
    have hok : FullOk False s := h.invariant (fullOk_new False config fused limit hlimit)
      fun _ _ _ hok hl hs => hok.step hl.1.1 hl.1.2 (.inr hl.2) hs
    exact (hok.targets hover k hk).elim id fun ⟨_, _, hno, _⟩ => hno.elim

/-- a Manager with room for one expert -/
def tightConfig : ManagerConfig := ⟨1, 3, "cpu", 5, 5, by decide⟩

/-- an expert replaces another on a device with room for one: it is READY where the old one is drained
first, and else it stays FAILED, also when the drain has freed the room -/
theorem settled_targets_swapped :
    (∃ s, s.loadsOver = true ∧
      Steps.Reach LiveManager.step
        (fun s l => (tracked s l = true ∧ succeeds l = true) ∧ roomFor s l = true)
        (.new tightConfig true 1 (by decide)) s ∧
      expert 1 ∈ s.manager.targets ∧ s.manager.states[expert 1]? = some .ready) ∧
    ∃ s s', s.loadsOver = true ∧
      Steps.Reach LiveManager.step (fun s l => tracked s l = true ∧ succeeds l = true)
        (.new tightConfig false 1 (by decide)) s ∧
      Steps.Reach LiveManager.step (fun s l => tracked s l = true ∧ succeeds l = true) s s' ∧
      s'.hasRoom = true ∧ ∃ f, s'.manager.states[expert 1]? = some (.failed f) := by
  constructor
  · have hrun := (Option.any_eq_true
      (fun s : LiveManager => s.loadsOver && decide (expert 1 ∈ s.manager.targets))
      (Steps.run LiveManager.step (fun s l => (tracked s l && succeeds l) && roomFor s l)
        (.new tightConfig true 1 (by decide))
        ([.applyTargets 1 [target 0]] ++ loadSteps 0 ++ endSteps 0 ++
          [.applyTargets 2 [target 1], .beginRemoval 2 [expert 0] false, .withdraw,
            .finishRemoval] ++ loadSteps 1 ++ endSteps 1))).mp (by decide +kernel)
    obtain ⟨s, hs, hp⟩ := hrun
    rw [Bool.and_eq_true, decide_eq_true_eq] at hp
    have hreach := (Steps.Reach.refl.of_run hs).mono fun s l hl => by
      simpa only [Bool.and_eq_true] using hl
    exact ⟨s, hp.1, hreach, hp.2,
      (settled_targets tightConfig true 1 (by decide) hp.1).2 hreach (expert 1) hp.2⟩
  · have hrun := (Option.any_eq_true
      (fun s : LiveManager => s.loadsOver && decide (expert 1 ∈ s.manager.targets)
        && decide (s.manager.states[expert 1]? ≠ some .ready)
        && (Steps.run LiveManager.step (fun s l => tracked s l && succeeds l) s
            [.beginRemoval 2 [expert 0] false, .withdraw, .finishRemoval]).any fun s' =>
          s'.hasRoom && decide (s'.manager.placementGeneration = s.manager.placementGeneration))
      (Steps.run LiveManager.step (fun s l => tracked s l && succeeds l)
        (.new tightConfig false 1 (by decide))
        ([.applyTargets 1 [target 0]] ++ loadSteps 0 ++ endSteps 0 ++ [.applyTargets 2 [target 1]] ++
          loadSteps 1 ++ endSteps 1))).mp (by decide +kernel)
    obtain ⟨s, hs, hp⟩ := hrun
    simp only [Bool.and_eq_true, decide_eq_true_eq] at hp
    obtain ⟨⟨⟨hover, htarget⟩, hunready⟩, hdrain⟩ := hp
    obtain ⟨s', hs', hafter⟩ := (Option.any_eq_true _ _).mp hdrain
    rw [Bool.and_eq_true, decide_eq_true_eq] at hafter
    have hreach := (Steps.Reach.refl.of_run hs).mono fun s l hl => by
      simpa only [Bool.and_eq_true] using hl
    have hreach' := (Steps.Reach.refl.of_run hs').mono fun s l hl => by
      simpa only [Bool.and_eq_true] using hl
    refine ⟨s, s', hover, hreach, hreach', hafter.1, ?_⟩
    rcases (settled_targets tightConfig false 1 (by decide) hover).1 hreach (expert 1) htarget with
      hr | ⟨f, _, _, hfinal⟩
    · exact absurd hr hunready
    · exact ⟨f, (hfinal s' hreach' hafter.2).2⟩

/-- the new expert is loaded before the old one is drained: the drain frees the space, all loads and
drains are over, and the new expert stays FAILED -/
theorem swap_abandoned :
    ∃ s, Steps.Reach LiveManager.step (fun s l => tracked s l = true ∧ succeeds l = true)
        (.new tightConfig false 1 (by decide)) s ∧
      s.loadsOver = true ∧ s.removal = none ∧ (∀ k ∈ s.manager.readyKeys, k ∈ s.manager.targets) ∧
      s.hasRoom = true ∧ expert 1 ∈ s.manager.targets ∧
      s.manager.states[expert 1]? = some (.failed WeightManager.capacityFailure) := by
  have hrun := (Option.any_eq_true
    (fun s : LiveManager => s.loadsOver && s.removal.isNone
      && s.manager.readyKeys.toList.all (fun k => s.manager.targets.contains k) && s.hasRoom
      && decide (expert 1 ∈ s.manager.targets)
      && decide (s.manager.states[expert 1]? = some (.failed WeightManager.capacityFailure)))
    (Steps.run LiveManager.step (fun s l => tracked s l && succeeds l)
      (.new tightConfig false 1 (by decide))
      ([.applyTargets 1 [target 0]] ++ loadSteps 0 ++ endSteps 0 ++ [.applyTargets 2 [target 1]] ++
        loadSteps 1 ++ endSteps 1 ++
        [.beginRemoval 2 [expert 0] false, .withdraw, .finishRemoval]))).mp (by decide +kernel)
  obtain ⟨s, hs, hp⟩ := hrun
  simp only [Bool.and_eq_true, decide_eq_true_eq, Option.isNone_iff_eq_none, List.all_eq_true,
    ExtTreeSet.mem_toList, ExtTreeMap.contains_iff_mem] at hp
  obtain ⟨⟨⟨⟨⟨h1, h2⟩, h3⟩, h4⟩, h5⟩, h6⟩ := hp
  have hreach := (Steps.Reach.refl.of_run hs).mono fun s l hl => by
    simpa only [Bool.and_eq_true] using hl
  exact ⟨s, hreach, h1, h2, h3, h4, h5, h6⟩

end ExpertKit.Worker

import ExpertKit.Worker.Loads

/-!
# Worker: the states, the ready objects and the device bytes agree

What holds of a `LiveManager` in every state of every run, whatever is cancelled and whatever the
loads give.

* `CoreOk`              the recorded states and the byte count while nobody holds the lock;
* `LiveOk`              the same, with the table and a removal that is under way;
* `LiveOk.step`         every step keeps it;
* `ready_states_consistent`   what this says in the states where the lock is free.
-/

set_option linter.unusedSectionVars false

namespace ExpertKit.Worker
open Std

/-! ## the Manager between two operations -/

/-- failures are recorded for assigned experts only, and the bytes are those of the ready objects -/
structure CoreOk (m : WeightManager) : Prop extends ManagerOk m where
  failed_target : ∀ (k : ExpertKey) (f : LoadFailure), m.states[k]? = some (.failed f) → k ∈ m.targets
  bytes_eq : m.loadedDeviceBytes = m.readyKeys.size * m.config.readyWeightBytes
  bytes_le : m.loadedDeviceBytes ≤ m.config.deviceWeightCapacityBytes

theorem coreOk_new (config : ManagerConfig) : CoreOk (.new config) := by
  refine ⟨managerOk_new config, ?_, ?_, ?_⟩
  · intro k f h
    simp [WeightManager.new] at h
  · simp [WeightManager.new]
  · simp [WeightManager.new]

/-- neither the loads nor the shutdown matter -/
theorem CoreOk.withLoads {m : WeightManager} (h : CoreOk m) (loads : ExtTreeMap ExpertKey Bool)
    (shuttingDown : Bool) :
    CoreOk { m with loadTasks := loads, shuttingDown := shuttingDown } :=
  ⟨⟨h.targets_shape, h.states_shape, h.ready_iff⟩, h.failed_target, h.bytes_eq, h.bytes_le⟩

/-- an operation that keeps the placement and the ready objects, and records no new failure -/
theorem CoreOk.of_states {m m' : WeightManager} (h : CoreOk m) (hcore : m.SameCore m')
    (hok : ManagerOk m') (hfailed : ∀ (k : ExpertKey) (f : LoadFailure),
      m'.states[k]? = some (.failed f) → m.states[k]? = some (.failed f) ∨ k ∈ m.targets) :
    CoreOk m' := by
  obtain ⟨loads, states, rfl⟩ := hcore
  refine ⟨hok, ?_, h.bytes_eq, h.bytes_le⟩
  intro k f hk
  exact (hfailed k f hk).elim (h.failed_target k f) id

theorem CoreOk.setState {m : WeightManager} (h : CoreOk m) {key : ExpertKey} {state : LocalState}
    (hkey : key ∈ m.targets) (hnew : state ≠ .ready) (hnot : key ∉ m.readyKeys) :
    CoreOk (m.setState key state).1 := by
  refine h.of_states (m.setState_core key state)
    (h.toManagerOk.setState (h.targets_shape key hkey) hnew hnot) ?_
  intro k f hk
  rw [WeightManager.setState_states] at hk
  split_ifs at hk with he
  · exact .inr (he ▸ hkey)
  · exact .inl hk

theorem CoreOk.install {m : WeightManager} (h : CoreOk m) (generation : Nat)
    {resolved : ExtTreeMap ExpertKey TargetExpert}
    (hshape : ∀ k ∈ resolved, m.config.inShape k = true) :
    CoreOk (m.install generation resolved).1 := by
  have hok := h.toManagerOk.install generation hshape
  obtain ⟨⟨loads, states, hcore⟩, hstates⟩ := m.install_spec generation resolved
  rw [hcore] at hstates hok ⊢
  refine ⟨hok, ?_, h.bytes_eq, h.bytes_le⟩
  intro k f hk
  show k ∈ resolved
  rw [show states[k]? = _ from hstates k] at hk
  split_ifs at hk with h1 h2 h3
  · rw [(h.ready_iff k).mp h1] at hk
    cases hk
  · cases hk
  · exact absurd (h.failed_target k f hk) h3

theorem CoreOk.finishFailure {m : WeightManager} (h : CoreOk m) (key : ExpertKey)
    (failure : LoadFailure) : CoreOk (m.finishFailure key failure).1 := by
  rcases m.finishFailure_cases key failure with heq | ⟨ht, hr, heq⟩
  · rw [heq]
    exact h
  · rw [heq]
    exact h.setState ht (by simp) hr

theorem CoreOk.loadEnded {m : WeightManager} (h : CoreOk m) (key : ExpertKey) (cancelled : Bool) :
    CoreOk (m.loadEnded key cancelled) := by
  have hok := h.toManagerOk.loadEnded key cancelled
  rcases m.loadEnded_cases key cancelled with ⟨loads, heq⟩ | ⟨_, loads, heq⟩
  · rw [heq] at hok ⊢
    exact h.of_states ⟨_, _, rfl⟩ hok fun k f hk => .inl hk
  · rw [heq] at hok ⊢
    refine h.of_states ⟨_, _, rfl⟩ hok ?_
    intro k f hk
    rw [Maps.getElem?_erase_eq] at hk
    split_ifs at hk with he
    exact .inl hk

/-- no object is published: the load was not needed, or the device is full -/
theorem CoreOk.finishReady_full {m : WeightManager} (h : CoreOk m) {key : ExpertKey}
    (hno : ¬ (key ∈ m.targets ∧ key ∉ m.readyKeys ∧
      m.loadedDeviceBytes + m.config.readyWeightBytes ≤ m.config.deviceWeightCapacityBytes)) :
    CoreOk (m.finishReady key).1 ∧ m.SameCore (m.finishReady key).1 := by
  unfold WeightManager.finishReady
  split_ifs with h1 h2
  · exact ⟨h, .refl m⟩
  · rw [not_or, not_not] at h1
    exact ⟨h.setState h1.1 (by simp) h1.2, m.setState_core _ _⟩
  · rw [not_or, not_not] at h1
    exact absurd ⟨h1.1, h1.2, by omega⟩ hno

/-- the object is published: the expert is READY and its bytes are counted -/
theorem finishReady_room {m : WeightManager} {key : ExpertKey} (ht : key ∈ m.targets)
    (hr : key ∉ m.readyKeys)
    (hroom : m.loadedDeviceBytes + m.config.readyWeightBytes ≤ m.config.deviceWeightCapacityBytes) :
    (m.finishReady key).1.readyKeys = m.readyKeys.insert key ∧
    (m.finishReady key).1.loadedDeviceBytes = m.loadedDeviceBytes + m.config.readyWeightBytes ∧
    (m.finishReady key).1.targets = m.targets ∧ (m.finishReady key).1.config = m.config ∧
    (m.finishReady key).1.loadTasks = m.loadTasks ∧
    (m.finishReady key).1.shuttingDown = m.shuttingDown ∧
    ∀ k : ExpertKey, (m.finishReady key).1.states[k]?
      = if key = k then some .ready else m.states[k]? := by
  have hno : ¬ (key ∉ m.targets ∨ key ∈ m.readyKeys) := fun h => h.elim (· ht) hr
  have heq : m.finishReady key = { m with
      readyKeys := m.readyKeys.insert key
      loadedDeviceBytes := m.loadedDeviceBytes + m.config.readyWeightBytes }.setState key .ready := by
    unfold WeightManager.finishReady
    rw [if_neg hno, if_neg (by omega)]
  have hstates := WeightManager.setState_states { m with
      readyKeys := m.readyKeys.insert key
      loadedDeviceBytes := m.loadedDeviceBytes + m.config.readyWeightBytes } key .ready
  have hloads : (m.finishReady key).1.loadTasks = m.loadTasks := by
    rw [heq]
    unfold WeightManager.setState
    split_ifs <;> rfl
  obtain ⟨loads, states, hcore⟩ := WeightManager.setState_core { m with
      readyKeys := m.readyKeys.insert key
      loadedDeviceBytes := m.loadedDeviceBytes + m.config.readyWeightBytes } key .ready
  rw [← heq] at hcore hstates
  rw [hcore] at hstates hloads ⊢
  exact ⟨rfl, rfl, rfl, rfl, hloads, rfl, hstates⟩

theorem CoreOk.finishReady_room {m : WeightManager} (h : CoreOk m) {key : ExpertKey}
    (ht : key ∈ m.targets) (hr : key ∉ m.readyKeys)
    (hroom : m.loadedDeviceBytes + m.config.readyWeightBytes ≤ m.config.deviceWeightCapacityBytes) :
    CoreOk (m.finishReady key).1 := by
  obtain ⟨hready, hbytes, htargets, hconfig, _, _, hstates⟩ :=
    ExpertKit.Worker.finishReady_room ht hr hroom
  refine ⟨h.toManagerOk.finishReady key, ?_, ?_, ?_⟩
  · intro k f hk
    rw [hstates] at hk
    rw [htargets]
    split_ifs at hk with he
    · cases hk
    · exact h.failed_target k f hk
  · have hsize : (m.readyKeys.insert key).size = m.readyKeys.size + 1 := by
      rw [ExtTreeSet.size_insert, if_neg (by simpa using hr)]
    rw [hbytes, hready, hconfig, hsize, h.bytes_eq]
    ring
  · rw [hbytes, hconfig]
    exact hroom

/-! ## with the table and a removal under way -/

/-- the removal under way has released the object or will not, and the state is not recorded yet -/
def LiveManager.released (s : LiveManager) (k : ExpertKey) : Prop :=
  ∃ request rest, s.removal = some (request, rest) ∧ k ∈ request.keys ∧ k ∉ rest

structure LiveOk (s : LiveManager) : Prop where
  targets_shape : ∀ k ∈ s.manager.targets, s.manager.config.inShape k = true
  states_shape : ∀ k ∈ s.manager.states, s.manager.config.inShape k = true
  ready_iff : ∀ k : ExpertKey,
    k ∈ s.manager.readyKeys ↔ s.manager.states[k]? = some .ready ∧ ¬ s.released k
  failed_target : ∀ (k : ExpertKey) (f : LoadFailure),
    s.manager.states[k]? = some (.failed f) → k ∈ s.manager.targets
  bytes_eq : s.manager.loadedDeviceBytes
    = s.manager.readyKeys.size * s.manager.config.readyWeightBytes
  bytes_le : s.manager.loadedDeviceBytes ≤ s.manager.config.deviceWeightCapacityBytes
  table_iff : ∀ k : ExpertKey, k ∈ s.table ↔ k ∈ s.manager.readyKeys
  withdrawing : ∀ request rest, s.removal = some (request, rest) →
    rest.Nodup ∧ (∀ k ∈ rest, k ∈ request.keys) ∧
    (∀ k ∈ rest, ∃ e, s.table[k]? = some e ∧ e.accepting = false) ∧
    ∀ k ∈ request.keys, s.manager.config.inShape k = true

theorem LiveManager.not_released {s : LiveManager} (h : s.removal = none) (k : ExpertKey) :
    ¬ s.released k := by
  rintro ⟨request, rest, heq, _⟩
  rw [h] at heq
  cases heq

theorem LiveOk.core {s : LiveManager} (h : LiveOk s) (hfree : s.removal = none) :
    CoreOk s.manager := by
  refine ⟨⟨h.targets_shape, h.states_shape, ?_⟩, h.failed_target, h.bytes_eq, h.bytes_le⟩
  intro k
  rw [h.ready_iff]
  exact and_iff_left (LiveManager.not_released hfree k)

theorem LiveOk.of_core {s : LiveManager} (hfree : s.removal = none) (h : CoreOk s.manager)
    (htable : ∀ k : ExpertKey, k ∈ s.table ↔ k ∈ s.manager.readyKeys) : LiveOk s := by
  refine ⟨h.targets_shape, h.states_shape, ?_, h.failed_target, h.bytes_eq, h.bytes_le, htable, ?_⟩
  · intro k
    rw [h.ready_iff]
    exact (and_iff_left (LiveManager.not_released hfree k)).symm
  · intro request rest heq
    rw [hfree] at heq
    cases heq

/-- at most the loads, the use counts and what is not read here have changed -/
structure SameReady (s s' : LiveManager) : Prop where
  manager : ∃ loads, s'.manager = { s.manager with loadTasks := loads }
  table : ∀ k : ExpertKey, s'.table[k]?.map (·.accepting) = s.table[k]?.map (·.accepting)
  removal : s'.removal = s.removal

theorem SameReady.of_phases {s s' : LiveManager} (hm : s'.manager = s.manager)
    (ht : s'.table = s.table) (hr : s'.removal = s.removal) : SameReady s s' :=
  ⟨⟨s.manager.loadTasks, hm⟩, fun k => by rw [ht], hr⟩

theorem LiveOk.same {s s' : LiveManager} (h : LiveOk s) (hs : SameReady s s') : LiveOk s' := by
  obtain ⟨loads, hm⟩ := hs.manager
  have hrel : ∀ k : ExpertKey, s'.released k ↔ s.released k := by
    intro k
    unfold LiveManager.released
    rw [hs.removal]
  have hmem : ∀ k : ExpertKey, k ∈ s'.table ↔ k ∈ s.table := by
    intro k
    have hk := congrArg Option.isSome (hs.table k)
    rw [Option.isSome_map, Option.isSome_map] at hk
    rw [← ExtTreeMap.isSome_getElem?_iff_mem, ← ExtTreeMap.isSome_getElem?_iff_mem, hk]
  refine ⟨?_, ?_, ?_, ?_, ?_, ?_, ?_, ?_⟩
  · rw [hm]
    exact h.targets_shape
  · rw [hm]
    exact h.states_shape
  · intro k
    rw [hm, hrel k]
    exact h.ready_iff k
  · rw [hm]
    exact h.failed_target
  · rw [hm]
    exact h.bytes_eq
  · rw [hm]
    exact h.bytes_le
  · intro k
    rw [hmem k, hm]
    exact h.table_iff k
  · intro request rest heq
    rw [hs.removal] at heq
    obtain ⟨hnodup, hsub, hwait, hshape⟩ := h.withdrawing request rest heq
    refine ⟨hnodup, hsub, ?_, ?_⟩
    · intro k hk
      obtain ⟨e, he, hacc⟩ := hwait k hk
      have hk' := hs.table k
      rw [he, Option.map_some, Option.map_eq_some_iff] at hk'
      obtain ⟨e', he', heq'⟩ := hk'
      exact ⟨e', he', heq'.trans hacc⟩
    · rw [hm]
      exact hshape

/-! ## the steps of a load -/

theorem LiveOk.withManager {s : LiveManager} (h : LiveOk s) (hfree : s.removal = none)
    {m : WeightManager} (hm : CoreOk m) (hr : m.readyKeys = s.manager.readyKeys)
    {s' : LiveManager} (hs : s'.manager = m) (ht : s'.table = s.table)
    (hrem : s'.removal = s.removal) : LiveOk s' := by
  refine .of_core (hrem.trans hfree) (hs ▸ hm) ?_
  intro k
  rw [hs, ht, hr]
  exact h.table_iff k

theorem LiveOk.finishReady {s : LiveManager} (h : LiveOk s) (hfree : s.removal = none)
    (key : ExpertKey) : LiveOk (s.finishReady key) ∧ (s.finishReady key).removal = none := by
  have hcore := h.core hfree
  unfold LiveManager.finishReady LiveManager.hasRoom
  simp only [decide_eq_true_eq]
  split_ifs with hc
  · have hempty : key ∉ s.table := fun hk => hc.2.1 ((h.table_iff key).mp hk)
    have hpub : s.table.publish key = .ok (s.table.insert key ⟨true, 0⟩) := if_neg hempty
    rw [hpub]
    refine ⟨.of_core hfree (hcore.finishReady_room hc.1 hc.2.1 hc.2.2) ?_, hfree⟩
    intro k
    show k ∈ s.table.insert key ⟨true, 0⟩ ↔ k ∈ (s.manager.finishReady key).1.readyKeys
    rw [(finishReady_room hc.1 hc.2.1 hc.2.2).1, ExtTreeMap.mem_insert, ExtTreeSet.mem_insert,
      h.table_iff k]
  · obtain ⟨hok, hsame⟩ := hcore.finishReady_full hc
    exact ⟨h.withManager hfree hok hsame.readyKeys rfl rfl rfl, hfree⟩

theorem LiveOk.task {s s' : LiveManager} {key : ExpertKey} {l : LoadLabel}
    (h : LiveOk s) (ht : TaskStep s key l s') : LiveOk s' := by
  cases ht with
  | delivered hflag hp => exact h.same ⟨⟨_, rfl⟩, fun k => rfl, rfl⟩
  | converted source result cancelled hflag hp =>
    refine h.same (.of_phases ?_ ?_ ?_)
    all_goals
      cases result with
      | ready => cases cancelled <;> rfl
      | unsupported diagnostic => rfl
      | internal diagnostic => rfl
      | fatal => rfl
  | failed failure leased hflag hp hfree =>
    have hok := (h.core hfree).finishFailure key failure
    refine h.withManager hfree hok ?_ rfl rfl rfl
    rcases s.manager.finishFailure_cases key failure with heq | ⟨_, _, heq⟩
    · rw [heq]
    · rw [heq]
      exact (s.manager.setState_core key (.failed failure)).readyKeys
  | finished cancelled hp hfree =>
    exact (h.finishReady hfree key).1.same (.of_phases rfl rfl rfl)
  | ended cancelled hflag hp hfree =>
    refine h.withManager hfree ((h.core hfree).loadEnded key cancelled) ?_ rfl rfl rfl
    rcases s.manager.loadEnded_cases key cancelled with ⟨loads, heq⟩ | ⟨_, loads, heq⟩ <;> rw [heq]
  | _ => exact h.same (.of_phases rfl rfl rfl)

/-! ## removal -/

theorem getElem?_beginWithdrawals {t : ReadyTable} {l : List ExpertKey} (h : ∀ k ∈ l, k ∈ t) :
    (t.beginWithdrawals l).2 = none ∧ ∀ k : ExpertKey, (t.beginWithdrawals l).1[k]?
      = if k ∈ l then t[k]?.map fun e => { e with accepting := false } else t[k]? := by
  induction l generalizing t with
  | nil => simp [ReadyTable.beginWithdrawals]
  | cons key l ih =>
    obtain ⟨e, he⟩ := mem_iff_getElem?.mp (h key List.mem_cons_self)
    unfold ReadyTable.beginWithdrawals
    rw [he]
    have hrest : ∀ k ∈ l, k ∈ t.insert key { e with accepting := false } := fun k hk =>
      ExtTreeMap.mem_insert.mpr (.inr (h k (List.mem_cons_of_mem _ hk)))
    obtain ⟨h1, h2⟩ := ih hrest
    refine ⟨h1, ?_⟩
    intro k
    show (ReadyTable.beginWithdrawals (t.insert key { e with accepting := false }) l).1[k]? = _
    rw [h2, Maps.getElem?_insert_eq]
    by_cases hk : key = k
    · subst hk
      by_cases hl : key ∈ l <;> simp [hl, he]
    · have hmem : k ∈ key :: l ↔ k ∈ l := by
        rw [List.mem_cons, or_iff_right (fun e => hk e.symm)]
      simp only [if_neg hk, hmem]

theorem checkRemoval_eq_true {m : WeightManager} {request : RemovalRequest}
    (h : m.checkRemoval request = .ok true) :
    request.placementGeneration = m.placementGeneration ∧
      (request.wholeWorkerShutdown = true ∨ ∀ k ∈ request.keys, k ∉ m.targets) := by
  unfold WeightManager.checkRemoval at h
  split_ifs at h with h1 h2 h3
  · cases h
  · refine ⟨by omega, ?_⟩
    by_cases hw : request.wholeWorkerShutdown = true
    · exact .inl hw
    · exact .inr fun k hk ht => h3 ⟨⟨k, hk, ht⟩, by simpa using hw⟩

theorem removalRequest_nodup {m : WeightManager} {generation : Nat} {keys : List ExpertKey}
    {whole : Bool} {request : RemovalRequest}
    (h : m.removalRequest generation keys whole = .ok request) : request.keys.Nodup := by
  unfold WeightManager.removalRequest at h
  split_ifs at h
  cases h
  show (ExtTreeSet.ofList keys).toList.Nodup
  have hd := ExtTreeSet.distinct_toList (t := ExtTreeSet.ofList keys)
  refine hd.imp ?_
  intro a b hab heq
  subst heq
  exact hab (Std.compare_eq_iff_eq.mpr rfl)

/-- a removal begins: its ready objects stop accepting and stay where they are -/
theorem LiveOk.beginRemoval {s : LiveManager} (h : LiveOk s) (hfree : s.removal = none)
    {generation : Nat} {keys : List ExpertKey} {whole : Bool} {request : RemovalRequest}
    (hreq : s.manager.removalRequest generation keys whole = .ok request) :
    LiveOk { s with
      table := (s.table.beginWithdrawals (s.manager.withdrawn request)).1
      removal := some (request, s.manager.withdrawn request) } := by
  have hcore := h.core hfree
  have hwithdrawn : ∀ k : ExpertKey,
      k ∈ s.manager.withdrawn request ↔ k ∈ request.keys ∧ k ∈ s.manager.readyKeys := by
    intro k
    unfold WeightManager.withdrawn
    rw [List.mem_filter, decide_eq_true_eq]
  have hin : ∀ k ∈ s.manager.withdrawn request, k ∈ s.table := fun k hk =>
    (h.table_iff k).mpr ((hwithdrawn k).mp hk).2
  have htable := (getElem?_beginWithdrawals hin).2
  refine ⟨h.targets_shape, h.states_shape, ?_, h.failed_target, h.bytes_eq, h.bytes_le, ?_, ?_⟩
  · intro k
    show k ∈ s.manager.readyKeys ↔ _
    rw [hcore.ready_iff k]
    refine ⟨fun hk => ⟨hk, ?_⟩, fun hk => hk.1⟩
    rintro ⟨request', rest, heq, hmem, hnot⟩
    cases heq
    exact hnot ((hwithdrawn k).mpr ⟨hmem, (hcore.ready_iff k).mpr hk⟩)
  · intro k
    show k ∈ (s.table.beginWithdrawals (s.manager.withdrawn request)).1 ↔ k ∈ s.manager.readyKeys
    rw [← h.table_iff k, ← ExtTreeMap.isSome_getElem?_iff_mem, ← ExtTreeMap.isSome_getElem?_iff_mem,
      htable k]
    split_ifs
    · rw [Option.isSome_map]
    · rfl
  · intro request' rest heq
    cases heq
    refine ⟨(removalRequest_nodup hreq).filter _, fun k hk => ((hwithdrawn k).mp hk).1, ?_, ?_⟩
    · intro k hk
      obtain ⟨e, he⟩ := mem_iff_getElem?.mp (hin k hk)
      refine ⟨{ e with accepting := false }, ?_, rfl⟩
      rw [htable k, if_pos hk, he]
      rfl
    · obtain ⟨_, _, _, _, hshape, hmem⟩ := removalRequest_spec hreq
      exact fun k hk => hshape k ((hmem k).mp hk)

/-- an object of the removal is released -/
theorem LiveOk.withdraw {s : LiveManager} (h : LiveOk s) {request : RemovalRequest}
    {key : ExpertKey} {rest : List ExpertKey} (hr : s.removal = some (request, key :: rest)) :
    LiveOk { s with
      manager := s.manager.releaseReady key
      table := s.table.erase key
      owners := s.owners.erase key
      removal := some (request, rest) } := by
  obtain ⟨hnodup, hsub, hwait, hshape⟩ := h.withdrawing request (key :: rest) hr
  obtain ⟨hnot, hnodup'⟩ := List.nodup_cons.mp hnodup
  have hready : key ∈ s.manager.readyKeys := by
    obtain ⟨e, he, _⟩ := hwait key List.mem_cons_self
    exact (h.table_iff key).mp (mem_iff_getElem?.mpr ⟨e, he⟩)
  have hne : ∀ k : ExpertKey, compare key k ≠ .eq ↔ k ≠ key := by
    intro k
    rw [ne_eq, Std.compare_eq_iff_eq, eq_comm]
  have hsize : (s.manager.readyKeys.erase key).size + 1 = s.manager.readyKeys.size := by
    have hpos := ExtTreeSet.size_le_size_erase (t := s.manager.readyKeys) (k := key)
    have herase := ExtTreeSet.size_erase (t := s.manager.readyKeys) (k := key)
    rw [if_pos (ExtTreeSet.contains_iff_mem.mpr hready)] at herase
    have hnz : s.manager.readyKeys.size ≠ 0 := by
      intro hz
      rw [ExtTreeSet.eq_empty_iff_size_eq_zero.mpr hz] at hready
      exact ExtTreeSet.not_mem_empty hready
    omega
  have hbytes : s.manager.loadedDeviceBytes
      = (s.manager.readyKeys.erase key).size * s.manager.config.readyWeightBytes
        + s.manager.config.readyWeightBytes := by
    rw [h.bytes_eq, ← hsize]
    ring
  refine ⟨h.targets_shape, h.states_shape, ?_, h.failed_target, ?_, ?_, ?_, ?_⟩
  · intro k
    show k ∈ s.manager.readyKeys.erase key ↔ s.manager.states[k]? = some .ready ∧ _
    rw [ExtTreeSet.mem_erase, hne k, h.ready_iff k]
    constructor
    · rintro ⟨hk, hstate, hrel⟩
      refine ⟨hstate, ?_⟩
      rintro ⟨request', rest', heq, hmem, hrest⟩
      cases heq
      exact hrel ⟨request, key :: rest, hr, hmem, by simp [hk, hrest]⟩
    · rintro ⟨hstate, hrel⟩
      refine ⟨?_, hstate, ?_⟩
      · rintro rfl
        exact hrel ⟨request, rest, rfl, hsub k List.mem_cons_self, hnot⟩
      · rintro ⟨request', rest', heq, hmem, hrest⟩
        rw [hr] at heq
        cases heq
        exact hrel ⟨request, rest, rfl, hmem, fun hk => hrest (List.mem_cons_of_mem _ hk)⟩
  · show s.manager.loadedDeviceBytes - s.manager.config.readyWeightBytes
      = (s.manager.readyKeys.erase key).size * s.manager.config.readyWeightBytes
    omega
  · show s.manager.loadedDeviceBytes - s.manager.config.readyWeightBytes ≤ _
    exact (Nat.sub_le _ _).trans h.bytes_le
  · intro k
    show k ∈ s.table.erase key ↔ k ∈ s.manager.readyKeys.erase key
    rw [ExtTreeMap.mem_erase, ExtTreeSet.mem_erase, h.table_iff k]
  · intro request' rest' heq
    cases heq
    refine ⟨hnodup', fun k hk => hsub k (List.mem_cons_of_mem _ hk), ?_, hshape⟩
    intro k hk
    obtain ⟨e, he, hacc⟩ := hwait k (List.mem_cons_of_mem _ hk)
    refine ⟨e, ?_, hacc⟩
    show (s.table.erase key)[k]? = some e
    rw [Maps.getElem?_erase_eq, if_neg, he]
    rintro rfl
    exact hnot hk

/-- the removal ends: its experts are REMOVED and none of them is ready -/
theorem LiveOk.finishRemoval {s : LiveManager} (h : LiveOk s) {request : RemovalRequest}
    (hr : s.removal = some (request, [])) :
    LiveOk { s with manager := (s.manager.setRemoved request.keys).1, removal := none } := by
  obtain ⟨_, _, _, hshape⟩ := h.withdrawing request [] hr
  have hstates := s.manager.setRemoved_states request.keys
  obtain ⟨loads, states, hcore⟩ := s.manager.setRemoved_core request.keys
  rw [hcore] at hstates ⊢
  refine .of_core rfl ⟨⟨h.targets_shape, ?_, ?_⟩, ?_, h.bytes_eq, h.bytes_le⟩ h.table_iff
  · intro k hk
    obtain ⟨b, hb⟩ := mem_iff_getElem?.mp hk
    rw [hstates] at hb
    split_ifs at hb with he
    · exact hshape k he
    · exact h.states_shape k (mem_iff_getElem?.mpr ⟨b, hb⟩)
  · intro k
    show k ∈ s.manager.readyKeys ↔ states[k]? = some .ready
    rw [show states[k]? = _ from hstates k, h.ready_iff k]
    split_ifs with he
    · refine iff_of_false ?_ (by simp)
      exact fun hk => hk.2 ⟨request, [], hr, he, List.not_mem_nil⟩
    · refine and_iff_left ?_
      rintro ⟨request', rest, heq, hmem, _⟩
      rw [hr] at heq
      cases heq
      exact he hmem
  · intro k f hk
    rw [hstates] at hk
    split_ifs at hk with he
    · cases hk
    · exact h.failed_target k f hk

/-! ## leases -/

theorem accepting_foldl_alter (f : ReadyEntry → ReadyEntry)
    (hf : ∀ e, (f e).accepting = e.accepting) (layerId : Nat) (expertIds : List Nat)
    (t : ReadyTable) (k : ExpertKey) :
    (expertIds.foldl (fun t expertId =>
      t.alter (⟨layerId, expertId⟩ : ExpertKey) (Option.map f)) t)[k]?.map (·.accepting)
      = t[k]?.map (·.accepting) := by
  induction expertIds generalizing t with
  | nil => rfl
  | cons expertId rest ih =>
    rw [List.foldl_cons, ih, ExtTreeMap.getElem?_alter]
    split_ifs with hk
    · rw [← Std.compare_eq_iff_eq.mp hk, Option.map_map]
      congr 1
      funext e
      exact hf e
    · rfl

theorem sameReady_acquireMany {s s' : LiveManager} {layerId : Nat} {expertIds : List Nat}
    (h : s.acquireMany layerId expertIds = some s') : SameReady s s' := by
  unfold LiveManager.acquireMany at h
  split at h
  · cases h
    exact .of_phases rfl rfl rfl
  · rename_i table heq
    cases h
    refine ⟨⟨s.manager.loadTasks, rfl⟩, ?_, rfl⟩
    intro k
    unfold ReadyTable.acquireMany at heq
    cases hv : ReadyTable.validateExpertList s.manager.config layerId expertIds with
    | error e =>
      rw [hv] at heq
      cases heq
    | ok u =>
      rw [hv] at heq
      change (if s.table.unavailable layerId expertIds ≠ [] then
        Except.error (ReadyError.notReady (s.table.unavailable layerId expertIds))
        else Except.ok (s.table.addUses layerId expertIds)) = Except.ok table at heq
      split_ifs at heq
      cases heq
      exact accepting_foldl_alter (fun e => { e with useCount := e.useCount + 1 }) (fun e => rfl)
        layerId expertIds s.table k

theorem sameReady_closeLease {s s' : LiveManager} {i : Nat} (h : s.closeLease i = some s') :
    SameReady s s' := by
  unfold LiveManager.closeLease at h
  split at h
  · cases h
  · rename_i layerId expertIds hi
    split at h
    · cases h
      exact .of_phases rfl rfl rfl
    · rename_i table heq
      cases h
      refine ⟨⟨s.manager.loadTasks, rfl⟩, ?_, rfl⟩
      intro k
      unfold ReadyTable.release at heq
      split_ifs at heq
      cases heq
      exact accepting_foldl_alter (fun e => { e with useCount := e.useCount - 1 }) (fun e => rfl)
        layerId expertIds s.table k

/-! ## every step -/

/-- a list that is applied installs its targets; every other call changes nothing -/
theorem applyTargets_live {s s' : LiveManager} {generation : Nat} {targets : List TargetExpert}
    (h : s.applyTargets generation targets = some s') :
    s.removal = none ∧ (s' = s ∨ ∃ resolved, s.manager.validateTargets targets = .ok resolved ∧
      s.manager.placementGeneration < generation ∧
      (s.manager.shuttingDown = true → ∀ key ∈ resolved, key ∈ s.manager.targets) ∧
      s' = { s with manager := (s.manager.install generation resolved).1 }) := by
  unfold LiveManager.applyTargets at h
  split at h
  · obtain ⟨hfree, rfl⟩ := LiveManager.whenFree_eq_some h
    exact ⟨hfree, .inl rfl⟩
  · rename_i applied manager changes heq
    obtain ⟨hfree, rfl⟩ := LiveManager.whenFree_eq_some h
    refine ⟨hfree, ?_⟩
    obtain ⟨resolved, hv, _, ⟨_, rfl, _, _⟩ | ⟨_, hgen, hshut, hinst⟩⟩ :=
      WeightManager.applyTargets_cases heq
    · exact .inl rfl
    · exact .inr ⟨resolved, hv, hgen, hshut, by rw [← hinst]⟩

theorem LiveOk.applyTargets {s s' : LiveManager} (h : LiveOk s) {generation : Nat}
    {targets : List TargetExpert} (hs : s.applyTargets generation targets = some s') :
    LiveOk s' := by
  obtain ⟨hfree, rfl | ⟨resolved, hv, _, _, rfl⟩⟩ := applyTargets_live hs
  · exact h
  · have hok := (h.core hfree).install generation
      (WeightManager.validateTargets_spec hv).1
    refine h.withManager hfree hok ?_ rfl rfl rfl
    exact (s.manager.install_spec generation resolved).1.readyKeys

/-- a removal that begins has passed its checks; every other call changes nothing -/
theorem beginRemoval_live {s s' : LiveManager} (hok : LiveOk s) {generation : Nat}
    {keys : List ExpertKey} {whole : Bool} (h : s.beginRemoval generation keys whole = some s') :
    s' = s ∨ ∃ request, s.removal = none ∧
      s.manager.removalRequest generation keys whole = .ok request ∧
      s.manager.checkRemoval request = .ok true ∧
      s' = { s with
        table := (s.table.beginWithdrawals (s.manager.withdrawn request)).1
        removal := some (request, s.manager.withdrawn request) } := by
  unfold LiveManager.beginRemoval at h
  split at h
  · cases h
    exact .inl rfl
  · rename_i request hreq
    split at h
    · exact .inl (LiveManager.whenFree_eq_some h).2
    · exact .inl (LiveManager.whenFree_eq_some h).2
    · rename_i hcheck
      obtain ⟨hfree, rfl⟩ := LiveManager.whenFree_eq_some h
      have hin : ∀ k ∈ s.manager.withdrawn request, k ∈ s.table := by
        intro k hk
        unfold WeightManager.withdrawn at hk
        rw [List.mem_filter, decide_eq_true_eq] at hk
        exact (hok.table_iff k).mpr hk.2
      refine .inr ⟨request, hfree, hreq, hcheck, ?_⟩
      rw [(getElem?_beginWithdrawals hin).1]
      rfl

/-- the removal goes on, and never meets an empty position or one that still accepts -/
theorem withdraw_live {s s' : LiveManager} (hok : LiveOk s) (h : s.withdraw = some s') :
    ∃ request key rest, s.removal = some (request, key :: rest) ∧ s' = { s with
      manager := s.manager.releaseReady key
      table := s.table.erase key
      owners := s.owners.erase key
      removal := some (request, rest) } := by
  unfold LiveManager.withdraw at h
  split at h
  · rename_i request key rest hr
    obtain ⟨_, _, hwait, _⟩ := hok.withdrawing request (key :: rest) hr
    obtain ⟨e, he, hacc⟩ := hwait key List.mem_cons_self
    rw [he] at h
    simp only [hacc, Bool.false_eq_true, if_false] at h
    split_ifs at h
    cases h
    exact ⟨request, key, rest, hr, rfl⟩
  · cases h

theorem finishRemoval_live {s s' : LiveManager} (h : s.finishRemoval = some s') :
    ∃ request, s.removal = some (request, []) ∧
      s' = { s with manager := (s.manager.setRemoved request.keys).1, removal := none } := by
  unfold LiveManager.finishRemoval at h
  split at h
  · rename_i request hr
    cases h
    exact ⟨request, hr, rfl⟩
  · cases h

theorem cancel_live {s s' : LiveManager} {key : ExpertKey} (h : s.cancel key = some s') :
    key ∈ s.manager.loadTasks ∧
      s' = { s with
        manager := { s.manager with loadTasks := s.manager.loadTasks.insert key true } } := by
  unfold LiveManager.cancel at h
  split_ifs at h with hc
  cases h
  refine ⟨hc.1, ?_⟩
  unfold WeightManager.cancelLoad
  rw [if_pos (ExtTreeMap.contains_iff_mem.mpr hc.1)]

theorem beginShutdown_live {s s' : LiveManager} (h : s.beginShutdown = some s') :
    s.removal = none ∧ (s' = s ∨ s.manager.shuttingDown = false ∧ s' = { s with
      manager := { s.manager with
        shuttingDown := true, loadTasks := s.manager.loadTasks.map fun _ _ => true } }) := by
  unfold LiveManager.beginShutdown at h
  obtain ⟨hfree, rfl⟩ := LiveManager.whenFree_eq_some h
  refine ⟨hfree, ?_⟩
  unfold WeightManager.beginShutdown
  split_ifs with hs
  · exact .inl rfl
  · exact .inr ⟨by simpa using hs, rfl⟩

theorem LiveOk.step {s s' : LiveManager} {l : LoadLabel} (h : LiveOk s)
    (hs : s.step l = some s') : LiveOk s' := by
  cases l with
  | applyTargets generation targets => exact h.applyTargets hs
  | beginShutdown =>
    obtain ⟨hfree, rfl | ⟨_, rfl⟩⟩ := beginShutdown_live hs
    · exact h
    · exact h.withManager hfree ((h.core hfree).withLoads _ true) rfl rfl rfl rfl
  | cancel key =>
    obtain ⟨_, rfl⟩ := cancel_live hs
    exact h.same ⟨⟨_, rfl⟩, fun k => rfl, rfl⟩
  | beginRemoval generation keys whole =>
    obtain rfl | ⟨request, hfree, hreq, _, rfl⟩ := beginRemoval_live h hs
    · exact h
    · exact h.beginRemoval hfree hreq
  | withdraw =>
    obtain ⟨request, key, rest, hr, rfl⟩ := withdraw_live h hs
    exact h.withdraw hr
  | finishRemoval =>
    obtain ⟨request, hr, rfl⟩ := finishRemoval_live hs
    exact h.finishRemoval hr
  | acquireMany layerId expertIds => exact h.same (sameReady_acquireMany hs)
  | closeLease i => exact h.same (sameReady_closeLease hs)
  | _ => exact h.task (LiveManager.taskStep_of_step hs rfl)

/-! ## every run -/

theorem liveOk_new (config : ManagerConfig) (fused : Bool) (limit : Nat)
    (hlimit : 0 < limit) :
    LiveOk (.new config fused limit hlimit) :=
  .of_core rfl (coreOk_new config) (by simp [LiveManager.new, WeightManager.new])

theorem liveOk_of_reach {config : ManagerConfig} {fused : Bool} {limit : Nat} {hlimit : 0 < limit}
    {s : LiveManager}
    {ok : LiveManager → LoadLabel → Prop}
    (h : Steps.Reach LiveManager.step ok (.new config fused limit hlimit) s) : LiveOk s :=
  h.invariant (liveOk_new config fused limit hlimit) fun _ _ _ hok _ hs => hok.step hs

/-- what an observer of a Manager with a free lock relies on -/
structure StatesAgree (s : LiveManager) : Prop where
  ready_iff_key : ∀ k : ExpertKey,
    s.manager.states[k]? = some .ready ↔ k ∈ s.manager.readyKeys
  key_iff_occupied : ∀ k : ExpertKey, k ∈ s.manager.readyKeys ↔ k ∈ s.table
  failed : ∀ (k : ExpertKey) (f : LoadFailure), s.manager.states[k]? = some (.failed f) →
    k ∈ s.manager.targets ∧ k ∉ s.manager.readyKeys
  removed : ∀ k : ExpertKey, s.manager.states[k]? = some .removed → k ∉ s.manager.readyKeys
  bytes_eq : s.manager.loadedDeviceBytes
    = s.manager.readyKeys.size * s.manager.config.readyWeightBytes
  bytes_le : s.manager.loadedDeviceBytes ≤ s.manager.config.deviceWeightCapacityBytes

theorem ready_states_consistent (config : ManagerConfig) (fused : Bool) (limit : Nat)
    (hlimit : 0 < limit) {s : LiveManager}
    (h : Steps.Reach LiveManager.step (fun _ _ => True) (.new config fused limit hlimit) s)
    (hfree : s.removal = none) : StatesAgree s := by
  have hlive := liveOk_of_reach h
  have hcore := hlive.core hfree
  refine ⟨fun k => (hcore.ready_iff k).symm, fun k => (hlive.table_iff k).symm, ?_, ?_,
    hcore.bytes_eq, hcore.bytes_le⟩
  · intro k f hk
    refine ⟨hcore.failed_target k f hk, ?_⟩
    intro hr
    rw [(hcore.ready_iff k).mp hr] at hk
    cases hk
  · intro k hk hr
    rw [(hcore.ready_iff k).mp hr] at hk
    cases hk

/-- a Manager with room for two of three experts -/
def smallConfig : ManagerConfig := ⟨1, 3, "cpu", 10, 5, by decide⟩

def expert (expertId : Nat) : ExpertKey := ⟨0, expertId⟩

def target (expertId : Nat) : TargetExpert := ⟨0, expertId, "cpu", []⟩

/-- a load that succeeds, from its first step to `_finish_ready` -/
def loadSteps (expertId : Nat) : List LoadLabel :=
  [.resume (expert expertId), .resume (expert expertId), .resume (expert expertId),
    .acquired (expert expertId) (.leased .disk), .claim (expert expertId),
    .converted (expert expertId) .ready, .resume (expert expertId), .publish (expert expertId)]

/-- the task goes on to its end -/
def endSteps (expertId : Nat) : List LoadLabel := List.replicate 3 (.resume (expert expertId))

theorem ready_states_consistent_loaded :
    ∃ s, Steps.Reach LiveManager.step (fun _ _ => True) (.new smallConfig false 1 (by decide)) s ∧
      StatesAgree s ∧ expert 0 ∈ s.manager.readyKeys ∧
      s.manager.states[expert 1]? = some .removed := by
  have hrun := (Option.any_eq_true
    (fun s : LiveManager => s.removal.isNone && decide (expert 0 ∈ s.manager.readyKeys)
      && decide (s.manager.states[expert 1]? = some .removed))
    (Steps.run LiveManager.step (fun _ _ => true) (.new smallConfig false 1 (by decide))
      ([.applyTargets 1 [target 0, target 1]] ++ loadSteps 0 ++ endSteps 0 ++ loadSteps 1 ++
        [.applyTargets 2 [target 0], .beginRemoval 2 [expert 1] false, .withdraw,
          .finishRemoval]))).mp (by decide +kernel)
  obtain ⟨s, hs, hp⟩ := hrun
  simp only [Bool.and_eq_true, decide_eq_true_eq, Option.isNone_iff_eq_none] at hp
  have hreach := (Steps.Reach.refl.of_run hs).mono fun _ _ _ => True.intro
  exact ⟨s, hreach, ready_states_consistent smallConfig false 1 (by decide) hreach hp.1.1, hp.1.2, hp.2⟩

end ExpertKit.Worker

import ExpertKit.Lib.Counter
import ExpertKit.Proto
import ExpertKit.Routing.Batches

/-!
# Transport: the receiver queue of a Worker

`ReceiverQueue` of `ek-transport/src/expertkit_transport/transports/queue.py`.  Every operation runs
under one condition and waits only while it has released it, so an operation is one step.  A batch is
known by the identity of its `ReceivedBatch`, its layer, its distinct experts and its size; clocks,
deadlines and the callback on the pending count are left out.

* `Entry`, `ReceiverQueue`   the data;
* `admitBatch`, `take`, `cancelWaiting`, `finish`, `beginDrain`, `clearExpertDrains`, `beginClose`
                             the operations;
* `Tracked`                  the waiting and the active entries account for all other fields;
* `QueueOp.run_tracked`      every operation keeps the accounts;
* `admitBatch_cases`         a batch is admitted only through open gates.
-/

set_option linter.unusedSectionVars false

namespace ExpertKit.Transport
open Std Routing

/-! ## data -/

inductive EntryState where
  | waiting
  | active
deriving DecidableEq, Repr

structure Entry where
  item : Nat
  layerId : Nat
  expertIds : List Nat
  retainedBytes : Nat
  state : EntryState
deriving DecidableEq, Repr

/-- the experts that the batch names -/
def Entry.keys (entry : Entry) : List ExpertKey :=
  entry.expertIds.map fun expertId => ⟨entry.layerId, expertId⟩

structure ReceiverQueue where
  maxPendingBatches : Nat
  maxRetainedBytes : Nat
  waiting : List Entry
  entries : ExtTreeMap Nat Entry
  retainedBytes : Nat
  activeCount : Nat
  admittedExperts : ExtTreeMap ExpertKey Nat
  drainingExperts : ExtTreeMap ExpertKey Nat
  stopAllMinTopologyVersion : Option Nat
  closing : Bool
  maxPendingBatches_pos : 0 < maxPendingBatches

structure QueueError where
  message : String
deriving DecidableEq, Repr

def ReceiverQueue.new (maxPendingBatches maxRetainedBytes : Nat) (h : 0 < maxPendingBatches) :
    ReceiverQueue :=
  ⟨maxPendingBatches, maxRetainedBytes, [], ∅, 0, 0, ∅, ∅, none, false, h⟩

namespace ReceiverQueue

/-! ## batches -/

/-- the newest minimum version of the gates that the batch meets -/
def drainVersion (q : ReceiverQueue) (entry : Entry) : Option Nat :=
  entry.keys.foldl (fun version key => match q.drainingExperts[key]? with
    | none => version
    | some expertVersion => some (max (version.getD 0) expertVersion)) q.stopAllMinTopologyVersion

def drainError (q : ReceiverQueue) (entry : Entry) : Option TransportError :=
  (q.drainVersion entry).map fun version =>
    ⟨.draining, true, none, some version, [], "Worker is draining the requested expert route"⟩

/-- `admit`: the rejection, if any, and the queue -/
def admitBatch (q : ReceiverQueue) (item layerId : Nat) (expertIds : List Nat) (retainedBytes : Nat) :
    Except QueueError (Option TransportError × ReceiverQueue) :=
  let entry : Entry := ⟨item, layerId, expertIds, retainedBytes, .waiting⟩
  if q.closing then
    .ok (some ⟨.unavailable, true, none, none, [], "Worker Transport receiver is closing"⟩, q)
  else if q.entries.contains item then .error ⟨"received batch is already admitted"⟩
  else
    match q.drainError entry with
    | some draining => .ok (some draining, q)
    | none =>
      if q.maxPendingBatches ≤ q.waiting.length ∨
          q.maxRetainedBytes < q.retainedBytes + retainedBytes then
        .ok (some ⟨.busy, true, none, none, [], "Worker Transport waiting area is full"⟩, q)
      else
        .ok (none, { q with
          waiting := q.waiting ++ [entry]
          entries := q.entries.insert item entry
          retainedBytes := q.retainedBytes + retainedBytes
          admittedExperts := Counter.addAll q.admittedExperts entry.keys })

/-- `take`, once a batch waits -/
def take (q : ReceiverQueue) : Option (Nat × ReceiverQueue) :=
  match q.waiting with
  | [] => none
  | entry :: rest => some (entry.item, { q with
      waiting := rest
      entries := q.entries.insert entry.item { entry with state := .active }
      retainedBytes := q.retainedBytes - entry.retainedBytes
      activeCount := q.activeCount + 1 })

def cancelWaiting (q : ReceiverQueue) (item : Nat) : Bool × ReceiverQueue :=
  match q.entries[item]? with
  | none => (false, q)
  | some entry =>
    if entry.state ≠ .waiting then (false, q)
    else (true, { q with
      waiting := q.waiting.erase entry
      entries := q.entries.erase item
      retainedBytes := q.retainedBytes - entry.retainedBytes
      admittedExperts := Counter.dropAll q.admittedExperts entry.keys })

def finish (q : ReceiverQueue) (item : Nat) : Except QueueError ReceiverQueue :=
  match q.entries[item]? with
  | none => .error ⟨"Worker batch completion requires an active received batch"⟩
  | some entry =>
    if entry.state ≠ .active then
      .error ⟨"Worker batch completion requires an active received batch"⟩
    else .ok { q with
      entries := q.entries.erase item
      activeCount := q.activeCount - 1
      admittedExperts := Counter.dropAll q.admittedExperts entry.keys }

/-! ## gates -/

def closeGate (minTopologyVersion : Nat) (draining : ExtTreeMap ExpertKey Nat) (key : ExpertKey) :
    ExtTreeMap ExpertKey Nat :=
  draining.insert key (max ((draining[key]?).getD 0) minTopologyVersion)

/-- `begin_drain`; the ids are `u32` and the version is a `u64` on the wire -/
def beginDrain (q : ReceiverQueue) (experts : List ExpertKey) (minTopologyVersion : Nat)
    (stopAll : Bool) : Except QueueError ReceiverQueue :=
  if ¬ experts.Nodup then .error ⟨"draining experts must not contain duplicates"⟩
  else if experts.isEmpty ∧ stopAll = false then
    .error ⟨"an expert drain must name at least one expert"⟩
  else .ok { q with
    drainingExperts := experts.foldl (closeGate minTopologyVersion) q.drainingExperts
    stopAllMinTopologyVersion := if stopAll then
      some (max (q.stopAllMinTopologyVersion.getD 0) minTopologyVersion)
    else q.stopAllMinTopologyVersion }

/-- `clear_expert_drains`; the keys of its callers are distinct -/
def clearExpertDrains (q : ReceiverQueue) (experts : List ExpertKey) : ReceiverQueue :=
  { q with drainingExperts := experts.foldl (fun m key => m.erase key) q.drainingExperts }

/-- what `wait_experts_idle` waits for -/
def expertsIdle (q : ReceiverQueue) (experts : List ExpertKey) : Bool :=
  experts.all fun key => Counter.count q.admittedExperts key == 0

/-- what `wait_all_idle` waits for -/
def allIdle (q : ReceiverQueue) : Bool := q.waiting.isEmpty && q.activeCount == 0

/-- `begin_close`, with the discarded batches -/
def beginClose (q : ReceiverQueue) : List Nat × ReceiverQueue :=
  if q.closing then ([], q)
  else (q.waiting.map Entry.item, { q with
    closing := true
    entries := q.waiting.foldl (fun m entry => m.erase entry.item) q.entries
    admittedExperts := q.waiting.foldl (fun c entry => Counter.dropAll c entry.keys)
      q.admittedExperts
    waiting := []
    retainedBytes := 0 })

end ReceiverQueue

inductive QueueOp where
  | admitBatch (item layerId : Nat) (expertIds : List Nat) (retainedBytes : Nat)
  | take
  | cancelWaiting (item : Nat)
  | finish (item : Nat)
  | beginDrain (experts : List ExpertKey) (minTopologyVersion : Nat) (stopAll : Bool)
  | clearExpertDrains (experts : List ExpertKey)
  | beginClose

/-- the queue after an operation; an error changes nothing -/
def QueueOp.run (q : ReceiverQueue) : QueueOp → ReceiverQueue
  | .admitBatch item layerId expertIds retainedBytes =>
    match q.admitBatch item layerId expertIds retainedBytes with
    | .error _ => q
    | .ok (_, q') => q'
  | .take => (q.take).elim q Prod.snd
  | .cancelWaiting item => (q.cancelWaiting item).2
  | .finish item =>
    match q.finish item with
    | .error _ => q
    | .ok q' => q'
  | .beginDrain experts minTopologyVersion stopAll =>
    match q.beginDrain experts minTopologyVersion stopAll with
    | .error _ => q
    | .ok q' => q'
  | .clearExpertDrains experts => q.clearExpertDrains experts
  | .beginClose => q.beginClose.2

/-! ## what the operations do -/

namespace ReceiverQueue

theorem drainVersion_none {q : ReceiverQueue} {entry : Entry} (h : q.drainVersion entry = none) :
    q.stopAllMinTopologyVersion = none ∧
      ∀ key ∈ entry.keys, q.drainingExperts[key]? = none := by
  unfold drainVersion at h
  generalize entry.keys = keys at h
  generalize q.stopAllMinTopologyVersion = version at h
  induction keys generalizing version with
  | nil => exact ⟨h, by simp⟩
  | cons key keys ih =>
    obtain ⟨hv, hkeys⟩ := ih _ h
    cases hk : q.drainingExperts[key]? with
    | some expertVersion => simp [hk] at hv
    | none =>
      simp only [hk] at hv
      refine ⟨hv, ?_⟩
      intro k hmem
      rcases List.mem_cons.mp hmem with rfl | hmem
      · exact hk
      · exact hkeys k hmem

/-- the batch was rejected and nothing changed, or it waits, and every gate it meets is open -/
theorem admitBatch_cases {q q' : ReceiverQueue} {item layerId : Nat} {expertIds : List Nat}
    {retainedBytes : Nat} {rejection : Option TransportError}
    (h : q.admitBatch item layerId expertIds retainedBytes = .ok (rejection, q')) :
    (rejection.isSome = true ∧ q' = q) ∨
    ∃ entry : Entry, entry = ⟨item, layerId, expertIds, retainedBytes, .waiting⟩ ∧
      rejection = none ∧ q.entries[item]? = none ∧ q.stopAllMinTopologyVersion = none ∧
      (∀ key ∈ entry.keys, q.drainingExperts[key]? = none) ∧
      q.waiting.length < q.maxPendingBatches ∧
      q.retainedBytes + retainedBytes ≤ q.maxRetainedBytes ∧
      q' = { q with
        waiting := q.waiting ++ [entry]
        entries := q.entries.insert item entry
        retainedBytes := q.retainedBytes + retainedBytes
        admittedExperts := Counter.addAll q.admittedExperts entry.keys } := by
  unfold admitBatch at h
  simp only at h
  by_cases hclosing : q.closing = true
  · rw [if_pos hclosing] at h
    cases h
    exact .inl ⟨rfl, rfl⟩
  by_cases hpresent : q.entries.contains item = true
  · rw [if_neg hclosing, if_pos hpresent] at h
    cases h
  rw [if_neg hclosing, if_neg hpresent] at h
  unfold drainError at h
  cases hv : q.drainVersion ⟨item, layerId, expertIds, retainedBytes, .waiting⟩ with
  | some version =>
    rw [hv] at h
    cases h
    exact .inl ⟨rfl, rfl⟩
  | none =>
    rw [hv] at h
    simp only [Option.map_none] at h
    obtain ⟨hstop, hkeys⟩ := drainVersion_none hv
    split_ifs at h with hfull
    · cases h
      exact .inl ⟨rfl, rfl⟩
    · cases h
      have hnone : q.entries[item]? = none := by
        rw [ExtTreeMap.contains_eq_isSome_getElem?] at hpresent
        simpa using hpresent
      exact .inr ⟨_, rfl, rfl, hnone, hstop, hkeys, by omega, by omega, rfl⟩

/-- only an item that is known already is an error -/
theorem admitBatch_error {q : ReceiverQueue} {item layerId : Nat} {expertIds : List Nat}
    {retainedBytes : Nat} {error : QueueError}
    (h : q.admitBatch item layerId expertIds retainedBytes = .error error) :
    q.entries[item]? ≠ none := by
  unfold admitBatch at h
  simp only at h
  by_cases hclosing : q.closing = true
  · rw [if_pos hclosing] at h
    cases h
  rw [if_neg hclosing] at h
  by_cases hpresent : q.entries.contains item = true
  · rw [ExtTreeMap.contains_eq_isSome_getElem?] at hpresent
    intro hnone
    rw [hnone] at hpresent
    cases hpresent
  · rw [if_neg hpresent] at h
    split at h
    · cases h
    · split_ifs at h

theorem finish_cases {q q' : ReceiverQueue} {item : Nat} (h : q.finish item = .ok q') :
    ∃ entry, q.entries[item]? = some entry ∧ entry.state = .active ∧
      q' = { q with
        entries := q.entries.erase item
        activeCount := q.activeCount - 1
        admittedExperts := Counter.dropAll q.admittedExperts entry.keys } := by
  unfold finish at h
  split at h
  · cases h
  · rename_i entry he
    split_ifs at h with hs
    cases h
    exact ⟨entry, he, not_not.mp hs, rfl⟩

theorem cancelWaiting_cases (q : ReceiverQueue) (item : Nat) :
    q.cancelWaiting item = (false, q) ∨
    ∃ entry, q.entries[item]? = some entry ∧ entry.state = .waiting ∧
      q.cancelWaiting item = (true, { q with
        waiting := q.waiting.erase entry
        entries := q.entries.erase item
        retainedBytes := q.retainedBytes - entry.retainedBytes
        admittedExperts := Counter.dropAll q.admittedExperts entry.keys }) := by
  unfold cancelWaiting
  cases he : q.entries[item]? with
  | none => exact .inl rfl
  | some entry =>
    by_cases hs : entry.state = .waiting
    · exact .inr ⟨entry, rfl, hs, if_neg (not_not.mpr hs)⟩
    · exact .inl (if_pos hs)

theorem getElem?_closeGates (version : Nat) (experts : List ExpertKey)
    (draining : ExtTreeMap ExpertKey Nat) (k : ExpertKey) :
    ((experts.foldl (closeGate version) draining)[k]?).isSome = true ↔
      k ∈ experts ∨ (draining[k]?).isSome = true := by
  induction experts generalizing draining with
  | nil => simp
  | cons key experts ih =>
    rw [List.foldl_cons, ih]
    unfold closeGate
    rw [Maps.getElem?_insert_eq, List.mem_cons]
    by_cases hk : key = k
    · simp [hk]
    · simp [hk, Ne.symm hk]

/-- gates: `begin_drain` closes the named ones and opens none -/
theorem beginDrain_cases {q q' : ReceiverQueue} {experts : List ExpertKey} {version : Nat}
    {stopAll : Bool} (h : q.beginDrain experts version stopAll = .ok q') :
    ∃ draining stop, q' = { q with
        drainingExperts := draining, stopAllMinTopologyVersion := stop } ∧
      (∀ k : ExpertKey, (draining[k]?).isSome = true ↔
        k ∈ experts ∨ (q.drainingExperts[k]?).isSome = true) ∧
      (stop.isSome = true ↔ stopAll = true ∨ q.stopAllMinTopologyVersion.isSome = true) := by
  unfold beginDrain at h
  split_ifs at h with h1 h2 h3
  · cases h
    exact ⟨_, _, rfl, getElem?_closeGates _ _ _, by simp [h3]⟩
  · cases h
    exact ⟨_, _, rfl, getElem?_closeGates _ _ _, by simp [h3]⟩

theorem getElem?_clearExpertDrains (q : ReceiverQueue) (experts : List ExpertKey) (k : ExpertKey) :
    (q.clearExpertDrains experts).drainingExperts[k]?
      = if k ∈ experts then none else q.drainingExperts[k]? := by
  unfold clearExpertDrains
  generalize q.drainingExperts = draining
  show (experts.foldl (fun m key => m.erase key) draining)[k]? = _
  induction experts generalizing draining with
  | nil => simp
  | cons key experts ih =>
    rw [List.foldl_cons, ih, Maps.getElem?_erase_eq]
    by_cases hk : key = k
    · simp [hk]
    · simp [hk, Ne.symm hk]

end ReceiverQueue

/-- the gate of the expert is closed -/
def Gated (q : ReceiverQueue) (key : ExpertKey) : Prop := (q.drainingExperts[key]?).isSome = true

/-! ## accounts -/

/-- how often the entries name the expert -/
def named (k : ExpertKey) (entries : List Entry) : Nat :=
  (entries.map fun entry => entry.keys.count k).sum

/-- the entries of the queue are the waiting ones and the active ones, and the other fields
account for them -/
structure Tracked (q : ReceiverQueue) (active : List Entry) : Prop where
  items : ((q.waiting ++ active).map Entry.item).Nodup
  entries : ∀ (item : Nat) (entry : Entry),
    q.entries[item]? = some entry ↔ entry ∈ q.waiting ++ active ∧ entry.item = item
  waiting_state : ∀ entry ∈ q.waiting, entry.state = .waiting
  active_state : ∀ entry ∈ active, entry.state = .active
  retained : q.retainedBytes = (q.waiting.map Entry.retainedBytes).sum
  active_count : q.activeCount = active.length
  admitted : ∀ k, Counter.count q.admittedExperts k = named k (q.waiting ++ active)

theorem tracked_new (maxPendingBatches maxRetainedBytes : Nat) (h : 0 < maxPendingBatches) :
    Tracked (.new maxPendingBatches maxRetainedBytes h) [] := by
  refine ⟨by simp [ReceiverQueue.new], ?_, ?_, ?_, rfl, rfl, ?_⟩
  · simp [ReceiverQueue.new]
  · simp [ReceiverQueue.new]
  · simp
  · intro k
    exact Counter.count_empty k

/-- an idle expert is named by no waiting and no active batch -/
theorem Tracked.not_named {q : ReceiverQueue} {active : List Entry} (h : Tracked q active)
    {k : ExpertKey} (hk : Counter.count q.admittedExperts k = 0) {item : Nat} {entry : Entry}
    (he : q.entries[item]? = some entry) : k ∉ entry.keys := by
  rw [h.admitted] at hk
  have hmem := ((h.entries item entry).mp he).1
  have hzero : entry.keys.count k = 0 :=
    List.sum_eq_zero_iff.mp hk _ (List.mem_map.mpr ⟨entry, hmem, rfl⟩)
  exact List.count_eq_zero.mp hzero

theorem Tracked.admitBatch {q : ReceiverQueue} {active : List Entry} (h : Tracked q active)
    {entry : Entry} (hnew : q.entries[entry.item]? = none) (hstate : entry.state = .waiting) :
    Tracked { q with
      waiting := q.waiting ++ [entry]
      entries := q.entries.insert entry.item entry
      retainedBytes := q.retainedBytes + entry.retainedBytes
      admittedExperts := Counter.addAll q.admittedExperts entry.keys } active := by
  have hperm : ((q.waiting ++ [entry]) ++ active).Perm (entry :: (q.waiting ++ active)) := by
    rw [List.append_assoc]
    exact List.perm_middle
  have hfresh : ∀ e ∈ q.waiting ++ active, e.item ≠ entry.item := by
    intro e he hi
    rw [(h.entries entry.item e).mpr ⟨he, hi⟩] at hnew
    cases hnew
  refine ⟨?_, ?_, ?_, h.active_state, ?_, h.active_count, ?_⟩
  · refine ((hperm.map Entry.item).nodup_iff).mpr ?_
    rw [List.map_cons, List.nodup_cons]
    refine ⟨?_, h.items⟩
    rintro hmem
    obtain ⟨e, he, hi⟩ := List.mem_map.mp hmem
    exact hfresh e he hi
  · intro item e
    show (q.entries.insert entry.item entry)[item]? = some e ↔ _
    rw [Maps.getElem?_insert_eq, hperm.mem_iff, List.mem_cons]
    split_ifs with hi
    · subst hi
      constructor
      · intro heq
        cases heq
        exact ⟨.inl rfl, rfl⟩
      · rintro ⟨rfl | he, hi⟩
        · rfl
        · exact absurd hi (hfresh e he)
    · rw [h.entries]
      constructor
      · rintro ⟨he, hie⟩
        exact ⟨.inr he, hie⟩
      · rintro ⟨rfl | he, hie⟩
        · exact absurd hie hi
        · exact ⟨he, hie⟩
  · intro e he
    rcases List.mem_append.mp he with he | he
    · exact h.waiting_state e he
    · rw [List.mem_singleton.mp he]
      exact hstate
  · show q.retainedBytes + entry.retainedBytes = _
    simp [h.retained]
  · intro k
    have hnamed : named k ((q.waiting ++ [entry]) ++ active)
        = entry.keys.count k + named k (q.waiting ++ active) := by
      unfold named
      rw [(hperm.map fun entry => entry.keys.count k).sum_eq, List.map_cons, List.sum_cons]
    show Counter.count (Counter.addAll q.admittedExperts entry.keys) k = _
    rw [Counter.count_addAll, h.admitted, hnamed]
    omega

theorem Tracked.take {q : ReceiverQueue} {active : List Entry} (h : Tracked q active)
    {entry : Entry} {rest : List Entry} (hw : q.waiting = entry :: rest) :
    Tracked { q with
      waiting := rest
      entries := q.entries.insert entry.item { entry with state := .active }
      retainedBytes := q.retainedBytes - entry.retainedBytes
      activeCount := q.activeCount + 1 } ({ entry with state := .active } :: active) := by
  have hitems := h.items
  have hperm : (rest ++ { entry with state := .active } :: active).Perm
      ({ entry with state := .active } :: (rest ++ active)) := List.perm_middle
  rw [hw, List.cons_append, List.map_cons, List.nodup_cons] at hitems
  have hfresh : ∀ e ∈ rest ++ active, e.item ≠ entry.item := by
    intro e he hi
    exact hitems.1 (List.mem_map.mpr ⟨e, he, hi⟩)
  refine ⟨?_, ?_, ?_, ?_, ?_, ?_, ?_⟩
  · refine ((hperm.map Entry.item).nodup_iff).mpr ?_
    rw [List.map_cons, List.nodup_cons]
    exact hitems
  · intro item e
    show (q.entries.insert entry.item { entry with state := .active })[item]? = some e ↔ _
    rw [Maps.getElem?_insert_eq, hperm.mem_iff, List.mem_cons]
    split_ifs with hi
    · subst hi
      constructor
      · intro heq
        cases heq
        exact ⟨.inl rfl, rfl⟩
      · rintro ⟨rfl | he, hi⟩
        · rfl
        · exact absurd hi (hfresh e he)
    · rw [h.entries, hw, List.cons_append, List.mem_cons]
      constructor
      · rintro ⟨rfl | he, hie⟩
        · exact absurd hie hi
        · exact ⟨.inr he, hie⟩
      · rintro ⟨rfl | he, hie⟩
        · exact absurd hie hi
        · exact ⟨.inr he, hie⟩
  · intro e he
    exact h.waiting_state e (hw ▸ List.mem_cons_of_mem _ he)
  · intro e he
    rcases List.mem_cons.mp he with rfl | he
    · rfl
    · exact h.active_state e he
  · show q.retainedBytes - entry.retainedBytes = (rest.map Entry.retainedBytes).sum
    rw [h.retained, hw, List.map_cons, List.sum_cons]
    omega
  · show q.activeCount + 1 = _
    rw [h.active_count, List.length_cons]
  · intro k
    show Counter.count q.admittedExperts k = _
    rw [h.admitted, hw]
    unfold named
    rw [(hperm.map fun entry => entry.keys.count k).sum_eq]
    rfl

/-- a released entry leaves the queue with its counts -/
theorem Tracked.release {q : ReceiverQueue} {active : List Entry} (h : Tracked q active)
    {entry : Entry} {waiting' active' : List Entry} {retained count : Nat}
    (hperm : (q.waiting ++ active).Perm (entry :: (waiting' ++ active')))
    (hwaiting : ∀ e ∈ waiting', e ∈ q.waiting) (hactive : ∀ e ∈ active', e ∈ active)
    (hretained : retained = (waiting'.map Entry.retainedBytes).sum)
    (hcount : count = active'.length) :
    Tracked { q with
      waiting := waiting'
      entries := q.entries.erase entry.item
      retainedBytes := retained
      activeCount := count
      admittedExperts := Counter.dropAll q.admittedExperts entry.keys } active' := by
  have hitems := ((hperm.map Entry.item).nodup_iff).mp h.items
  rw [List.map_cons, List.nodup_cons] at hitems
  refine ⟨hitems.2, ?_, fun e he => h.waiting_state e (hwaiting e he),
    fun e he => h.active_state e (hactive e he), hretained, hcount, ?_⟩
  · intro item e
    show (q.entries.erase entry.item)[item]? = some e ↔ _
    rw [Maps.getElem?_erase_eq]
    split_ifs with hi
    · subst hi
      constructor
      · intro heq
        cases heq
      · rintro ⟨he, hie⟩
        exact absurd (List.mem_map.mpr ⟨e, he, hie⟩) hitems.1
    · rw [h.entries, hperm.mem_iff, List.mem_cons]
      constructor
      · rintro ⟨rfl | he, hie⟩
        · exact absurd hie hi
        · exact ⟨he, hie⟩
      · rintro ⟨he, hie⟩
        exact ⟨.inr he, hie⟩
  · intro k
    have hnamed : named k (q.waiting ++ active)
        = entry.keys.count k + named k (waiting' ++ active') := by
      unfold named
      rw [(hperm.map fun entry => entry.keys.count k).sum_eq, List.map_cons, List.sum_cons]
    show Counter.count (Counter.dropAll q.admittedExperts entry.keys) k
      = named k (waiting' ++ active')
    rw [Counter.count_dropAll, h.admitted, hnamed]
    omega

theorem Tracked.gates {q : ReceiverQueue} {active : List Entry} (h : Tracked q active)
    (draining : ExtTreeMap ExpertKey Nat) (stop : Option Nat) :
    Tracked { q with drainingExperts := draining, stopAllMinTopologyVersion := stop } active :=
  ⟨h.items, h.entries, h.waiting_state, h.active_state, h.retained, h.active_count, h.admitted⟩

theorem Tracked.cancelWaiting {q : ReceiverQueue} {active : List Entry} (h : Tracked q active)
    (item : Nat) : Tracked (q.cancelWaiting item).2 active := by
  rcases q.cancelWaiting_cases item with heq | ⟨entry, he, hs, heq⟩
  · rw [heq]
    exact h
  · rw [heq]
    obtain ⟨hmem, hi⟩ := (h.entries item entry).mp he
    have hw : entry ∈ q.waiting := by
      rcases List.mem_append.mp hmem with hw | ha
      · exact hw
      · rw [h.active_state entry ha] at hs
        cases hs
    have hperm := List.perm_cons_erase hw
    subst hi
    refine h.release (hperm.append_right active) (fun e => List.mem_of_mem_erase)
      (fun e he => he) ?_ h.active_count
    rw [h.retained, (hperm.map Entry.retainedBytes).sum_eq, List.map_cons, List.sum_cons]
    omega

/-- an active batch finishes -/
theorem Tracked.finished {q : ReceiverQueue} {active : List Entry} (h : Tracked q active)
    {item : Nat} {entry : Entry} (he : q.entries[item]? = some entry)
    (hs : entry.state = .active) : entry ∈ active ∧ Tracked { q with
      entries := q.entries.erase item
      activeCount := q.activeCount - 1
      admittedExperts := Counter.dropAll q.admittedExperts entry.keys } (active.erase entry) := by
  obtain ⟨hmem, hi⟩ := (h.entries item entry).mp he
  have ha : entry ∈ active := by
    rcases List.mem_append.mp hmem with hw | ha
    · rw [h.waiting_state entry hw] at hs
      cases hs
    · exact ha
  have hperm := List.perm_cons_erase ha
  subst hi
  refine ⟨ha, h.release ?_ (fun e he => he) (fun e => List.mem_of_mem_erase) h.retained ?_⟩
  · exact (hperm.append_left q.waiting).trans List.perm_middle
  · rw [h.active_count, List.length_erase_of_mem ha]

theorem Tracked.finish {q q' : ReceiverQueue} {active : List Entry} (h : Tracked q active)
    {item : Nat} (hf : q.finish item = .ok q') : ∃ active', Tracked q' active' := by
  obtain ⟨entry, he, hs, rfl⟩ := ReceiverQueue.finish_cases hf
  exact ⟨active.erase entry, (h.finished he hs).2⟩

/-- releasing every waiting entry leaves the active ones -/
theorem Tracked.discard {q : ReceiverQueue} {active : List Entry} (h : Tracked q active) :
    Tracked { q with
      entries := q.waiting.foldl (fun m entry => m.erase entry.item) q.entries
      admittedExperts := q.waiting.foldl (fun t entry => Counter.dropAll t entry.keys)
        q.admittedExperts
      waiting := []
      retainedBytes := 0 } active := by
  obtain ⟨maxPending, maxRetained, waiting, entries, retained, count, admitted, draining, stop,
    closing, hpos⟩ := q
  induction waiting generalizing entries retained admitted with
  | nil =>
    refine ⟨h.items, h.entries, h.waiting_state, h.active_state, rfl, h.active_count, h.admitted⟩
  | cons entry waiting ih =>
    have hperm : ((entry :: waiting) ++ active).Perm (entry :: (waiting ++ active)) := .refl _
    have hrest := h.release hperm (fun e => List.mem_cons_of_mem _) (fun e he => he) rfl
      h.active_count
    exact ih _ _ _ hrest

theorem QueueOp.run_tracked {q : ReceiverQueue} {active : List Entry} (h : Tracked q active)
    (op : QueueOp) : ∃ active', Tracked (op.run q) active' := by
  cases op with
  | admitBatch item layerId expertIds retainedBytes =>
    unfold QueueOp.run
    simp only
    split
    · exact ⟨active, h⟩
    · rename_i rejection q' heq
      rcases ReceiverQueue.admitBatch_cases heq with ⟨_, rfl⟩ | ⟨entry, rfl, _, hnew, _, _, _, _, rfl⟩
      · exact ⟨active, h⟩
      · exact ⟨active, h.admitBatch hnew rfl⟩
  | take =>
    show ∃ active', Tracked ((q.take).elim q Prod.snd) active'
    unfold ReceiverQueue.take
    cases hw : q.waiting with
    | nil => exact ⟨active, h⟩
    | cons entry rest => exact ⟨_, h.take hw⟩
  | cancelWaiting item => exact ⟨active, h.cancelWaiting item⟩
  | finish item =>
    unfold QueueOp.run
    simp only
    split
    · exact ⟨active, h⟩
    · rename_i q' heq
      exact h.finish heq
  | beginDrain experts version stopAll =>
    unfold QueueOp.run
    simp only
    split
    · exact ⟨active, h⟩
    · rename_i q' heq
      obtain ⟨draining, stop, rfl, _⟩ := ReceiverQueue.beginDrain_cases heq
      exact ⟨active, h.gates draining stop⟩
  | clearExpertDrains experts => exact ⟨active, h.gates _ _⟩
  | beginClose =>
    show ∃ active', Tracked q.beginClose.2 active'
    unfold ReceiverQueue.beginClose
    split_ifs
    · exact ⟨active, h⟩
    · obtain ⟨h1, h2, h3, h4, h5, h6, h7⟩ := h.discard
      exact ⟨active, h1, h2, h3, h4, h5, h6, h7⟩

end ExpertKit.Transport

import ExpertKit.Transport.ShmReceiver

/-!
# Transport: who owns a slot of the shared-memory receiver

Six exits of a request give its slot back: the admission rejects it, it is cancelled while it waits,
the receiver closes before it is taken, or execution completes it, rejects it, or fails to encode its
error.  The first one releases inside the notification itself and leaves no item.

* `ends`                the items that a step ends;
* `Released`            the slot of an item was given back once;
* `Handed`              what one step hands on: an item that left the queue stays out of it, and a
                        due release stays due until it runs;
* `Inv.handed`, `Inv.ended`   every step does so, and what a step ends is out or due;
* `Inv.left_run`, `Inv.due_run`   the same for whole runs;
* `shm_slot_ownership`  what holds in every state of every run.
-/

set_option linter.unusedSectionVars false

namespace ExpertKit.Transport
open Routing

/-! ## exits -/

/-- the slot of the item was given back, once -/
def Released (heap : List WorkerSharedMemorySession) (item : ShmItem) : Prop :=
  ∃ s, heap[item.session]? = some s ∧
    (releases s.history item.slotIndex).count item.generation = 1 ∧
    s.activeAt item.slotIndex ≠ some item.generation

theorem Released.of_key {heap : List WorkerSharedMemorySession} {item t : ShmItem}
    (h : Released heap t) (hkey : t.key = item.key) : Released heap item := by
  obtain ⟨s, hs, hcount, hactive⟩ := h
  have hsession : t.session = item.session := congrArg (·.1) hkey
  have hslot : t.slotIndex = item.slotIndex := congrArg (·.2.1) hkey
  have hgeneration : t.generation = item.generation := congrArg (·.2.2) hkey
  rw [hsession] at hs
  rw [hslot, hgeneration] at hcount hactive
  exact ⟨s, hs, hcount, hactive⟩

section
variable {W : Type} [Zero W] [DecidableEq W]

/-- the items that the step ends, where it is enabled -/
def ShmReceiver.ends (r : ShmReceiver) : ShmStep W → List Nat
  | .complete n _ _ => [n]
  | .reject n _ _ => [n]
  | .runCancel n =>
    match r.queue.entries[n]? with
    | none => []
    | some entry => if entry.state = .waiting then [n] else []
  | .serverStopped => itemsOf r.queue.waiting
  | _ => []

/-- every item stands where its slot will be given back, or its slot was given back -/
structure Exits (W : Type) [Zero W] [DecidableEq W] (r : ShmReceiver) : Prop where
  /-- an item has given its slot back, or waits, or execution works on it, or its release is due -/
  standing : ∀ (n : Nat) (item : ShmItem), r.items[n]? = some item → Released r.heap item ∨
    heapActive r.heap item.session item.slotIndex = some item.generation ∧
      ∃ entry, r.queue.entries[n]? = some entry ∧ (entry.state = .waiting ∨
        item.execution = .running ∨ item.execution = .copied ∨ n ∈ r.releases)
  /-- execution can end what it works on -/
  working : ∀ (n : Nat) (item : ShmItem), r.items[n]? = some item →
    item.execution = .running ∨ item.execution = .copied →
    ∀ error encoded, ∃ r', r.step (.reject n error encoded : ShmStep W) = some r'
  /-- in every run after its end, an item has given its slot back, or its release has not run yet -/
  ended : ∀ (l : ShmStep W) (r1 : ShmReceiver), r.step l = some r1 → ∀ n ∈ r.ends l,
    ∃ item, r.items[n]? = some item ∧ ∀ (ls : List (ShmStep W)) (r2 : ShmReceiver),
      Steps.run ShmReceiver.step (fun _ _ => true) r1 ls = some r2 →
      Released r2.heap item ∨ n ∈ r2.releases ∧ .runRelease n ∉ ls
  /-- a due release can run, and gives the slot back -/
  due : ∀ n ∈ r.releases, ∃ item r', r.items[n]? = some item ∧
    r.step (.runRelease n : ShmStep W) = some r' ∧ Released r'.heap item

end

/-! ## what a step hands on -/

namespace ShmReceiver

/-- `session.release` changes its session only -/
theorem releaseSlot_frame (r : ShmReceiver) (o i g : Nat) :
    ∃ heap faults, r.releaseSlot o i g = { r with heap, faults } := by
  unfold releaseSlot
  split
  · exact ⟨r.heap, r.faults, rfl⟩
  · split
    · exact ⟨r.heap, _, rfl⟩
    · exact ⟨_, r.faults, rfl⟩

/-- `session.close` changes its session only -/
theorem closeSession_frame (r : ShmReceiver) (o : Nat) :
    ∃ heap faults, r.closeSession o = { r with heap, faults } := by
  unfold closeSession
  split
  · exact ⟨r.heap, r.faults, rfl⟩
  · split
    · exact ⟨r.heap, _, rfl⟩
    · exact ⟨_, r.faults, rfl⟩

theorem discard_frame (r : ShmReceiver) (waiting : List Nat) :
    ∃ heap faults items, r.discard waiting = { r with heap, faults, items } ∧
      keyAt items = keyAt r.items := by
  unfold discard
  induction waiting generalizing r with
  | nil => exact ⟨r.heap, r.faults, r.items, rfl, rfl⟩
  | cons n waiting ih =>
    rw [List.foldl_cons]
    cases hn : r.items[n]? with
    | none => exact ih r
    | some item =>
      simp only
      obtain ⟨heap, faults, hslot⟩ :=
        releaseSlot_frame (r.setItem n { item with cancelled := true }) item.session
          item.slotIndex item.generation
      rw [hslot]
      obtain ⟨heap', faults', items', hrest, hkeys⟩ :=
        ih { r.setItem n { item with cancelled := true } with heap, faults }
      refine ⟨heap', faults', items', hrest, hkeys.trans ?_⟩
      exact keyAt_set hn rfl

theorem completeSuccess_cases {r : ShmReceiver} {n : Nat} (h : r.requireActive n = none)
    (item : ShmItem) (tokenCount : Nat) (pointer : Nat × Nat) : ∃ response,
      r.completeSuccess n item tokenCount pointer = r.finishActive n (respond item response) := by
  unfold completeSuccess
  rw [h]
  simp only
  split_ifs
  · exact ⟨_, rfl⟩
  · exact ⟨_, rfl⟩
  · exact ⟨_, rfl⟩
  · exact ⟨_, rfl⟩

theorem completeError_cases {r : ShmReceiver} {n : Nat} (h : r.requireActive n = none)
    (item : ShmItem) (error : TransportError) (encoded : Bool) : ∃ response,
      r.completeError n item error encoded = r.finishActive n (respond item response) := by
  unfold completeError
  rw [h]
  simp only
  split_ifs
  · exact ⟨_, rfl⟩
  · exact ⟨_, rfl⟩
  · exact ⟨_, rfl⟩

theorem respond_key (item : ShmItem) (response : ShmResponse) :
    (respond item response).key = item.key := by
  unfold respond
  split_ifs <;> rfl

end ShmReceiver

section
variable {W : Type} [Zero W] [DecidableEq W] {r r' : ShmReceiver} {l : ShmStep W}
  {active : List Entry} {n : Nat} {item : ShmItem}

/-- an item keeps its slot and its generation, an item that left the queue stays out of it, a due
release stays due until it runs, and what a client copied is the output of its call -/
structure Handed (r : ShmReceiver) (l : ShmStep W) (r' : ShmReceiver) : Prop where
  keys : ∀ n k, keyAt r.items n = some k → keyAt r'.items n = some k
  left : ∀ n k, keyAt r.items n = some k → r.queue.entries[n]? = none →
    r'.queue.entries[n]? = none
  due : ∀ n ∈ r.releases, (n ∈ r'.releases ∧ l ≠ .runRelease n) ∨ r'.queue.entries[n]? = none
  accepted : ∀ e ∈ r'.accepted, e ∈ r.accepted ∨ e.2 = some e.1

/-- the step leaves the items of the queue and their releases as they are -/
theorem Handed.same (hk : keyAt r'.items = keyAt r.items)
    (hq : r'.queue.entries = r.queue.entries) (hr : r'.releases = r.releases)
    (ha : r'.accepted = r.accepted) (hl : ∀ n, l ≠ .runRelease n) : Handed r l r' := by
  refine ⟨fun n k hn => ?_, fun n k _ hnone => ?_, fun n hn => .inl ⟨?_, hl n⟩, fun e he => .inl ?_⟩
  · rwa [hk]
  · rwa [hq]
  · rwa [hr]
  · rwa [ha] at he

/-- an item leaves the queue -/
theorem Handed.erase (hk : keyAt r'.items = keyAt r.items)
    (hq : r'.queue.entries = r.queue.entries.erase n) (hr : r'.releases = r.releases)
    (ha : r'.accepted = r.accepted) (hl : ∀ n, l ≠ .runRelease n) : Handed r l r' := by
  refine ⟨fun m k hm => ?_, fun m k _ hnone => ?_, fun m hm => .inl ⟨?_, hl m⟩, fun e he => .inl ?_⟩
  · rwa [hk]
  · rw [hq, Std.ExtTreeMap.getElem?_erase]
    split_ifs
    · rfl
    · exact hnone
  · rwa [hr]
  · rwa [ha] at he

theorem Handed.claimSlot (o : Nat) (request : ExecuteSlot)
    (routing : SlotRouting W) (hl : ∀ n, l ≠ .runRelease n) :
    Handed r l (r.claimSlot o request routing) := by
  unfold ShmReceiver.claimSlot
  split
  · exact .same rfl rfl rfl rfl hl
  · split
    · simp only
      split_ifs
      · exact .same rfl rfl rfl rfl hl
      · exact .same rfl rfl rfl rfl hl
    · rename_i claimed s' _
      simp only
      split
      · obtain ⟨heap, faults, hslot⟩ := ShmReceiver.releaseSlot_frame
          { r with heap := r.heap.set o s' } o claimed.slotIndex claimed.generation
        rw [hslot]
        exact .same rfl rfl rfl rfl hl
      · rename_i rejection queue hadmit
        rcases ReceiverQueue.admitBatch_cases hadmit with ⟨_, rfl⟩ | ⟨_, _, hnone, _⟩
        · obtain ⟨heap, faults, hslot⟩ := ShmReceiver.releaseSlot_frame
            { r with heap := r.heap.set o s' } o claimed.slotIndex claimed.generation
          rw [hslot]
          exact .same rfl rfl rfl rfl hl
        · cases hnone
      · rename_i queue hadmit
        rcases ReceiverQueue.admitBatch_cases hadmit with ⟨hsome, _⟩ |
          ⟨entry, rfl, _, _, _, _, _, _, rfl⟩
        · cases hsome
        · -- the new item has the first index that no item has
          have hne : ∀ m k, keyAt r.items m = some k → m ≠ r.items.length := by
            rintro m k hm rfl
            unfold keyAt at hm
            rw [List.getElem?_eq_none_iff.mpr (Nat.le_refl _)] at hm
            cases hm
          refine ⟨fun m k hm => ?_, fun m k hm hnone => ?_, fun m hm => .inl ⟨hm, hl m⟩,
            fun e he => .inl he⟩
          · show keyAt (r.items ++ [_]) m = some k
            rw [keyAt_append, Function.update_of_ne (hne m k hm), hm]
          · show (r.queue.entries.insert r.items.length _)[m]? = none
            rw [Std.ExtTreeMap.getElem?_insert, if_neg, hnone]
            rw [compare_eq_iff_eq]
            exact (hne m k hm).symm

/-- execution ends the item, and its release becomes due -/
theorem Handed.finish (hn : r.items[n]? = some item) (response : ShmResponse)
    (hl : ∀ n, l ≠ .runRelease n) :
    Handed r l (r.finishActive n (ShmReceiver.respond item response)) := by
  have hkey : ({ ShmReceiver.respond item response with execution := .finished } : ShmItem).key
      = item.key := ShmReceiver.respond_key item response
  refine ⟨fun m k hm => ?_, fun _ _ _ hnone => hnone,
    fun m hm => .inl ⟨List.mem_append_left _ hm, hl m⟩, fun e he => .inl he⟩
  show keyAt (r.items.set n _) m = some k
  rw [keyAt_set hn hkey, hm]

/-- the release of the item runs -/
theorem Inv.handed_release (h : Inv r active []) (hn : r.items[n]? = some item)
    (hrelease : n ∈ r.releases) :
    Handed r (.runRelease n : ShmStep W) (r.releaseActive n item) := by
  obtain ⟨queue, _, hfinish, _⟩ := h.finish hn hrelease
  obtain ⟨entry, _, _, hqueue⟩ := ReceiverQueue.finish_cases hfinish
  obtain ⟨heap, faults, hslot⟩ := ShmReceiver.releaseSlot_frame
    { r with releases := r.releases.erase n } item.session item.slotIndex item.generation
  have heq : r.releaseActive n item
      = { r with releases := r.releases.erase n, heap, faults, queue } := by
    unfold ShmReceiver.releaseActive
    simp only
    rw [hslot]
    simp only
    rw [hfinish]
  have hentries : (r.releaseActive n item).queue.entries = r.queue.entries.erase n := by
    rw [heq, hqueue]
  refine ⟨fun m k hm => ?_, fun m k _ hnone => ?_, fun m hm => ?_, fun e he => .inl ?_⟩
  · rwa [heq]
  · rw [hentries, Std.ExtTreeMap.getElem?_erase]
    split_ifs
    · rfl
    · exact hnone
  · by_cases hmn : m = n
    · subst hmn
      right
      rw [hentries, Std.ExtTreeMap.getElem?_erase_self]
    · refine .inl ⟨?_, fun heq' => hmn (ShmStep.runRelease.inj heq').symm⟩
      rw [heq]
      exact (List.mem_erase_of_ne hmn).mpr hm
  · rwa [heq] at he

theorem ShmReceiver.serverStopped_cases (hs : r.step (.serverStopped : ShmStep W) = some r') :
    r.closePhase = .stopping ∧
      r' = { r with queue := r.queue.beginClose.2, closePhase := .waitActiveEmpty }.discard
        r.queue.beginClose.1 := by
  unfold ShmReceiver.step at hs
  simp only at hs
  split_ifs at hs with hphase
  cases hs
  exact ⟨hphase, rfl⟩

/-- the receiver that closes keeps the active items only -/
theorem Inv.kept_close (h : Inv r active []) (hs : r.step (.serverStopped : ShmStep W) = some r')
    {m : Nat} {entry : Entry} (hm : r'.queue.entries[m]? = some entry) :
    entry ∈ active ∧ entry.item = m := by
  obtain ⟨hphase, rfl⟩ := ShmReceiver.serverStopped_cases hs
  have hclosed := (h.beginClose hphase).discard
  obtain ⟨heap, faults, items, hframe, _⟩ := ShmReceiver.discard_frame
    { r with queue := r.queue.beginClose.2, closePhase := .waitActiveEmpty } r.queue.beginClose.1
  obtain ⟨hmem, hitem⟩ := (hclosed.tracked.entries m entry).mp hm
  have hempty := (hclosed.closing (by rw [hframe]; simp) (by rw [hframe]; simp)).2
  rw [hempty, List.nil_append] at hmem
  exact ⟨hmem, hitem⟩

theorem Inv.handed_close (h : Inv r active [])
    (hs : r.step (.serverStopped : ShmStep W) = some r') :
    Handed r (.serverStopped : ShmStep W) r' := by
  have hkept : ∀ m entry, r'.queue.entries[m]? = some entry → entry ∈ active ∧ entry.item = m :=
    fun _ _ => h.kept_close hs
  obtain ⟨_, rfl⟩ := ShmReceiver.serverStopped_cases hs
  obtain ⟨heap, faults, items, hframe, hkeys⟩ := ShmReceiver.discard_frame
    { r with queue := r.queue.beginClose.2, closePhase := .waitActiveEmpty } r.queue.beginClose.1
  refine ⟨fun m k hm => ?_, fun m k _ hnone => ?_, fun m hm => .inl ⟨?_, nofun⟩,
    fun e he => .inl ?_⟩
  · rw [hframe]
    exact (congrFun hkeys m).trans hm
  · by_contra hsome
    obtain ⟨entry, hentry⟩ := Option.ne_none_iff_exists'.mp hsome
    obtain ⟨hactive, hitem⟩ := hkept m entry hentry
    rw [(h.tracked.entries m entry).mpr ⟨List.mem_append_right _ hactive, hitem⟩] at hnone
    cases hnone
  · rw [hframe]
    exact hm
  · rw [hframe] at he
    exact he

theorem Inv.handed (h : Inv r active []) (hs : r.step l = some r') : Handed r l r' := by
  have hstep := hs
  unfold ShmReceiver.step at hs
  cases l with
  | openSharedMemory sessionId =>
    simp only at hs
    split_ifs at hs
    · cases hs
      exact .same rfl rfl rfl rfl (by simp)
    · cases hs
      exact .same rfl rfl rfl rfl (by simp)
    · cases hs
      exact .same rfl rfl rfl rfl (by simp)
  | opened mapped =>
    simp only at hs
    split at hs
    · split_ifs at hs
      · cases hs
        exact .same rfl rfl rfl rfl (by simp)
      · cases hs
        exact .same rfl rfl rfl rfl (by simp)
    · cases hs
  | executeSharedMemory payload routing =>
    cases hs
    unfold ShmReceiver.executeSharedMemory
    split_ifs
    · exact .same rfl rfl rfl rfl (by simp)
    · split
      · exact .same rfl rfl rfl rfl (by simp)
      · split
        · exact .same rfl rfl rfl rfl (by simp)
        · split
          · exact .same rfl rfl rfl rfl (by simp)
          · exact .claimSlot _ _ routing (by simp)
  | cancelHandler n =>
    simp only at hs
    split at hs
    · cases hs
    · rename_i item hn
      split_ifs at hs
      cases hs
      exact .same (keyAt_set hn rfl) rfl rfl rfl (by simp)
  | runCancel n =>
    simp only at hs
    split at hs
    · cases hs
    · rename_i item hn
      split_ifs at hs
      cases hs
      unfold ShmReceiver.cancel
      simp only
      split
      · rename_i queue hcancel
        have hqueue : (r.queue.cancelWaiting n) = (false, queue) := hcancel
        rcases r.queue.cancelWaiting_cases n with hsame | ⟨entry, _, _, hleft⟩
        · rw [hsame] at hqueue
          cases hqueue
          exact .same (keyAt_set hn rfl) rfl rfl rfl (by simp)
        · rw [hleft] at hqueue
          cases hqueue
      · rename_i queue hcancel
        have hqueue : (r.queue.cancelWaiting n) = (true, queue) := hcancel
        rcases r.queue.cancelWaiting_cases n with hsame | ⟨entry, _, _, hleft⟩
        · rw [hsame] at hqueue
          cases hqueue
        · rw [hleft] at hqueue
          cases hqueue
          obtain ⟨heap, faults, hslot⟩ := ShmReceiver.releaseSlot_frame
            { { r with cancels := r.cancels.erase n }.setItem n { item with cancelled := true } with
              queue := { r.queue with
                waiting := r.queue.waiting.erase entry
                entries := r.queue.entries.erase n
                retainedBytes := r.queue.retainedBytes - entry.retainedBytes
                admittedExperts := Counter.dropAll r.queue.admittedExperts entry.keys } }
            item.session item.slotIndex item.generation
          rw [hslot]
          exact .erase (keyAt_set hn rfl) rfl rfl rfl (by simp)
  | answer n =>
    simp only at hs
    split at hs
    · cases hs
    · rename_i item hn
      split_ifs at hs
      cases hs
      exact .same (keyAt_set hn rfl) rfl rfl rfl (by simp)
  | copySlotToOutput n =>
    simp only at hs
    split at hs
    · cases hs
    · rename_i item hn
      split_ifs at hs with hcopy
      cases hs
      obtain ⟨_, hresponse, hlast⟩ := hcopy
      have hout := (h.executed.success n item _ hn hresponse).2 hlast
      refine ⟨fun _ _ hk => hk, fun _ _ _ hnone => hnone, fun m hm => .inl ⟨hm, (by simp)⟩,
        fun e he => ?_⟩
      rcases List.mem_append.mp he with he | he
      · exact .inl he
      · rw [List.mem_singleton.mp he]
        exact .inr hout
  | receive =>
    simp only at hs
    unfold ReceiverQueue.take at hs
    cases hw : r.queue.waiting with
    | nil => simp [hw] at hs
    | cons entry rest =>
      simp only [hw] at hs
      split at hs
      · cases hs
      · rename_i item hn
        cases hs
        have hin : r.queue.entries[entry.item]? = some entry :=
          (h.tracked.entries _ entry).mpr
            ⟨List.mem_append_left _ (by rw [hw]; exact List.mem_cons_self), rfl⟩
        refine ⟨fun m k hm => ?_, fun m k hm hnone => ?_, fun m hm => .inl ⟨hm, (by simp)⟩,
          fun e he => .inl he⟩
        · exact (congrFun (keyAt_set hn (t := { item with execution := .running }) rfl) m).trans hm
        · show (r.queue.entries.insert entry.item _)[m]? = none
          rw [Std.ExtTreeMap.getElem?_insert, if_neg, hnone]
          rw [compare_eq_iff_eq]
          rintro rfl
          rw [hin] at hnone
          cases hnone
  | copyOutput n =>
    simp only at hs
    split at hs
    · cases hs
    · rename_i item hn
      split_ifs at hs
      cases hs
      exact .same (keyAt_set hn rfl) rfl rfl rfl (by simp)
  | complete n tokenCount pointer =>
    simp only at hs
    split at hs
    · cases hs
    · rename_i item hn
      split_ifs at hs with hwork
      cases hs
      obtain ⟨response, hend⟩ := ShmReceiver.completeSuccess_cases
        (h.requireActive hn (.inr hwork)) item tokenCount pointer
      rw [hend]
      exact .finish hn response (by simp)
  | reject n error encoded =>
    simp only at hs
    split at hs
    · cases hs
    · rename_i item hn
      split_ifs at hs with hwork
      cases hs
      obtain ⟨response, hend⟩ := ShmReceiver.completeError_cases (h.requireActive hn hwork) item
        error encoded
      rw [hend]
      exact .finish hn response (by simp)
  | runRelease n =>
    simp only at hs
    split at hs
    · cases hs
    · rename_i item hn
      split_ifs at hs with hrelease
      cases hs
      exact h.handed_release hn hrelease
  | beginDrain experts minTopologyVersion stopAll =>
    simp only at hs
    split at hs
    · cases hs
      exact .same rfl rfl rfl rfl (by simp)
    · rename_i queue hdrain
      cases hs
      obtain ⟨draining, stop, rfl, _⟩ := ReceiverQueue.beginDrain_cases hdrain
      exact .same rfl rfl rfl rfl (by simp)
  | clearDrains experts =>
    cases hs
    exact .same rfl rfl rfl rfl (by simp)
  | closeSharedMemory sessionId =>
    simp only at hs
    split_ifs at hs
    split at hs
    · cases hs
      exact .same rfl rfl rfl rfl (by simp)
    · split at hs
      · cases hs
        exact .same rfl rfl rfl rfl (by simp)
      · split at hs
        · cases hs
        · split_ifs at hs
          · cases hs
            exact .same rfl rfl rfl rfl (by simp)
          · cases hs
            exact .same rfl rfl rfl rfl (by simp)
  | closeThread session =>
    simp only at hs
    split_ifs at hs
    cases hs
    obtain ⟨heap, faults, hclose⟩ := ShmReceiver.closeSession_frame
      { r with closeJobs := r.closeJobs.erase session } session
    rw [hclose]
    exact .same rfl rfl rfl rfl (by simp)
  | closedSharedMemory =>
    simp only at hs
    split at hs
    · cases hs
      exact .same rfl rfl rfl rfl (by simp)
    · cases hs
  | close =>
    simp only at hs
    split_ifs at hs
    cases hs
    exact .same rfl rfl rfl rfl (by simp)
  | serverStopped =>
    exact h.handed_close hstep
  | activeEmpty =>
    simp only at hs
    split_ifs at hs
    cases hs
    exact .same rfl rfl rfl rfl (by simp)
  | clearSessions =>
    simp only at hs
    split_ifs at hs
    cases hs
    exact .same rfl rfl rfl rfl (by simp)
  | closeNext =>
    simp only at hs
    split at hs
    · rename_i session rest _
      cases hs
      obtain ⟨heap, faults, hclose⟩ := ShmReceiver.closeSession_frame r session
      rw [hclose]
      exact .same rfl rfl rfl rfl (by simp)
    · cases hs
      exact .same rfl rfl rfl rfl (by simp)
    · cases hs

/-! ## what a step ends -/

/-- a due release is one of an item that the queue still knows -/
theorem Inv.due_known (h : Inv r active []) (hn : n ∈ r.releases) :
    r.queue.entries[n]? ≠ none := by
  obtain ⟨entry, hentry, hitem⟩ := List.mem_map.mp (h.executed.pending n hn)
  rw [(h.tracked.entries n entry).mpr ⟨List.mem_append_right _ hentry, hitem⟩]
  exact nofun

theorem Inv.item_of_entry (h : Inv r active []) {entry : Entry}
    (he : r.queue.entries[n]? = some entry) : ∃ item, r.items[n]? = some item ∧
      heapActive r.heap item.session item.slotIndex = some item.generation := by
  obtain ⟨hmem, hitem⟩ := (h.tracked.entries n entry).mp he
  obtain ⟨item, hn, hactive, _⟩ :=
    h.holder (List.mem_append_left _ (List.mem_map.mpr ⟨entry, hmem, hitem⟩))
  exact ⟨item, hn, hactive⟩

/-- what a step ends is a known item, whose release is due or which has left the queue -/
theorem Inv.ended (h : Inv r active []) (hs : r.step l = some r') (hn : n ∈ r.ends l) :
    (∃ item, r.items[n]? = some item) ∧ (n ∈ r'.releases ∨ r'.queue.entries[n]? = none) := by
  have hstep := hs
  unfold ShmReceiver.step at hs
  unfold ShmReceiver.ends at hn
  split at hn
  case h_1 m tokenCount pointer =>
    obtain rfl := List.mem_singleton.mp hn
    simp only at hs
    split at hs
    · cases hs
    · rename_i item hitem
      split_ifs at hs with hwork
      cases hs
      obtain ⟨response, hend⟩ := ShmReceiver.completeSuccess_cases
        (h.requireActive hitem (.inr hwork)) item tokenCount pointer
      rw [hend]
      exact ⟨⟨item, hitem⟩, .inl (List.mem_append_right _ (List.mem_singleton.mpr rfl))⟩
  case h_2 m error encoded =>
    obtain rfl := List.mem_singleton.mp hn
    simp only at hs
    split at hs
    · cases hs
    · rename_i item hitem
      split_ifs at hs with hwork
      cases hs
      obtain ⟨response, hend⟩ := ShmReceiver.completeError_cases (h.requireActive hitem hwork) item
        error encoded
      rw [hend]
      exact ⟨⟨item, hitem⟩, .inl (List.mem_append_right _ (List.mem_singleton.mpr rfl))⟩
  case h_3 m =>
    split at hn
    · cases hn
    · rename_i entry he
      split_ifs at hn with hstate
      · obtain rfl := List.mem_singleton.mp hn
        simp only at hs
        split at hs
        · cases hs
        · rename_i item hitem
          split_ifs at hs
          cases hs
          refine ⟨⟨item, hitem⟩, .inr ?_⟩
          have hcancel : (({ r with cancels := r.cancels.erase n }.setItem n
              { item with cancelled := true }).queue.cancelWaiting n).1 = true := by
            show (r.queue.cancelWaiting n).1 = true
            unfold ReceiverQueue.cancelWaiting
            rw [he]
            simp [hstate]
          unfold ShmReceiver.cancel
          simp only
          split
          · rename_i queue hsame
            rw [hsame] at hcancel
            cases hcancel
          · rename_i queue hleft
            rw [ShmReceiver.queue_releaseSlot]
            rcases r.queue.cancelWaiting_cases n with hsame | ⟨_, _, _, heq⟩
            · have hboth := hsame.symm.trans hleft
              cases hboth
            · have hboth := heq.symm.trans hleft
              cases hboth
              exact Std.ExtTreeMap.getElem?_erase_self
      · cases hn
  case h_4 =>
    obtain ⟨entry, hentry, rfl⟩ := List.mem_map.mp hn
    have he := (h.tracked.entries _ entry).mpr ⟨List.mem_append_left _ hentry, rfl⟩
    obtain ⟨item, hitem, _⟩ := h.item_of_entry he
    refine ⟨⟨item, hitem⟩, .inr ?_⟩
    by_contra hsome
    obtain ⟨other, hother⟩ := Option.ne_none_iff_exists'.mp hsome
    obtain ⟨hactive, heq⟩ := h.kept_close hstep hother
    -- an active item does not wait
    have hitems := h.tracked.items
    rw [List.map_append] at hitems
    exact (List.nodup_append.mp hitems).2.2 _ (List.mem_map_of_mem hentry) _
      (List.mem_map_of_mem hactive) heq.symm
  case h_5 => cases hn

/-! ## runs -/

theorem Inv.run {ls : List (ShmStep W)} (h : Inv r active [])
    (hr : Steps.run ShmReceiver.step (fun _ _ => true) r ls = some r') :
    ∃ active', Inv r' active' [] := by
  induction ls generalizing r active with
  | nil =>
    cases hr
    exact ⟨active, h⟩
  | cons l ls ih =>
    obtain ⟨_, r1, hs, hrest⟩ := Steps.run_cons hr
    obtain ⟨active1, h1⟩ := h.step l hs
    exact ih h1 hrest

/-- an item that left the queue stays out of it -/
theorem Inv.left_run {ls : List (ShmStep W)} (h : Inv r active []) {k : Nat × Nat × Nat}
    (hk : keyAt r.items n = some k) (hnone : r.queue.entries[n]? = none)
    (hr : Steps.run ShmReceiver.step (fun _ _ => true) r ls = some r') :
    keyAt r'.items n = some k ∧ r'.queue.entries[n]? = none := by
  induction ls generalizing r active with
  | nil =>
    cases hr
    exact ⟨hk, hnone⟩
  | cons l ls ih =>
    obtain ⟨_, r1, hs, hrest⟩ := Steps.run_cons hr
    obtain ⟨active1, h1⟩ := h.step l hs
    have hhand := h.handed hs
    exact ih h1 (hhand.keys n k hk) (hhand.left n k hk hnone) hrest

/-- a due release stays due until it runs, and then the item has left the queue -/
theorem Inv.due_run {ls : List (ShmStep W)} (h : Inv r active []) {k : Nat × Nat × Nat}
    (hk : keyAt r.items n = some k) (hn : n ∈ r.releases)
    (hr : Steps.run ShmReceiver.step (fun _ _ => true) r ls = some r') :
    keyAt r'.items n = some k ∧
      (r'.queue.entries[n]? = none ∨ n ∈ r'.releases ∧ .runRelease n ∉ ls) := by
  induction ls generalizing r active with
  | nil =>
    cases hr
    exact ⟨hk, .inr ⟨hn, List.not_mem_nil⟩⟩
  | cons l ls ih =>
    obtain ⟨_, r1, hs, hrest⟩ := Steps.run_cons hr
    obtain ⟨active1, h1⟩ := h.step l hs
    have hhand := h.handed hs
    have hk1 := hhand.keys n k hk
    rcases hhand.due n hn with ⟨hdue, hne⟩ | hnone
    · obtain ⟨hk2, hend⟩ := ih h1 hk1 hdue hrest
      refine ⟨hk2, hend.imp id fun ⟨hdue2, hout⟩ => ⟨hdue2, fun hin => ?_⟩⟩
      rcases List.mem_cons.mp hin with heq | hin
      · exact hne heq.symm
      · exact hout hin
    · obtain ⟨hk2, hnone2⟩ := h1.left_run hk1 hnone hrest
      exact ⟨hk2, .inl hnone2⟩

/-- an item that has left the queue has given its slot back, once -/
theorem Inv.released (h : Inv r active []) (hn : r.items[n]? = some item)
    (hnone : r.queue.entries[n]? = none) : Released r.heap item := by
  have hclaim := h.owned.claimed n _ _ _ (keyAt_of hn)
  have hinactive : heapActive r.heap item.session item.slotIndex ≠ some item.generation := by
    intro hactive
    obtain ⟨m, hm, hkey⟩ := h.owned.owner _ _ _ hactive
    obtain rfl := h.owned.distinct m n _ hkey (keyAt_of hn)
    rw [List.append_nil] at hm
    obtain ⟨entry, hentry, hitem⟩ := List.mem_map.mp hm
    rw [(h.tracked.entries m entry).mpr ⟨hentry, hitem⟩] at hnone
    cases hnone
  cases ho : r.heap[item.session]? with
  | none =>
    unfold heapClaims at hclaim
    rw [ho] at hclaim
    cases hclaim
  | some s =>
    rw [heapClaims_of ho] at hclaim
    rw [heapActive_of ho] at hinactive
    have hbalanced := h.owned.balanced s (List.mem_of_getElem? ho)
    have hnodup : (claims s.history item.slotIndex).Nodup :=
      (hbalanced.increasing item.slotIndex).imp Nat.ne_of_lt
    have honce := hbalanced.once item.slotIndex item.generation
    rw [List.count_eq_one_of_mem hnodup hclaim, if_neg hinactive] at honce
    exact ⟨s, ho, honce.symm, hinactive⟩

theorem Inv.exits (h : Inv r active []) : Exits W r := by
  refine ⟨fun n item hn => ?_, fun n item hn hwork error encoded => ?_, fun l r1 hs n hend => ?_,
    fun n hn => ?_⟩
  · cases he : r.queue.entries[n]? with
    | none => exact .inl (h.released hn he)
    | some entry =>
      obtain ⟨item', hn', hactive⟩ := h.item_of_entry he
      rw [hn] at hn'
      cases hn'
      obtain ⟨m, owner, entry', hm, hkey, he', hstate⟩ := h.owner hactive
      obtain rfl := h.owned.distinct m n _ (keyAt_of hm) (by rw [keyAt_of hn, hkey]; rfl)
      rw [hn] at hm
      cases hm
      rw [he] at he'
      cases he'
      exact .inr ⟨hactive, entry, rfl, hstate⟩
  · refine ⟨r.completeError n item error encoded, ?_⟩
    unfold ShmReceiver.step
    simp only [hn]
    exact if_pos hwork
  · obtain ⟨⟨item, hn⟩, hcases⟩ := h.ended hs hend
    obtain ⟨active1, h1⟩ := h.step l hs
    have hk1 := (h.handed hs).keys n _ (keyAt_of hn)
    refine ⟨item, hn, fun ls r2 hr => ?_⟩
    obtain ⟨active2, h2⟩ : ∃ active2, Inv r2 active2 [] := h1.run hr
    rcases hcases with hdue | hnone
    · obtain ⟨hk2, hleft | hdue2⟩ := h1.due_run hk1 hdue hr
      · obtain ⟨item2, hn2, hkey⟩ := keyAt_some hk2
        exact .inl ((h2.released hn2 hleft).of_key hkey)
      · exact .inr hdue2
    · obtain ⟨hk2, hleft⟩ := h1.left_run hk1 hnone hr
      obtain ⟨item2, hn2, hkey⟩ := keyAt_some hk2
      exact .inl ((h2.released hn2 hleft).of_key hkey)
  · obtain ⟨entry, he⟩ := Option.ne_none_iff_exists'.mp (h.due_known hn)
    obtain ⟨item, hitem, _⟩ := h.item_of_entry he
    have hs : r.step (.runRelease n : ShmStep W) = some (r.releaseActive n item) := by
      unfold ShmReceiver.step
      simp only [hitem]
      exact if_pos hn
    obtain ⟨active1, h1⟩ := h.step _ hs
    have hhand := h.handed hs
    obtain ⟨item1, hn1, hkey⟩ := keyAt_some (hhand.keys n _ (keyAt_of hitem))
    rcases hhand.due n hn with ⟨_, hne⟩ | hnone
    · exact absurd rfl hne
    · exact ⟨item, _, hitem, hs, (h1.released hn1 hnone).of_key hkey⟩

/-! ## ownership -/

/-- in every state of a run: nothing was raised by a release or a close of a session; the claimed
generations of a slot increase and each is released once or is the active one, which belongs to one
item of the queue; a closed session and a closed receiver have no active slot; a success carries the
generation of its item, whose output stands in the slot until a later claim; every exit of an item
leads to its release; and what a client copied is the output of its own call -/
theorem shm_slot_ownership (spec : WorkerEndpointConfig) (maxActiveBatches maxPendingBatches : Nat)
    (hpos : 0 < maxPendingBatches) {r : ShmReceiver}
    (hr : Steps.Reach (ShmReceiver.step (W := W)) (fun _ _ => True)
      (.new spec maxActiveBatches maxPendingBatches hpos) r) :
    r.faults = [] ∧
      (∀ (o : Nat) (s : WorkerSharedMemorySession), r.heap[o]? = some s →
        (∀ i, (claims s.history i).Pairwise (· < ·)) ∧
        (∀ i g, (claims s.history i).count g
          = (releases s.history i).count g + if s.activeAt i = some g then 1 else 0) ∧
        (s.closed = true → s.activeCount = 0) ∧
        (r.closePhase = .closed → s.activeCount = 0) ∧
        ∀ i g, s.activeAt i = some g → g = s.lastAt i ∧
          ∃ n item entry, r.items[n]? = some item ∧ item.key = (o, i, g) ∧
            r.queue.entries[n]? = some entry ∧
            (entry.state = .waiting ∨ item.execution = .running ∨ item.execution = .copied ∨
              n ∈ r.releases)) ∧
      (∀ (n m : Nat) (a b : ShmItem) (e e' : Entry), r.items[n]? = some a →
        r.items[m]? = some b → r.queue.entries[n]? = some e → r.queue.entries[m]? = some e' →
        a.session = b.session → a.slotIndex = b.slotIndex → n = m) ∧
      (∀ (n : Nat) (item : ShmItem) (g : Nat), r.items[n]? = some item →
        item.response = some (.success g) → g = item.generation ∧
          ∀ s, r.heap[item.session]? = some s → s.lastAt item.slotIndex = item.generation →
            r.outputs (item.session, item.slotIndex) = some n) ∧
      Exits W r ∧
      ∀ e ∈ r.accepted, e.2 = some e.1 := by
  obtain ⟨⟨active, h⟩, haccepted⟩ : (∃ active, Inv r active []) ∧ ∀ e ∈ r.accepted, e.2 = some e.1 :=
    hr.invariant (P := fun r => (∃ active, Inv r active []) ∧ ∀ e ∈ r.accepted, e.2 = some e.1)
      ⟨⟨[], .new spec maxActiveBatches maxPendingBatches hpos⟩, nofun⟩
      fun _ l _ ⟨⟨_, h⟩, haccepted⟩ _ hs =>
        ⟨h.step l hs, fun e he => ((h.handed hs).accepted e he).elim (haccepted e) id⟩
  refine ⟨h.faultless, fun o s ho => ?_, fun n m a b e e' hn hm he he' => h.exclusive hn hm he he',
    fun n item g hn hresponse => ?_, h.exits, haccepted⟩
  · have hbalanced := h.owned.balanced s (List.mem_of_getElem? ho)
    have hidle : (∀ i g, heapActive r.heap o i ≠ some g) → s.activeCount = 0 := by
      intro hnone
      rw [activeCount_eq_zero_iff]
      intro i
      cases ha : s.activeAt i with
      | none => rfl
      | some g => exact absurd ((heapActive_of ho i).trans ha) (hnone i g)
    refine ⟨hbalanced.increasing, hbalanced.once, fun hclosed => hidle fun i g ha => ?_,
      fun hphase => hidle fun i g ha => ?_, fun i g ha => ⟨hbalanced.active i g ha, ?_⟩⟩
    · rw [h.registered.isOpen (h.registered.live o i g ha) s ho] at hclosed
      cases hclosed
    · obtain ⟨n, hn, _⟩ := h.owned.owner o i g ha
      rw [(h.closing (by rw [hphase]; decide) (by rw [hphase]; decide)).2,
        h.idle (.inr (.inr hphase))] at hn
      cases hn
    · exact h.owner ((heapActive_of ho i).trans ha)
  · obtain ⟨hg, hout⟩ := h.executed.success n item g hn hresponse
    exact ⟨hg, fun s ho hlast => hout ((heapLast_of ho _).trans hlast)⟩

/-- the first item completes and its client copies the output, the second one is cancelled while it
waits, and the handler of the third one is cancelled while execution works on it -/
def takenRun : List (ShmStep Nat) :=
  let request (generation : Nat) : Option ExecuteSlot :=
    some ⟨"0123456789abcdef0123456789abcdef", 1, generation, 0, 7, 1, 1000⟩
  [.openSharedMemory "0123456789abcdef0123456789abcdef", .opened true,
    .openSharedMemory "fedcba9876543210fedcba9876543210", .opened true,
    .executeSharedMemory (request 1) ⟨[2, -1], [5, 0]⟩,
    .executeSharedMemory (request 1) ⟨[2, -1], [5, 0]⟩, .receive, .copyOutput 0,
    .complete 0 1 (0, 1), .runRelease 0, .answer 0, .copySlotToOutput 0,
    .executeSharedMemory (request 1) ⟨[2, -1], [5, 0]⟩,
    .executeSharedMemory (request 2) ⟨[3, 4], [5, 6]⟩, .cancelHandler 1, .runCancel 1,
    .executeSharedMemory (request 3) ⟨[3, 4], [5, 6]⟩, .receive, .cancelHandler 2, .runCancel 2]

/-- the rejection of the third item -/
def busyReject : ShmStep Nat :=
  .reject 2 ⟨.busy, true, none, none, [], "the execution slots are busy"⟩ false

/-- the steps after it: invalid routing and a closed gate end two claims, another item is rejected,
the other session is closed, and the receiver closes while an item waits -/
def closingRun : List (ShmStep Nat) :=
  let request (slotIndex generation : Nat) : Option ExecuteSlot :=
    some ⟨"0123456789abcdef0123456789abcdef", slotIndex, generation, 0, 7, 1, 1000⟩
  [.runRelease 2, .executeSharedMemory (request 1 4) ⟨[-2, 4], [5, 6]⟩,
    .beginDrain [⟨0, 3⟩] 9 false, .executeSharedMemory (request 1 5) ⟨[3, 4], [5, 6]⟩,
    .clearDrains [⟨0, 3⟩], .executeSharedMemory (request 1 6) ⟨[3, 4], [5, 6]⟩, .receive,
    .copyOutput 3, .reject 3 ⟨.cancelled, false, none, none, [], "the client is gone"⟩ true,
    .runRelease 3, .closeSharedMemory (some "fedcba9876543210fedcba9876543210"), .closeThread 1,
    .closedSharedMemory, .executeSharedMemory (request 0 1) ⟨[3, 4], [5, 6]⟩, .close,
    .serverStopped, .activeEmpty, .clearSessions, .closeNext, .closeNext]

/-- the sessions at the end -/
def closedSessions : List WorkerSharedMemorySession :=
  [⟨"0123456789abcdef0123456789abcdef", [⟨none, 1⟩, ⟨none, 6⟩], true,
    [.claimed 1 1, .released 1 1, .claimed 1 2, .released 1 2, .claimed 1 3, .released 1 3,
      .claimed 1 4, .released 1 4, .claimed 1 5, .released 1 5, .claimed 1 6, .released 1 6,
      .claimed 0 1, .released 0 1]⟩,
    ⟨"fedcba9876543210fedcba9876543210", [⟨none, 0⟩, ⟨none, 0⟩], true, []⟩]

theorem shm_slot_ownership_reuse : ∃ taken r : ShmReceiver,
    Steps.run ShmReceiver.step (fun _ _ => true) (.new ⟨4, 8, 16⟩ 1 1 (by decide)) takenRun
      = some taken ∧
    Steps.run ShmReceiver.step (fun _ _ => true) taken (busyReject :: closingRun) = some r ∧
    taken.ends busyReject = [2] ∧
    (∃ item, taken.items[2]? = some item ∧ item.cancelled = true ∧ Released r.heap item) ∧
    r.heap = closedSessions ∧ r.faults = [] ∧ (∀ s ∈ closedSessions, s.activeCount = 0) ∧
    r.accepted = [(0, some 0)] := by
  have htakenRun : (Steps.run ShmReceiver.step (fun _ _ => true) (.new ⟨4, 8, 16⟩ 1 1 (by decide))
      takenRun).any (fun taken : ShmReceiver => decide (taken.ends busyReject = [2] ∧
        taken.items[2]?.map ShmItem.cancelled = some true)) = true := by decide +kernel
  have hrun : (Steps.run ShmReceiver.step (fun _ _ => true) (.new ⟨4, 8, 16⟩ 1 1 (by decide))
      (takenRun ++ busyReject :: closingRun)).any (fun r : ShmReceiver =>
        decide (r.heap = closedSessions ∧ r.closePhase = .closed ∧
          r.accepted = [(0, some 0)])) = true := by decide +kernel
  obtain ⟨taken, htaken, hend⟩ := (Option.any_eq_true _ _).mp htakenRun
  obtain ⟨hends, hcancelled⟩ := of_decide_eq_true hend
  obtain ⟨r, hboth, hend⟩ := (Option.any_eq_true _ _).mp hrun
  obtain ⟨hheap, hphase, haccepted⟩ := of_decide_eq_true hend
  have hr : Steps.run ShmReceiver.step (fun _ _ => true) taken (busyReject :: closingRun)
      = some r := by
    rwa [Steps.run_append, htaken, Option.bind_some] at hboth
  obtain ⟨item, hitem, hcancelled⟩ := Option.map_eq_some_iff.mp hcancelled
  have hreach : ∀ {s : ShmReceiver} {ls : List (ShmStep Nat)},
      Steps.run ShmReceiver.step (fun _ _ => true) (.new ⟨4, 8, 16⟩ 1 1 (by decide)) ls = some s →
      Steps.Reach ShmReceiver.step (fun _ _ => True) (.new ⟨4, 8, 16⟩ 1 1 (by decide)) s :=
    fun hs => (Steps.Reach.of_run .refl hs).mono fun _ _ _ => trivial
  -- the release of the rejected item is one of the steps that follow
  obtain ⟨_, _, _, _, hexits, _⟩ :=
    shm_slot_ownership ⟨4, 8, 16⟩ 1 1 (by decide) (hreach htaken)
  obtain ⟨_, rejected, hreject, hclosing⟩ := Steps.run_cons hr
  obtain ⟨item', hitem', hafter⟩ :=
    hexits.ended busyReject rejected hreject 2 (by rw [hends]; exact List.mem_singleton.mpr rfl)
  rw [hitem] at hitem'
  cases hitem'
  have hreleased : Released r.heap item := by
    rcases hafter closingRun r hclosing with h | ⟨_, hout⟩
    · exact h
    · exact absurd List.mem_cons_self hout
  obtain ⟨hfaults, hsessions, _⟩ := shm_slot_ownership ⟨4, 8, 16⟩ 1 1 (by decide) (hreach hboth)
  refine ⟨taken, r, htaken, hr, hends, ⟨item, hitem, hcancelled, hreleased⟩, hheap, hfaults,
    fun s hs => ?_, haccepted⟩
  obtain ⟨o, ho⟩ := List.getElem?_of_mem hs
  exact (hsessions o s (by rw [hheap, ho])).2.2.2.1 hphase

end

end ExpertKit.Transport

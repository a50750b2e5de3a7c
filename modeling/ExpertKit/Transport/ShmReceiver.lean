import ExpertKit.Transport.Queue
import ExpertKit.Transport.ShmSession
import ExpertKit.Lib.Assoc
import ExpertKit.Lib.Ledger
import ExpertKit.Lib.Steps

/-!
# Transport: the shared-memory receiver of a Worker

`ShmWorkerBatchReceiver` of `transports/shm/receiver.py` as a machine of its asyncio sections: what
runs between two suspensions is one step, and a task that was created runs in a later step.  A
thread only writes an output or closes a session.  A handler that waits for the session lock is a
step that is not enabled.  The execution side takes an item, may write its output, and ends it once
with `complete` or `reject` (`_process_batch` of the Worker's `executor.py`).

* `ShmItem`, `ShmReceiver`   the data: sessions and items are known by the order of their creation;
* `claimSlot`, `releaseSlot`, `completeSuccess`, `completeError`   the methods;
* `ShmReceiver.step`         every step of the handlers, tasks and threads;
* `Inv`                      the slots in use belong to the items of the queue;
* `Inv.step`                 every step keeps the invariant.
-/

set_option linter.unusedSectionVars false

namespace ExpertKit.Transport
open Routing

/-! ## data -/

/-- what the response future of an item holds -/
inductive ShmResponse where
  | success (generation : Nat)
  | rejected (error : TransportError)
  | nativeError (error : TransportError)
  | failed (message : String)
deriving DecidableEq, Repr

/-- what execution did with an item -/
inductive ExecutionPhase where
  | notTaken
  | running
  | copied
  | finished
deriving DecidableEq, Repr

/-- the handler of the notification -/
inductive HandlerPhase where
  | awaiting
  | cancelled
  | answered
deriving DecidableEq, Repr

/-- `_ShmReceivedBatch` -/
structure ShmItem where
  session : Nat
  slotIndex : Nat
  generation : Nat
  tokenCount : Nat
  cancelled : Bool
  response : Option ShmResponse
  handler : HandlerPhase
  execution : ExecutionPhase
deriving DecidableEq, Repr

/-- the holder of the session lock -/
inductive SessionTask where
  | opening (sessionId : String)
  | closing (session : Nat)
  | shutdown (rest : List Nat)
deriving DecidableEq, Repr

inductive ClosePhase where
  | serving
  | stopping
  | waitActiveEmpty
  | activeEmpty
  | closingSessions
  | closed
deriving DecidableEq, Repr

structure ShmReceiver where
  spec : WorkerEndpointConfig
  slotCount : Nat
  queue : ReceiverQueue
  heap : List WorkerSharedMemorySession
  sessions : List (String × Nat)
  items : List ShmItem
  cancels : List Nat
  releases : List Nat
  sessionTask : Option SessionTask
  closeJobs : List Nat
  closePhase : ClosePhase
  outputs : Nat × Nat → Option Nat
  /-- the calls whose clients copied the output of their slot, and what stood there -/
  accepted : List (Nat × Option Nat)
  faults : List String

def maxSharedMemorySessions : Nat := 64

/-! ## the slots of all sessions -/

def heapActive (heap : List WorkerSharedMemorySession) (session slotIndex : Nat) : Option Nat :=
  heap[session]?.bind fun s => s.activeAt slotIndex

def heapLast (heap : List WorkerSharedMemorySession) (session slotIndex : Nat) : Nat :=
  (heap[session]?.map fun s => s.lastAt slotIndex).getD 0

/-- the generations of a slot that were claimed -/
def heapClaims (heap : List WorkerSharedMemorySession) (session slotIndex : Nat) : List Nat :=
  (heap[session]?.map fun s => claims s.history slotIndex).getD []

namespace ShmReceiver

def new (spec : WorkerEndpointConfig) (maxActiveBatches maxPendingBatches : Nat)
    (h : 0 < maxPendingBatches) : ShmReceiver where
  spec
  slotCount := maxActiveBatches + maxPendingBatches
  queue := .new maxPendingBatches 0 h
  heap := []
  sessions := []
  items := []
  cancels := []
  releases := []
  sessionTask := none
  closeJobs := []
  closePhase := .serving
  outputs := fun _ => none
  accepted := []
  faults := []

def fault (r : ShmReceiver) (message : String) : ShmReceiver :=
  { r with faults := r.faults ++ [message] }

def setItem (r : ShmReceiver) (n : Nat) (item : ShmItem) : ShmReceiver :=
  { r with items := r.items.set n item }

/-! ## slots -/

/-- `session.release` -/
def releaseSlot (r : ShmReceiver) (session slotIndex generation : Nat) : ShmReceiver :=
  match r.heap[session]? with
  | none => r
  | some s =>
    match s.release slotIndex generation with
    | .error error => r.fault error.message
    | .ok s' => { r with heap := r.heap.set session s' }

/-- the claim of `_execute_shared_memory` and the admission of the item -/
def claimSlot {W : Type} [Zero W] [DecidableEq W] (r : ShmReceiver) (session : Nat)
    (request : ExecuteSlot) (routing : SlotRouting W) : ShmReceiver :=
  match r.heap[session]? with
  | none => r
  | some s =>
    match s.claim r.spec request routing with
    | (.error error, s') =>
      let r := { r with heap := r.heap.set session s' }
      if error.kind = .runtimeError then r.fault error.message else r
    | (.ok claimed, s') =>
      let r := { r with heap := r.heap.set session s' }
      match r.queue.admitBatch r.items.length claimed.layerId claimed.distinctExpertIds 0 with
      | .error error =>
        (r.releaseSlot session claimed.slotIndex claimed.generation).fault error.message
      | .ok (some _, queue) =>
        { r with queue }.releaseSlot session claimed.slotIndex claimed.generation
      | .ok (none, queue) => { r with
          queue
          items := r.items ++ [⟨session, claimed.slotIndex, claimed.generation,
            claimed.tokenCount, false, none, .awaiting, .notTaken⟩] }

/-- `_execute_shared_memory` up to its suspension; `none` is a payload that does not parse -/
def executeSharedMemory {W : Type} [Zero W] [DecidableEq W] (r : ShmReceiver)
    (payload : Option ExecuteSlot) (routing : SlotRouting W) : ShmReceiver :=
  if r.closePhase ≠ .serving then r
  else
    match payload with
    | none => r
    | some payload =>
      match decodeExecuteRequest r.spec payload with
      | .error _ => r
      | .ok request =>
        match r.sessions.lookup request.sessionId with
        | none => r
        | some session => r.claimSlot session request routing

/-! ## items -/

/-- `_cancel` -/
def cancel (r : ShmReceiver) (n : Nat) (item : ShmItem) : ShmReceiver :=
  let r := r.setItem n { item with cancelled := true }
  match r.queue.cancelWaiting n with
  | (false, queue) => { r with queue }
  | (true, queue) => { r with queue }.releaseSlot item.session item.slotIndex item.generation

/-- `_require_active`, with its error -/
def requireActive (r : ShmReceiver) (n : Nat) : Option String :=
  match r.queue.entries[n]? with
  | some entry => if entry.state = .active then none
      else some "Worker batch completion requires an active received batch"
  | none => some "Worker batch completion requires an active received batch"

/-- the result of the response future, unless the item was cancelled or has one -/
def respond (item : ShmItem) (response : ShmResponse) : ShmItem :=
  if item.cancelled = false ∧ item.response = none then { item with response := some response }
  else item

/-- the end of both methods: `_finish_active` creates the task of `_release_active` -/
def finishActive (r : ShmReceiver) (n : Nat) (item : ShmItem) : ShmReceiver :=
  { r.setItem n { item with execution := .finished } with releases := r.releases ++ [n] }

/-- `_complete_success` with the shape and the address of the tensor -/
def completeSuccess (r : ShmReceiver) (n : Nat) (item : ShmItem) (tokenCount : Nat)
    (pointer : Nat × Nat) : ShmReceiver :=
  match r.requireActive n with
  | some message => r.fault message
  | none =>
    if tokenCount ≠ item.tokenCount then
      r.finishActive n (respond item
        (.failed "partial output token count does not match the received batch"))
    else if pointer ≠ (item.session, item.slotIndex) then
      r.finishActive n (respond item
        (.failed "SHM response did not use its claimed output destination"))
    else if item.generation = 0 then
      r.finishActive n (respond item (.failed "shared-memory generation must be positive"))
    else r.finishActive n (respond item (.success item.generation))

/-- the codes of `_NATIVE_ERROR_STATUS` -/
def nativeStatus : TransportErrorCode → Bool
  | .deadlineExceeded | .cancelled | .unavailable | .protocol => true
  | _ => false

/-- `_complete_error`; the encoding of the error may fail -/
def completeError (r : ShmReceiver) (n : Nat) (item : ShmItem) (error : TransportError)
    (encoded : Bool) : ShmReceiver :=
  match r.requireActive n with
  | some message => r.fault message
  | none =>
    if nativeStatus error.code then r.finishActive n (respond item (.nativeError error))
    else if encoded then r.finishActive n (respond item (.rejected error))
    else r.finishActive n (respond item (.failed error.diagnostic))

/-- `_release_active` -/
def releaseActive (r : ShmReceiver) (n : Nat) (item : ShmItem) : ShmReceiver :=
  let r := { r with releases := r.releases.erase n }
  let r := r.releaseSlot item.session item.slotIndex item.generation
  match r.queue.finish n with
  | .error error => r.fault error.message
  | .ok queue => { r with queue }

/-! ## sessions -/

/-- `session.close` in its thread -/
def closeSession (r : ShmReceiver) (session : Nat) : ShmReceiver :=
  match r.heap[session]? with
  | none => r
  | some s =>
    match s.close with
    | .error error => r.fault error.message
    | .ok s' => { r with heap := r.heap.set session s' }

/-- the items that `_close` finds waiting -/
def discard (r : ShmReceiver) (waiting : List Nat) : ShmReceiver :=
  waiting.foldl (fun r n =>
    match r.items[n]? with
    | none => r
    | some item => (r.setItem n { item with cancelled := true }).releaseSlot item.session
        item.slotIndex item.generation) r

end ShmReceiver

/-! ## steps -/

inductive ShmStep (W : Type) where
  /-- `_open_shared_memory` holds the lock and starts a thread, and the thread has ended -/
  | openSharedMemory (sessionId : String)
  | opened (mapped : Bool)
  | executeSharedMemory (payload : Option ExecuteSlot) (routing : SlotRouting W)
  /-- the handler of the item is cancelled, its `_cancel` task runs, or it returns -/
  | cancelHandler (item : Nat)
  | runCancel (item : Nat)
  | answer (item : Nat)
  /-- the client of an answered call copies the output, before its slot has a newer generation -/
  | copySlotToOutput (item : Nat)
  /-- execution -/
  | receive
  | copyOutput (item : Nat)
  | complete (item tokenCount : Nat) (pointer : Nat × Nat)
  | reject (item : Nat) (error : TransportError) (encoded : Bool)
  | runRelease (item : Nat)
  /-- drains -/
  | beginDrain (experts : List ExpertKey) (minTopologyVersion : Nat) (stopAll : Bool)
  | clearDrains (experts : List ExpertKey)
  /-- `_close_shared_memory` holds the lock, its thread runs, and it gives the lock back -/
  | closeSharedMemory (sessionId : Option String)
  | closeThread (session : Nat)
  | closedSharedMemory
  /-- the sections of `_close` -/
  | close
  | serverStopped
  | activeEmpty
  | clearSessions
  | closeNext

namespace ShmReceiver

variable {W : Type} [Zero W] [DecidableEq W]

/-- `none` where the step is not enabled; a cancelled handler may give the lock back while its
thread still works -/
def step (r : ShmReceiver) : ShmStep W → Option ShmReceiver
  | .openSharedMemory sessionId =>
    if r.sessionTask.isSome then none
    else if (r.sessions.lookup sessionId).isSome then some r
    else if maxSharedMemorySessions ≤ r.sessions.length then some r
    else some { r with sessionTask := some (.opening sessionId) }
  | .opened mapped =>
    match r.sessionTask with
    | some (.opening sessionId) =>
      if mapped then some { r with
        heap := r.heap ++ [.new sessionId r.slotCount]
        sessions := r.sessions ++ [(sessionId, r.heap.length)]
        sessionTask := none }
      else some { r with sessionTask := none }
    | _ => none
  | .executeSharedMemory payload routing => some (r.executeSharedMemory payload routing)
  | .cancelHandler n =>
    match r.items[n]? with
    | none => none
    | some item =>
      if item.handler = .awaiting then
        some { r.setItem n { item with handler := .cancelled } with cancels := r.cancels ++ [n] }
      else none
  | .runCancel n =>
    match r.items[n]? with
    | none => none
    | some item =>
      if n ∈ r.cancels then some ({ r with cancels := r.cancels.erase n }.cancel n item) else none
  | .answer n =>
    match r.items[n]? with
    | none => none
    | some item =>
      if item.handler = .awaiting ∧ item.response.isSome then
        some (r.setItem n { item with handler := .answered })
      else none
  | .copySlotToOutput n =>
    match r.items[n]? with
    | none => none
    | some item =>
      if item.handler = .answered ∧ item.response = some (.success item.generation) ∧
          heapLast r.heap item.session item.slotIndex = item.generation then
        some { r with
          accepted := r.accepted ++ [(n, r.outputs (item.session, item.slotIndex))] }
      else none
  | .receive =>
    match r.queue.take with
    | none => none
    | some (n, queue) =>
      match r.items[n]? with
      | none => none
      | some item => some ({ r with queue }.setItem n { item with execution := .running })
  | .copyOutput n =>
    match r.items[n]? with
    | none => none
    | some item =>
      if item.execution = .running ∨ item.execution = .copied then
        some { r.setItem n { item with execution := .copied } with
          outputs := Function.update r.outputs (item.session, item.slotIndex) (some n) }
      else none
  | .complete n tokenCount pointer =>
    match r.items[n]? with
    | none => none
    | some item =>
      if item.execution = .copied then some (r.completeSuccess n item tokenCount pointer) else none
  | .reject n error encoded =>
    match r.items[n]? with
    | none => none
    | some item =>
      if item.execution = .running ∨ item.execution = .copied then
        some (r.completeError n item error encoded)
      else none
  | .runRelease n =>
    match r.items[n]? with
    | none => none
    | some item => if n ∈ r.releases then some (r.releaseActive n item) else none
  | .beginDrain experts minTopologyVersion stopAll =>
    match r.queue.beginDrain experts minTopologyVersion stopAll with
    | .error _ => some r
    | .ok queue => some { r with queue }
  | .clearDrains experts => some { r with queue := r.queue.clearExpertDrains experts }
  | .closeSharedMemory sessionId =>
    if r.sessionTask.isSome then none
    else
      match sessionId with
      | none => some r
      | some sessionId =>
        match r.sessions.lookup sessionId with
        | none => some r
        | some session =>
          match r.heap[session]? with
          | none => none
          | some s =>
            if s.activeCount ≠ 0 then some r
            else some { r with
              sessions := Assoc.erase r.sessions sessionId
              sessionTask := some (.closing session)
              closeJobs := r.closeJobs ++ [session] }
  | .closeThread session =>
    if session ∈ r.closeJobs then
      some ({ r with closeJobs := r.closeJobs.erase session }.closeSession session)
    else none
  | .closedSharedMemory =>
    match r.sessionTask with
    | some (.closing _) => some { r with sessionTask := none }
    | _ => none
  | .close =>
    if r.closePhase = .serving then some { r with closePhase := .stopping } else none
  | .serverStopped =>
    if r.closePhase = .stopping then
      let (waiting, queue) := r.queue.beginClose
      some ({ r with queue, closePhase := .waitActiveEmpty }.discard waiting)
    else none
  | .activeEmpty =>
    if r.closePhase = .waitActiveEmpty ∧ r.queue.activeCount = 0 then
      some { r with closePhase := .activeEmpty }
    else none
  | .clearSessions =>
    if r.closePhase = .activeEmpty ∧ r.sessionTask = none then some { r with
      sessions := []
      sessionTask := some (.shutdown (r.sessions.map Prod.snd))
      closePhase := .closingSessions }
    else none
  | .closeNext =>
    match r.sessionTask with
    | some (.shutdown (session :: rest)) =>
      some { r.closeSession session with sessionTask := some (.shutdown rest) }
    | some (.shutdown []) => some { r with sessionTask := none, closePhase := .closed }
    | _ => none

end ShmReceiver

/-! ## what the sessions say of their slots -/

theorem heapActive_of {heap : List WorkerSharedMemorySession} {o : Nat}
    {s : WorkerSharedMemorySession} (h : heap[o]? = some s) (i : Nat) :
    heapActive heap o i = s.activeAt i := by
  unfold heapActive
  rw [h]
  rfl

theorem heapLast_of {heap : List WorkerSharedMemorySession} {o : Nat}
    {s : WorkerSharedMemorySession} (h : heap[o]? = some s) (i : Nat) :
    heapLast heap o i = s.lastAt i := by
  unfold heapLast
  rw [h]
  rfl

/-- what a change of one slot of one session does -/
theorem heap_set {heap : List WorkerSharedMemorySession} {o i : Nat}
    {s : WorkerSharedMemorySession} {slot : SlotState} (h : heap[o]? = some s)
    (hs : s.slots[i]? = some slot) (slot' : SlotState) (history : List SlotEvent) (o' j : Nat) :
    heapActive (heap.set o { s with slots := s.slots.set i slot', history }) o' j
      = (if o = o' ∧ i = j then slot'.active else heapActive heap o' j) ∧
    heapLast (heap.set o { s with slots := s.slots.set i slot', history }) o' j
      = (if o = o' ∧ i = j then slot'.last else heapLast heap o' j) := by
  have hlt : o < heap.length := (List.getElem?_eq_some_iff.mp h).1
  by_cases ho : o = o'
  · subst ho
    have hget : (heap.set o { s with slots := s.slots.set i slot', history })[o]?
        = some { s with slots := s.slots.set i slot', history } := List.getElem?_set_self hlt
    rw [heapActive_of hget, heapLast_of hget, heapActive_of h, heapLast_of h,
      WorkerSharedMemorySession.activeAt_set hs, WorkerSharedMemorySession.lastAt_set hs]
    simp
  · unfold heapActive heapLast
    rw [List.getElem?_set_ne ho, if_neg (fun h => ho h.1), if_neg (fun h => ho h.1)]
    exact ⟨rfl, rfl⟩

theorem heap_append (heap : List WorkerSharedMemorySession) (sessionId : String)
    (slotCount o i : Nat) :
    heapActive (heap ++ [.new sessionId slotCount]) o i = heapActive heap o i ∧
      heapLast (heap ++ [.new sessionId slotCount]) o i = heapLast heap o i := by
  unfold heapActive heapLast
  rcases Nat.lt_trichotomy o heap.length with ho | rfl | ho
  · rw [List.getElem?_append_left ho]
    exact ⟨rfl, rfl⟩
  · have hslot : (List.replicate slotCount (⟨none, 0⟩ : SlotState))[i]? = none ∨
        (List.replicate slotCount (⟨none, 0⟩ : SlotState))[i]? = some ⟨none, 0⟩ := by
      rw [List.getElem?_replicate]
      split_ifs
      · exact .inr rfl
      · exact .inl rfl
    rcases hslot with hslot | hslot <;>
      simp [WorkerSharedMemorySession.activeAt, WorkerSharedMemorySession.lastAt,
        WorkerSharedMemorySession.new, hslot]
  · have h1 : (heap ++ [WorkerSharedMemorySession.new sessionId slotCount])[o]? = none := by
      rw [List.getElem?_eq_none_iff, List.length_append, List.length_singleton]
      exact ho
    have h2 : heap[o]? = none := List.getElem?_eq_none_iff.mpr (Nat.le_of_lt ho)
    rw [h1, h2]
    exact ⟨rfl, rfl⟩

theorem heapClaims_of {heap : List WorkerSharedMemorySession} {o : Nat}
    {s : WorkerSharedMemorySession} (h : heap[o]? = some s) (i : Nat) :
    heapClaims heap o i = claims s.history i := by
  unfold heapClaims
  rw [h]
  rfl

/-- no claim of a slot is forgotten when the history of a session grows -/
theorem heapClaims_set {heap : List WorkerSharedMemorySession} {o : Nat}
    {s s' : WorkerSharedMemorySession} (h : heap[o]? = some s) {events : List SlotEvent}
    (hs : s'.history = s.history ++ events) {o' j g : Nat} (hg : g ∈ heapClaims heap o' j) :
    g ∈ heapClaims (heap.set o s') o' j := by
  have hlt : o < heap.length := (List.getElem?_eq_some_iff.mp h).1
  by_cases ho : o = o'
  · subst ho
    rw [heapClaims_of h] at hg
    rw [heapClaims_of (List.getElem?_set_self hlt), hs]
    unfold claims at hg ⊢
    rw [List.filterMap_append]
    exact List.mem_append_left _ hg
  · unfold heapClaims at hg ⊢
    rwa [List.getElem?_set_ne ho]

theorem heapClaims_append {heap : List WorkerSharedMemorySession} (s : WorkerSharedMemorySession)
    {o i g : Nat} (hg : g ∈ heapClaims heap o i) : g ∈ heapClaims (heap ++ [s]) o i := by
  have hlt : o < heap.length := by
    by_contra hge
    unfold heapClaims at hg
    rw [List.getElem?_eq_none_iff.mpr (Nat.not_lt.mp hge)] at hg
    cases hg
  unfold heapClaims at hg ⊢
  rwa [List.getElem?_append_left hlt]

/-- what identifies an item: its session, its slot and its generation -/
def ShmItem.key (item : ShmItem) : Nat × Nat × Nat :=
  (item.session, item.slotIndex, item.generation)

def keyAt (items : List ShmItem) (n : Nat) : Option (Nat × Nat × Nat) :=
  items[n]?.map ShmItem.key

theorem keyAt_of {items : List ShmItem} {n : Nat} {item : ShmItem}
    (h : items[n]? = some item) : keyAt items n = some item.key := by
  unfold keyAt
  rw [h]
  rfl

theorem keyAt_set {items : List ShmItem} {n : Nat} {item t : ShmItem}
    (h : items[n]? = some item) (hkey : t.key = item.key) :
    keyAt (items.set n t) = keyAt items := by
  have hlt : n < items.length := (List.getElem?_eq_some_iff.mp h).1
  funext m
  by_cases hm : n = m
  · subst hm
    rw [keyAt_of h, keyAt_of (List.getElem?_set_self hlt), hkey]
  · unfold keyAt
    rw [List.getElem?_set_ne hm]

/-- the active slots belong to the items of `holds`, one to one, and no two items have the same
session, slot and generation -/
structure Owned (heap : List WorkerSharedMemorySession) (keys : Nat → Option (Nat × Nat × Nat))
    (holds : Nat → Prop) : Prop where
  balanced : ∀ s ∈ heap, Balanced s
  held : ∀ n, holds n → ∃ o i g, keys n = some (o, i, g) ∧ heapActive heap o i = some g
  owner : ∀ o i g, heapActive heap o i = some g → ∃ n, holds n ∧ keys n = some (o, i, g)
  claimed : ∀ n o i g, keys n = some (o, i, g) → g ∈ heapClaims heap o i
  distinct : ∀ n m k, keys n = some k → keys m = some k → n = m

section
variable {heap : List WorkerSharedMemorySession} {keys : Nat → Option (Nat × Nat × Nat)}
  {holds : Nat → Prop} {o i g n : Nat} {s : WorkerSharedMemorySession} {slot : SlotState}

theorem balanced_set (h : ∀ s ∈ heap, Balanced s) {s' : WorkerSharedMemorySession}
    (hs' : Balanced s') : ∀ s ∈ heap.set o s', Balanced s := by
  intro x hx
  rcases List.mem_or_eq_of_mem_set hx with hx | rfl
  · exact h x hx
  · exact hs'

theorem Owned.known (h : Owned heap keys holds) (hn : keys n = some (o, i, g)) :
    g ≤ heapLast heap o i := by
  have hg := h.claimed n o i g hn
  cases hs : heap[o]? with
  | none =>
    unfold heapClaims at hg
    rw [hs] at hg
    cases hg
  | some s =>
    rw [heapClaims_of hs] at hg
    rw [heapLast_of hs]
    exact (h.balanced s (List.mem_of_getElem? hs)).last i g hg

/-- a claim for a new item -/
theorem Owned.own (h : Owned heap keys holds) (ho : heap[o]? = some s)
    (hs : s.slots[i]? = some slot) (ha : slot.active = none) (hg : slot.last < g)
    (hn : keys n = none) :
    Owned (heap.set o (s.own i g)) (Function.update keys n (some (o, i, g)))
      (fun m => holds m ∨ m = n) := by
  have hset := heap_set ho hs ⟨some g, g⟩ (s.history ++ [.claimed i g])
  have hfree : heapActive heap o i = none := by
    rw [heapActive_of ho, s.activeAt_of hs, ha]
  have hlast : heapLast heap o i = slot.last := by rw [heapLast_of ho, s.lastAt_of hs]
  refine ⟨balanced_set h.balanced ((h.balanced s (List.mem_of_getElem? ho)).own hs ha hg),
    ?_, ?_, ?_, ?_⟩
  · rintro m (hm | rfl)
    · obtain ⟨o', i', g', hk, hactive⟩ := h.held m hm
      have hmn : m ≠ n := by
        rintro rfl
        rw [hn] at hk
        cases hk
      refine ⟨o', i', g', by rw [Function.update_of_ne hmn, hk], ?_⟩
      refine (hset o' i').1.trans ?_
      rw [if_neg ?_, hactive]
      rintro ⟨rfl, rfl⟩
      rw [hfree] at hactive
      cases hactive
    · exact ⟨o, i, g, by rw [Function.update_self], (hset o i).1.trans (if_pos ⟨rfl, rfl⟩)⟩
  · intro o' i' g' hactive
    have hactive := (hset o' i').1.symm.trans hactive
    by_cases heq : o = o' ∧ i = i'
    · obtain ⟨rfl, rfl⟩ := heq
      rw [if_pos ⟨rfl, rfl⟩] at hactive
      cases hactive
      exact ⟨n, .inr rfl, Function.update_self _ _ _⟩
    · rw [if_neg heq] at hactive
      obtain ⟨m, hm, hk⟩ := h.owner o' i' g' hactive
      have hmn : m ≠ n := by
        rintro rfl
        rw [hn] at hk
        cases hk
      exact ⟨m, .inl hm, by rw [Function.update_of_ne hmn, hk]⟩
  · intro m o' i' g' hk
    by_cases hmn : m = n
    · subst hmn
      rw [Function.update_self] at hk
      cases hk
      rw [heapClaims_of (List.getElem?_set_self (List.getElem?_eq_some_iff.mp ho).1)]
      simp [claims, WorkerSharedMemorySession.own, SlotEvent.claimedAt]
    · rw [Function.update_of_ne hmn] at hk
      exact heapClaims_set ho rfl (h.claimed m o' i' g' hk)
  · have hfresh : ∀ m, m ≠ n → keys m ≠ some (o, i, g) := by
      intro m _ hk
      have hle := h.known hk
      omega
    intro m m' k hm hm'
    by_cases hmn : m = n
    · by_cases hmn' : m' = n
      · rw [hmn, hmn']
      · rw [hmn, Function.update_self] at hm
        rw [Function.update_of_ne hmn', ← hm] at hm'
        exact absurd hm' (hfresh m' hmn')
    · by_cases hmn' : m' = n
      · rw [hmn', Function.update_self] at hm'
        rw [Function.update_of_ne hmn, ← hm'] at hm
        exact absurd hm (hfresh m hmn)
      · rw [Function.update_of_ne hmn] at hm
        rw [Function.update_of_ne hmn'] at hm'
        exact h.distinct m m' k hm hm'

/-- a claim that ends with its slot released -/
theorem Owned.withdrawn (h : Owned heap keys holds) (ho : heap[o]? = some s)
    (hc : s.closed = false) (hs : s.slots[i]? = some slot) (ha : slot.active = none)
    (hg : slot.last < g) : Owned (heap.set o (s.withdrawn i g)) keys holds := by
  have hset := heap_set ho hs ⟨none, g⟩ (s.history ++ [.claimed i g, .released i g])
  have hfree : heapActive heap o i = none := by
    rw [heapActive_of ho, s.activeAt_of hs, ha]
  have hsame : ∀ o' i', heapActive (heap.set o (s.withdrawn i g)) o' i'
      = heapActive heap o' i' := by
    intro o' i'
    refine (hset o' i').1.trans ?_
    split_ifs with heq
    · obtain ⟨rfl, rfl⟩ := heq
      exact hfree.symm
    · rfl
  have howned := (h.balanced s (List.mem_of_getElem? ho)).own hs ha hg
  refine ⟨balanced_set h.balanced
      (howned.release (WorkerSharedMemorySession.own_release hc hs)), ?_, ?_, ?_, h.distinct⟩
  · intro m hm
    obtain ⟨o', i', g', hk, hactive⟩ := h.held m hm
    exact ⟨o', i', g', hk, (hsame o' i').trans hactive⟩
  · intro o' i' g' hactive
    exact h.owner o' i' g' ((hsame o' i').symm.trans hactive)
  · intro m o' i' g' hk
    exact heapClaims_set ho rfl (h.claimed m o' i' g' hk)

/-- the item gives its slot back -/
theorem Owned.release (h : Owned heap keys holds) (hn : holds n) (hk : keys n = some (o, i, g))
    (hopen : ∀ s, heap[o]? = some s → s.closed = false) :
    ∃ s s', heap[o]? = some s ∧ s.release i g = .ok s' ∧
      (∀ o' i', heapLast (heap.set o s') o' i' = heapLast heap o' i') ∧
      Owned (heap.set o s') keys (fun m => holds m ∧ m ≠ n) := by
  obtain ⟨o', i', g', hk', hactive⟩ := h.held n hn
  rw [hk] at hk'
  cases hk'
  have hheap := hactive
  unfold heapActive at hheap
  obtain ⟨s, ho, hs⟩ := Option.bind_eq_some_iff.mp hheap
  unfold WorkerSharedMemorySession.activeAt at hs
  obtain ⟨slot, hs, ha⟩ := Option.bind_eq_some_iff.mp hs
  have hrelease := WorkerSharedMemorySession.release_ok (hopen s ho) hs ha
  have hset := heap_set ho hs { slot with active := none } (s.history ++ [.released i g])
  have hlast : ∀ o' i', (if o = o' ∧ i = i' then slot.last else heapLast heap o' i')
      = heapLast heap o' i' := by
    intro o' i'
    split_ifs with heq
    · obtain ⟨rfl, rfl⟩ := heq
      rw [heapLast_of ho, s.lastAt_of hs]
    · rfl
  refine ⟨s, _, ho, hrelease, fun o' i' => (hset o' i').2.trans (hlast o' i'),
    balanced_set h.balanced ((h.balanced s (List.mem_of_getElem? ho)).release hrelease),
    ?_, ?_, ?_, h.distinct⟩
  · rintro m ⟨hm, hmn⟩
    obtain ⟨o', i', g', hkm, hactive'⟩ := h.held m hm
    refine ⟨o', i', g', hkm, (hset o' i').1.trans ?_⟩
    rw [if_neg ?_, hactive']
    rintro ⟨rfl, rfl⟩
    have hgen : g' = g := Option.some.inj (hactive'.symm.trans hactive)
    subst hgen
    exact hmn (h.distinct m n _ hkm hk)
  · intro o' i' g' hactive'
    have hactive' := (hset o' i').1.symm.trans hactive'
    by_cases heq : o = o' ∧ i = i'
    · rw [if_pos heq] at hactive'
      cases hactive'
    · rw [if_neg heq] at hactive'
      obtain ⟨m, hm, hkm⟩ := h.owner o' i' g' hactive'
      refine ⟨m, ⟨hm, ?_⟩, hkm⟩
      rintro rfl
      rw [hk] at hkm
      cases hkm
      exact heq ⟨rfl, rfl⟩
  · intro m o' i' g' hkm
    exact heapClaims_set ho rfl (h.claimed m o' i' g' hkm)

/-- a change that leaves the slots of all sessions as they are -/
theorem Owned.same (h : Owned heap keys holds) {heap' : List WorkerSharedMemorySession}
    (hb : ∀ s ∈ heap', Balanced s)
    (hsame : ∀ o i, heapActive heap' o i = heapActive heap o i)
    (hclaims : ∀ o i g, g ∈ heapClaims heap o i → g ∈ heapClaims heap' o i) :
    Owned heap' keys holds := by
  refine ⟨hb, fun m hm => ?_, fun o' i' g' ha => ?_, fun m o' i' g' hk => ?_, h.distinct⟩
  · obtain ⟨o', i', g', hk, ha⟩ := h.held m hm
    exact ⟨o', i', g', hk, by rw [hsame o' i', ha]⟩
  · rw [hsame o' i'] at ha
    exact h.owner o' i' g' ha
  · exact hclaims o' i' g' (h.claimed m o' i' g' hk)

theorem Owned.holders (h : Owned heap keys holds) {holds' : Nat → Prop}
    (heq : ∀ n, holds' n ↔ holds n) : Owned heap keys holds' := by
  have hfun : holds' = holds := funext fun n => propext (heq n)
  rw [hfun]
  exact h

end

/-! ## sessions -/

/-- the registered sessions are open, and only their slots are active -/
structure Registered (heap : List WorkerSharedMemorySession) (sessions : List (String × Nat))
    (retired : List Nat) : Prop where
  opened : ∀ e ∈ sessions, ∃ s, heap[e.2]? = some s ∧ s.closed = false
  names : (sessions.map Prod.fst).Nodup
  objects : (sessions.map Prod.snd).Nodup
  retired : ∀ o ∈ retired, o ∉ sessions.map Prod.snd
  live : ∀ o i g, heapActive heap o i = some g → o ∈ sessions.map Prod.snd

theorem activeCount_eq_zero_iff (s : WorkerSharedMemorySession) :
    s.activeCount = 0 ↔ ∀ i, s.activeAt i = none := by
  unfold WorkerSharedMemorySession.activeCount WorkerSharedMemorySession.activeAt
  rw [List.countP_eq_zero]
  constructor
  · intro h i
    cases hs : s.slots[i]? with
    | none => rfl
    | some slot => simpa using h slot (List.mem_of_getElem? hs)
  · intro h slot hmem
    obtain ⟨i, hi⟩ := List.mem_iff_getElem?.mp hmem
    have hnone := h i
    rw [hi] at hnone
    simpa using hnone

section
variable {heap : List WorkerSharedMemorySession} {sessions : List (String × Nat)}
  {retired : List Nat} {o : Nat} {s s' : WorkerSharedMemorySession}

theorem Registered.isOpen (h : Registered heap sessions retired)
    (ho : o ∈ sessions.map Prod.snd) : ∀ s, heap[o]? = some s → s.closed = false := by
  intro s hs
  obtain ⟨e, he, rfl⟩ := List.mem_map.mp ho
  obtain ⟨s', hs', hc⟩ := h.opened e he
  rw [hs] at hs'
  cases hs'
  exact hc

/-- a change of a session that closes nothing and makes slots of registered sessions active -/
theorem Registered.set (h : Registered heap sessions retired) (ho : heap[o]? = some s)
    (hc : s'.closed = s.closed)
    (hlive : ∀ o' i g, heapActive (heap.set o s') o' i = some g →
      o' ∈ sessions.map Prod.snd) : Registered (heap.set o s') sessions retired := by
  refine ⟨fun e he => ?_, h.names, h.objects, h.retired, hlive⟩
  have hlt : o < heap.length := (List.getElem?_eq_some_iff.mp ho).1
  obtain ⟨x, hx, hclosed⟩ := h.opened e he
  by_cases heq : o = e.2
  · rw [← heq] at hx ⊢
    rw [ho] at hx
    cases hx
    exact ⟨s', List.getElem?_set_self hlt, hc.trans hclosed⟩
  · exact ⟨x, by rw [List.getElem?_set_ne heq, hx], hclosed⟩

/-- a session that is not registered is closed -/
theorem Registered.close (h : Registered heap sessions retired) (ho : heap[o]? = some s)
    (hout : o ∉ sessions.map Prod.snd) : s.close = .ok { s with closed := true } ∧
      Registered (heap.set o { s with closed := true }) sessions retired ∧
      ∀ o' i, heapActive (heap.set o { s with closed := true }) o' i = heapActive heap o' i ∧
        heapLast (heap.set o { s with closed := true }) o' i = heapLast heap o' i := by
  have hlt : o < heap.length := (List.getElem?_eq_some_iff.mp ho).1
  have hidle : s.activeCount = 0 := by
    rw [activeCount_eq_zero_iff]
    intro i
    cases ha : s.activeAt i with
    | none => rfl
    | some g => exact absurd (h.live o i g ((heapActive_of ho i).trans ha)) hout
  have hsame : ∀ o' i, heapActive (heap.set o { s with closed := true }) o' i
        = heapActive heap o' i ∧
      heapLast (heap.set o { s with closed := true }) o' i = heapLast heap o' i := by
    intro o' i
    by_cases heq : o = o'
    · subst heq
      have hget : (heap.set o { s with closed := true })[o]? = some { s with closed := true } :=
        List.getElem?_set_self hlt
      rw [heapActive_of hget, heapLast_of hget, heapActive_of ho, heapLast_of ho]
      exact ⟨rfl, rfl⟩
    · unfold heapActive heapLast
      rw [List.getElem?_set_ne heq]
      exact ⟨rfl, rfl⟩
  refine ⟨?_, ⟨fun e he => ?_, h.names, h.objects, h.retired, fun o' i g ha => ?_⟩, hsame⟩
  · unfold WorkerSharedMemorySession.close
    cases hc : s.closed with
    | true =>
      rw [if_pos rfl]
      obtain ⟨id, slots, closed, history⟩ := s
      cases hc
      rfl
    | false => simp [hidle]
  · obtain ⟨x, hx, hclosed⟩ := h.opened e he
    have hne : o ≠ e.2 := by
      rintro rfl
      exact hout (List.mem_map_of_mem he)
    exact ⟨x, by rw [List.getElem?_set_ne hne, hx], hclosed⟩
  · rw [(hsame o' i).1] at ha
    exact h.live o' i g ha

/-- a new session is registered -/
theorem Registered.append (h : Registered heap sessions retired) {sessionId : String}
    (hnew : sessionId ∉ sessions.map Prod.fst) (hretired : ∀ o ∈ retired, o < heap.length)
    (slotCount : Nat) : Registered (heap ++ [.new sessionId slotCount])
      (sessions ++ [(sessionId, heap.length)]) retired := by
  have hlt : ∀ o ∈ sessions.map Prod.snd, o < heap.length := by
    intro o ho
    obtain ⟨e, he, rfl⟩ := List.mem_map.mp ho
    obtain ⟨s, hs, _⟩ := h.opened e he
    exact (List.getElem?_eq_some_iff.mp hs).1
  refine ⟨fun e he => ?_, ?_, ?_, fun o ho => ?_, fun o i g ha => ?_⟩
  · rcases List.mem_append.mp he with he | he
    · obtain ⟨s, hs, hc⟩ := h.opened e he
      exact ⟨s, by rw [List.getElem?_append_left (List.getElem?_eq_some_iff.mp hs).1, hs], hc⟩
    · rw [List.mem_singleton.mp he]
      exact ⟨_, List.getElem?_concat_length, rfl⟩
  · rw [List.map_append, List.map_singleton, List.nodup_append_comm]
    exact List.nodup_cons.mpr ⟨hnew, h.names⟩
  · rw [List.map_append, List.map_singleton, List.nodup_append_comm]
    exact List.nodup_cons.mpr ⟨fun hmem => Nat.lt_irrefl _ (hlt _ hmem), h.objects⟩
  · rw [List.map_append, List.mem_append, not_or]
    refine ⟨h.retired o ho, ?_⟩
    intro hmem
    exact Nat.ne_of_lt (hretired o ho) (List.mem_singleton.mp hmem)
  · rw [(heap_append heap sessionId slotCount o i).1] at ha
    rw [List.map_append]
    exact List.mem_append_left _ (h.live o i g ha)

/-- an idle session leaves the registry -/
theorem Registered.pop (h : Registered heap sessions retired) {sessionId : String}
    (hlookup : sessions.lookup sessionId = some o) (ho : heap[o]? = some s)
    (hidle : s.activeCount = 0) :
    Registered heap (Assoc.erase sessions sessionId) (o :: retired) := by
  have hmem := Assoc.mem_of_lookup hlookup
  have hsub : ∀ o' ∈ (Assoc.erase sessions sessionId).map Prod.snd,
      o' ∈ sessions.map Prod.snd :=
    fun o' ho' => ((Assoc.erase_sublist sessions sessionId).map Prod.snd).subset ho'
  refine ⟨fun e he => h.opened e (Assoc.mem_erase.mp he).1, Assoc.nodup_erase h.names _,
    h.objects.sublist ((Assoc.erase_sublist sessions sessionId).map Prod.snd), ?_, ?_⟩
  · intro o' ho'
    rcases List.mem_cons.mp ho' with rfl | ho'
    · intro hin
      obtain ⟨e, he, heq⟩ := List.mem_map.mp hin
      obtain ⟨he, hne⟩ := Assoc.mem_erase.mp he
      have hsame := List.inj_on_of_nodup_map h.objects he hmem heq
      rw [hsame] at hne
      exact hne rfl
    · exact fun hin => h.retired o' ho' (hsub o' hin)
  · intro o' i g ha
    obtain ⟨e, he, rfl⟩ := List.mem_map.mp (h.live o' i g ha)
    refine List.mem_map_of_mem (Assoc.mem_erase.mpr ⟨he, ?_⟩)
    intro hname
    have hsame : e.2 = o := by
      have hvalue := Assoc.lookup_of_mem h.names he
      rw [hname, hlookup] at hvalue
      exact (Option.some.inj hvalue).symm
    rw [hsame, heapActive_of ho, (activeCount_eq_zero_iff s).mp hidle i] at ha
    cases ha

end

/-! ## execution -/

/-- where the items are in execution, their responses, and the outputs that stand in the slots -/
structure Executed (items : List ShmItem) (heap : List WorkerSharedMemorySession)
    (waiting active : List Nat) (releases : List Nat) (outputs : Nat × Nat → Option Nat) :
    Prop where
  fresh : ∀ (n : Nat) (item : ShmItem), items[n]? = some item → n ∈ waiting →
    item.execution = .notTaken
  working : ∀ (n : Nat) (item : ShmItem), items[n]? = some item →
    item.execution = .running ∨ item.execution = .copied → n ∈ active
  taken : ∀ (n : Nat) (item : ShmItem), items[n]? = some item → n ∈ active →
    item.execution ≠ .notTaken
  pending : ∀ n ∈ releases, n ∈ active
  ending : ∀ (n : Nat) (item : ShmItem), items[n]? = some item → n ∈ active →
    (n ∈ releases ↔ item.execution = .finished)
  once : releases.Nodup
  answered : ∀ (n : Nat) (item : ShmItem), items[n]? = some item → item.response ≠ none →
    item.execution = .finished
  copied : ∀ (n : Nat) (item : ShmItem), items[n]? = some item → item.execution = .copied →
    outputs (item.session, item.slotIndex) = some n
  success : ∀ (n : Nat) (item : ShmItem) (g : Nat), items[n]? = some item →
    item.response = some (.success g) → g = item.generation ∧
      (heapLast heap item.session item.slotIndex = item.generation →
      outputs (item.session, item.slotIndex) = some n)

section
variable {items : List ShmItem} {heap heap' : List WorkerSharedMemorySession}
  {waiting active releases : List Nat} {outputs : Nat × Nat → Option Nat} {n : Nat}
  {item item' : ShmItem}

/-- no slot goes back to an earlier generation -/
theorem Executed.raise (h : Executed items heap waiting active releases outputs)
    (hknown : ∀ (n : Nat) (item : ShmItem), items[n]? = some item →
      item.generation ≤ heapLast heap item.session item.slotIndex)
    (hlast : ∀ o i, heapLast heap o i ≤ heapLast heap' o i) :
    Executed items heap' waiting active releases outputs := by
  refine ⟨h.fresh, h.working, h.taken, h.pending, h.ending, h.once, h.answered, h.copied, ?_⟩
  intro n item g hn hr
  obtain ⟨hg, hout⟩ := h.success n item g hn hr
  refine ⟨hg, fun heq => hout ?_⟩
  have h1 := hknown n item hn
  have h2 := hlast item.session item.slotIndex
  omega

/-- a change of the handler or of the cancellation of an item -/
theorem Executed.setItem (h : Executed items heap waiting active releases outputs)
    (hn : items[n]? = some item) (hkey : item'.key = item.key)
    (hexecution : item'.execution = item.execution) (hresponse : item'.response = item.response) :
    Executed (items.set n item') heap waiting active releases outputs := by
  have hback : ∀ (m : Nat) (x : ShmItem), (items.set n item')[m]? = some x →
      ∃ y : ShmItem, items[m]? = some y ∧ x.key = y.key ∧ x.execution = y.execution ∧
        x.response = y.response := by
    intro m x hx
    rcases Ledger.getElem?_set_cases hx with ⟨rfl, rfl⟩ | ⟨_, hold⟩
    · exact ⟨item, hn, hkey, hexecution, hresponse⟩
    · exact ⟨x, hold, rfl, rfl, rfl⟩
  refine ⟨fun m x hx hw => ?_, fun m x hx hr => ?_, fun m x hx ha => ?_, h.pending,
    fun m x hx ha => ?_, h.once,
    fun m x hx hr => ?_, fun m x hx hc => ?_, fun m x g hx hr => ?_⟩
  all_goals
    obtain ⟨y, hy, hkey', hexec, hresp⟩ := hback m x hx
    have hs : x.session = y.session := congrArg (·.1) hkey'
    have hi : x.slotIndex = y.slotIndex := congrArg (·.2.1) hkey'
    have hg : x.generation = y.generation := congrArg (·.2.2) hkey'
  · rw [hexec]
    exact h.fresh m y hy hw
  · rw [hexec] at hr
    exact h.working m y hy hr
  · rw [hexec]
    exact h.taken m y hy ha
  · rw [hexec]
    exact h.ending m y hy ha
  · rw [hresp] at hr
    rw [hexec]
    exact h.answered m y hy hr
  · rw [hexec] at hc
    rw [hs, hi]
    exact h.copied m y hy hc
  · rw [hresp] at hr
    rw [hs, hi, hg]
    exact h.success m y g hy hr

/-- a new item -/
theorem Executed.append (h : Executed items heap waiting active releases outputs)
    (hbound : ∀ m ∈ active, m < items.length) (hnew : item.execution = .notTaken)
    (hresponse : item.response = none) :
    Executed (items ++ [item]) heap (waiting ++ [items.length]) active releases outputs := by
  have hout : items.length ∉ active := fun hmem => Nat.lt_irrefl _ (hbound _ hmem)
  refine ⟨fun m x hx hw => ?_, fun m x hx hr => ?_, fun m x hx ha => ?_, h.pending,
    fun m x hx ha => ?_, h.once,
    fun m x hx hr => ?_, fun m x hx hc => ?_, fun m x g hx hr => ?_⟩
  all_goals rcases Ledger.getElem?_concat_cases hx with ⟨rfl, rfl⟩ | ⟨hm, hold⟩
  · exact hnew
  · rcases List.mem_append.mp hw with hw | hw
    · exact h.fresh m x hold hw
    · exact absurd (List.mem_singleton.mp hw) (Nat.ne_of_lt hm)
  · rw [hnew] at hr
    rcases hr with hr | hr <;> cases hr
  · exact h.working m x hold hr
  · exact absurd ha hout
  · exact h.taken m x hold ha
  · exact absurd ha hout
  · exact h.ending m x hold ha
  · exact absurd hresponse hr
  · exact h.answered m x hold hr
  · rw [hnew] at hc
    cases hc
  · exact h.copied m x hold hc
  · rw [hresponse] at hr
    cases hr
  · exact h.success m x g hold hr

/-- items that no longer wait -/
theorem Executed.unwait (h : Executed items heap waiting active releases outputs)
    {waiting' : List Nat} (hsub : ∀ m ∈ waiting', m ∈ waiting) :
    Executed items heap waiting' active releases outputs :=
  ⟨fun m x hx hw => h.fresh m x hx (hsub m hw), h.working, h.taken, h.pending, h.ending, h.once,
    h.answered, h.copied, h.success⟩

/-- an item is taken -/
theorem Executed.take (h : Executed items heap waiting active releases outputs)
    (hn : items[n]? = some item) (hw : n ∈ waiting) {waiting' active' : List Nat}
    (hsub : ∀ m ∈ waiting', m ∈ waiting ∧ m ≠ n)
    (hactive : ∀ m, m ∈ active' ↔ m = n ∨ m ∈ active) (hfresh : n ∉ active) :
    Executed (items.set n { item with execution := .running }) heap waiting' active' releases
      outputs := by
  have hnew := h.fresh n item hn hw
  have hnone : item.response = none := by
    by_contra hr
    rw [h.answered n item hn hr] at hnew
    cases hnew
  refine ⟨fun m x hx hw => ?_, fun m x hx hr => ?_, fun m x hx ha => ?_,
    fun m hm => (hactive m).mpr (.inr (h.pending m hm)), fun m x hx ha => ?_, h.once,
    fun m x hx hr => ?_, fun m x hx hc => ?_, fun m x g hx hr => ?_⟩
  all_goals rcases Ledger.getElem?_set_cases hx with ⟨rfl, rfl⟩ | ⟨hm, hold⟩
  · exact absurd rfl (hsub _ hw).2
  · exact h.fresh m x hold (hsub m hw).1
  · exact (hactive _).mpr (.inl rfl)
  · exact (hactive m).mpr (.inr (h.working m x hold hr))
  · simp
  · exact h.taken m x hold (((hactive m).mp ha).resolve_left (Ne.symm hm))
  · simp only [reduceCtorEq, iff_false]
    exact fun hin => hfresh (h.pending _ hin)
  · exact h.ending m x hold (((hactive m).mp ha).resolve_left (Ne.symm hm))
  · exact absurd hnone hr
  · exact h.answered m x hold hr
  · cases hc
  · exact h.copied m x hold hc
  · rw [hnone] at hr
    cases hr
  · exact h.success m x g hold hr

/-- an item writes its output into its slot, which no other item that waits for a response uses -/
theorem Executed.copy (h : Executed items heap waiting active releases outputs)
    {holds : Nat → Prop} (howned : Owned heap (keyAt items) holds) (hheld : ∀ m ∈ active, holds m)
    (hn : items[n]? = some item) (hwork : item.execution = .running ∨ item.execution = .copied) :
    Executed (items.set n { item with execution := .copied }) heap waiting active releases
      (Function.update outputs (item.session, item.slotIndex) (some n)) := by
  have hactive := h.working n item hn hwork
  have hnone : item.response = none := by
    by_contra hr
    rw [h.answered n item hn hr] at hwork
    rcases hwork with hwork | hwork <;> cases hwork
  have hnotWaiting : n ∉ waiting := by
    intro hw
    rw [h.fresh n item hn hw] at hwork
    rcases hwork with hwork | hwork <;> cases hwork
  have hslot : heapActive heap item.session item.slotIndex = some item.generation := by
    obtain ⟨o, i, g, hk, ha⟩ := howned.held n (hheld n hactive)
    rw [keyAt_of hn] at hk
    cases hk
    exact ha
  -- an item of the same slot that is active or of the last generation is the item itself
  have hother : ∀ (m : Nat) (x : ShmItem), items[m]? = some x →
      (item.session, item.slotIndex) = (x.session, x.slotIndex) →
      heapActive heap x.session x.slotIndex = some x.generation → n = m := by
    intro m x hx hsame ha
    obtain ⟨hs, hi⟩ := Prod.mk.inj hsame
    rw [← hs, ← hi, hslot] at ha
    refine howned.distinct n m item.key (keyAt_of hn) ?_
    rw [keyAt_of hx]
    unfold ShmItem.key
    rw [hs, hi, Option.some.inj ha]
  refine ⟨fun m x hx hw => ?_, fun m x hx hr => ?_, fun m x hx ha => ?_, h.pending,
    fun m x hx ha => ?_, h.once, fun m x hx hr => ?_, fun m x hx hc => ?_,
    fun m x g hx hr => ?_⟩
  all_goals rcases Ledger.getElem?_set_cases hx with ⟨rfl, rfl⟩ | ⟨hm, hold⟩
  · exact absurd hw hnotWaiting
  · exact h.fresh m x hold hw
  · exact hactive
  · exact h.working m x hold hr
  · simp
  · exact h.taken m x hold ha
  · simp only [reduceCtorEq, iff_false]
    intro hin
    rw [(h.ending _ item hn hactive).mp hin] at hwork
    rcases hwork with hwork | hwork <;> cases hwork
  · exact h.ending m x hold ha
  · exact absurd hnone hr
  · exact h.answered m x hold hr
  · exact Function.update_self _ _ _
  · rw [Function.update_of_ne ?_]
    · exact h.copied m x hold hc
    · intro hsame
      obtain ⟨o, i, g, hk, ha⟩ := howned.held m (hheld m (h.working m x hold (.inr hc)))
      rw [keyAt_of hold] at hk
      cases hk
      exact hm (hother m x hold hsame.symm ha)
  · rw [hnone] at hr
    cases hr
  · obtain ⟨hg, hout⟩ := h.success m x g hold hr
    refine ⟨hg, fun hlast => ?_⟩
    rw [Function.update_of_ne ?_]
    · exact hout hlast
    · intro hsame
      refine hm (hother m x hold hsame.symm ?_)
      obtain ⟨hs, hi⟩ := Prod.mk.inj hsame
      have hgen : item.generation = heapLast heap item.session item.slotIndex := by
        unfold heapActive at hslot
        obtain ⟨s, ho, hs⟩ := Option.bind_eq_some_iff.mp hslot
        rw [heapLast_of ho]
        exact (howned.balanced s (List.mem_of_getElem? ho)).active _ _ hs
      rw [hs, hi, hslot, hgen, ← hs, ← hi, hlast]

/-- an item gets its response and waits for its release -/
theorem Executed.finish (h : Executed items heap waiting active releases outputs)
    (hn : items[n]? = some item) (hwork : item.execution = .running ∨ item.execution = .copied)
    (hkey : item'.key = item.key) (hexecution : item'.execution = .finished)
    (hresponse : ∀ g, item'.response = some (.success g) →
      g = item.generation ∧ item.execution = .copied) :
    Executed (items.set n item') heap waiting active (releases ++ [n]) outputs := by
  have hactive := h.working n item hn hwork
  have hs : item'.session = item.session := congrArg (·.1) hkey
  have hi : item'.slotIndex = item.slotIndex := congrArg (·.2.1) hkey
  have hg : item'.generation = item.generation := congrArg (·.2.2) hkey
  have hnotWaiting : n ∉ waiting := by
    intro hw
    rw [h.fresh n item hn hw] at hwork
    rcases hwork with hwork | hwork <;> cases hwork
  have hout : n ∉ releases := by
    intro hin
    rw [(h.ending n item hn hactive).mp hin] at hwork
    rcases hwork with hwork | hwork <;> cases hwork
  refine ⟨fun m x hx hw => ?_, fun m x hx hr => ?_, fun m x hx ha => ?_, fun m hm => ?_,
    fun m x hx ha => ?_, ?_, fun m x hx hr => ?_, fun m x hx hc => ?_, fun m x g hx hr => ?_⟩
  case refine_4 =>
    rcases List.mem_append.mp hm with hm | hm
    · exact h.pending m hm
    · rw [List.mem_singleton.mp hm]
      exact hactive
  case refine_6 =>
    rw [List.nodup_append_comm]
    exact List.nodup_cons.mpr ⟨hout, h.once⟩
  all_goals rcases Ledger.getElem?_set_cases hx with ⟨rfl, rfl⟩ | ⟨hm, hold⟩
  · exact absurd hw hnotWaiting
  · exact h.fresh m x hold hw
  · exact hactive
  · exact h.working m x hold hr
  · rw [hexecution]
    simp
  · exact h.taken m x hold ha
  · simp [hexecution]
  · rw [List.mem_append, List.mem_singleton, or_iff_left (Ne.symm hm)]
    exact h.ending m x hold ha
  · exact hexecution
  · exact h.answered m x hold hr
  · rw [hexecution] at hc
    cases hc
  · exact h.copied m x hold hc
  · obtain ⟨hgen, hcopied⟩ := hresponse g hr
    rw [hs, hi, hg]
    exact ⟨hgen, fun _ => h.copied _ item hn hcopied⟩
  · exact h.success m x g hold hr

/-- an item leaves execution -/
theorem Executed.leave (h : Executed items heap waiting active releases outputs)
    {active' : List Nat} (hactive : ∀ m, m ∈ active' ↔ m ∈ active ∧ m ≠ n)
    (hn : n ∈ releases) (hitem : items[n]? = some item) :
    Executed items heap waiting active' (releases.erase n) outputs := by
  have hend := (h.ending n item hitem (h.pending n hn)).mp hn
  refine ⟨h.fresh, fun m x hx hr => ?_, fun m x hx ha => h.taken m x hx ((hactive m).mp ha).1,
    fun m hm => ?_, fun m x hx ha => ?_, h.once.erase n, h.answered, h.copied, h.success⟩
  · refine (hactive m).mpr ⟨h.working m x hx hr, ?_⟩
    rintro rfl
    rw [hitem] at hx
    cases hx
    rw [hend] at hr
    rcases hr with hr | hr <;> cases hr
  · obtain ⟨hne, hin⟩ := (h.once.mem_erase_iff).mp hm
    exact (hactive m).mpr ⟨h.pending m hin, hne⟩
  · obtain ⟨ha, hne⟩ := (hactive m).mp ha
    rw [h.once.mem_erase_iff, and_iff_right hne]
    exact h.ending m x hx ha

end

/-! ## the invariant -/

/-- the sessions that wait for the close of the receiver -/
def shutdownRest : Option SessionTask → List Nat
  | some (.shutdown rest) => rest
  | _ => []

def itemsOf (entries : List Entry) : List Nat := entries.map Entry.item

/-- the active slots belong to the items that the queue tracks and to those of `extra`, which have
left it and still have to give their slots back -/
structure Inv (r : ShmReceiver) (active : List Entry) (extra : List Nat) : Prop where
  tracked : Tracked r.queue active
  disjoint : (itemsOf (r.queue.waiting ++ active) ++ extra).Nodup
  owned : Owned r.heap (keyAt r.items)
    (fun n => n ∈ itemsOf (r.queue.waiting ++ active) ++ extra)
  executed : Executed r.items r.heap (itemsOf r.queue.waiting) (itemsOf active) r.releases
    r.outputs
  registered : Registered r.heap r.sessions (r.closeJobs ++ shutdownRest r.sessionTask)
  bounded : ∀ o ∈ r.closeJobs ++ shutdownRest r.sessionTask, o < r.heap.length
  opening : ∀ sessionId, r.sessionTask = some (.opening sessionId) →
    sessionId ∉ r.sessions.map Prod.fst
  closing : r.closePhase ≠ .serving → r.closePhase ≠ .stopping →
    r.queue.closing = true ∧ r.queue.waiting = []
  unclosed : r.closePhase = .serving ∨ r.closePhase = .stopping → r.queue.closing = false
  idle : r.closePhase = .activeEmpty ∨ r.closePhase = .closingSessions ∨ r.closePhase = .closed →
    active = []
  shutdown : ∀ rest, r.sessionTask = some (.shutdown rest) → r.closePhase = .closingSessions
  faultless : r.faults = []

theorem Inv.new (spec : WorkerEndpointConfig) (maxActiveBatches maxPendingBatches : Nat)
    (h : 0 < maxPendingBatches) : Inv (.new spec maxActiveBatches maxPendingBatches h) [] [] := by
  refine ⟨tracked_new _ _ h, List.nodup_nil, ⟨?_, ?_, ?_, ?_, ?_⟩,
    ⟨?_, ?_, ?_, ?_, ?_, ?_, ?_, ?_, ?_⟩,
    ⟨?_, List.nodup_nil, List.nodup_nil, ?_, ?_⟩, ?_, ?_, ?_, ?_, fun _ => rfl, ?_, rfl⟩
  all_goals simp [ShmReceiver.new, heapActive, keyAt, itemsOf, ReceiverQueue.new, shutdownRest]

section
variable {r : ShmReceiver} {active : List Entry} {extra : List Nat} {n : Nat} {item : ShmItem}

theorem keyAt_some {items : List ShmItem} {k : Nat × Nat × Nat} (h : keyAt items n = some k) :
    ∃ item, items[n]? = some item ∧ item.key = k := Option.map_eq_some_iff.mp h

theorem Inv.known (h : Inv r active extra) (m : Nat) (x : ShmItem) (hx : r.items[m]? = some x) :
    x.generation ≤ heapLast r.heap x.session x.slotIndex :=
  h.owned.known (keyAt_of hx)

/-- an item that holds its slot is known, and its session is registered -/
theorem Inv.holder (h : Inv r active extra)
    (hn : n ∈ itemsOf (r.queue.waiting ++ active) ++ extra) : ∃ item, r.items[n]? = some item ∧
      heapActive r.heap item.session item.slotIndex = some item.generation ∧
      item.session ∈ r.sessions.map Prod.snd := by
  obtain ⟨o, i, g, hk, ha⟩ := h.owned.held n hn
  obtain ⟨item, hitem, hkey⟩ := keyAt_some hk
  cases hkey
  exact ⟨item, hitem, ha, h.registered.live _ _ _ ha⟩

/-- as long as the holders stay, only slots of registered sessions are active -/
theorem Inv.live (h : Inv r active extra) {heap : List WorkerSharedMemorySession}
    {holds : Nat → Prop} (howned : Owned heap (keyAt r.items) holds)
    (hsub : ∀ m, holds m → m ∈ itemsOf (r.queue.waiting ++ active) ++ extra) (o i g : Nat)
    (ha : heapActive heap o i = some g) : o ∈ r.sessions.map Prod.snd := by
  obtain ⟨m, hm, hk⟩ := howned.owner o i g ha
  obtain ⟨x, hx, hkey⟩ := keyAt_some hk
  cases hkey
  obtain ⟨x', hx', _, hin⟩ := h.holder (hsub m hm)
  rw [hx] at hx'
  cases hx'
  exact hin

/-- `_release_slot` raises nothing -/
theorem Inv.releaseSlot (h : Inv r active (n :: extra)) (hn : r.items[n]? = some item) :
    Inv (r.releaseSlot item.session item.slotIndex item.generation) active extra := by
  have hhold : n ∈ itemsOf (r.queue.waiting ++ active) ++ n :: extra :=
    List.mem_append_right _ List.mem_cons_self
  obtain ⟨item', hitem', ha, hsession⟩ := h.holder hhold
  rw [hn] at hitem'
  cases hitem'
  obtain ⟨s, s', ho, hrelease, hlast, howned⟩ :=
    h.owned.release hhold (keyAt_of hn) (h.registered.isOpen hsession)
  have hperm : (itemsOf (r.queue.waiting ++ active) ++ n :: extra).Perm
      (n :: (itemsOf (r.queue.waiting ++ active) ++ extra)) := List.perm_middle
  obtain ⟨hout, hnodup⟩ := List.nodup_cons.mp ((hperm.nodup_iff).mp h.disjoint)
  have howned : Owned (r.heap.set item.session s') (keyAt r.items)
      (fun m => m ∈ itemsOf (r.queue.waiting ++ active) ++ extra) := by
    refine howned.holders fun m => ?_
    rw [hperm.mem_iff, List.mem_cons]
    constructor
    · intro hm
      exact ⟨.inr hm, fun heq => hout (heq ▸ hm)⟩
    · rintro ⟨rfl | hm, hne⟩
      · exact absurd rfl hne
      · exact hm
  have hslot : r.releaseSlot item.session item.slotIndex item.generation
      = { r with heap := r.heap.set item.session s' } := by
    unfold ShmReceiver.releaseSlot
    rw [ho]
    simp only
    rw [hrelease]
  rw [hslot]
  refine ⟨h.tracked, hnodup, howned, h.executed.raise h.known fun o i => (hlast o i).ge, ?_, ?_,
    h.opening, h.closing, h.unclosed, h.idle, h.shutdown, h.faultless⟩
  · obtain ⟨_, _, _, _, heq⟩ := WorkerSharedMemorySession.release_cases hrelease
    refine h.registered.set ho (by rw [heq]) ?_
    exact h.live howned fun m hm => hperm.mem_iff.mpr (List.mem_cons_of_mem _ hm)
  · intro o ho'
    show o < (r.heap.set item.session s').length
    rw [List.length_set]
    exact h.bounded o ho'

theorem Inv.setItem (h : Inv r active extra) (hn : r.items[n]? = some item) {t : ShmItem}
    (hkey : t.key = item.key) (hexecution : t.execution = item.execution)
    (hresponse : t.response = item.response) : Inv (r.setItem n t) active extra := by
  have howned := h.owned
  rw [← keyAt_set hn hkey] at howned
  exact ⟨h.tracked, h.disjoint, howned, h.executed.setItem hn hkey hexecution hresponse,
    h.registered, h.bounded, h.opening, h.closing, h.unclosed, h.idle, h.shutdown, h.faultless⟩

/-- a claim that ends with its slot released -/
theorem Inv.withdrawn (h : Inv r active extra) {o i g : Nat} {s : WorkerSharedMemorySession}
    {slot : SlotState} (ho : r.heap[o]? = some s) (hc : s.closed = false)
    (hs : s.slots[i]? = some slot) (ha : slot.active = none) (hg : slot.last < g) :
    Inv { r with heap := r.heap.set o (s.withdrawn i g) } active extra := by
  have howned := h.owned.withdrawn ho hc hs ha hg
  refine ⟨h.tracked, h.disjoint, howned, h.executed.raise h.known ?_,
    h.registered.set ho rfl (h.live howned fun m hm => hm), ?_, h.opening, h.closing, h.unclosed,
    h.idle, h.shutdown,
    h.faultless⟩
  · intro o' i'
    refine le_of_le_of_eq ?_
      (heap_set ho hs ⟨none, g⟩ (s.history ++ [.claimed i g, .released i g]) o' i').2.symm
    split_ifs with heq
    · obtain ⟨rfl, rfl⟩ := heq
      rw [heapLast_of ho, s.lastAt_of hs]
      exact Nat.le_of_lt hg
    · exact Nat.le_refl _
  · intro o' ho'
    show o' < (r.heap.set o (s.withdrawn i g)).length
    rw [List.length_set]
    exact h.bounded o' ho'

theorem keyAt_append (items : List ShmItem) (item : ShmItem) :
    keyAt (items ++ [item]) = Function.update (keyAt items) items.length (some item.key) := by
  funext m
  by_cases hm : m = items.length
  · subst hm
    rw [Function.update_self, keyAt_of List.getElem?_concat_length]
  · rw [Function.update_of_ne hm]
    unfold keyAt
    rcases Nat.lt_or_gt_of_ne hm with hlt | hlt
    · rw [List.getElem?_append_left hlt]
    · rw [List.getElem?_eq_none_iff.mpr (Nat.le_of_lt hlt),
        List.getElem?_eq_none_iff.mpr (by simpa using hlt)]

theorem itemsOf_append (entries entries' : List Entry) :
    itemsOf (entries ++ entries') = itemsOf entries ++ itemsOf entries' := List.map_append

/-- every item of the queue is known -/
theorem Inv.bound (h : Inv r active extra)
    (hn : n ∈ itemsOf (r.queue.waiting ++ active) ++ extra) : n < r.items.length := by
  obtain ⟨item, hitem, _⟩ := h.holder hn
  exact (List.getElem?_eq_some_iff.mp hitem).1

theorem Inv.unknown (h : Inv r active extra) : r.queue.entries[r.items.length]? = none := by
  cases he : r.queue.entries[r.items.length]? with
  | none => rfl
  | some entry =>
    obtain ⟨hmem, hitem⟩ := (h.tracked.entries _ entry).mp he
    have hin : r.items.length ∈ itemsOf (r.queue.waiting ++ active) ++ extra :=
      List.mem_append_left _ (List.mem_map.mpr ⟨entry, hmem, hitem⟩)
    exact absurd (h.bound hin) (Nat.lt_irrefl _)

/-- the claim of an admitted item -/
theorem Inv.admitted (h : Inv r active []) {o i g : Nat} {s : WorkerSharedMemorySession}
    {slot : SlotState} (ho : r.heap[o]? = some s) (hreg : o ∈ r.sessions.map Prod.snd)
    (hserving : r.closePhase = .serving) (hs : s.slots[i]? = some slot) (ha : slot.active = none)
    (hg : slot.last < g) {entry : Entry} (hentry : entry.item = r.items.length)
    (hstate : entry.state = .waiting) (tokenCount : Nat) :
    Inv { r with
      heap := r.heap.set o (s.own i g)
      queue := { r.queue with
        waiting := r.queue.waiting ++ [entry]
        entries := r.queue.entries.insert entry.item entry
        retainedBytes := r.queue.retainedBytes + entry.retainedBytes
        admittedExperts := Counter.addAll r.queue.admittedExperts entry.keys }
      items := r.items ++ [⟨o, i, g, tokenCount, false, none, .awaiting, .notTaken⟩] }
      active [] := by
  have hnone : keyAt r.items r.items.length = none := by
    unfold keyAt
    rw [List.getElem?_eq_none_iff.mpr (Nat.le_refl _)]
    rfl
  have howned := h.owned.own ho hs ha hg hnone
  have hperm : (itemsOf ((r.queue.waiting ++ [entry]) ++ active) ++ []).Perm
      (r.items.length :: (itemsOf (r.queue.waiting ++ active) ++ [])) := by
    rw [List.append_assoc, List.append_nil, List.append_nil, itemsOf_append, itemsOf_append,
      itemsOf_append, ← hentry]
    exact List.perm_middle
  have hfresh : r.items.length ∉ itemsOf (r.queue.waiting ++ active) ++ [] :=
    fun hmem => Nat.lt_irrefl _ (h.bound hmem)
  have hbound : ∀ m ∈ itemsOf active, m < r.items.length := by
    intro m hm
    refine h.bound (List.mem_append_left _ ?_)
    rw [itemsOf_append]
    exact List.mem_append_right _ hm
  have hlast : ∀ o' i', heapLast r.heap o' i' ≤ heapLast (r.heap.set o (s.own i g)) o' i' := by
    intro o' i'
    refine le_of_le_of_eq ?_
      (heap_set ho hs ⟨some g, g⟩ (s.history ++ [.claimed i g]) o' i').2.symm
    split_ifs with heq
    · obtain ⟨rfl, rfl⟩ := heq
      rw [heapLast_of ho, s.lastAt_of hs]
      exact Nat.le_of_lt hg
    · exact Nat.le_refl _
  have hopen : r.queue.entries[entry.item]? = none := by rw [hentry, h.unknown]
  refine ⟨h.tracked.admitBatch hopen hstate, (hperm.nodup_iff).mpr
      (List.nodup_cons.mpr ⟨hfresh, h.disjoint⟩), ?_, ?_, h.registered.set ho rfl ?_, ?_, h.opening,
    fun hne => absurd hserving hne, h.unclosed, h.idle, h.shutdown, h.faultless⟩
  · show Owned _ (keyAt (r.items ++ [_])) _
    rw [keyAt_append]
    refine howned.holders fun m => ?_
    rw [hperm.mem_iff, List.mem_cons, or_comm]
  · have hitems : itemsOf (r.queue.waiting ++ [entry])
        = itemsOf r.queue.waiting ++ [r.items.length] := by
      rw [itemsOf_append, ← hentry]
      rfl
    show Executed _ _ (itemsOf (r.queue.waiting ++ [entry])) _ _ _
    rw [hitems]
    exact (h.executed.raise h.known hlast).append hbound rfl rfl
  · intro o' i' g' hactive
    have hset := (heap_set ho hs ⟨some g, g⟩ (s.history ++ [.claimed i g]) o' i').1
    have hactive := hset.symm.trans hactive
    split_ifs at hactive with heq
    · rw [← heq.1]
      exact hreg
    · exact h.registered.live o' i' g' hactive
  · intro o' ho'
    show o' < (r.heap.set o (s.own i g)).length
    rw [List.length_set]
    exact h.bounded o' ho'

variable {W : Type} [Zero W] [DecidableEq W]

theorem Inv.claimSlot (h : Inv r active []) {o : Nat} (hreg : o ∈ r.sessions.map Prod.snd)
    (hserving : r.closePhase = .serving) (request : ExecuteSlot) (routing : SlotRouting W) :
    Inv (r.claimSlot o request routing) active [] := by
  obtain ⟨e, he, rfl⟩ := List.mem_map.mp hreg
  obtain ⟨s, ho, hc⟩ := h.registered.opened e he
  unfold ShmReceiver.claimSlot
  rw [ho]
  simp only
  rcases s.claim_cases r.spec request routing with
    ⟨error, heq, hkind⟩ | ⟨slot, _, hs, ha, hg, hend⟩
  · rw [heq]
    have hsame : r.heap.set e.2 s = r.heap := by
      obtain ⟨hlt, hget⟩ := List.getElem?_eq_some_iff.mp ho
      rw [← hget, List.set_getElem_self]
    have hchecked : error.kind ≠ .runtimeError := by
      intro hruntime
      rw [hkind hruntime] at hc
      cases hc
    simp only
    rw [if_neg hchecked, hsame]
    exact h
  · rcases hend with ⟨error, hkind, heq⟩ | ⟨distinct, _, heq⟩
    · rw [heq]
      simp only
      rw [if_neg (by rw [hkind]; decide)]
      exact h.withdrawn ho hc hs ha hg
    · rw [heq]
      simp only
      split
      · rename_i error hadmit
        exact absurd h.unknown (ReceiverQueue.admitBatch_error hadmit)
      · rename_i rejection queue hadmit
        rcases ReceiverQueue.admitBatch_cases hadmit with ⟨_, hqueue⟩ | ⟨_, _, hnone, _⟩
        · have hqueue : queue = r.queue := hqueue
          have hlt : e.2 < r.heap.length := (List.getElem?_eq_some_iff.mp ho).1
          unfold ShmReceiver.releaseSlot
          simp only
          rw [List.getElem?_set_self hlt]
          simp only
          rw [WorkerSharedMemorySession.own_release hc hs, hqueue]
          simp only
          rw [List.set_set]
          exact h.withdrawn ho hc hs ha hg
        · cases hnone
      · rename_i queue hadmit
        rcases ReceiverQueue.admitBatch_cases hadmit with ⟨hsome, _⟩ |
          ⟨entry, rfl, _, _, _, _, _, _, rfl⟩
        · cases hsome
        · exact h.admitted ho hreg hserving hs ha hg rfl rfl request.tokenCount

theorem Inv.executeSharedMemory (h : Inv r active []) (payload : Option ExecuteSlot)
    (routing : SlotRouting W) : Inv (r.executeSharedMemory payload routing) active [] := by
  unfold ShmReceiver.executeSharedMemory
  split_ifs with hserving
  · exact h
  · cases payload with
    | none => exact h
    | some payload =>
      simp only
      split
      · exact h
      · rename_i request _
        split
        · exact h
        · rename_i session hlookup
          exact h.claimSlot (List.mem_map_of_mem (Assoc.mem_of_lookup hlookup))
            (not_not.mp hserving) request routing

/-! ## items -/

theorem ShmReceiver.releaseSlot_queue (r : ShmReceiver) (queue : ReceiverQueue) (o i g : Nat) :
    { r with queue }.releaseSlot o i g = { r.releaseSlot o i g with queue } := by
  unfold ShmReceiver.releaseSlot
  simp only
  cases r.heap[o]? with
  | none => rfl
  | some s =>
    simp only
    cases s.release i g <;> rfl

theorem ShmReceiver.queue_releaseSlot (r : ShmReceiver) (o i g : Nat) :
    (r.releaseSlot o i g).queue = r.queue := by
  unfold ShmReceiver.releaseSlot
  split
  · rfl
  · split <;> rfl

/-- a waiting item leaves the queue -/
theorem Inv.cancelWaiting (h : Inv r active extra) {entry : Entry}
    (he : r.queue.entries[n]? = some entry) (hs : entry.state = .waiting) :
    Inv { r with queue := { r.queue with
      waiting := r.queue.waiting.erase entry
      entries := r.queue.entries.erase n
      retainedBytes := r.queue.retainedBytes - entry.retainedBytes
      admittedExperts := Counter.dropAll r.queue.admittedExperts entry.keys } }
      active (n :: extra) := by
  obtain ⟨hmem, hitem⟩ := (h.tracked.entries n entry).mp he
  have hw : entry ∈ r.queue.waiting := by
    rcases List.mem_append.mp hmem with hw | ha
    · exact hw
    · rw [h.tracked.active_state entry ha] at hs
      cases hs
  have hperm : (itemsOf (r.queue.waiting.erase entry ++ active) ++ n :: extra).Perm
      (itemsOf (r.queue.waiting ++ active) ++ extra) := by
    refine List.perm_middle.trans ?_
    rw [← List.cons_append, ← hitem]
    exact (((List.perm_cons_erase hw).append_right active).map Entry.item).symm.append_right extra
  have htracked := h.tracked.cancelWaiting n
  have hcancel : (r.queue.cancelWaiting n).2 = { r.queue with
      waiting := r.queue.waiting.erase entry
      entries := r.queue.entries.erase n
      retainedBytes := r.queue.retainedBytes - entry.retainedBytes
      admittedExperts := Counter.dropAll r.queue.admittedExperts entry.keys } := by
    unfold ReceiverQueue.cancelWaiting
    rw [he]
    simp [hs]
  rw [hcancel] at htracked
  refine ⟨htracked, (hperm.nodup_iff).mpr h.disjoint, h.owned.holders fun m => hperm.mem_iff,
    h.executed.unwait fun m hm => ?_, h.registered, h.bounded, h.opening, fun h1 h2 => ?_,
    h.unclosed, h.idle, h.shutdown, h.faultless⟩
  · obtain ⟨x, hx, rfl⟩ := List.mem_map.mp hm
    exact List.mem_map_of_mem (List.mem_of_mem_erase hx)
  · obtain ⟨hclosing, hempty⟩ := h.closing h1 h2
    refine ⟨hclosing, ?_⟩
    show r.queue.waiting.erase entry = []
    rw [hempty]
    rfl

theorem Inv.cancel (h : Inv r active []) (hn : r.items[n]? = some item) :
    Inv (r.cancel n item) active [] := by
  have hcancelled : Inv (r.setItem n { item with cancelled := true }) active [] :=
    h.setItem hn rfl rfl rfl
  have hlt : n < r.items.length := (List.getElem?_eq_some_iff.mp hn).1
  unfold ShmReceiver.cancel
  simp only
  rcases r.queue.cancelWaiting_cases n with hsame | ⟨entry, he, hs, hleft⟩
  · rw [show (r.setItem n { item with cancelled := true }).queue.cancelWaiting n
      = (false, r.queue) from hsame]
    exact hcancelled
  · rw [show (r.setItem n { item with cancelled := true }).queue.cancelWaiting n = _ from hleft]
    simp only
    have hout := hcancelled.cancelWaiting (n := n) he hs
    have hself : (r.items.set n { item with cancelled := true })[n]? =
        some { item with cancelled := true } := List.getElem?_set_self hlt
    have hreleased := hout.releaseSlot (n := n) hself
    exact hreleased

/-- an item is taken by execution -/
theorem Inv.receive (h : Inv r active []) {entry : Entry} {rest : List Entry}
    (hw : r.queue.waiting = entry :: rest) (hn : r.items[entry.item]? = some item) :
    Inv ({ r with queue := { r.queue with
      waiting := rest
      entries := r.queue.entries.insert entry.item { entry with state := .active }
      retainedBytes := r.queue.retainedBytes - entry.retainedBytes
      activeCount := r.queue.activeCount + 1 } }.setItem entry.item
        { item with execution := .running }) ({ entry with state := .active } :: active) [] := by
  have hperm : (itemsOf (rest ++ { entry with state := .active } :: active) ++ []).Perm
      (itemsOf (r.queue.waiting ++ active) ++ []) := by
    rw [List.append_nil, List.append_nil, hw, itemsOf_append, itemsOf_append]
    exact List.perm_middle
  have hdisjoint := h.disjoint
  rw [List.append_nil, hw, itemsOf_append] at hdisjoint
  obtain ⟨hout, hnodup⟩ := List.nodup_cons.mp hdisjoint
  have hout' : entry.item ∉ itemsOf rest ∧ entry.item ∉ itemsOf active :=
    not_or.mp fun hmem => hout (List.mem_append.mpr hmem)
  have howned := h.owned.holders fun m => (hperm.mem_iff (a := m))
  rw [← keyAt_set hn (t := { item with execution := .running }) rfl] at howned
  refine ⟨h.tracked.take hw, (hperm.nodup_iff).mpr h.disjoint, howned,
    h.executed.take hn ?_ (fun m hm => ?_) (fun m => List.mem_cons) hout'.2, h.registered,
    h.bounded, h.opening, fun h1 h2 => ?_, h.unclosed, fun h1 => ?_, h.shutdown, h.faultless⟩
  · rw [hw]
    exact List.mem_cons_self
  · rw [hw]
    refine ⟨List.mem_cons_of_mem _ hm, ?_⟩
    rintro rfl
    exact hout'.1 hm
  all_goals
    have hempty : r.queue.waiting = [] := by
      refine (h.closing ?_ ?_).2
      all_goals
        intro hphase
        simp_all [ShmReceiver.setItem]
    rw [hw] at hempty
    cases hempty

theorem Inv.copyOutput (h : Inv r active []) (hn : r.items[n]? = some item)
    (hwork : item.execution = .running ∨ item.execution = .copied) :
    Inv { r.setItem n { item with execution := .copied } with
      outputs := Function.update r.outputs (item.session, item.slotIndex) (some n) }
      active [] := by
  have howned := h.owned
  rw [← keyAt_set hn (t := { item with execution := .copied }) rfl] at howned
  refine ⟨h.tracked, h.disjoint, howned, h.executed.copy h.owned (fun m hm => ?_) hn hwork,
    h.registered, h.bounded, h.opening, h.closing, h.unclosed, h.idle, h.shutdown, h.faultless⟩
  rw [itemsOf_append]
  exact List.mem_append_left _ (List.mem_append_right _ hm)

/-- `_require_active` raises nothing while execution works on the item -/
theorem Inv.requireActive (h : Inv r active []) (hn : r.items[n]? = some item)
    (hwork : item.execution = .running ∨ item.execution = .copied) :
    r.requireActive n = none := by
  obtain ⟨entry, he, hitem⟩ := List.mem_map.mp (h.executed.working n item hn hwork)
  have hentry := (h.tracked.entries n entry).mpr ⟨List.mem_append_right _ he, hitem⟩
  unfold ShmReceiver.requireActive
  rw [hentry]
  exact if_pos (h.tracked.active_state entry he)

theorem Inv.finishActive (h : Inv r active []) (hn : r.items[n]? = some item)
    (hwork : item.execution = .running ∨ item.execution = .copied) {response : ShmResponse}
    (hresponse : ∀ g, response = .success g → g = item.generation ∧ item.execution = .copied) :
    Inv (r.finishActive n (ShmReceiver.respond item response)) active [] := by
  have hnone : item.response = none := by
    by_contra hr
    rw [h.executed.answered n item hn hr] at hwork
    rcases hwork with hwork | hwork <;> cases hwork
  have hkey : ({ ShmReceiver.respond item response with execution := .finished } : ShmItem).key
      = item.key := by
    unfold ShmReceiver.respond
    split_ifs <;> rfl
  have howned := h.owned
  rw [← keyAt_set hn hkey] at howned
  refine ⟨h.tracked, h.disjoint, howned, h.executed.finish hn hwork hkey rfl ?_, h.registered,
    h.bounded, h.opening, h.closing, h.unclosed, h.idle, h.shutdown, h.faultless⟩
  intro g hg
  unfold ShmReceiver.respond at hg
  split_ifs at hg
  · exact hresponse g (Option.some.inj hg)
  · exact absurd (hnone.symm.trans hg) nofun

theorem Inv.completeSuccess (h : Inv r active []) (hn : r.items[n]? = some item)
    (hwork : item.execution = .copied) (tokenCount : Nat) (pointer : Nat × Nat) :
    Inv (r.completeSuccess n item tokenCount pointer) active [] := by
  unfold ShmReceiver.completeSuccess
  rw [h.requireActive hn (.inr hwork)]
  simp only
  split_ifs
  · exact h.finishActive hn (.inr hwork) nofun
  · exact h.finishActive hn (.inr hwork) nofun
  · exact h.finishActive hn (.inr hwork) nofun
  · refine h.finishActive hn (.inr hwork) fun g hg => ?_
    cases hg
    exact ⟨rfl, hwork⟩

theorem Inv.completeError (h : Inv r active []) (hn : r.items[n]? = some item)
    (hwork : item.execution = .running ∨ item.execution = .copied) (error : TransportError)
    (encoded : Bool) : Inv (r.completeError n item error encoded) active [] := by
  unfold ShmReceiver.completeError
  rw [h.requireActive hn hwork]
  simp only
  split_ifs
  · exact h.finishActive hn hwork nofun
  · exact h.finishActive hn hwork nofun
  · exact h.finishActive hn hwork nofun

/-- the item leaves the queue -/
theorem Inv.finish (h : Inv r active []) (hn : r.items[n]? = some item)
    (hrelease : n ∈ r.releases) : ∃ queue active', r.queue.finish n = .ok queue ∧
      Inv { r with queue, releases := r.releases.erase n } active' [n] := by
  obtain ⟨entry, ha, hitem⟩ := List.mem_map.mp (h.executed.pending n hrelease)
  have he := (h.tracked.entries n entry).mpr ⟨List.mem_append_right _ ha, hitem⟩
  have hs := h.tracked.active_state entry ha
  have htracked := (h.tracked.finished he hs).2
  have hnodup : (itemsOf active).Nodup := by
    have hitems := h.tracked.items
    rw [List.map_append] at hitems
    exact (List.nodup_append.mp hitems).2.1
  have hperm : (itemsOf (r.queue.waiting ++ active.erase entry) ++ [n]).Perm
      (itemsOf (r.queue.waiting ++ active) ++ []) := by
    rw [List.append_nil, itemsOf_append, itemsOf_append, List.append_assoc]
    refine List.Perm.append_left _ ?_
    refine List.perm_append_comm.trans ?_
    rw [← hitem]
    exact ((List.perm_cons_erase ha).map Entry.item).symm
  refine ⟨_, active.erase entry, ?_, htracked, (hperm.nodup_iff).mpr h.disjoint,
    h.owned.holders fun m => hperm.mem_iff, h.executed.leave (fun m => ?_) hrelease hn,
    h.registered, h.bounded, h.opening, h.closing, h.unclosed,
    fun h1 => ?_, h.shutdown, h.faultless⟩
  · unfold ReceiverQueue.finish
    rw [he]
    simp only
    rw [if_neg (not_not.mpr hs)]
  · have hcons := (List.perm_cons_erase ha).map Entry.item
    have hnodup' := (hcons.nodup_iff).mp hnodup
    rw [List.map_cons, List.nodup_cons, hitem] at hnodup'
    have hmem : m ∈ itemsOf active ↔ m = n ∨ m ∈ itemsOf (active.erase entry) := by
      unfold itemsOf
      rw [hcons.mem_iff, List.map_cons, List.mem_cons, hitem]
    rw [hmem]
    constructor
    · intro hm
      exact ⟨.inr hm, fun heq => hnodup'.1 (heq ▸ hm)⟩
    · rintro ⟨rfl | hm, hne⟩
      · exact absurd rfl hne
      · exact hm
  · rw [h.idle h1]
    rfl

theorem Inv.releaseActive (h : Inv r active []) (hn : r.items[n]? = some item)
    (hrelease : n ∈ r.releases) : ∃ active', Inv (r.releaseActive n item) active' [] := by
  obtain ⟨queue, active', hfinish, hout⟩ := h.finish hn hrelease
  have hslot := hout.releaseSlot hn
  rw [ShmReceiver.releaseSlot_queue { r with releases := r.releases.erase n }] at hslot
  refine ⟨active', ?_⟩
  unfold ShmReceiver.releaseActive
  simp only
  rw [ShmReceiver.queue_releaseSlot, hfinish]
  exact hslot

/-! ## sessions and close -/

/-- a session that left the registry is closed -/
theorem Inv.closeSession (h : Inv r active []) {o : Nat} (hout : o ∉ r.sessions.map Prod.snd) :
    Inv (r.closeSession o) active [] ∧ (r.closeSession o).sessionTask = r.sessionTask := by
  unfold ShmReceiver.closeSession
  cases ho : r.heap[o]? with
  | none => exact ⟨h, rfl⟩
  | some s =>
    obtain ⟨hclose, hregistered, hsame⟩ := h.registered.close ho hout
    have hbalanced := (h.owned.balanced s (List.mem_of_getElem? ho)).close hclose
    simp only
    rw [hclose]
    have hhistory : ({ s with closed := true } : WorkerSharedMemorySession).history
        = s.history ++ [] := (List.append_nil s.history).symm
    have howned := h.owned.same (balanced_set h.owned.balanced hbalanced)
      (fun o' i => (hsame o' i).1) fun o' i g hg => heapClaims_set ho hhistory hg
    refine ⟨⟨h.tracked, h.disjoint, howned,
      h.executed.raise h.known fun o' i => (hsame o' i).2.ge, hregistered, ?_, h.opening,
      h.closing, h.unclosed, h.idle, h.shutdown, h.faultless⟩, rfl⟩
    intro o' ho'
    show o' < (r.heap.set o { s with closed := true }).length
    rw [List.length_set]
    exact h.bounded o' ho'

/-- the waiting items of a closing receiver give their slots back -/
theorem Inv.discard {waiting : List Nat} (h : Inv r active waiting) :
    Inv (r.discard waiting) active [] := by
  unfold ShmReceiver.discard
  induction waiting generalizing r with
  | nil => exact h
  | cons n waiting ih =>
    obtain ⟨item, hn, _⟩ := h.holder (List.mem_append_right _ List.mem_cons_self)
    have hlt : n < r.items.length := (List.getElem?_eq_some_iff.mp hn).1
    have hcancelled : Inv (r.setItem n { item with cancelled := true }) active (n :: waiting) :=
      h.setItem hn rfl rfl rfl
    rw [List.foldl_cons, hn]
    have hself : (r.items.set n { item with cancelled := true })[n]? =
        some { item with cancelled := true } := List.getElem?_set_self hlt
    have hreleased := hcancelled.releaseSlot (n := n) hself
    exact ih hreleased

/-- `begin_close` hands the waiting items over -/
theorem Inv.beginClose (h : Inv r active []) (hphase : r.closePhase = .stopping) :
    Inv { r with queue := r.queue.beginClose.2, closePhase := .waitActiveEmpty } active
      r.queue.beginClose.1 := by
  have hunclosed := h.unclosed (.inr hphase)
  obtain ⟨h1, h2, h3, h4, h5, h6, h7⟩ := h.tracked.discard
  have hperm : (itemsOf ([] ++ active) ++ itemsOf r.queue.waiting).Perm
      (itemsOf (r.queue.waiting ++ active) ++ []) := by
    rw [List.nil_append, List.append_nil, itemsOf_append]
    exact List.perm_append_comm
  unfold ReceiverQueue.beginClose
  rw [hunclosed]
  refine ⟨⟨h1, h2, h3, h4, h5, h6, h7⟩, (hperm.nodup_iff).mpr h.disjoint,
    h.owned.holders fun m => hperm.mem_iff, h.executed.unwait nofun, h.registered, h.bounded,
    h.opening, fun _ _ => ⟨rfl, rfl⟩, nofun, nofun, fun rest hrest => ?_, h.faultless⟩
  have hother := h.shutdown rest hrest
  rw [hphase] at hother
  cases hother

theorem Registered.weaken {heap : List WorkerSharedMemorySession} {sessions : List (String × Nat)}
    {retired retired' : List Nat} (h : Registered heap sessions retired)
    (hsub : ∀ o ∈ retired', o ∈ retired) : Registered heap sessions retired' :=
  ⟨h.opened, h.names, h.objects, fun o ho => h.retired o (hsub o ho), h.live⟩

theorem Inv.opened (h : Inv r active []) {sessionId : String}
    (htask : r.sessionTask = some (.opening sessionId)) :
    Inv { r with
      heap := r.heap ++ [.new sessionId r.slotCount]
      sessions := r.sessions ++ [(sessionId, r.heap.length)]
      sessionTask := none } active [] := by
  have hsame := heap_append r.heap sessionId r.slotCount
  have hbalanced : ∀ s ∈ r.heap ++ [.new sessionId r.slotCount], Balanced s := by
    intro s hs
    rcases List.mem_append.mp hs with hs | hs
    · exact h.owned.balanced s hs
    · rw [List.mem_singleton.mp hs]
      exact .new sessionId r.slotCount
  have hregistered := h.registered.append (h.opening sessionId htask) h.bounded r.slotCount
  have hbounded := h.bounded
  rw [htask] at hregistered hbounded
  have howned := h.owned.same hbalanced (fun o i => (hsame o i).1)
    fun o i g => heapClaims_append (.new sessionId r.slotCount)
  refine ⟨h.tracked, h.disjoint, howned,
    h.executed.raise h.known fun o i => (hsame o i).2.ge, hregistered, fun o ho => ?_, nofun,
    h.closing, h.unclosed, h.idle, nofun, h.faultless⟩
  have hlt := hbounded o ho
  show o < (r.heap ++ [_]).length
  rw [List.length_append]
  omega

theorem Inv.closeSharedMemory (h : Inv r active []) (htask : r.sessionTask = none)
    {sessionId : String} {o : Nat} {s : WorkerSharedMemorySession}
    (hlookup : r.sessions.lookup sessionId = some o) (ho : r.heap[o]? = some s)
    (hidle : s.activeCount = 0) :
    Inv { r with
      sessions := Assoc.erase r.sessions sessionId
      sessionTask := some (.closing o)
      closeJobs := r.closeJobs ++ [o] } active [] := by
  have hregistered := h.registered.pop hlookup ho hidle
  have hbounded := h.bounded
  rw [htask] at hregistered hbounded
  refine ⟨h.tracked, h.disjoint, h.owned, h.executed, hregistered.weaken fun o' ho' => ?_,
    fun o' ho' => ?_, nofun, h.closing, h.unclosed, h.idle, nofun, h.faultless⟩
  · simp only [shutdownRest, List.append_nil, List.mem_append, List.mem_cons,
      List.not_mem_nil, or_false] at ho' ⊢
    exact ho'.symm
  · simp only [shutdownRest, List.append_nil, List.mem_append, List.mem_singleton] at ho' hbounded
    rcases ho' with ho' | rfl
    · exact hbounded o' ho'
    · exact (List.getElem?_eq_some_iff.mp ho).1

theorem Inv.clearSessions (h : Inv r active []) (hphase : r.closePhase = .activeEmpty) :
    Inv { r with
      sessions := []
      sessionTask := some (.shutdown (r.sessions.map Prod.snd))
      closePhase := .closingSessions } active [] := by
  have hactive := h.idle (.inl hphase)
  have hwaiting := (h.closing (by rw [hphase]; decide) (by rw [hphase]; decide)).2
  refine ⟨h.tracked, h.disjoint, h.owned, h.executed, ⟨nofun, List.nodup_nil, List.nodup_nil,
    nofun, fun o i g ha => ?_⟩, fun o ho => ?_, nofun, fun _ _ => ?_, nofun, fun _ => hactive,
    fun _ _ => rfl, h.faultless⟩
  · obtain ⟨n, hn, _⟩ := h.owned.owner o i g ha
    rw [hwaiting, hactive] at hn
    cases hn
  · rcases List.mem_append.mp ho with ho | ho
    · exact h.bounded o (List.mem_append_left _ ho)
    · obtain ⟨e, he, rfl⟩ := List.mem_map.mp ho
      obtain ⟨s, hs, _⟩ := h.registered.opened e he
      exact (List.getElem?_eq_some_iff.mp hs).1
  · exact h.closing (by rw [hphase]; decide) (by rw [hphase]; decide)

/-! ## runs -/

/-- every step keeps the invariant -/
theorem Inv.step (h : Inv r active []) (l : ShmStep W) {r' : ShmReceiver}
    (hs : r.step l = some r') : ∃ active', Inv r' active' [] := by
  unfold ShmReceiver.step at hs
  cases l with
  | openSharedMemory sessionId =>
    simp only at hs
    split_ifs at hs with htask hknown hfull
    · cases hs
      exact ⟨active, h⟩
    · cases hs
      exact ⟨active, h⟩
    · cases hs
      have hnone : r.sessionTask = none := by simpa using htask
      have hregistered := h.registered
      have hbounded := h.bounded
      rw [hnone] at hregistered hbounded
      refine ⟨active, h.tracked, h.disjoint, h.owned, h.executed, hregistered, hbounded,
        fun id hid => ?_, h.closing, h.unclosed, h.idle, fun _ ht => (by cases ht), h.faultless⟩
      cases hid
      exact Assoc.lookup_none_iff.mp (Option.not_isSome_iff_eq_none.mp hknown)
  | opened mapped =>
    simp only at hs
    split at hs
    · rename_i sessionId htask
      split_ifs at hs
      · cases hs
        exact ⟨active, h.opened htask⟩
      · cases hs
        have hregistered := h.registered
        have hbounded := h.bounded
        rw [htask] at hregistered hbounded
        exact ⟨active, h.tracked, h.disjoint, h.owned, h.executed, hregistered, hbounded,
          fun _ ht => (by cases ht), h.closing, h.unclosed, h.idle, fun _ ht => (by cases ht),
          h.faultless⟩
    · cases hs
  | executeSharedMemory payload routing =>
    cases hs
    exact ⟨active, h.executeSharedMemory payload routing⟩
  | cancelHandler n =>
    simp only at hs
    split at hs
    · cases hs
    · rename_i item hn
      split_ifs at hs
      cases hs
      have hset := h.setItem hn (t := { item with handler := .cancelled }) rfl rfl rfl
      exact ⟨active, hset.tracked, hset.disjoint, hset.owned, hset.executed, hset.registered,
        hset.bounded, hset.opening, hset.closing, hset.unclosed, hset.idle, hset.shutdown,
        hset.faultless⟩
  | runCancel n =>
    simp only at hs
    split at hs
    · cases hs
    · rename_i item hn
      split_ifs at hs
      cases hs
      have hrest : Inv { r with cancels := r.cancels.erase n } active [] :=
        ⟨h.tracked, h.disjoint, h.owned, h.executed, h.registered, h.bounded, h.opening, h.closing,
          h.unclosed, h.idle, h.shutdown, h.faultless⟩
      exact ⟨active, hrest.cancel hn⟩
  | answer n =>
    simp only at hs
    split at hs
    · cases hs
    · rename_i item hn
      split_ifs at hs
      cases hs
      exact ⟨active, h.setItem hn rfl rfl rfl⟩
  | copySlotToOutput n =>
    simp only at hs
    split at hs
    · cases hs
    · split_ifs at hs
      cases hs
      exact ⟨active, h.tracked, h.disjoint, h.owned, h.executed, h.registered, h.bounded,
        h.opening, h.closing, h.unclosed, h.idle, h.shutdown, h.faultless⟩
  | receive =>
    simp only at hs
    unfold ReceiverQueue.take at hs
    cases hw : r.queue.waiting with
    | nil => simp [hw] at hs
    | cons entry rest =>
      simp only [hw] at hs
      split at hs
      · cases hs
      · rename_i item hn
        cases hs
        exact ⟨_, h.receive hw hn⟩
  | copyOutput n =>
    simp only at hs
    split at hs
    · cases hs
    · rename_i item hn
      split_ifs at hs with hwork
      cases hs
      exact ⟨active, h.copyOutput hn hwork⟩
  | complete n tokenCount pointer =>
    simp only at hs
    split at hs
    · cases hs
    · rename_i item hn
      split_ifs at hs with hwork
      cases hs
      exact ⟨active, h.completeSuccess hn hwork tokenCount pointer⟩
  | reject n error encoded =>
    simp only at hs
    split at hs
    · cases hs
    · rename_i item hn
      split_ifs at hs with hwork
      cases hs
      exact ⟨active, h.completeError hn hwork error encoded⟩
  | runRelease n =>
    simp only at hs
    split at hs
    · cases hs
    · rename_i item hn
      split_ifs at hs with hrelease
      cases hs
      exact h.releaseActive hn hrelease
  | beginDrain experts minTopologyVersion stopAll =>
    simp only at hs
    split at hs
    · cases hs
      exact ⟨active, h⟩
    · rename_i queue hdrain
      cases hs
      obtain ⟨draining, stop, rfl, _⟩ := ReceiverQueue.beginDrain_cases hdrain
      exact ⟨active, h.tracked.gates draining stop, h.disjoint, h.owned, h.executed, h.registered,
        h.bounded, h.opening, h.closing, h.unclosed, h.idle, h.shutdown, h.faultless⟩
  | clearDrains experts =>
    cases hs
    exact ⟨active, h.tracked.gates _ _, h.disjoint, h.owned, h.executed, h.registered, h.bounded,
      h.opening, h.closing, h.unclosed, h.idle, h.shutdown, h.faultless⟩
  | closeSharedMemory sessionId =>
    simp only at hs
    split_ifs at hs with htask
    have hnone : r.sessionTask = none := by simpa using htask
    cases sessionId with
    | none =>
      cases hs
      exact ⟨active, h⟩
    | some sessionId =>
      simp only at hs
      split at hs
      · cases hs
        exact ⟨active, h⟩
      · rename_i session hlookup
        split at hs
        · cases hs
        · rename_i s ho
          split_ifs at hs with hidle
          · cases hs
            exact ⟨active, h⟩
          · cases hs
            exact ⟨active, h.closeSharedMemory hnone hlookup ho (not_not.mp hidle)⟩
  | closeThread session =>
    simp only at hs
    split_ifs at hs with hjob
    cases hs
    have hsub : ∀ o ∈ r.closeJobs.erase session ++ shutdownRest r.sessionTask,
        o ∈ r.closeJobs ++ shutdownRest r.sessionTask := by
      intro o ho
      rcases List.mem_append.mp ho with ho | ho
      · exact List.mem_append_left _ (List.mem_of_mem_erase ho)
      · exact List.mem_append_right _ ho
    have hrest : Inv { r with closeJobs := r.closeJobs.erase session } active [] :=
      ⟨h.tracked, h.disjoint, h.owned, h.executed, h.registered.weaken hsub,
        fun o ho => h.bounded o (hsub o ho), h.opening, h.closing, h.unclosed, h.idle, h.shutdown,
        h.faultless⟩
    exact ⟨active, (hrest.closeSession
      (h.registered.retired session (List.mem_append_left _ hjob))).1⟩
  | closedSharedMemory =>
    simp only at hs
    split at hs
    · rename_i session htask
      cases hs
      have hregistered := h.registered
      have hbounded := h.bounded
      rw [htask] at hregistered hbounded
      exact ⟨active, h.tracked, h.disjoint, h.owned, h.executed, hregistered, hbounded,
        fun _ ht => (by cases ht), h.closing, h.unclosed, h.idle, fun _ ht => (by cases ht),
        h.faultless⟩
    · cases hs
  | close =>
    simp only at hs
    split_ifs at hs with hphase
    cases hs
    refine ⟨active, h.tracked, h.disjoint, h.owned, h.executed, h.registered, h.bounded, h.opening,
      fun _ hne => absurd rfl hne, fun _ => h.unclosed (.inl hphase),
      fun hp => (by rcases hp with hp | hp | hp <;> cases hp), fun rest hrest => ?_, h.faultless⟩
    have hother := h.shutdown rest hrest
    rw [hphase] at hother
    cases hother
  | serverStopped =>
    simp only at hs
    split_ifs at hs with hphase
    cases hs
    exact ⟨active, (h.beginClose hphase).discard⟩
  | activeEmpty =>
    simp only at hs
    split_ifs at hs with hphase
    cases hs
    have hempty : active = [] :=
      List.length_eq_zero_iff.mp (h.tracked.active_count.symm.trans hphase.2)
    refine ⟨active, h.tracked, h.disjoint, h.owned, h.executed, h.registered, h.bounded, h.opening,
      fun _ _ => ?_, fun hp => (by rcases hp with hp | hp <;> cases hp), fun _ => hempty,
      fun rest hrest => ?_, h.faultless⟩
    · exact h.closing (by rw [hphase.1]; decide) (by rw [hphase.1]; decide)
    · have hother := h.shutdown rest hrest
      rw [hphase.1] at hother
      cases hother
  | clearSessions =>
    simp only at hs
    split_ifs at hs with hphase
    cases hs
    exact ⟨active, h.clearSessions hphase.1⟩
  | closeNext =>
    simp only at hs
    split at hs
    · rename_i session rest htask
      cases hs
      have hretired := h.registered.retired session
        (List.mem_append_right _ (by rw [htask]; exact List.mem_cons_self))
      obtain ⟨hclosed, htask'⟩ := h.closeSession hretired
      have hregistered := hclosed.registered
      have hbounded := hclosed.bounded
      rw [htask', htask] at hregistered hbounded
      have hsub : ∀ o ∈ (r.closeSession session).closeJobs ++ rest,
          o ∈ (r.closeSession session).closeJobs ++ shutdownRest (some (.shutdown
            (session :: rest))) := by
        intro o ho
        rcases List.mem_append.mp ho with ho | ho
        · exact List.mem_append_left _ ho
        · exact List.mem_append_right _ (List.mem_cons_of_mem _ ho)
      exact ⟨active, hclosed.tracked, hclosed.disjoint, hclosed.owned, hclosed.executed,
        hregistered.weaken hsub, fun o ho => hbounded o (hsub o ho), fun _ ht => (by cases ht),
        hclosed.closing, hclosed.unclosed, hclosed.idle,
        fun _ _ => hclosed.shutdown _ (htask'.trans htask), hclosed.faultless⟩
    · rename_i htask
      cases hs
      have hregistered := h.registered
      have hbounded := h.bounded
      rw [htask] at hregistered hbounded
      have hphase := h.shutdown [] htask
      refine ⟨active, h.tracked, h.disjoint, h.owned, h.executed, hregistered, hbounded,
        fun _ ht => (by cases ht), fun _ _ => ?_,
        fun hp => (by rcases hp with hp | hp <;> cases hp), fun _ => h.idle (.inr (.inl hphase)),
        fun _ ht => (by cases ht), h.faultless⟩
      exact h.closing (by rw [hphase]; decide) (by rw [hphase]; decide)
    · cases hs

/-- an active slot belongs to one item of the queue, which waits, is worked on, or is about to be
released -/
theorem Inv.owner (h : Inv r active []) {o i g : Nat} (ha : heapActive r.heap o i = some g) :
    ∃ n item entry, r.items[n]? = some item ∧ item.key = (o, i, g) ∧
      r.queue.entries[n]? = some entry ∧
      (entry.state = .waiting ∨ item.execution = .running ∨ item.execution = .copied ∨
        n ∈ r.releases) := by
  obtain ⟨n, hn, hk⟩ := h.owned.owner o i g ha
  obtain ⟨item, hitem, hkey⟩ := keyAt_some hk
  rw [List.append_nil] at hn
  obtain ⟨entry, he, rfl⟩ := List.mem_map.mp hn
  refine ⟨entry.item, item, entry, hitem, hkey, (h.tracked.entries _ entry).mpr ⟨he, rfl⟩, ?_⟩
  rcases List.mem_append.mp he with hw | hactive
  · exact .inl (h.tracked.waiting_state entry hw)
  · have hmem : entry.item ∈ itemsOf active := List.mem_map_of_mem hactive
    cases hexecution : item.execution with
    | notTaken => exact absurd hexecution (h.executed.taken _ item hitem hmem)
    | running => exact .inr (.inl rfl)
    | copied => exact .inr (.inr (.inl rfl))
    | finished => exact .inr (.inr (.inr ((h.executed.ending _ item hitem hmem).mpr hexecution)))

/-- two items of the queue have different slots -/
theorem Inv.exclusive (h : Inv r active []) {n m : Nat} {a b : ShmItem} {e e' : Entry}
    (hn : r.items[n]? = some a) (hm : r.items[m]? = some b) (he : r.queue.entries[n]? = some e)
    (he' : r.queue.entries[m]? = some e') (hs : a.session = b.session)
    (hi : a.slotIndex = b.slotIndex) : n = m := by
  have hslot : ∀ (k : Nat) (x : ShmItem) (entry : Entry), r.items[k]? = some x →
      r.queue.entries[k]? = some entry →
      heapActive r.heap x.session x.slotIndex = some x.generation := by
    intro k x entry hx hentry
    obtain ⟨hmem, rfl⟩ := (h.tracked.entries k entry).mp hentry
    obtain ⟨x', hx', ha, _⟩ := h.holder (List.mem_append_left _ (List.mem_map_of_mem hmem))
    rw [hx] at hx'
    cases hx'
    exact ha
  have h1 := hslot n a e hn he
  have h2 := hslot m b e' hm he'
  rw [hs, hi, h2] at h1
  refine h.owned.distinct n m a.key (keyAt_of hn) ?_
  rw [keyAt_of hm]
  unfold ShmItem.key
  rw [hs, hi, Option.some.inj h1]

end

end ExpertKit.Transport

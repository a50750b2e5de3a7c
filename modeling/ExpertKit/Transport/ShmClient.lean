import ExpertKit.Transport.ShmSession
import ExpertKit.Lib.Ledger
import ExpertKit.Lib.Steps

/-!
# Transport: the shared-memory client and the slots it shares with a Worker

`ShmWorkerTransport.execute` and `_execute_acquired` of `transports/shm/client.py` over one session,
against the Worker that claims a slot, copies its input, writes its output and releases it.  A call
is a task, its copy runs in a thread, and its notification is an RPC.  What a task does between two
suspensions is one step; a thread writes one tensor in a step.  The Worker answers a notification
after it has released the slot: the task that releases is created before the handler can resume.

* `ShmCall`, `CopyJob`, `ShmRpc`, `WorkerItem`   the parties;
* `ShmConnection.step`      every step of the calls, threads, RPCs and of the Worker;
* `calm`                    no slot is given back while a copy or a notification still needs it;
* `Inv`                     a slot in use is held by one call, in the phase that uses it;
* `shm_slot_writes`         what holds in every state of every calm run;
* `shm_slot_writes_refuted` runs that are not calm.
-/

set_option linter.unusedSectionVars false

namespace ExpertKit.Transport
open Routing

/-! ## data -/

section
variable {S W : Type}

/-- the outbound batch; `none` where the token indices are invalid -/
structure ShmBatch (S W : Type) where
  layerId : Nat
  topologyVersion : Nat
  tokenCount : Nat
  hiddenStates : Option (List S)
  routing : SlotRouting W

/-- the tensors of a slot, row by row -/
structure SlotMemory (S W : Type) where
  hiddenStates : List S
  expertIds : List Int
  routingWeights : List W
  partialOutput : List S

/-- where a thread is in `_copy_request_to_slot` -/
inductive CopyProgress where
  | queued
  | hiddenStates
  | expertIds
  | routingWeights
  | finished (generation : Option Nat)
deriving DecidableEq, Repr

def CopyProgress.writing : CopyProgress → Bool
  | .hiddenStates | .expertIds | .routingWeights => true
  | .queued | .finished _ => false

/-- the progress after one write, with the generation that the thread returns at the end -/
def CopyProgress.next (generation : Nat) : CopyProgress → CopyProgress
  | .hiddenStates => .expertIds
  | .expertIds => .routingWeights
  | .routingWeights => .finished (some generation)
  | .queued => .queued
  | .finished result => .finished result

structure CopyJob (S W : Type) where
  call : Nat
  slot : Nat
  batch : ShmBatch S W
  progress : CopyProgress

/-- where a notification is -/
inductive Delivery where
  | inFlight
  | lost
  | arrived
deriving DecidableEq, Repr

inductive RpcAnswer where
  | completed (generation : Nat)
  | error
deriving DecidableEq, Repr

structure ShmRpc where
  request : ExecuteSlot
  delivery : Delivery
  answer : Option RpcAnswer
deriving DecidableEq, Repr

/-- `interrupted` after a cancellation or a timeout, whose wait goes on -/
inductive CallPhase where
  | acquiring
  | copying (slot job : Nat) (interrupted : Bool)
  | calling (slot rpc : Nat) (interrupted : Bool)
  | receiving (slot : Nat) (interrupted : Bool)
  | ended
deriving DecidableEq, Repr

structure ShmCall (S W : Type) where
  batch : ShmBatch S W
  phase : CallPhase
  output : Option (List S)

inductive WorkerPhase where
  | waiting
  | executing
  | released
deriving DecidableEq, Repr

/-- an admitted batch of the Worker, with the routing that its claim validated and the routing that
its execution copied -/
structure WorkerItem (W : Type) where
  rpc : Nat
  slotIndex : Nat
  generation : Nat
  tokenCount : Nat
  phase : WorkerPhase
  validated : SlotRouting W
  executed : Option (SlotRouting W)
  response : Option RpcAnswer

structure ShmConnection (S W : Type) where
  spec : WorkerEndpointConfig
  topK : Nat
  sessionId : String
  available : List Nat
  generations : List Nat
  memory : List (SlotMemory S W)
  calls : List (ShmCall S W)
  jobs : List (CopyJob S W)
  rpcs : List ShmRpc
  session : WorkerSharedMemorySession
  items : List (WorkerItem W)
  conflicts : List (Nat × Nat)

def CallPhase.slot : CallPhase → Option Nat
  | .acquiring | .ended => none
  | .copying slot _ _ | .calling slot _ _ | .receiving slot _ => some slot

def uint64Max : Nat := 2 ^ 64 - 1

namespace ShmConnection
variable [Zero W] [DecidableEq W]

def new (spec : WorkerEndpointConfig) (topK : Nat) (sessionId : String) (slotCount : Nat) :
    ShmConnection S W where
  spec
  topK
  sessionId
  available := List.range slotCount
  generations := List.replicate slotCount 0
  memory := List.replicate slotCount ⟨[], [], [], []⟩
  calls := []
  jobs := []
  rpcs := []
  session := .new sessionId slotCount
  items := []
  conflicts := []

/-! ## calls -/

def setPhase (s : ShmConnection S W) (c : Nat) (call : ShmCall S W) (phase : CallPhase) :
    ShmConnection S W := { s with calls := s.calls.set c { call with phase } }

/-- the call ends and its slot goes back to the pool -/
def put (s : ShmConnection S W) (c : Nat) (call : ShmCall S W) (slot : Nat) :
    ShmConnection S W :=
  { s.setPhase c call .ended with available := s.available ++ [slot] }

/-- `_acquire`, and `_execute_acquired` up to its first suspension -/
def acquire (s : ShmConnection S W) (c : Nat) (call : ShmCall S W) (outputValid : Bool) :
    Option (ShmConnection S W) :=
  match s.available.getLast? with
  | none => none
  | some slot =>
    if outputValid then some { s.setPhase c call (.copying slot s.jobs.length false) with
      available := s.available.dropLast
      jobs := s.jobs ++ [⟨c, slot, call.batch, .queued⟩] }
    else some (s.setPhase c call .ended)

/-! ## the copy of a request -/

/-- `validate_worker_batch`; the other fields agree by construction -/
def validateWorkerBatch (spec : WorkerEndpointConfig) (batch : ShmBatch S W) : Bool :=
  batch.layerId < spec.numLayers && batch.tokenCount ≤ spec.maxBatchTokens

def setProgress (s : ShmConnection S W) (j : Nat) (job : CopyJob S W) (progress : CopyProgress) :
    ShmConnection S W := { s with jobs := s.jobs.set j { job with progress } }

/-- the thread up to its first write -/
def startCopy (s : ShmConnection S W) (j : Nat) (job : CopyJob S W) : ShmConnection S W :=
  let generation := s.generations.getD job.slot 0
  if validateWorkerBatch s.spec job.batch = false ∨ uint64Max ≤ generation then
    s.setProgress j job (.finished none)
  else
    let s := { s with generations := s.generations.set job.slot (generation + 1) }
    if job.batch.hiddenStates.isSome then s.setProgress j job .hiddenStates
    else s.setProgress j job (.finished none)

/-- `tensor[:n].copy_(rows)` -/
def overlay {α : Type} (rows tensor : List α) : List α := rows ++ tensor.drop rows.length

/-- the slot while the thread writes one tensor of it -/
def write (job : CopyJob S W) (m : SlotMemory S W) : SlotMemory S W :=
  match job.progress with
  | .hiddenStates =>
    { m with hiddenStates := overlay (job.batch.hiddenStates.getD []) m.hiddenStates }
  | .expertIds => { m with expertIds := overlay job.batch.routing.expertIds m.expertIds }
  | .routingWeights =>
    { m with routingWeights := overlay job.batch.routing.routingWeights m.routingWeights }
  | .queued | .finished _ => m

/-- one write of the thread; a write into an active slot is a conflict -/
def writeCopy (s : ShmConnection S W) (j : Nat) (job : CopyJob S W) : ShmConnection S W :=
  let s := match s.session.activeAt job.slot with
    | some generation => { s with conflicts := s.conflicts ++ [(job.slot, generation)] }
    | none => s
  let s := { s with memory := s.memory.modify job.slot (write job) }
  s.setProgress j job (job.progress.next (s.generations.getD job.slot 0))

/-- the call resumes after its copy -/
def copied (s : ShmConnection S W) (c : Nat) (call : ShmCall S W) (slot : Nat)
    (interrupted : Bool) (generation : Option Nat) (expired : Bool) (timeoutMicros : Nat) :
    ShmConnection S W :=
  match generation with
  | none => s.put c call slot
  | some generation =>
    if interrupted ∨ expired then s.put c call slot
    else { s.setPhase c call (.calling slot s.rpcs.length false) with
      rpcs := s.rpcs ++ [⟨⟨s.sessionId, slot, generation, call.batch.layerId,
        call.batch.topologyVersion, call.batch.tokenCount, timeoutMicros⟩, .inFlight, none⟩] }

/-- one more cancellation of a call, which a wait that goes on does not survive -/
def cancel (s : ShmConnection S W) (c : Nat) (call : ShmCall S W) : Option (ShmConnection S W) :=
  match call.phase with
  | .acquiring => some (s.setPhase c call .ended)
  | .copying slot j false => some (s.setPhase c call (.copying slot j true))
  | .copying slot j true =>
    match s.jobs[j]? with
    | none => none
    | some job =>
      -- a thread that has not started is not started any more
      if job.progress = .queued then some ((s.setProgress j job (.finished none)).put c call slot)
      else some (s.put c call slot)
  | .calling slot k false => some (s.setPhase c call (.calling slot k true))
  | .calling slot _ true => some (s.put c call slot)
  | .receiving slot false => some (s.setPhase c call (.receiving slot true))
  | .receiving slot true => some (s.put c call slot)
  | .ended => none

/-! ## the Worker -/

def setRpc (s : ShmConnection S W) (k : Nat) (rpc : ShmRpc) : ShmConnection S W :=
  { s with rpcs := s.rpcs.set k rpc }

/-- the first rows of the routing tensors of a slot -/
def routingOf (s : ShmConnection S W) (slot tokenCount : Nat) : SlotRouting W :=
  match s.memory[slot]? with
  | none => ⟨[], []⟩
  | some m => ⟨m.expertIds.take (tokenCount * s.topK), m.routingWeights.take (tokenCount * s.topK)⟩

/-- the notification reaches the Worker, whose queue may reject it -/
def deliver (s : ShmConnection S W) (k : Nat) (rpc : ShmRpc) (admitted : Bool) :
    ShmConnection S W :=
  let refused (s : ShmConnection S W) :=
    s.setRpc k { rpc with delivery := .arrived, answer := some .error }
  match decodeExecuteRequest s.spec rpc.request with
  | .error _ => refused s
  | .ok request =>
    let routing := s.routingOf request.slotIndex request.tokenCount
    match s.session.claim s.spec request routing with
    | (.error _, session) => refused { s with session }
    | (.ok claimed, session) =>
      if admitted then { s.setRpc k { rpc with delivery := .arrived } with
        session
        items := s.items ++ [⟨k, claimed.slotIndex, claimed.generation, claimed.tokenCount,
          .waiting, routing, none, none⟩] }
      else
        match session.release claimed.slotIndex claimed.generation with
        | .error _ => refused { s with session }
        | .ok session => refused { s with session }

def setItem (s : ShmConnection S W) (n : Nat) (item : WorkerItem W) : ShmConnection S W :=
  { s with items := s.items.set n item }

/-- the slot of the item is released -/
def release (s : ShmConnection S W) (n : Nat) (item : WorkerItem W) (response : Option RpcAnswer) :
    Option (ShmConnection S W) :=
  match s.session.release item.slotIndex item.generation with
  | .error _ => none
  | .ok session => some { s.setItem n { item with phase := .released, response } with session }

end ShmConnection

/-! ## steps -/

inductive ShmConnectionStep (S W : Type) where
  | execute (batch : ShmBatch S W)
  | acquire (call : Nat) (outputValid : Bool)
  | startCopy (job : Nat)
  | writeCopy (job : Nat)
  | copied (call : Nat) (expired : Bool) (timeoutMicros : Nat)
  | cancel (call : Nat)
  | timeout (call : Nat)
  | fail (call : Nat)
  | respond (call : Nat)
  | received (call : Nat)
  /-- the network -/
  | lose (rpc : Nat)
  | deliver (rpc : Nat) (admitted : Bool)
  | answer (item : Nat)
  /-- the Worker -/
  | cancelHandler (item : Nat)
  | receive (item : Nat)
  | copyInput (item : Nat)
  | writeOutput (item : Nat) (rows : List S)
  | finish (item : Nat) (success : Bool)

namespace ShmConnection
variable [Zero W] [DecidableEq W]

/-- `none` where the step is not enabled -/
def step (s : ShmConnection S W) : ShmConnectionStep S W → Option (ShmConnection S W)
  | .execute batch => some { s with calls := s.calls ++ [⟨batch, .acquiring, none⟩] }
  | .acquire c outputValid =>
    match s.calls[c]? with
    | none => none
    | some call => if call.phase = .acquiring then s.acquire c call outputValid else none
  | .startCopy j =>
    match s.jobs[j]? with
    | none => none
    | some job => if job.progress = .queued then some (s.startCopy j job) else none
  | .writeCopy j =>
    match s.jobs[j]? with
    | none => none
    | some job => if job.progress.writing then some (s.writeCopy j job) else none
  | .copied c expired timeoutMicros =>
    match s.calls[c]? with
    | none => none
    | some call =>
      match call.phase with
      | .copying slot j interrupted =>
        match s.jobs[j]?.map CopyJob.progress with
        | some (.finished generation) =>
          some (s.copied c call slot interrupted generation expired timeoutMicros)
        | _ => none
      | _ => none
  | .cancel c =>
    match s.calls[c]? with
    | none => none
    | some call => s.cancel c call
  | .timeout c =>
    match s.calls[c]? with
    | none => none
    | some call =>
      match call.phase with
      | .acquiring => some (s.setPhase c call .ended)
      | .calling slot k false => some (s.setPhase c call (.calling slot k true))
      | _ => none
  | .fail c =>
    match s.calls[c]? with
    | none => none
    | some call =>
      match call.phase with
      | .calling slot _ _ => some (s.put c call slot)
      | _ => none
  | .respond c =>
    match s.calls[c]? with
    | none => none
    | some call =>
      match call.phase with
      | .calling slot k interrupted =>
        match s.rpcs[k]? with
        | none => none
        | some rpc =>
          match rpc.answer with
          | none => none
          | some answer =>
            if interrupted = false ∧ answer = .completed rpc.request.generation then
              some (s.setPhase c call (.receiving slot false))
            else some (s.put c call slot)
      | _ => none
  | .received c =>
    match s.calls[c]? with
    | none => none
    | some call =>
      match call.phase with
      | .receiving slot _ =>
        let rows := (s.memory[slot]?.map SlotMemory.partialOutput).getD []
        some (s.put c { call with output := some (rows.take call.batch.tokenCount) } slot)
      | _ => none
  | .lose k =>
    match s.rpcs[k]? with
    | none => none
    | some rpc =>
      if rpc.delivery = .inFlight then some (s.setRpc k { rpc with delivery := .lost }) else none
  | .deliver k admitted =>
    match s.rpcs[k]? with
    | none => none
    | some rpc => if rpc.delivery = .inFlight then some (s.deliver k rpc admitted) else none
  | .answer n =>
    match s.items[n]? with
    | none => none
    | some item =>
      match s.rpcs[item.rpc]? with
      | none => none
      | some rpc =>
        if item.phase = .released ∧ item.response ≠ none ∧ rpc.answer = none then
          some (s.setRpc item.rpc { rpc with answer := item.response })
        else none
  | .cancelHandler n =>
    match s.items[n]? with
    | none => none
    | some item => if item.phase = .waiting then s.release n item none else none
  | .receive n =>
    match s.items[n]? with
    | none => none
    | some item =>
      if item.phase = .waiting then some (s.setItem n { item with phase := .executing }) else none
  | .copyInput n =>
    match s.items[n]? with
    | none => none
    | some item =>
      if item.phase = .executing then some (s.setItem n { item with
        executed := some (s.routingOf item.slotIndex item.tokenCount) })
      else none
  | .writeOutput n rows =>
    match s.items[n]? with
    | none => none
    | some item =>
      if item.phase = .executing then some { s with
        memory := s.memory.modify item.slotIndex fun m =>
          { m with partialOutput := overlay rows m.partialOutput } }
      else none
  | .finish n success =>
    match s.items[n]? with
    | none => none
    | some item =>
      if item.phase = .executing then
        s.release n item (some (if success then .completed item.generation else .error))
      else none

/-! ## calm runs -/

/-- the notification will not arrive any more, and the Worker does not own its generation -/
def settled (s : ShmConnection S W) (k : Nat) : Bool :=
  match s.rpcs[k]? with
  | none => true
  | some rpc => rpc.delivery ≠ .inFlight &&
      s.session.activeAt rpc.request.slotIndex ≠ some rpc.request.generation

/-- an RPC fails, or a call that waits out an earlier interruption is cancelled again, only while no
thread copies and the notification is settled -/
def calm (s : ShmConnection S W) : ShmConnectionStep S W → Bool
  | .cancel c =>
    match (s.calls[c]?).map ShmCall.phase with
    | some (.copying _ j true) => (s.jobs[j]?).all fun job => !job.progress.writing
    | some (.calling _ k true) => s.settled k
    | _ => true
  | .fail c =>
    match (s.calls[c]?).map ShmCall.phase with
    | some (.calling _ k _) => s.settled k
    | _ => true
  | _ => true

/-! ## who uses a slot -/

/-- what a call waits for -/
inductive SlotUse where
  | copy (job : Nat)
  | notify (rpc : Nat)

def useOf : CallPhase → Option (Nat × SlotUse)
  | .copying slot j _ => some (slot, .copy j)
  | .calling slot k _ => some (slot, .notify k)
  | .acquiring | .receiving _ _ | .ended => none

def slotAt (calls : List (ShmCall S W)) (c : Nat) : Option Nat :=
  calls[c]?.bind fun call => call.phase.slot

def useAt (calls : List (ShmCall S W)) (c : Nat) : Option (Nat × SlotUse) :=
  calls[c]?.bind fun call => useOf call.phase

/-- a copy that is not finished, or a notification under way or in the hands of the Worker -/
def Needed (s : ShmConnection S W) : SlotUse → Prop
  | .copy j => ∃ job, s.jobs[j]? = some job ∧ ∀ g, job.progress ≠ .finished g
  | .notify k => (∃ rpc, s.rpcs[k]? = some rpc ∧ rpc.delivery = .inFlight) ∨
      ∃ (n : Nat) (item : WorkerItem W), s.items[n]? = some item ∧ item.phase ≠ .released ∧
        item.rpc = k

/-- the slot of an item of the Worker holds what the claim validated, and the call that notified
the Worker still waits -/
structure Working (s : ShmConnection S W) (item : WorkerItem W) : Prop where
  rpc : ∃ rpc, s.rpcs[item.rpc]? = some rpc ∧ rpc.request.slotIndex = item.slotIndex ∧
    rpc.request.generation = item.generation ∧ rpc.delivery ≠ .inFlight ∧ rpc.answer = none
  caller : ∃ c, useAt s.calls c = some (item.slotIndex, .notify item.rpc)
  active : s.session.activeAt item.slotIndex = some item.generation
  routing : s.routingOf item.slotIndex item.tokenCount = item.validated

structure Inv (s : ShmConnection S W) : Prop where
  pool : s.available.Nodup
  held : ∀ c i, slotAt s.calls c = some i → i ∉ s.available
  sole : ∀ c c' i, slotAt s.calls c = some i → slotAt s.calls c' = some i → c = c'
  jobs : ∀ (j : Nat) (job : CopyJob S W), s.jobs[j]? = some job →
    (∀ g, job.progress ≠ .finished g) → useAt s.calls job.call = some (job.slot, .copy j)
  flights : ∀ (k : Nat) (rpc : ShmRpc), s.rpcs[k]? = some rpc → rpc.delivery = .inFlight →
    rpc.answer = none ∧ ∃ c, useAt s.calls c = some (rpc.request.slotIndex, .notify k)
  known : ∀ c i k, useAt s.calls c = some (i, .notify k) →
    ∃ rpc, s.rpcs[k]? = some rpc ∧ rpc.request.slotIndex = i
  items : ∀ (n : Nat) (item : WorkerItem W), s.items[n]? = some item → item.phase ≠ .released →
    Working s item
  owner : ∀ i g, s.session.activeAt i = some g → ∃ (n : Nat) (item : WorkerItem W),
    s.items[n]? = some item ∧ item.phase ≠ .released ∧ item.slotIndex = i
  exclusive : ∀ (n m : Nat) (a b : WorkerItem W), s.items[n]? = some a → s.items[m]? = some b →
    a.phase ≠ .released → b.phase ≠ .released → a.slotIndex = b.slotIndex → n = m
  executed : ∀ (n : Nat) (item : WorkerItem W) (routing : SlotRouting W),
    s.items[n]? = some item → item.executed = some routing → routing = item.validated
  landed : ∀ (n : Nat) (item : WorkerItem W), s.items[n]? = some item →
    ∃ rpc, s.rpcs[item.rpc]? = some rpc ∧ rpc.delivery ≠ .inFlight
  notified : ∀ (n m : Nat) (a b : WorkerItem W), s.items[n]? = some a → s.items[m]? = some b →
    a.rpc = b.rpc → n = m
  conflicts : s.conflicts = []

theorem slot_of_use {phase : CallPhase} {i : Nat} {u : SlotUse}
    (h : useOf phase = some (i, u)) : phase.slot = some i := by
  cases phase <;> cases h <;> rfl

theorem slotAt_of_useAt {calls : List (ShmCall S W)} {c i : Nat} {u : SlotUse}
    (h : useAt calls c = some (i, u)) : slotAt calls c = some i := by
  obtain ⟨call, hc, hu⟩ := Option.bind_eq_some_iff.mp h
  exact Option.bind_eq_some_iff.mpr ⟨call, hc, slot_of_use hu⟩

theorem slotAt_of {calls : List (ShmCall S W)} {c : Nat} {call : ShmCall S W}
    (h : calls[c]? = some call) : slotAt calls c = call.phase.slot := by
  unfold slotAt
  rw [h]
  rfl

theorem useAt_of {calls : List (ShmCall S W)} {c : Nat} {call : ShmCall S W}
    (h : calls[c]? = some call) : useAt calls c = useOf call.phase := by
  unfold useAt
  rw [h]
  rfl

theorem slotAt_set {calls : List (ShmCall S W)} {c : Nat} {call : ShmCall S W}
    (h : calls[c]? = some call) (call' : ShmCall S W) (d : Nat) :
    slotAt (calls.set c call') d = if c = d then call'.phase.slot else slotAt calls d := by
  have hlt : c < calls.length := (List.getElem?_eq_some_iff.mp h).1
  by_cases hd : c = d
  · subst hd
    rw [if_pos rfl, slotAt_of (List.getElem?_set_self hlt)]
  · unfold slotAt
    rw [if_neg hd, List.getElem?_set_ne hd]

theorem useAt_set {calls : List (ShmCall S W)} {c : Nat} {call : ShmCall S W}
    (h : calls[c]? = some call) (call' : ShmCall S W) (d : Nat) :
    useAt (calls.set c call') d = if c = d then useOf call'.phase else useAt calls d := by
  have hlt : c < calls.length := (List.getElem?_eq_some_iff.mp h).1
  by_cases hd : c = d
  · subst hd
    rw [if_pos rfl, useAt_of (List.getElem?_set_self hlt)]
  · unfold useAt
    rw [if_neg hd, List.getElem?_set_ne hd]

theorem inv_new (spec : WorkerEndpointConfig) (topK : Nat) (sessionId : String)
    (slotCount : Nat) : Inv (.new spec topK sessionId slotCount : ShmConnection S W) := by
  have hidle : ∀ i, (WorkerSharedMemorySession.new sessionId slotCount).activeAt i = none := by
    intro i
    unfold WorkerSharedMemorySession.activeAt WorkerSharedMemorySession.new
    rw [List.getElem?_replicate]
    split_ifs <;> rfl
  refine ⟨List.nodup_range, nofun, nofun, nofun, nofun, nofun, nofun, fun i g hg => ?_, nofun,
    nofun, nofun, nofun, rfl⟩
  rw [show (ShmConnection.new spec topK sessionId slotCount : ShmConnection S W).session.activeAt i
    = none from hidle i] at hg
  cases hg

section
variable {s : ShmConnection S W}

/-- a call changes its phase: needed uses stay, and slots are only given up -/
theorem Inv.setCalls (h : Inv s) {calls : List (ShmCall S W)} {available : List Nat}
    (hpool : available.Nodup) (hheld : ∀ c i, slotAt calls c = some i → i ∉ available)
    (hslots : ∀ c i, slotAt calls c = some i → slotAt s.calls c = some i)
    (huses : ∀ c i u, useAt s.calls c = some (i, u) → Needed s u →
      useAt calls c = some (i, u))
    (hknown : ∀ c i u, useAt calls c = some (i, u) → useAt s.calls c = some (i, u)) :
    Inv { s with calls, available } := by
  refine ⟨hpool, hheld, fun c c' i h1 h2 => h.sole c c' i (hslots c i h1) (hslots c' i h2),
    fun j job hj hrun => huses _ _ _ (h.jobs j job hj hrun) ⟨job, hj, hrun⟩,
    fun k rpc hk hflight => ?_, fun c i k hu => h.known c i k (hknown c i _ hu),
    fun n item hn hphase => ?_, h.owner, h.exclusive, h.executed, h.landed, h.notified, h.conflicts⟩
  · obtain ⟨hanswer, c, hu⟩ := h.flights k rpc hk hflight
    exact ⟨hanswer, c, huses _ _ _ hu (.inl ⟨rpc, hk, hflight⟩)⟩
  · obtain ⟨hrpc, ⟨c, hu⟩, hactive, hrouting⟩ := h.items n item hn hphase
    exact ⟨hrpc, ⟨c, huses _ _ _ hu (.inr ⟨n, item, hn, hphase, rfl⟩)⟩, hactive, hrouting⟩

/-- a call that keeps its slot and its use -/
theorem Inv.setPhase (h : Inv s) {c : Nat} {call : ShmCall S W} (hc : s.calls[c]? = some call)
    {phase : CallPhase} (hslot : phase.slot = call.phase.slot)
    (huse : useOf phase = useOf call.phase ∨
      (useOf phase = none ∧ ∀ i u, useOf call.phase = some (i, u) → ¬ Needed s u)) :
    Inv (s.setPhase c call phase) := by
  have hslots : ∀ d, slotAt (s.calls.set c { call with phase }) d = slotAt s.calls d := by
    intro d
    rw [slotAt_set hc]
    split_ifs with hd
    · subst hd
      rw [slotAt_of hc, ← hslot]
    · rfl
  refine h.setCalls h.pool (fun d i hd => ?_) (fun d i hd => ?_) (fun d i u hd hneed => ?_)
    (fun d i u hd => ?_)
  · rw [hslots] at hd
    exact h.held d i hd
  · rw [hslots] at hd
    exact hd
  · rw [useAt_set hc]
    split_ifs with hcd
    · subst hcd
      rw [useAt_of hc] at hd
      rcases huse with huse | ⟨_, hfree⟩
      · rw [← hd, ← huse]
      · exact absurd hneed (hfree i u hd)
    · exact hd
  · rw [useAt_set hc] at hd
    split_ifs at hd with hcd
    · subst hcd
      rw [useAt_of hc]
      rcases huse with huse | ⟨hnone, _⟩
      · rw [← huse]
        exact hd
      · exact absurd (hnone.symm.trans hd) nofun
    · exact hd

/-- a call ends and gives back a slot that nothing needs -/
theorem Inv.put (h : Inv s) {c : Nat} {call call' : ShmCall S W} (hc : s.calls[c]? = some call)
    {slot : Nat} (hslot : call.phase.slot = some slot)
    (hfree : ∀ i u, useOf call.phase = some (i, u) → ¬ Needed s u) :
    Inv (s.put c call' slot) := by
  have hslotAt : slotAt s.calls c = some slot := (slotAt_of hc).trans hslot
  refine h.setCalls ?_ (fun d i hd => ?_) (fun d i hd => ?_) (fun d i u hd hneed => ?_)
    (fun d i u hd => ?_)
  · show (s.available ++ [slot]).Nodup
    rw [List.nodup_append_comm]
    exact List.nodup_cons.mpr ⟨h.held c slot hslotAt, h.pool⟩
  · have hd := hd
    rw [show slotAt ((s.setPhase c call' .ended).calls) d = _ from slotAt_set hc _ d] at hd
    split_ifs at hd with hcd
    · cases hd
    · rw [List.mem_append, List.mem_singleton, not_or]
      refine ⟨h.held d i hd, ?_⟩
      rintro rfl
      exact hcd (h.sole c d i hslotAt hd)
  · rw [show slotAt ((s.setPhase c call' .ended).calls) d = _ from slotAt_set hc _ d] at hd
    split_ifs at hd with hcd
    · cases hd
    · exact hd
  · rw [show useAt ((s.setPhase c call' .ended).calls) d = _ from useAt_set hc _ d]
    split_ifs with hcd
    · subst hcd
      rw [useAt_of hc] at hd
      exact absurd hneed (hfree i u hd)
    · exact hd
  · rw [show useAt ((s.setPhase c call' .ended).calls) d = _ from useAt_set hc _ d] at hd
    split_ifs at hd with hcd
    · cases hd
    · exact hd

/-- a new call has no slot -/
theorem Inv.execute (h : Inv s) (batch : ShmBatch S W) :
    Inv { s with calls := s.calls ++ [⟨batch, .acquiring, none⟩] } := by
  have hlast : ∀ c (call : ShmCall S W), (s.calls ++ [⟨batch, .acquiring, none⟩])[c]? = some call →
      (c = s.calls.length ∧ call = ⟨batch, .acquiring, none⟩) ∨ s.calls[c]? = some call := by
    intro c call hc
    rcases Ledger.getElem?_concat_cases hc with hnew | ⟨_, hold⟩
    · exact .inl hnew
    · exact .inr hold
  have hslots : ∀ c i, slotAt (s.calls ++ [⟨batch, .acquiring, none⟩]) c = some i →
      slotAt s.calls c = some i := by
    intro c i hc
    obtain ⟨call, hcall, hslot⟩ := Option.bind_eq_some_iff.mp hc
    rcases hlast c call hcall with ⟨_, rfl⟩ | hold
    · cases hslot
    · rw [slotAt_of hold, hslot]
  refine h.setCalls h.pool (fun c i hc => h.held c i (hslots c i hc)) hslots
    (fun c i u hc _ => ?_) (fun c i u hc => ?_)
  · obtain ⟨call, hcall, huse⟩ := Option.bind_eq_some_iff.mp hc
    have hlt : c < s.calls.length := (List.getElem?_eq_some_iff.mp hcall).1
    have hcall' : (s.calls ++ [⟨batch, .acquiring, none⟩])[c]? = some call := by
      rw [List.getElem?_append_left hlt, hcall]
    rw [useAt_of hcall', huse]
  · obtain ⟨call, hcall, huse⟩ := Option.bind_eq_some_iff.mp hc
    rcases hlast c call hcall with ⟨_, rfl⟩ | hold
    · cases huse
    · rw [useAt_of hold, huse]

/-- a call takes the slot that was returned last -/
theorem Inv.acquire (h : Inv s) {c : Nat} {call : ShmCall S W} (hc : s.calls[c]? = some call)
    (hphase : call.phase = .acquiring) {outputValid : Bool} {s' : ShmConnection S W}
    (hs : s.acquire c call outputValid = some s') : Inv s' := by
  unfold ShmConnection.acquire at hs
  split at hs
  · cases hs
  · rename_i slot hlast
    split_ifs at hs
    · cases hs
      obtain ⟨front, hfront⟩ := List.getLast?_eq_some_iff.mp hlast
      have hpool := h.pool
      rw [hfront] at hpool
      obtain ⟨hnodup, _, hout⟩ := List.nodup_append.mp hpool
      have hslot : slot ∉ front := fun hmem => hout slot hmem slot (List.mem_singleton_self _) rfl
      have hdrop : s.available.dropLast = front := by rw [hfront, List.dropLast_concat]
      have hfree : ∀ d, slotAt s.calls d ≠ some slot := by
        intro d hd
        refine h.held d slot hd ?_
        rw [hfront]
        exact List.mem_append_right _ (List.mem_singleton_self _)
      have hslots := slotAt_set hc { call with phase := .copying slot s.jobs.length false }
      have huses := useAt_set hc { call with phase := .copying slot s.jobs.length false }
      have hkeep : ∀ d i u, useAt s.calls d = some (i, u) →
          useAt (s.calls.set c { call with phase := .copying slot s.jobs.length false }) d
            = some (i, u) := by
        intro d i u hd
        rw [huses, if_neg, hd]
        rintro rfl
        rw [useAt_of hc, hphase] at hd
        cases hd
      refine ⟨?_, fun d i hd => ?_, fun d d' i hd hd' => ?_, fun j job hj hrun => ?_,
        fun k rpc hk hflight => ?_, fun d i k hd => ?_, fun n item hn hp => ?_, h.owner,
        h.exclusive, h.executed, h.landed, h.notified, h.conflicts⟩
      · show s.available.dropLast.Nodup
        rw [hdrop]
        exact hnodup
      · show i ∉ s.available.dropLast
        rw [hdrop]
        have hd := (hslots d).symm.trans hd
        split_ifs at hd with hcd
        · cases hd
          exact hslot
        · intro hmem
          refine h.held d i hd ?_
          rw [hfront]
          exact List.mem_append_left _ hmem
      · have hd := (hslots d).symm.trans hd
        have hd' := (hslots d').symm.trans hd'
        split_ifs at hd with hcd
        · split_ifs at hd' with hcd'
          · rw [← hcd, ← hcd']
          · cases hd
            exact absurd hd' (hfree d')
        · split_ifs at hd' with hcd'
          · cases hd'
            exact absurd hd (hfree d)
          · exact h.sole d d' i hd hd'
      · rcases Ledger.getElem?_concat_cases hj with ⟨rfl, rfl⟩ | ⟨_, hold⟩
        · exact (huses c).trans (if_pos rfl)
        · exact hkeep _ _ _ (h.jobs j job hold hrun)
      · obtain ⟨hanswer, d, hd⟩ := h.flights k rpc hk hflight
        exact ⟨hanswer, d, hkeep _ _ _ hd⟩
      · have hd := (huses d).symm.trans hd
        split_ifs at hd
        · cases hd
        · exact h.known d i k hd
      · obtain ⟨hrpc, ⟨d, hd⟩, hactive, hrouting⟩ := h.items n item hn hp
        exact ⟨hrpc, ⟨d, hkeep _ _ _ hd⟩, hactive, hrouting⟩
    · cases hs
      refine h.setPhase hc ?_ (.inl ?_)
      · rw [hphase]
        rfl
      · rw [hphase]
        rfl

/-! ## the copy -/

/-- a thread goes on; it does not start again -/
theorem Inv.setProgress (h : Inv s) {j : Nat} {job : CopyJob S W} (hj : s.jobs[j]? = some job)
    {progress : CopyProgress}
    (hrun : (∀ g, progress ≠ .finished g) → ∀ g, job.progress ≠ .finished g) :
    Inv (s.setProgress j job progress) := by
  refine ⟨h.pool, h.held, h.sole, fun i x hx hx' => ?_, h.flights, h.known,
    fun n item hn hp => ?_, h.owner, h.exclusive, h.executed, h.landed, h.notified, h.conflicts⟩
  · rcases Ledger.getElem?_set_cases hx with ⟨rfl, rfl⟩ | ⟨_, hold⟩
    · exact h.jobs _ job hj (hrun hx')
    · exact h.jobs i x hold hx'
  · obtain ⟨hrpc, hcaller, hactive, hrouting⟩ := h.items n item hn hp
    exact ⟨hrpc, hcaller, hactive, hrouting⟩

theorem Inv.setGenerations (h : Inv s) (generations : List Nat) :
    Inv { s with generations } :=
  ⟨h.pool, h.held, h.sole, h.jobs, h.flights, h.known, fun n item hn hp =>
    ⟨(h.items n item hn hp).rpc, (h.items n item hn hp).caller, (h.items n item hn hp).active,
      (h.items n item hn hp).routing⟩, h.owner, h.exclusive, h.executed, h.landed, h.notified,
    h.conflicts⟩

theorem Inv.startCopy (h : Inv s) {j : Nat} {job : CopyJob S W} (hj : s.jobs[j]? = some job)
    (hqueued : job.progress = .queued) : Inv (s.startCopy j job) := by
  have hrun : ∀ g, job.progress ≠ .finished g := by
    intro g hg
    rw [hqueued] at hg
    cases hg
  have hraised := h.setGenerations
    (s.generations.set job.slot (s.generations.getD job.slot 0 + 1))
  unfold ShmConnection.startCopy
  simp only
  split_ifs
  · exact h.setProgress hj fun _ => hrun
  · exact hraised.setProgress hj fun _ => hrun
  · exact hraised.setProgress hj fun _ => hrun

theorem routingOf_modify {slot i : Nat} (hne : slot ≠ i) (f : SlotMemory S W → SlotMemory S W)
    (tokenCount : Nat) :
    { s with memory := s.memory.modify slot f }.routingOf i tokenCount
      = s.routingOf i tokenCount := by
  unfold routingOf
  simp only
  rw [List.getElem?_modify_ne _ _ hne]

theorem routingOf_output (slot i tokenCount : Nat) {rows : List S} :
    { s with memory := s.memory.modify slot fun m =>
      { m with partialOutput := overlay rows m.partialOutput } }.routingOf i tokenCount
      = s.routingOf i tokenCount := by
  unfold routingOf
  simp only
  rw [List.getElem?_modify]
  split_ifs
  · cases s.memory[i]? <;> rfl
  · cases s.memory[i]? <;> rfl

/-- a slot that a thread writes is not active -/
theorem Inv.copying_free (h : Inv s) {j : Nat} {job : CopyJob S W} (hj : s.jobs[j]? = some job)
    (hrun : ∀ g, job.progress ≠ .finished g) {n : Nat} {item : WorkerItem W}
    (hn : s.items[n]? = some item) (hp : item.phase ≠ .released) : job.slot ≠ item.slotIndex := by
  intro heq
  have hcopy := h.jobs j job hj hrun
  obtain ⟨c, hc⟩ := (h.items n item hn hp).caller
  rw [← heq] at hc
  have hsame := h.sole _ _ _ (slotAt_of_useAt hcopy) (slotAt_of_useAt hc)
  rw [hsame, hc] at hcopy
  cases hcopy

theorem Inv.writeCopy (h : Inv s) {j : Nat} {job : CopyJob S W} (hj : s.jobs[j]? = some job)
    (hwriting : job.progress.writing = true) : Inv (s.writeCopy j job) := by
  have hrun : ∀ g, job.progress ≠ .finished g := by
    intro g hg
    rw [hg] at hwriting
    cases hwriting
  have hfree : s.session.activeAt job.slot = none := by
    cases ha : s.session.activeAt job.slot with
    | none => rfl
    | some g =>
      obtain ⟨n, item, hn, hp, heq⟩ := h.owner _ _ ha
      exact absurd heq.symm (h.copying_free hj hrun hn hp)
  unfold ShmConnection.writeCopy
  rw [hfree]
  have hwritten : Inv { s with memory := s.memory.modify job.slot (write job) } := by
    refine ⟨h.pool, h.held, h.sole, h.jobs, h.flights, h.known, fun n item hn hp => ?_, h.owner,
      h.exclusive, h.executed, h.landed, h.notified, h.conflicts⟩
    obtain ⟨hrpc, hcaller, hactive, hrouting⟩ := h.items n item hn hp
    exact ⟨hrpc, hcaller, hactive,
      (routingOf_modify (h.copying_free hj hrun hn hp) _ _).trans hrouting⟩
  exact hwritten.setProgress hj fun _ => hrun

/-! ## the calls -/

/-- a copied request is sent -/
theorem Inv.send (h : Inv s) {c : Nat} {call : ShmCall S W} (hc : s.calls[c]? = some call)
    {slot j : Nat} {b : Bool} (hphase : call.phase = .copying slot j b)
    (hdone : ¬ Needed s (.copy j)) {request : ExecuteSlot} (hslot : request.slotIndex = slot) :
    Inv { s.setPhase c call (.calling slot s.rpcs.length false) with
      rpcs := s.rpcs ++ [⟨request, .inFlight, none⟩] } := by
  have hslots := slotAt_set hc { call with phase := .calling slot s.rpcs.length false }
  have huses := useAt_set hc { call with phase := .calling slot s.rpcs.length false }
  have hsame : ∀ d, slotAt (s.calls.set c
      { call with phase := .calling slot s.rpcs.length false }) d = slotAt s.calls d := by
    intro d
    rw [hslots]
    split_ifs with hcd
    · subst hcd
      rw [slotAt_of hc, hphase]
      rfl
    · rfl
  have hkeep : ∀ d i u, useAt s.calls d = some (i, u) → Needed s u →
      useAt (s.calls.set c { call with phase := .calling slot s.rpcs.length false }) d
        = some (i, u) := by
    intro d i u hd hneed
    rw [huses, if_neg, hd]
    rintro rfl
    rw [useAt_of hc, hphase] at hd
    cases hd
    exact hdone hneed
  have hold : ∀ (k : Nat) (rpc : ShmRpc), s.rpcs[k]? = some rpc →
      (s.rpcs ++ [⟨request, .inFlight, none⟩])[k]? = some rpc := by
    intro k rpc hk
    rw [List.getElem?_append_left (List.getElem?_eq_some_iff.mp hk).1, hk]
  refine ⟨h.pool, fun d i hd => ?_, fun d d' i hd hd' => ?_, fun i job hi hrun => ?_,
    fun k rpc hk hflight => ?_, fun d i k hd => ?_, fun n item hn hp => ?_, h.owner,
    h.exclusive, h.executed, fun n item hn => ?_, h.notified, h.conflicts⟩
  · exact h.held d i ((hsame d).symm.trans hd)
  · exact h.sole d d' i ((hsame d).symm.trans hd) ((hsame d').symm.trans hd')
  · exact hkeep _ _ _ (h.jobs i job hi hrun) ⟨job, hi, hrun⟩
  · rcases Ledger.getElem?_concat_cases hk with ⟨rfl, rfl⟩ | ⟨_, hk⟩
    · refine ⟨rfl, c, ?_⟩
      rw [show request.slotIndex = slot from hslot]
      exact (huses c).trans (if_pos rfl)
    · obtain ⟨hanswer, d, hd⟩ := h.flights k rpc hk hflight
      exact ⟨hanswer, d, hkeep _ _ _ hd (.inl ⟨rpc, hk, hflight⟩)⟩
  · have hd := (huses d).symm.trans hd
    split_ifs at hd with hcd
    · cases hd
      exact ⟨_, List.getElem?_concat_length, hslot⟩
    · obtain ⟨rpc, hk, heq⟩ := h.known d i k hd
      exact ⟨rpc, hold k rpc hk, heq⟩
  · obtain ⟨⟨rpc, hk, hrest⟩, ⟨d, hd⟩, hactive, hrouting⟩ := h.items n item hn hp
    exact ⟨⟨rpc, hold _ rpc hk, hrest⟩, ⟨d, hkeep _ _ _ hd (.inr ⟨n, item, hn, hp, rfl⟩)⟩,
      hactive, hrouting⟩
  · obtain ⟨rpc, hk, hdelivery⟩ := h.landed n item hn
    exact ⟨rpc, hold _ rpc hk, hdelivery⟩

theorem Inv.copied (h : Inv s) {c : Nat} {call : ShmCall S W} (hc : s.calls[c]? = some call)
    {slot j : Nat} {interrupted : Bool} (hphase : call.phase = .copying slot j interrupted)
    {generation : Option Nat}
    (hjob : s.jobs[j]?.map CopyJob.progress = some (.finished generation)) (expired : Bool)
    (timeoutMicros : Nat) :
    Inv (s.copied c call slot interrupted generation expired timeoutMicros) := by
  have hdone : ¬ Needed s (.copy j) := by
    rintro ⟨job, hj, hrun⟩
    rw [hj] at hjob
    exact hrun generation (Option.some.inj hjob)
  have hslot : call.phase.slot = some slot := by
    rw [hphase]
    rfl
  have hfree : ∀ i u, useOf call.phase = some (i, u) → ¬ Needed s u := by
    intro i u hu
    rw [hphase] at hu
    cases hu
    exact hdone
  unfold ShmConnection.copied
  split
  · exact h.put hc hslot hfree
  · split_ifs
    · exact h.put hc hslot hfree
    · exact h.send hc hphase hdone rfl

/-- a settled notification needs its slot no more -/
theorem Inv.settled_free (h : Inv s) {k : Nat} (hs : s.settled k = true) :
    ¬ Needed s (.notify k) := by
  unfold settled at hs
  rintro (⟨rpc, hk, hflight⟩ | ⟨n, item, hn, hp, rfl⟩)
  · rw [hk] at hs
    simp [hflight] at hs
  · obtain ⟨⟨rpc, hk, hslot, hgen, _⟩, _, hactive, _⟩ := h.items n item hn hp
    rw [hk] at hs
    simp only [hslot, hgen, hactive] at hs
    simp at hs

/-- an answered notification needs its slot no more -/
theorem Inv.answered_free (h : Inv s) {k : Nat} {rpc : ShmRpc} (hk : s.rpcs[k]? = some rpc)
    (hanswer : rpc.answer ≠ none) : ¬ Needed s (.notify k) := by
  rintro (⟨rpc', hk', hflight⟩ | ⟨n, item, hn, hp, rfl⟩)
  · rw [hk] at hk'
    cases hk'
    exact hanswer (h.flights k rpc hk hflight).1
  · obtain ⟨⟨rpc', hk', _, _, _, hnone⟩, _⟩ := h.items n item hn hp
    rw [hk] at hk'
    cases hk'
    exact hanswer hnone

theorem Inv.cancel (h : Inv s) {c : Nat} {call : ShmCall S W} (hc : s.calls[c]? = some call)
    (hcalm : s.calm (.cancel c) = true) {s' : ShmConnection S W}
    (hs : s.cancel c call = some s') : Inv s' := by
  unfold ShmConnection.cancel at hs
  unfold calm at hcalm
  simp only [hc, Option.map_some] at hcalm
  split at hs
  case h_1 hphase =>
    cases hs
    refine h.setPhase hc ?_ (.inl ?_)
    · rw [hphase]
      rfl
    · rw [hphase]
      rfl
  case h_2 slot j hphase =>
    cases hs
    refine h.setPhase hc ?_ (.inl ?_)
    · rw [hphase]
      rfl
    · rw [hphase]
      rfl
  case h_3 slot j hphase =>
    rw [hphase] at hcalm
    split at hs
    · cases hs
    · rename_i job hj
      have hslot : call.phase.slot = some slot := by
        rw [hphase]
        rfl
      split_ifs at hs with hqueued
      · cases hs
        have hrun : ∀ g, job.progress ≠ .finished g := by
          intro g hg
          rw [hqueued] at hg
          cases hg
        have hstopped : Inv (s.setProgress j job (.finished none)) :=
          h.setProgress hj fun _ => hrun
        refine hstopped.put hc hslot ?_
        intro i u hu
        rw [hphase] at hu
        cases hu
        rintro ⟨job', hj', hrun'⟩
        have hlt : j < s.jobs.length := (List.getElem?_eq_some_iff.mp hj).1
        have hset := (List.getElem?_set_self hlt).symm.trans hj'
        cases hset
        exact hrun' none rfl
      · cases hs
        refine h.put hc hslot ?_
        intro i u hu
        rw [hphase] at hu
        cases hu
        rintro ⟨job', hj', hrun'⟩
        rw [hj] at hj'
        cases hj'
        simp only [hj, Option.all_some, Bool.not_eq_true'] at hcalm
        cases hprogress : job.progress with
        | queued => exact hqueued hprogress
        | finished g => exact hrun' g hprogress
        | hiddenStates | expertIds | routingWeights =>
          rw [hprogress] at hcalm
          cases hcalm
  case h_4 slot k hphase =>
    cases hs
    refine h.setPhase hc ?_ (.inl ?_)
    · rw [hphase]
      rfl
    · rw [hphase]
      rfl
  case h_5 slot k hphase =>
    cases hs
    rw [hphase] at hcalm
    refine h.put hc (by rw [hphase]; rfl) ?_
    intro i u hu
    rw [hphase] at hu
    cases hu
    exact h.settled_free hcalm
  case h_6 slot hphase =>
    cases hs
    refine h.setPhase hc ?_ (.inl ?_)
    · rw [hphase]
      rfl
    · rw [hphase]
      rfl
  case h_7 slot hphase =>
    cases hs
    refine h.put hc (by rw [hphase]; rfl) ?_
    intro i u hu
    rw [hphase] at hu
    cases hu
  case h_8 => cases hs

/-! ## the Worker -/

/-- a notification leaves the network -/
theorem Inv.setRpc (h : Inv s) {k : Nat} {rpc rpc' : ShmRpc} (hk : s.rpcs[k]? = some rpc)
    (hflight : rpc.delivery = .inFlight) (hrequest : rpc'.request = rpc.request)
    (hlanded : rpc'.delivery ≠ .inFlight) : Inv (s.setRpc k rpc') := by
  have hlt : k < s.rpcs.length := (List.getElem?_eq_some_iff.mp hk).1
  refine ⟨h.pool, h.held, h.sole, h.jobs, fun i x hx hx' => ?_, fun c i m hu => ?_,
    fun n item hn hp => ?_, h.owner, h.exclusive, h.executed, fun n item hn => ?_, h.notified,
    h.conflicts⟩
  · rcases Ledger.getElem?_set_cases hx with ⟨rfl, rfl⟩ | ⟨_, hold⟩
    · exact absurd hx' hlanded
    · exact h.flights i x hold hx'
  · obtain ⟨x, hx, heq⟩ := h.known c i m hu
    by_cases hm : k = m
    · subst hm
      rw [hk] at hx
      cases hx
      exact ⟨rpc', List.getElem?_set_self hlt, by rw [hrequest, heq]⟩
    · exact ⟨x, (List.getElem?_set_ne hm).trans hx, heq⟩
  · obtain ⟨⟨x, hx, hslot, hgen, hdelivery, hnone⟩, hcaller, hactive, hrouting⟩ :=
      h.items n item hn hp
    have hm : k ≠ item.rpc := by
      rintro rfl
      rw [hk] at hx
      cases hx
      exact hdelivery hflight
    exact ⟨⟨x, (List.getElem?_set_ne hm).trans hx, hslot, hgen, hdelivery, hnone⟩, hcaller,
      hactive, hrouting⟩
  · obtain ⟨x, hx, hdelivery⟩ := h.landed n item hn
    by_cases hm : k = item.rpc
    · subst hm
      exact ⟨rpc', List.getElem?_set_self hlt, hlanded⟩
    · exact ⟨x, (List.getElem?_set_ne hm).trans hx, hdelivery⟩

theorem Inv.setSession (h : Inv s) {session : WorkerSharedMemorySession}
    (hsame : ∀ i, session.activeAt i = s.session.activeAt i) : Inv { s with session } := by
  refine ⟨h.pool, h.held, h.sole, h.jobs, h.flights, h.known, fun n item hn hp => ?_,
    fun i g hg => h.owner i g ((hsame i).symm.trans hg), h.exclusive, h.executed, h.landed,
    h.notified, h.conflicts⟩
  obtain ⟨hrpc, hcaller, hactive, hrouting⟩ := h.items n item hn hp
  exact ⟨hrpc, hcaller, (hsame _).trans hactive, hrouting⟩

/-- the item of a claimed slot -/
theorem Inv.admitRpc (h : Inv s) {k : Nat} {rpc : ShmRpc} (hk : s.rpcs[k]? = some rpc)
    (hflight : rpc.delivery = .inFlight) {slot : SlotState}
    (hs : s.session.slots[rpc.request.slotIndex]? = some slot) (hfree : slot.active = none) :
    Inv { s.setRpc k { rpc with delivery := .arrived } with
      session := s.session.own rpc.request.slotIndex rpc.request.generation
      items := s.items ++ [⟨k, rpc.request.slotIndex, rpc.request.generation,
        rpc.request.tokenCount, .waiting,
        s.routingOf rpc.request.slotIndex rpc.request.tokenCount, none, none⟩] } := by
  have hlt : k < s.rpcs.length := (List.getElem?_eq_some_iff.mp hk).1
  obtain ⟨hnone, c, hc⟩ := h.flights k rpc hk hflight
  have hrpc : Inv (s.setRpc k { rpc with delivery := .arrived }) :=
    h.setRpc hk hflight rfl nofun
  have hactive : ∀ i, (s.session.own rpc.request.slotIndex rpc.request.generation).activeAt i
      = if rpc.request.slotIndex = i then some rpc.request.generation
        else s.session.activeAt i :=
    WorkerSharedMemorySession.activeAt_set hs ⟨some rpc.request.generation, _⟩ _
  have hidle : s.session.activeAt rpc.request.slotIndex = none := by
    rw [s.session.activeAt_of hs, hfree]
  have hother : ∀ (n : Nat) (item : WorkerItem W), s.items[n]? = some item →
      item.phase ≠ .released → rpc.request.slotIndex ≠ item.slotIndex := by
    intro n item hn hp heq
    have ha := (h.items n item hn hp).active
    rw [← heq, hidle] at ha
    cases ha
  refine ⟨h.pool, h.held, h.sole, h.jobs, hrpc.flights, hrpc.known, fun n item hn hp => ?_,
    fun i g hg => ?_, fun n m a b hn hm ha hb heq => ?_, fun n item routing hn he => ?_,
    fun n item hn => ?_, fun n m a b hn hm heq => ?_, h.conflicts⟩
  · rcases Ledger.getElem?_concat_cases hn with ⟨rfl, rfl⟩ | ⟨_, hold⟩
    · exact ⟨⟨_, List.getElem?_set_self hlt, rfl, rfl, nofun, hnone⟩, ⟨c, hc⟩,
        (hactive _).trans (if_pos rfl), rfl⟩
    · obtain ⟨hr, hcaller, ha, hrouting⟩ := hrpc.items n item hold hp
      exact ⟨hr, hcaller, ((hactive _).trans (if_neg (hother n item hold hp))).trans ha, hrouting⟩
  · have hg := (hactive i).symm.trans hg
    split_ifs at hg with heq
    · exact ⟨_, _, List.getElem?_concat_length, nofun, heq⟩
    · obtain ⟨n, item, hn, hp, hi⟩ := h.owner i g hg
      exact ⟨n, item, by
        show (s.items ++ [_])[n]? = some item
        rw [List.getElem?_append_left (List.getElem?_eq_some_iff.mp hn).1, hn], hp, hi⟩
  · rcases Ledger.getElem?_concat_cases hn with ⟨rfl, rfl⟩ | ⟨_, hn⟩
    · rcases Ledger.getElem?_concat_cases hm with ⟨rfl, rfl⟩ | ⟨_, hm⟩
      · rfl
      · exact absurd heq (hother m b hm hb)
    · rcases Ledger.getElem?_concat_cases hm with ⟨rfl, rfl⟩ | ⟨_, hm⟩
      · exact absurd heq.symm (hother n a hn ha)
      · exact h.exclusive n m a b hn hm ha hb heq
  · rcases Ledger.getElem?_concat_cases hn with ⟨rfl, rfl⟩ | ⟨_, hold⟩
    · cases he
    · exact h.executed n item routing hold he
  · rcases Ledger.getElem?_concat_cases hn with ⟨rfl, rfl⟩ | ⟨_, hold⟩
    · exact ⟨_, List.getElem?_set_self hlt, nofun⟩
    · exact hrpc.landed n item hold
  · have hnew : ∀ (m : Nat) (x : WorkerItem W), s.items[m]? = some x → k ≠ x.rpc := by
      rintro m x hx rfl
      obtain ⟨rpc', hk', hdelivery⟩ := h.landed m x hx
      rw [hk] at hk'
      cases hk'
      exact hdelivery hflight
    rcases Ledger.getElem?_concat_cases hn with ⟨rfl, rfl⟩ | ⟨_, hn⟩
    · rcases Ledger.getElem?_concat_cases hm with ⟨rfl, rfl⟩ | ⟨_, hm⟩
      · rfl
      · exact absurd heq (hnew m b hm)
    · rcases Ledger.getElem?_concat_cases hm with ⟨rfl, rfl⟩ | ⟨_, hm⟩
      · exact absurd heq.symm (hnew n a hn)
      · exact h.notified n m a b hn hm heq

theorem Inv.deliver (h : Inv s) {k : Nat} {rpc : ShmRpc} (hk : s.rpcs[k]? = some rpc)
    (hflight : rpc.delivery = .inFlight) (admitted : Bool) : Inv (s.deliver k rpc admitted) := by
  have hrefused : Inv (s.setRpc k { rpc with delivery := .arrived, answer := some .error }) :=
    h.setRpc hk hflight rfl nofun
  unfold ShmConnection.deliver
  simp only
  split
  · exact hrefused
  · rename_i request hdecode
    obtain ⟨rfl, _⟩ := decodeExecuteRequest_ok hdecode
    rcases s.session.claim_cases s.spec rpc.request
      (s.routingOf rpc.request.slotIndex rpc.request.tokenCount) with
      ⟨error, heq, _⟩ | ⟨slot, hopen, hs, hfree, _, hend⟩
    · rw [heq]
      exact hrefused
    · have hidle : s.session.activeAt rpc.request.slotIndex = none := by
        rw [s.session.activeAt_of hs, hfree]
      have hsame : ∀ i, (s.session.withdrawn rpc.request.slotIndex
          rpc.request.generation).activeAt i = s.session.activeAt i := by
        intro i
        refine (WorkerSharedMemorySession.activeAt_set hs ⟨none, _⟩ _ i).trans ?_
        split_ifs with hi
        · rw [← hi, hidle]
        · rfl
      rcases hend with ⟨error, _, heq⟩ | ⟨distinct, _, heq⟩
      · rw [heq]
        exact hrefused.setSession hsame
      · rw [heq]
        simp only
        split_ifs
        · exact h.admitRpc hk hflight hs hfree
        · rw [WorkerSharedMemorySession.own_release hopen hs]
          exact hrefused.setSession hsame

/-- a change of an item that keeps its notification -/
theorem Inv.notified_set (h : Inv s) {n : Nat} {item t : WorkerItem W}
    (hn : s.items[n]? = some item) (hrpc : t.rpc = item.rpc) {m m' : Nat} {a b : WorkerItem W}
    (ha : (s.items.set n t)[m]? = some a) (hb : (s.items.set n t)[m']? = some b)
    (heq : a.rpc = b.rpc) : m = m' := by
  have hback : ∀ (m : Nat) (x : WorkerItem W), (s.items.set n t)[m]? = some x →
      ∃ y : WorkerItem W, s.items[m]? = some y ∧ x.rpc = y.rpc := by
    intro m x hx
    rcases Ledger.getElem?_set_cases hx with ⟨rfl, rfl⟩ | ⟨_, hold⟩
    · exact ⟨item, hn, hrpc⟩
    · exact ⟨x, hold, rfl⟩
  obtain ⟨y, hy, hy'⟩ := hback m a ha
  obtain ⟨z, hz, hz'⟩ := hback m' b hb
  exact h.notified m m' y z hy hz (by rw [← hy', ← hz', heq])

/-- the Worker gives a slot back -/
theorem Inv.release (h : Inv s) {n : Nat} {item : WorkerItem W} (hn : s.items[n]? = some item)
    (hp : item.phase ≠ .released) {response : Option RpcAnswer} {s' : ShmConnection S W}
    (hs : s.release n item response = some s') : Inv s' := by
  unfold ShmConnection.release at hs
  split at hs
  · cases hs
  · rename_i session hrelease
    cases hs
    obtain ⟨_, slot, hslot, _, rfl⟩ := WorkerSharedMemorySession.release_cases hrelease
    have hactive := WorkerSharedMemorySession.activeAt_set hslot { slot with active := none }
      (s.session.history ++ [.released item.slotIndex item.generation])
    have hother : ∀ (m : Nat) (x : WorkerItem W), s.items[m]? = some x → x.phase ≠ .released →
        n ≠ m → item.slotIndex ≠ x.slotIndex :=
      fun m x hx hx' hm heq => hm (h.exclusive n m item x hn hx hp hx' heq)
    refine ⟨h.pool, h.held, h.sole, h.jobs, h.flights, h.known, fun m x hx hx' => ?_,
      fun i g hg => ?_, fun m m' a b ha hb ha' hb' heq => ?_, fun m x routing hx he => ?_,
      fun m x hx => ?_, fun m m' a b ha hb heq => ?_, h.conflicts⟩
    · rcases Ledger.getElem?_set_cases hx with ⟨rfl, rfl⟩ | ⟨hm, hold⟩
      · exact absurd rfl hx'
      · obtain ⟨hrpc, hcaller, ha, hrouting⟩ := h.items m x hold hx'
        exact ⟨hrpc, hcaller,
          ((hactive _).trans (if_neg (hother m x hold hx' hm))).trans ha, hrouting⟩
    · have hg := (hactive i).symm.trans hg
      split_ifs at hg with heq
      obtain ⟨m, x, hx, hx', hi⟩ := h.owner i g hg
      have hm : n ≠ m := by
        rintro rfl
        rw [hn] at hx
        cases hx
        exact heq hi
      exact ⟨m, x, (List.getElem?_set_ne hm).trans hx, hx', hi⟩
    · rcases Ledger.getElem?_set_cases ha with ⟨rfl, rfl⟩ | ⟨_, ha⟩
      · exact absurd rfl ha'
      · rcases Ledger.getElem?_set_cases hb with ⟨rfl, rfl⟩ | ⟨_, hb⟩
        · exact absurd rfl hb'
        · exact h.exclusive m m' a b ha hb ha' hb' heq
    · rcases Ledger.getElem?_set_cases hx with ⟨rfl, rfl⟩ | ⟨_, hold⟩
      · exact h.executed _ item routing hn he
      · exact h.executed m x routing hold he
    · rcases Ledger.getElem?_set_cases hx with ⟨rfl, rfl⟩ | ⟨_, hold⟩
      · exact h.landed _ item hn
      · exact h.landed m x hold
    · exact h.notified_set (t := { item with phase := .released, response }) hn rfl ha hb heq

/-- the answer of a released item reaches its call -/
theorem Inv.answer (h : Inv s) {n : Nat} {item : WorkerItem W} (hn : s.items[n]? = some item)
    (hreleased : item.phase = .released) {rpc : ShmRpc} (hk : s.rpcs[item.rpc]? = some rpc) :
    Inv (s.setRpc item.rpc { rpc with answer := item.response }) := by
  have hlt : item.rpc < s.rpcs.length := (List.getElem?_eq_some_iff.mp hk).1
  have hlanded : rpc.delivery ≠ .inFlight := by
    obtain ⟨rpc', hk', hdelivery⟩ := h.landed n item hn
    rw [hk] at hk'
    cases hk'
    exact hdelivery
  refine ⟨h.pool, h.held, h.sole, h.jobs, fun i x hx hx' => ?_, fun c i m hu => ?_,
    fun m x hm hp => ?_, h.owner, h.exclusive, h.executed, fun m x hm => ?_, h.notified,
    h.conflicts⟩
  · rcases Ledger.getElem?_set_cases hx with ⟨rfl, rfl⟩ | ⟨_, hold⟩
    · exact absurd hx' hlanded
    · exact h.flights i x hold hx'
  · obtain ⟨x, hx, heq⟩ := h.known c i m hu
    by_cases hm : item.rpc = m
    · subst hm
      rw [hk] at hx
      cases hx
      exact ⟨_, List.getElem?_set_self hlt, heq⟩
    · exact ⟨x, (List.getElem?_set_ne hm).trans hx, heq⟩
  · obtain ⟨⟨y, hy, hrest⟩, hcaller, hactive, hrouting⟩ := h.items m x hm hp
    have hne : item.rpc ≠ x.rpc := by
      intro heq
      have hsame := h.notified n m item x hn hm heq
      subst hsame
      have hm := hn.symm.trans hm
      cases hm
      exact hp hreleased
    exact ⟨⟨y, (List.getElem?_set_ne hne).trans hy, hrest⟩, hcaller, hactive, hrouting⟩
  · obtain ⟨y, hy, hdelivery⟩ := h.landed m x hm
    by_cases hm' : item.rpc = x.rpc
    · rw [← hm']
      exact ⟨{ rpc with answer := item.response }, List.getElem?_set_self hlt, hlanded⟩
    · exact ⟨y, (List.getElem?_set_ne hm').trans hy, hdelivery⟩

/-- execution goes on with an item -/
theorem Inv.setItem (h : Inv s) {n : Nat} {item item' : WorkerItem W}
    (hn : s.items[n]? = some item) (hp : item.phase ≠ .released)
    (hrpc : item'.rpc = item.rpc) (hslot : item'.slotIndex = item.slotIndex)
    (hgeneration : item'.generation = item.generation)
    (htokens : item'.tokenCount = item.tokenCount) (hvalidated : item'.validated = item.validated)
    (hp' : item'.phase ≠ .released)
    (hexecuted : ∀ routing, item'.executed = some routing → routing = item.validated) :
    Inv (s.setItem n item') := by
  have hback : ∀ (m : Nat) (x : WorkerItem W), (s.items.set n item')[m]? = some x →
      x.phase ≠ .released → ∃ y : WorkerItem W, s.items[m]? = some y ∧ y.phase ≠ .released ∧
        x.slotIndex = y.slotIndex := by
    intro m x hx hx'
    rcases Ledger.getElem?_set_cases hx with ⟨rfl, rfl⟩ | ⟨_, hold⟩
    · exact ⟨item, hn, hp, hslot⟩
    · exact ⟨x, hold, hx', rfl⟩
  have hlt : n < s.items.length := (List.getElem?_eq_some_iff.mp hn).1
  refine ⟨h.pool, h.held, h.sole, h.jobs, h.flights, h.known, fun m x hx hx' => ?_,
    fun i g hg => ?_, fun m m' a b ha hb ha' hb' heq => ?_, fun m x routing hx he => ?_,
    fun m x hx => ?_, fun m m' a b ha hb heq => h.notified_set hn hrpc ha hb heq, h.conflicts⟩
  · rcases Ledger.getElem?_set_cases hx with ⟨rfl, rfl⟩ | ⟨_, hold⟩
    · obtain ⟨hr, hcaller, hactive, hrouting⟩ := h.items _ item hn hp
      refine ⟨?_, ?_, ?_, ?_⟩
      · rw [hrpc, hslot, hgeneration]
        exact hr
      · rw [hrpc, hslot]
        exact hcaller
      · rw [hslot, hgeneration]
        exact hactive
      · rw [hslot, htokens, hvalidated]
        exact hrouting
    · obtain ⟨hr, hcaller, hactive, hrouting⟩ := h.items m x hold hx'
      exact ⟨hr, hcaller, hactive, hrouting⟩
  · obtain ⟨m, x, hx, hx', hi⟩ := h.owner i g hg
    by_cases hm : n = m
    · subst hm
      rw [hn] at hx
      cases hx
      exact ⟨n, item', List.getElem?_set_self hlt, hp', hslot.trans hi⟩
    · exact ⟨m, x, (List.getElem?_set_ne hm).trans hx, hx', hi⟩
  · obtain ⟨y, hy, hy', hs⟩ := hback m a ha ha'
    obtain ⟨z, hz, hz', hs'⟩ := hback m' b hb hb'
    exact h.exclusive m m' y z hy hz hy' hz' (by rw [← hs, ← hs', heq])
  · rcases Ledger.getElem?_set_cases hx with ⟨rfl, rfl⟩ | ⟨_, hold⟩
    · rw [hvalidated]
      exact hexecuted routing he
    · exact h.executed m x routing hold he
  · rcases Ledger.getElem?_set_cases hx with ⟨rfl, rfl⟩ | ⟨_, hold⟩
    · rw [hrpc]
      exact h.landed _ item hn
    · exact h.landed m x hold

/-! ## runs -/

/-- every calm step keeps the invariant -/
theorem Inv.step (h : Inv s) (l : ShmConnectionStep S W) (hcalm : s.calm l = true)
    {s' : ShmConnection S W} (hs : s.step l = some s') : Inv s' := by
  unfold ShmConnection.step at hs
  cases l with
  | execute batch =>
    cases hs
    exact h.execute batch
  | acquire c outputValid =>
    simp only at hs
    split at hs
    · cases hs
    · rename_i call hc
      split_ifs at hs with hphase
      exact h.acquire hc hphase hs
  | startCopy j =>
    simp only at hs
    split at hs
    · cases hs
    · rename_i job hj
      split_ifs at hs with hqueued
      cases hs
      exact h.startCopy hj hqueued
  | writeCopy j =>
    simp only at hs
    split at hs
    · cases hs
    · rename_i job hj
      split_ifs at hs with hwriting
      cases hs
      exact h.writeCopy hj hwriting
  | copied c expired timeoutMicros =>
    simp only at hs
    split at hs
    · cases hs
    · rename_i call hc
      split at hs
      · rename_i slot j interrupted hphase
        split at hs
        · rename_i generation hjob
          cases hs
          exact h.copied hc hphase hjob expired timeoutMicros
        · cases hs
      · cases hs
  | cancel c =>
    simp only at hs
    split at hs
    · cases hs
    · rename_i call hc
      exact h.cancel hc hcalm hs
  | timeout c =>
    simp only at hs
    split at hs
    · cases hs
    · rename_i call hc
      split at hs
      · rename_i hphase
        cases hs
        refine h.setPhase hc ?_ (.inl ?_) <;> rw [hphase] <;> rfl
      · rename_i slot k hphase
        cases hs
        refine h.setPhase hc ?_ (.inl ?_) <;> rw [hphase] <;> rfl
      · cases hs
  | fail c =>
    simp only at hs
    split at hs
    · cases hs
    · rename_i call hc
      split at hs
      · rename_i slot k interrupted hphase
        cases hs
        unfold calm at hcalm
        simp only [hc, Option.map_some, hphase] at hcalm
        refine h.put hc (by rw [hphase]; rfl) ?_
        intro i u hu
        rw [hphase] at hu
        cases hu
        exact h.settled_free hcalm
      · cases hs
  | respond c =>
    simp only at hs
    split at hs
    · cases hs
    · rename_i call hc
      split at hs
      · rename_i slot k interrupted hphase
        split at hs
        · cases hs
        · rename_i rpc hk
          split at hs
          · cases hs
          · rename_i answer hanswer
            have hfree : ∀ i u, useOf call.phase = some (i, u) → ¬ Needed s u := by
              intro i u hu
              rw [hphase] at hu
              cases hu
              refine h.answered_free hk ?_
              rw [hanswer]
              nofun
            split_ifs at hs
            · cases hs
              refine h.setPhase hc ?_ (.inr ⟨rfl, hfree⟩)
              rw [hphase]
              rfl
            · cases hs
              refine h.put hc ?_ hfree
              rw [hphase]
              rfl
      · cases hs
  | received c =>
    simp only at hs
    split at hs
    · cases hs
    · rename_i call hc
      split at hs
      · rename_i slot interrupted hphase
        cases hs
        refine h.put hc (by rw [hphase]; rfl) ?_
        intro i u hu
        rw [hphase] at hu
        cases hu
      · cases hs
  | lose k =>
    simp only at hs
    split at hs
    · cases hs
    · rename_i rpc hk
      split_ifs at hs with hflight
      cases hs
      exact h.setRpc hk hflight rfl nofun
  | deliver k admitted =>
    simp only at hs
    split at hs
    · cases hs
    · rename_i rpc hk
      split_ifs at hs with hflight
      cases hs
      exact h.deliver hk hflight admitted
  | answer n =>
    simp only at hs
    split at hs
    · cases hs
    · rename_i item hn
      split at hs
      · cases hs
      · rename_i rpc hk
        split_ifs at hs with hready
        cases hs
        exact h.answer hn hready.1 hk
  | cancelHandler n =>
    simp only at hs
    split at hs
    · cases hs
    · rename_i item hn
      split_ifs at hs with hwaiting
      exact h.release hn (by rw [hwaiting]; nofun) hs
  | receive n =>
    simp only at hs
    split at hs
    · cases hs
    · rename_i item hn
      split_ifs at hs with hwaiting
      cases hs
      exact h.setItem hn (by rw [hwaiting]; nofun) rfl rfl rfl rfl rfl nofun
        fun routing hr => h.executed n item routing hn hr
  | copyInput n =>
    simp only at hs
    split at hs
    · cases hs
    · rename_i item hn
      split_ifs at hs with hexecuting
      cases hs
      have hp : item.phase ≠ .released := by
        rw [hexecuting]
        nofun
      refine h.setItem hn hp rfl rfl rfl rfl rfl hp fun routing hr => ?_
      rw [← (h.items n item hn hp).routing]
      exact (Option.some.inj hr).symm
  | writeOutput n rows =>
    simp only at hs
    split at hs
    · cases hs
    · rename_i item hn
      split_ifs at hs
      cases hs
      refine ⟨h.pool, h.held, h.sole, h.jobs, h.flights, h.known, fun m x hx hx' => ?_, h.owner,
        h.exclusive, h.executed, h.landed, h.notified, h.conflicts⟩
      obtain ⟨hrpc, hcaller, hactive, hrouting⟩ := h.items m x hx hx'
      refine ⟨hrpc, hcaller, hactive, ?_⟩
      rw [← hrouting]
      exact routingOf_output _ _ _
  | finish n success =>
    simp only at hs
    split at hs
    · cases hs
    · rename_i item hn
      split_ifs at hs with hexecuting
      all_goals exact h.release hn (by rw [hexecuting]; nofun) hs

end

/-- in every state of a run whose steps are calm, no thread has written or is writing a slot between
a claim of it and its release, and what was executed is what the claim validated -/
theorem shm_slot_writes (spec : WorkerEndpointConfig) (topK : Nat) (sessionId : String)
    (slotCount : Nat) {s : ShmConnection S W}
    (hr : Steps.Reach step (fun s l => s.calm l = true) (.new spec topK sessionId slotCount) s) :
    s.conflicts = [] ∧
      (∀ (j : Nat) (job : CopyJob S W), s.jobs[j]? = some job → job.progress.writing = true →
        s.session.activeAt job.slot = none) ∧
      ∀ (n : Nat) (item : WorkerItem W) (routing : SlotRouting W), s.items[n]? = some item →
        item.executed = some routing → routing = item.validated := by
  have h : Inv s := hr.invariant (inv_new spec topK sessionId slotCount)
    fun _ l _ h hcalm hs => h.step l hcalm hs
  refine ⟨h.conflicts, fun j job hj hwriting => ?_, h.executed⟩
  have hrun : ∀ g, job.progress ≠ .finished g := by
    intro g hg
    rw [hg] at hwriting
    cases hwriting
  cases ha : s.session.activeAt job.slot with
  | none => rfl
  | some g =>
    obtain ⟨n, item, hn, hp, heq⟩ := h.owner _ _ ha
    exact absurd heq.symm (h.copying_free hj hrun hn hp)

/-- a call up to its notification, on a connection with one slot -/
def notifySteps (c : Nat) (expertId : Int) : List (ShmConnectionStep Nat Nat) :=
  [.execute ⟨0, 7, 1, some [1], ⟨[expertId], [5]⟩⟩, .acquire c true, .startCopy c, .writeCopy c,
    .writeCopy c, .writeCopy c]

def sharedSession : String := "0123456789abcdef0123456789abcdef"

/-- the first call is cancelled once while the Worker executes it, and the second one follows -/
def calmRun : List (ShmConnectionStep Nat Nat) :=
  notifySteps 0 2 ++ [.copied 0 false 1000, .deliver 0 true, .receive 0, .cancel 0, .copyInput 0,
    .writeOutput 0 [9], .finish 0 true, .answer 0, .respond 0] ++
  notifySteps 1 3 ++ [.copied 1 false 1000, .deliver 1 true, .receive 1, .copyInput 1]

theorem shm_slot_writes_reuse : ∃ s : ShmConnection Nat Nat,
    Steps.run step calm (.new ⟨4, 8, 16⟩ 1 sharedSession 1) calmRun = some s ∧
      s.conflicts = [] ∧ s.items.map WorkerItem.executed = [some ⟨[2], [5]⟩, some ⟨[3], [5]⟩] := by
  have hrun : ∃ s : ShmConnection Nat Nat,
      Steps.run step calm (.new ⟨4, 8, 16⟩ 1 sharedSession 1) calmRun = some s ∧
      decide (s.items.map WorkerItem.executed = [some ⟨[2], [5]⟩, some ⟨[3], [5]⟩]) = true :=
    (Option.any_eq_true (fun s : ShmConnection Nat Nat =>
      decide (s.items.map WorkerItem.executed = [some ⟨[2], [5]⟩, some ⟨[3], [5]⟩])) _).mp
      (by decide +kernel)
  obtain ⟨s, hs, hend⟩ := hrun
  obtain ⟨hconflicts, _⟩ := shm_slot_writes ⟨4, 8, 16⟩ 1 sharedSession 1
    (Steps.Reach.of_run .refl hs)
  exact ⟨s, hs, hconflicts, of_decide_eq_true hend⟩

/-- the RPC of the first call fails while the Worker has its slot, and the second call copies into
the slot before the Worker copies its input -/
def failedRun : List (ShmConnectionStep Nat Nat) :=
  notifySteps 0 2 ++ [.copied 0 false 1000, .deliver 0 true, .receive 0, .fail 0] ++
  notifySteps 1 3 ++ [.copyInput 0]

/-- the same after a second cancellation of the first call -/
def cancelledRun : List (ShmConnectionStep Nat Nat) :=
  notifySteps 0 2 ++ [.copied 0 false 1000, .deliver 0 true, .receive 0, .cancel 0, .cancel 0] ++
  notifySteps 1 3 ++ [.copyInput 0]

/-- a slot was written while it was active, and an item was executed with other routing than the
Worker validated -/
def overwritten (s : ShmConnection Nat Nat) : Bool :=
  !s.conflicts.isEmpty && s.items.any fun item => item.executed.any fun routing =>
    decide (routing ≠ item.validated)

theorem shm_slot_writes_refuted :
    (∃ s : ShmConnection Nat Nat,
      Steps.run step (fun _ _ => true) (.new ⟨4, 8, 16⟩ 1 sharedSession 1) failedRun = some s ∧
        overwritten s = true) ∧
    ∃ s : ShmConnection Nat Nat,
      Steps.run step (fun _ _ => true) (.new ⟨4, 8, 16⟩ 1 sharedSession 1) cancelledRun = some s ∧
        overwritten s = true := by
  constructor
  · exact (Option.any_eq_true overwritten _).mp (by decide +kernel)
  · exact (Option.any_eq_true overwritten _).mp (by decide +kernel)

end ShmConnection

end

end ExpertKit.Transport

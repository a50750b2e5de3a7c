import ExpertKit.Lib.Attempts
import ExpertKit.Routing.Batches

/-!
# Worker: one execution slot

`ExecutionSlot.execute` in the execution thread, with the CPU and the asynchronous
`_execute_impl`, and `ExecutionResult.release`: programs that raise, over the slot and the log of
the calls on the batch, the buffers, the Backend and the device.

* `Raised`, `BackendRequestError`, `BackendFatalError`  what may be raised;
* `Environment`                                         what each call answers after a history;
* `execute`, `release`                                  from `_claim` to `_release_result`;
* `Idle`, `Produced`, `Failed`                          the slot before, and what a run leaves;
* `execute_ends`, `release_ends`, `close_ends`          what each leaves, whatever is raised.
-/

namespace ExpertKit.Worker.Execution
open Attempts
open Routing (TransportError TransportErrorCode)

/-! ## exceptions -/

inductive BackendRequestError where
  | weightUnavailable (unavailableExpertIds : List Nat)
  | unsupportedBatch (text : String)
  | invalidInput (text : String)
  | other (text : String)
deriving DecidableEq, Repr

/-- `str` of the exception -/
def BackendRequestError.text : BackendRequestError → String
  | .weightUnavailable _ => "required expert weights are not ready"
  | .unsupportedBatch text => text
  | .invalidInput text => text
  | .other text => text

inductive BackendFatalReason where
  | deviceOom
  | deviceFailure
  | asyncExecution
  | unexpected
deriving DecidableEq, Repr

def BackendFatalReason.value : BackendFatalReason → String
  | .deviceOom => "device_oom"
  | .deviceFailure => "device_failure"
  | .asyncExecution => "async_execution"
  | .unexpected => "unexpected"

structure BackendFatalError where
  reason : BackendFatalReason
  diagnostic : String
deriving DecidableEq, Repr

/-- `str` of the exception -/
def BackendFatalError.text (error : BackendFatalError) : String :=
  if error.diagnostic.isEmpty then error.reason.value else error.diagnostic

/-- `cancelled` is `asyncio.CancelledError`; `exit` any other exception that is no `Exception` -/
inductive Raised where
  | request (error : BackendRequestError)
  | fatal (error : BackendFatalError)
  | outOfMemory (text : String)
  | valueError (text : String)
  | other (text : String)
  | cancelled
  | exit (text : String)
deriving DecidableEq, Repr

/-- what `except Exception` catches -/
def Raised.isException : Raised → Bool
  | .cancelled => false
  | .exit _ => false
  | _ => true

/-! ## batches, slots and the calls they make -/

/-- the fields of a `WorkerBatch` that execution reads -/
structure WorkerBatch where
  instanceId : Nat
  layerId : Nat
  tokenCount : Nat
  distinctExpertIds : List Nat
deriving DecidableEq, Repr

/-- a batch taken from the receiver, by its serial number; `recording` is its trace span's -/
structure ReceivedBatch where
  serial : Nat
  batch : WorkerBatch
  monotonicDeadline : Nat
  recording : Bool
deriving DecidableEq, Repr

structure BackendBatch where
  layerId : Nat
  tokenCount : Nat
  distinctExpertIds : List Nat
deriving DecidableEq, Repr

inductive TimingEvent where
  | start
  | afterInput
  | afterBackend
  | afterOutput
  | finish
deriving DecidableEq, Repr

/-- a call that leaves the slot; a completion is the number of submissions that returned before
it, a tensor the number of calls before the one that returned it -/
inductive Call where
  | cancelled (serial : Nat)
  | clock
  | releaseInput (serial : Nat)
  | copyInput (serial tokenCount : Nat)
  | submit (batch : BackendBatch)
  | waitHost (completion : Nat)
  | copyOutput (serial tokenCount : Nat)
  | closeCompletion (completion : Nat)
  | enterDevice
  | enterStream
  | exitStream
  | exitDevice
  | recordEvent (event : TimingEvent)
  | synchronizeEvent (event : TimingEvent)
  | emitTimings (step : Nat)
  | awaitWork
  | awaitWorkAgain
  | complete (serial output : Nat)
  | reject (serial : Nat) (error : TransportError)
deriving DecidableEq, Repr

/-- what each call answers after the calls before it; an interrupted call is an await at which the
task is cancelled -/
structure Environment where
  raises : List Call → Call → Option Raised
  cancelled : List Call → Bool
  clock : List Call → Nat
  interrupted : List Call → Call → Bool

/-- an asynchronous slot has the events for device timing, or not -/
inductive SlotKind where
  | cpu
  | async (timing : Bool)
deriving DecidableEq, Repr

structure ExecutionResult where
  serial : Nat
  output : Option Nat
  rejection : Option TransportError
  completion : Option Nat
deriving DecidableEq, Repr

/-- a slot; `completion` is the local variable of `_execute_impl`, `submitted` and `results` count
the completions and the results made so far -/
structure Slot where
  kind : SlotKind
  maxBatchTokens : Nat
  busy : Bool
  closed : Bool
  result : Option Nat
  released : List Nat
  results : Nat
  submitted : Nat
  completion : Option Nat
deriving DecidableEq, Repr

def Slot.new (kind : SlotKind) (maxBatchTokens : Nat) : Slot :=
  ⟨kind, maxBatchTokens, false, false, none, [], 0, 0, none⟩

abbrev Machine := Traced Slot Call

abbrev Program := EStateM Raised Machine

def Machine.withSlot (m : Machine) (f : Slot → Slot) : Machine := { m with state := f m.state }

def modifySlot (f : Slot → Slot) : Program Unit := modify fun m => m.withSlot f

def getSlot : Program Slot := Traced.state <$> get

/-! ## `execute` -/

def requestEndError (env : Environment) (received : ReceivedBatch) :
    Program (Option TransportError) := do
  if env.cancelled (← record (.cancelled received.serial)) then
    pure (some ⟨.cancelled, false, none, none, [],
      "computation caller cancelled before response completion"⟩)
  else if received.monotonicDeadline ≤ env.clock (← record .clock) then
    pure (some ⟨.deadlineExceeded, false, none, none, [],
      "computation deadline expired before response completion"⟩)
  else
    pure none

def claim : Program Unit := do
  let slot ← getSlot
  if slot.closed then
    throw (.other "active computation slot is closed")
  else if slot.busy then
    throw (.other "active computation slot is already in use")
  else
    modifySlot fun slot => { slot with busy := true }

def setResult (output : Option Nat) (rejection : Option TransportError)
    (completion : Option Nat) : Program ExecutionResult := do
  let slot ← getSlot
  modifySlot fun slot => { slot with result := some slot.results, results := slot.results + 1 }
  pure ⟨slot.results, output, rejection, completion⟩

/-- the valid views, as the number of their rows -/
def validViews (tokenCount : Nat) : Program Nat := do
  let slot ← getSlot
  if ¬(0 < tokenCount ∧ tokenCount ≤ slot.maxBatchTokens) then
    throw (.request (.invalidInput "batch token count exceeds the active slot"))
  else if slot.closed then
    throw (.other "execution slot is closed")
  else
    pure tokenCount

/-- `BackendBatch.__post_init__`, apart from the shapes of the fixed tensors -/
def BackendBatch.invalid (batch : BackendBatch) : Option String :=
  if Routing.uint32Max < batch.layerId then
    some "layer_id must be an integer in [0, 4294967295]"
  else
    checkIds (-1) batch.distinctExpertIds
where
  checkIds (previous : Int) : List Nat → Option String
    | [] => none
    | expertId :: rest =>
      if Routing.uint32Max < expertId then
        some "distinct expert ID must be an integer in [0, 4294967295]"
      else if (expertId : Int) ≤ previous then
        some "distinct_expert_ids must be sorted with no duplicates"
      else
        checkIds expertId rest

def copyAndBuildBatch (env : Environment) (received : ReceivedBatch) (views : Nat) :
    Program BackendBatch := do
  call env.raises (.copyInput received.serial views)
  call env.raises (.releaseInput received.serial)
  let batch := ⟨received.batch.layerId, views, received.batch.distinctExpertIds⟩
  match BackendBatch.invalid batch with
  | some text => throw (.valueError text)
  | none => pure batch

/-- the handlers that `_submit` and `_wait_completion` share -/
def translateCall : Raised → Raised
  | .outOfMemory text => .fatal ⟨.deviceOom, text⟩
  | .valueError text => .fatal ⟨.unexpected, text⟩
  | .other text => .fatal ⟨.unexpected, text⟩
  | error => error

def submit (env : Environment) (batch : BackendBatch) : Program Nat :=
  tryCatch
    (do
      call env.raises (.submit batch)
      let slot ← getSlot
      modifySlot fun slot => { slot with submitted := slot.submitted + 1 }
      pure slot.submitted)
    fun error => throw (translateCall error)

def waitCompletion (env : Environment) (completion : Nat) : Program Unit :=
  tryCatch (call env.raises (.waitHost completion)) fun error => throw (translateCall error)

/-- the tensor that the copy returns -/
def copyOutput (env : Environment) (received : ReceivedBatch) (views : Nat) : Program Nat := do
  let output := (← get).calls.length
  call env.raises (.copyOutput received.serial views)
  pure output

def closeCompletion (env : Environment) (completion : Nat) : Program Unit :=
  call env.raises (.closeCompletion completion)

/-- `CpuExecutionSlot._execute_impl` -/
def executeCpu (env : Environment) (received : ReceivedBatch) (views : Nat) :
    Program ExecutionResult := do
  let batch ← copyAndBuildBatch env received views
  match ← requestEndError env received with
  | some rejection => setResult none (some rejection) none
  | none =>
    let completion ← submit env batch
    tryCatch
      (do
        waitCompletion env completion
        let rejection ← requestEndError env received
        let responseOutput ←
          if rejection.isSome then pure none else some <$> copyOutput env received views
        setResult responseOutput rejection (some completion))
      fun error => do
        closeCompletion env completion
        throw error

/-- a context manager whose exit never suppresses -/
def within (env : Environment) (enter exit : Call) {α : Type} (body : Program α) : Program α := do
  call env.raises enter
  tryFinally body (call env.raises exit)

def recordTiming (env : Environment) (timing : Bool) (event : TimingEvent) : Program Unit :=
  if timing then call env.raises (.recordEvent event) else pure ()

/-- three elapsed times are read, four attributes set -/
def emitDeviceTimings (env : Environment) (timing : Bool) : Program Unit :=
  if timing then (List.range 7).forM fun step => call env.raises (.emitTimings step) else pure ()

/-- the handlers around `synchronize_event` -/
def translateDevice : Raised → Raised
  | .outOfMemory text => .fatal ⟨.deviceOom, text⟩
  | .request error => .fatal ⟨.asyncExecution, error.text⟩
  | .fatal error => .fatal ⟨.asyncExecution, error.text⟩
  | .valueError text => .fatal ⟨.asyncExecution, text⟩
  | .other text => .fatal ⟨.asyncExecution, text⟩
  | error => error

/-- a batch whose request has ended is not submitted -/
def submitOnStream (env : Environment) (batch : BackendBatch) (rejection : Option TransportError) :
    Program Unit :=
  if rejection.isNone then do
    let completion ← submit env batch
    modifySlot fun slot => { slot with completion := some completion }
  else
    pure ()

/-- the rejection and the output of a batch once it is submitted, or not -/
def copyOnStream (env : Environment) (received : ReceivedBatch) (views : Nat)
    (rejection : Option TransportError) : Program (Option TransportError × Option Nat) := do
  if (← getSlot).completion.isSome then
    let rejection ← requestEndError env received
    if rejection.isNone then
      let output ← copyOutput env received views
      pure (rejection, some output)
    else
      pure (rejection, none)
  else
    pure (rejection, none)

/-- what runs on the stream of the slot -/
def executeOnStream (env : Environment) (timing : Bool) (received : ReceivedBatch) (views : Nat) :
    Program (Option TransportError × Option Nat) := do
  recordTiming env timing .start
  let batch ← copyAndBuildBatch env received views
  recordTiming env timing .afterInput
  let rejection ← requestEndError env received
  submitOnStream env batch rejection
  recordTiming env timing .afterBackend
  let decided ← copyOnStream env received views rejection
  recordTiming env timing .afterOutput
  call env.raises (.recordEvent .finish)
  pure decided

def waitHeld (env : Environment) : Option Nat → Program Unit
  | some completion => waitCompletion env completion
  | none => pure ()

def closeHeld (env : Environment) : Option Nat → Program Unit
  | some completion => closeCompletion env completion
  | none => pure ()

/-- `AsyncExecutionSlot._execute_impl` -/
def executeAsync (env : Environment) (timing : Bool) (received : ReceivedBatch) (views : Nat) :
    Program ExecutionResult := do
  if (← getSlot).closed then
    throw (.other "execution slot is closed")
  else
    modifySlot fun slot => { slot with completion := none }
    tryCatch
      (do
        let (rejection, responseOutput) ← within env .enterDevice .exitDevice
          (within env .enterStream .exitStream (executeOnStream env timing received views))
        tryCatch (call env.raises (.synchronizeEvent .finish))
          fun error => throw (translateDevice error)
        emitDeviceTimings env timing
        let completion := (← getSlot).completion
        waitHeld env completion
        match ← requestEndError env received with
        | some finalRejection => setResult none (some finalRejection) completion
        | none => setResult responseOutput rejection completion)
      fun error => do
        closeHeld env (← getSlot).completion
        throw error

def executeImpl (env : Environment) (received : ReceivedBatch) (views : Nat) :
    Program ExecutionResult := do
  match (← getSlot).kind with
  | .cpu => executeCpu env received views
  | .async timing => executeAsync env (timing && received.recording) received views

/-- the handlers of `execute` around `_execute_impl` -/
def translateExecute : Raised → Raised
  | .outOfMemory text => .fatal ⟨.deviceOom, text⟩
  | .valueError text => .request (.invalidInput text)
  | .other text => .fatal ⟨.unexpected, text⟩
  | error => error

def execute (env : Environment) (received : ReceivedBatch) : Program ExecutionResult := do
  claim
  tryCatch
    (do
      match ← requestEndError env received with
      | some initialError =>
        call env.raises (.releaseInput received.serial)
        setResult none (some initialError) none
      | none =>
        tryCatch
          (do
            let views ← validViews received.batch.tokenCount
            executeImpl env received views)
          fun error => throw (translateExecute error))
    fun error => do
      modifySlot fun slot => { slot with busy := false }
      throw error

/-! ## `ExecutionResult.release` -/

def releaseResult (result : ExecutionResult) : Program Unit := do
  if (← getSlot).result ≠ some result.serial then
    throw (.other "slot result does not own this active slot")
  else
    modifySlot fun slot => { slot with result := none, busy := false }

def release (env : Environment) (result : ExecutionResult) : Program Unit := do
  if result.serial ∈ (← getSlot).released then
    pure ()
  else
    modifySlot fun slot => { slot with released := slot.released ++ [result.serial] }
    tryFinally (closeHeld env result.completion) (releaseResult result)

/-- `ExecutionSlot.close` of a slot, apart from the resources it drops -/
def close : Program Unit := do
  let slot ← getSlot
  if slot.closed then
    pure ()
  else if slot.busy then
    throw (.other "cannot close an active computation slot")
  else
    modifySlot fun slot => { slot with closed := true }

/-! ## what a call changes -/

/-- the batch that a call answers, and the error if it rejects -/
def Call.answered : Call → Option (Nat × Option TransportError)
  | .complete serial _ => some (serial, none)
  | .reject serial error => some (serial, some error)
  | _ => none

def Call.closing : Call → Option Nat
  | .closeCompletion completion => some completion
  | _ => none

def answersIn (calls : List Call) : List (Nat × Option TransportError) :=
  calls.filterMap Call.answered

def closedIn (calls : List Call) : List Nat := calls.filterMap Call.closing

/-- the slot is as it was, nothing is answered and no completion is closed -/
structure Quiet (m m' : Machine) : Prop where
  state : m'.state = m.state
  answers : answersIn m'.calls = answersIn m.calls
  closed : closedIn m'.calls = closedIn m.calls

theorem Quiet.refl (m : Machine) : Quiet m m := ⟨rfl, rfl, rfl⟩

theorem Quiet.trans {m m' m'' : Machine} (h : Quiet m m') (h' : Quiet m' m'') : Quiet m m'' :=
  ⟨h'.state.trans h.state, h'.answers.trans h.answers, h'.closed.trans h.closed⟩

/-- a call other than an answer and the close of a completion -/
def Call.Silent (c : Call) : Prop := c.answered = none ∧ c.closing = none

theorem quiet_call {m : Machine} {c : Call} (h : c.Silent) :
    Quiet m { m with calls := m.calls ++ [c] } := by
  refine ⟨rfl, ?_, ?_⟩
  · simp only [answersIn, List.filterMap_append, List.filterMap_cons, List.filterMap_nil, h.1,
      List.append_nil]
  · simp only [closedIn, List.filterMap_append, List.filterMap_cons, List.filterMap_nil, h.2,
      List.append_nil]

/-- nothing that is no `Exception` is raised, and no task is cancelled -/
structure Environment.Calm (env : Environment) : Prop where
  raises : ∀ history c error, env.raises history c = some error → error.isException = true
  interrupted : ∀ history c, env.interrupted history c = false

/-- in a calm environment only an `Exception` comes through -/
def Environment.Lets (env : Environment) (error : Raised) : Prop :=
  env.Calm → error.isException = true

/-- the program makes silent calls only -/
def Silent (env : Environment) {α : Type} (x : Program α) : Prop :=
  ∀ m, Ends x m (fun _ m' => Quiet m m') fun error m' => Quiet m m' ∧ env.Lets error

section
variable {env : Environment} {α β : Type} {x : Program α}

theorem Silent.pure (a : α) : Silent env (pure a : Program α) := fun m => Ends.pure (.refl m)

theorem Silent.throw {error : Raised} (h : error.isException = true) :
    Silent env (throw error : Program α) := fun m => Ends.throw ⟨.refl m, fun _ => h⟩

theorem Silent.bind {f : α → Program β} (hx : Silent env x) (hf : ∀ a, Silent env (f a)) :
    Silent env (x >>= f) := fun m =>
  (hx m).bind fun a m' h =>
    (hf a m').mono (fun _ _ h' => h.trans h') fun _ _ h' => ⟨h.trans h'.1, h'.2⟩

theorem Silent.map {f : α → β} (hx : Silent env x) : Silent env (f <$> x) := fun m =>
  .map (hx m)

theorem Silent.translate {f : Raised → Raised} (hx : Silent env x)
    (hf : ∀ error, error.isException = true → (f error).isException = true) :
    Silent env (tryCatch x fun error => MonadExcept.throw (f error)) := fun m =>
  (hx m).tryCatch fun _ _ h => .throw ⟨h.1, fun hcalm => hf _ (h.2 hcalm)⟩

theorem Silent.get : Silent env (get : Program Machine) := fun m => Ends.get (.refl m)

theorem Silent.getSlot : Silent env getSlot := Silent.get.map

theorem Silent.call {c : Call} (h : c.Silent) : Silent env (call env.raises c) := fun _ =>
  .call (fun _ => quiet_call h) fun _ hraises =>
    ⟨quiet_call h, fun hcalm => hcalm.raises _ _ _ hraises⟩

theorem Silent.record {c : Call} (h : c.Silent) : Silent env (record c : Program _) := fun _ =>
  .record (quiet_call h)

theorem Silent.requestEndError (received : ReceivedBatch) :
    Silent env (requestEndError env received) := by
  refine .bind (.record ⟨rfl, rfl⟩) fun history => ?_
  split
  · exact .pure _
  · refine .bind (.record ⟨rfl, rfl⟩) fun history => ?_
    split
    · exact .pure _
    · exact .pure _

theorem Silent.validViews (tokenCount : Nat) : Silent env (validViews tokenCount) := by
  refine .bind .getSlot fun slot => ?_
  split
  · exact .throw rfl
  · split
    · exact .throw rfl
    · exact .pure _

theorem Silent.copyAndBuildBatch (received : ReceivedBatch) (views : Nat) :
    Silent env (copyAndBuildBatch env received views) := by
  refine .bind (.call ⟨rfl, rfl⟩) fun _ => .bind (.call ⟨rfl, rfl⟩) fun _ => ?_
  dsimp only
  split
  · exact .throw rfl
  · exact .pure _

theorem translateCall_isException {error : Raised} (h : error.isException = true) :
    (translateCall error).isException = true := by
  cases error <;> first | rfl | exact h

theorem translateDevice_isException {error : Raised} (h : error.isException = true) :
    (translateDevice error).isException = true := by
  cases error <;> first | rfl | exact h

theorem Silent.waitCompletion (completion : Nat) : Silent env (waitCompletion env completion) :=
  .translate (.call ⟨rfl, rfl⟩) fun _ => translateCall_isException

theorem Silent.copyOutput (received : ReceivedBatch) (views : Nat) :
    Silent env (copyOutput env received views) :=
  .bind .get fun _ => .bind (.call ⟨rfl, rfl⟩) fun _ => .pure _

theorem Silent.recordTiming (timing : Bool) (event : TimingEvent) :
    Silent env (recordTiming env timing event) := by
  unfold Execution.recordTiming
  split
  · exact .call ⟨rfl, rfl⟩
  · exact .pure _

theorem Silent.forM {ι : Type} {f : ι → Program PUnit} (hf : ∀ i, Silent env (f i)) (l : List ι) :
    Silent env (l.forM f) := by
  induction l with
  | nil => exact .pure _
  | cons i l ih => exact .bind (hf i) fun _ => ih

theorem Silent.emitDeviceTimings (timing : Bool) : Silent env (emitDeviceTimings env timing) := by
  unfold Execution.emitDeviceTimings
  split
  · exact .forM (fun _ => .call ⟨rfl, rfl⟩) _
  · exact .pure _

theorem Silent.waitHeld (held : Option Nat) : Silent env (waitHeld env held) := by
  cases held with
  | none => exact .pure _
  | some completion => exact .waitCompletion completion

end

/-! ## `_execute_impl` -/

/-- a run of `_execute_impl` under way: `held` is the completion that it must close or hand over -/
structure Midway (m m' : Machine) (held : Option Nat) : Prop where
  frame : m'.state = { m.state with
    submitted := m.state.submitted + held.toList.length, completion := m'.state.completion }
  own : ∀ c, held = some c → c = m.state.submitted
  answers : answersIn m'.calls = answersIn m.calls
  closed : closedIn m'.calls = closedIn m.calls

/-- the slot holds the result, which holds the completion -/
structure Produced (m : Machine) (result : ExecutionResult) (m' : Machine) : Prop where
  frame : m'.state = { m.state with
    submitted := m.state.submitted + result.completion.toList.length
    completion := m'.state.completion
    result := some result.serial
    results := m.state.results + 1 }
  serial : result.serial = m.state.results
  own : ∀ c, result.completion = some c → c = m.state.submitted
  answers : answersIn m'.calls = answersIn m.calls
  closed : closedIn m'.calls = closedIn m.calls
  either : result.output.isSome = result.rejection.isNone

/-- what was submitted is closed -/
structure Failed (m m' : Machine) (held : Option Nat) : Prop where
  frame : m'.state = { m.state with
    submitted := m.state.submitted + held.toList.length, completion := m'.state.completion }
  own : ∀ c, held = some c → c = m.state.submitted
  answers : answersIn m'.calls = answersIn m.calls
  closed : closedIn m'.calls = closedIn m.calls ++ held.toList

section
variable {env : Environment} {m m' m'' : Machine} {held : Option Nat}

theorem Ends.bind_getSlot {α : Type} {f : Slot → Program α} {Q : α → Machine → Prop}
    {E : Raised → Machine → Prop} (h : Ends (f m.state) m Q E) : Ends (getSlot >>= f) m Q E := h

theorem Ends.bind_modifySlot {α : Type} {g : Slot → Slot} {f : Unit → Program α}
    {Q : α → Machine → Prop} {E : Raised → Machine → Prop} (h : Ends (f ()) (m.withSlot g) Q E) :
    Ends (modifySlot g >>= f) m Q E := h

theorem Midway.start (m : Machine) : Midway m m none := ⟨rfl, nofun, rfl, rfl⟩

theorem Midway.quiet (h : Midway m m' held) (h' : Quiet m' m'') : Midway m m'' held := by
  refine ⟨?_, h.own, h'.answers.trans h.answers, h'.closed.trans h.closed⟩
  rw [h'.state]
  exact h.frame

/-- a silent program in the middle of the run -/
theorem Silent.midway {α : Type} {x : Program α} (hx : Silent env x) (h : Midway m m' held) :
    Ends x m' (fun _ m'' => Midway m m'' held ∧ m''.state = m'.state) fun error m'' =>
      (Midway m m'' held ∧ m''.state = m'.state) ∧ env.Lets error :=
  (hx m').mono (fun _ _ hq => ⟨h.quiet hq, hq.state⟩) fun _ _ hq =>
    ⟨⟨h.quiet hq.1, hq.1.state⟩, hq.2⟩

theorem Midway.failed (h : Midway m m' none) : Failed m m' none :=
  ⟨h.frame, h.own, h.answers, by rw [h.closed]; exact (List.append_nil _).symm⟩

/-- the close of the completion held is called once, whether it raises or not -/
theorem closeCompletion_ends {c : Nat} (h : Midway m m' (some c)) :
    Ends (closeCompletion env c) m' (fun _ m'' => Failed m m'' (some c))
      fun error m'' => Failed m m'' (some c) ∧ env.Lets error := by
  have hclosed : Failed m { m' with calls := m'.calls ++ [.closeCompletion c] } (some c) := by
    refine ⟨h.frame, h.own, ?_, ?_⟩
    · rw [← h.answers]
      simp only [answersIn, List.filterMap_append, List.filterMap_cons, List.filterMap_nil,
        Call.answered, List.append_nil]
    · rw [← h.closed]
      simp only [closedIn, List.filterMap_append, List.filterMap_cons, List.filterMap_nil,
        Call.closing, Option.toList_some]
  exact .call (fun _ => hclosed) fun _ hraises => ⟨hclosed, fun hcalm => hcalm.raises _ _ _ hraises⟩

theorem setResult_ends (output : Option Nat) (rejection : Option TransportError)
    (h : Midway m m' held) (heither : output.isSome = rejection.isNone)
    {E : Raised → Machine → Prop} :
    Ends (setResult output rejection held) m' (fun result m'' => Produced m result m'') E := by
  have hresults : m'.state.results = m.state.results := by rw [h.frame]
  refine Ends.bind_getSlot (Ends.bind_modifySlot
    (.pure ⟨?_, hresults, h.own, h.answers, h.closed, heither⟩))
  unfold Machine.withSlot
  rw [h.frame]

theorem submit_ends (batch : BackendBatch) (h : Midway m m' none) :
    Ends (submit env batch) m' (fun c m'' => Midway m m'' (some c)) fun error m'' =>
      Midway m m'' none ∧ env.Lets error := by
  refine .tryCatch (F := fun error m'' => Midway m m'' none ∧ env.Lets error) (.bind
    ((Silent.call (c := .submit batch) ⟨rfl, rfl⟩).midway h |>.mono (fun _ _ h => h.1)
      fun _ _ h => ⟨h.1.1, h.2⟩) fun _ m₁ h₁ => ?_) ?_
  · have hsubmitted : m₁.state.submitted = m.state.submitted := by rw [h₁.frame]; rfl
    refine Ends.bind_getSlot (Ends.bind_modifySlot (.pure ⟨?_,
      fun c hc => (Option.some.inj hc).symm.trans hsubmitted, h₁.answers, h₁.closed⟩))
    unfold Machine.withSlot
    rw [h₁.frame]
    rfl
  · exact fun error m₁ h₁ => .throw ⟨h₁.1, fun hcalm => translateCall_isException (h₁.2 hcalm)⟩

/-- how a run of `_execute_impl` ends -/
def ImplEnds (env : Environment) (x : Program ExecutionResult) (m : Machine) : Prop :=
  Ends x m (fun result m' => Produced m result m') fun error m' =>
    (∃ held, Failed m m' held) ∧ env.Lets error

theorem executeCpu_ends (received : ReceivedBatch) (views : Nat) (m : Machine) :
    ImplEnds env (executeCpu env received views) m := by
  refine .bind ((Silent.copyAndBuildBatch received views).midway (.start m) |>.mono
    (fun _ _ h => h.1) fun _ _ h => ⟨⟨none, h.1.1.failed⟩, h.2⟩) fun batch m₁ h₁ => ?_
  refine .bind ((Silent.requestEndError received).midway h₁ |>.mono
    (fun _ _ h => h.1) fun _ _ h => ⟨⟨none, h.1.1.failed⟩, h.2⟩) fun rejection m₂ h₂ => ?_
  cases rejection with
  | some rejection => exact setResult_ends none (some rejection) h₂ rfl
  | none =>
    refine .bind ((submit_ends batch h₂).mono (fun _ _ h => h) fun _ _ h =>
      ⟨⟨none, h.1.failed⟩, h.2⟩) fun c m₃ h₃ => ?_
    refine .tryCatch (F := fun error m' => Midway m m' (some c) ∧ env.Lets error) ?_ ?_
    · refine .bind ((Silent.waitCompletion c).midway h₃ |>.mono (fun _ _ h => h.1)
        fun _ _ h => ⟨h.1.1, h.2⟩) fun _ m₄ h₄ => ?_
      refine .bind ((Silent.requestEndError received).midway h₄ |>.mono (fun _ _ h => h.1)
        fun _ _ h => ⟨h.1.1, h.2⟩) fun rejection m₅ h₅ => ?_
      cases rejection with
      | some rejection =>
        exact .bind (Q := fun output m₆ => output = none ∧ m₆ = m₅) (.pure ⟨rfl, rfl⟩)
          fun output m₆ hout => by
            rw [hout.1, hout.2]
            exact setResult_ends none (some rejection) h₅ rfl
      | none =>
        refine .bind (Q := fun output m₆ => output.isSome = true ∧ Midway m m₆ (some c)) (.map
          ((Silent.copyOutput received views).midway h₅ |>.mono (fun _ _ h => ⟨rfl, h.1⟩)
            fun _ _ h => ⟨h.1.1, h.2⟩)) fun output m₆ hout => ?_
        exact setResult_ends output none hout.2 hout.1
    · intro error m₄ h₄
      refine .bind ((closeCompletion_ends h₄.1).mono (fun _ _ h => h) fun _ _ h =>
        ⟨⟨_, h.1⟩, h.2⟩) fun _ m₅ h₅ => .throw ⟨⟨_, h₅⟩, h₄.2⟩

end

/-! ## the asynchronous slot -/

section
variable {env : Environment} {m m' m'' : Machine} {held : Option Nat}

/-- a run whose completion is the local variable -/
def Tracked (m m' : Machine) : Prop := Midway m m' m'.state.completion

theorem Tracked.quiet (h : Tracked m m') (h' : Quiet m' m'') : Tracked m m'' := by
  unfold Tracked
  rw [h'.state]
  exact Midway.quiet h h'

theorem Silent.tracked {α : Type} {x : Program α} (hx : Silent env x) (h : Tracked m m') :
    Ends x m' (fun _ m'' => Tracked m m'' ∧ m''.state.completion = m'.state.completion)
      fun error m'' => Tracked m m'' ∧ env.Lets error :=
  (hx m').mono (fun _ _ hq => ⟨h.quiet hq, by rw [hq.state]⟩) fun _ _ hq => ⟨h.quiet hq.1, hq.2⟩

theorem Tracked.submitted {c : Nat} (h : Midway m m' (some c)) :
    Tracked m (m'.withSlot fun slot => { slot with completion := some c }) := by
  refine ⟨?_, h.own, h.answers, h.closed⟩
  unfold Machine.withSlot
  rw [h.frame]

/-- exits never suppress, and their calls are silent -/
theorem within_ends {α : Type} {enter exit : Call} {body : Program α} {Q : α → Machine → Prop}
    (henter : enter.Silent) (hexit : exit.Silent) (h : Tracked m m')
    (hbody : ∀ m₁, Tracked m m₁ → m₁.state.completion = m'.state.completion →
      Ends body m₁ (fun a m₂ => Tracked m m₂ ∧ Q a m₂) fun error m₂ =>
        Tracked m m₂ ∧ env.Lets error)
    (hQ : ∀ a m₁ m₂, Q a m₁ → Quiet m₁ m₂ → Q a m₂) :
    Ends (within env enter exit body) m' (fun a m₂ => Tracked m m₂ ∧ Q a m₂) fun error m₂ =>
      Tracked m m₂ ∧ env.Lets error := by
  refine .bind ((Silent.call henter).tracked h) fun _ m₁ h₁ => ?_
  refine .finally (hbody m₁ h₁.1 h₁.2) (fun a m₂ h₂ => ?_) fun error m₂ h₂ => ?_
  · exact ((Silent.call hexit) m₂).mono (fun _ _ hq => ⟨h₂.1.quiet hq, hQ a _ _ h₂.2 hq⟩)
      fun _ _ hq => ⟨h₂.1.quiet hq.1, hq.2⟩
  · exact ((Silent.call hexit) m₂).mono (fun _ _ hq => ⟨h₂.1.quiet hq, h₂.2⟩)
      fun _ _ hq => ⟨h₂.1.quiet hq.1, hq.2⟩

/-- either an output or a rejection, and a rejection when nothing was submitted -/
def Decided (decided : Option TransportError × Option Nat) (m : Machine) : Prop :=
  decided.2.isSome = decided.1.isNone ∧ (m.state.completion = none → decided.1.isSome = true)

theorem Decided.keep {decided : Option TransportError × Option Nat} (h : Decided decided m)
    (hm : m'.state.completion = m.state.completion) : Decided decided m' :=
  ⟨h.1, fun hn => h.2 (hm.symm.trans hn)⟩

theorem submit_untouched (batch : BackendBatch) :
    Ends (submit env batch) m (fun _ _ => True) fun _ m' =>
      m'.state.completion = m.state.completion := by
  refine .tryCatch (F := fun _ m' => m'.state.completion = m.state.completion) (.bind
    ((Silent.call (c := .submit batch) ⟨rfl, rfl⟩ m).mono (P := fun _ _ => True)
      (fun _ _ _ => trivial) fun _ _ hq => by rw [hq.1.state])
    fun _ m' _ => Ends.bind_getSlot (Ends.bind_modifySlot (.pure trivial)))
    fun _ m' h => .throw h

theorem submitOnStream_ends (batch : BackendBatch) (rejection : Option TransportError)
    (h : Tracked m m') (hnone : m'.state.completion = none) :
    Ends (submitOnStream env batch rejection) m'
      (fun _ m₁ => Tracked m m₁ ∧ m₁.state.completion.isSome = rejection.isNone)
      fun error m₁ => Tracked m m₁ ∧ env.Lets error := by
  refine .ite (fun hr => ?_) fun hr => ?_
  · have hmid : Midway m m' none := hnone ▸ h
    refine .bind (Q := fun c m₁ => Midway m m₁ (some c))
      (((submit_ends batch hmid).and (submit_untouched batch)).mono (fun _ _ hs => hs.1)
        fun _ m₁ hs => ⟨?_, hs.1.2⟩) fun c m₁ h₁ => Ends.modify ⟨Tracked.submitted h₁, hr.symm⟩
    unfold Tracked
    rw [hs.2, hnone]
    exact hs.1.1
  · refine .pure ⟨h, ?_⟩
    rw [hnone, Bool.eq_false_iff.mpr hr]
    rfl

theorem copyOnStream_ends (received : ReceivedBatch) (views : Nat)
    (rejection : Option TransportError) (h : Tracked m m')
    (hsome : m'.state.completion.isSome = rejection.isNone) :
    Ends (copyOnStream env received views rejection) m'
      (fun decided m₁ => Tracked m m₁ ∧ Decided decided m₁)
      fun error m₁ => Tracked m m₁ ∧ env.Lets error := by
  refine Ends.bind_getSlot (.ite (fun hc => ?_) fun hc => ?_)
  · refine .bind ((Silent.requestEndError received).tracked h) fun again m₁ h₁ => ?_
    have hheld : m₁.state.completion ≠ none := by
      rw [h₁.2]
      exact Option.isSome_iff_ne_none.mp hc
    refine .ite (fun hr => ?_) fun hr => ?_
    · refine .bind ((Silent.copyOutput received views).tracked h₁.1) fun output m₂ h₂ => ?_
      exact .pure ⟨h₂.1, hr.symm, fun hn => absurd (h₂.2.symm.trans hn) hheld⟩
    · exact .pure ⟨h₁.1, (Bool.eq_false_iff.mpr hr).symm, fun hn => absurd hn hheld⟩
  · rw [hsome] at hc
    refine .pure ⟨h, (Bool.eq_false_iff.mpr hc).symm, fun _ => ?_⟩
    cases rejection with
    | none => exact absurd rfl hc
    | some error => rfl

theorem executeOnStream_ends (timing : Bool) (received : ReceivedBatch) (views : Nat)
    (h : Tracked m m') (hnone : m'.state.completion = none) :
    Ends (executeOnStream env timing received views) m'
      (fun decided m₁ => Tracked m m₁ ∧ Decided decided m₁) fun error m₁ =>
        Tracked m m₁ ∧ env.Lets error := by
  refine .bind ((Silent.recordTiming timing _).tracked h) fun _ m₁ h₁ => ?_
  refine .bind ((Silent.copyAndBuildBatch received views).tracked h₁.1) fun batch m₂ h₂ => ?_
  refine .bind ((Silent.recordTiming timing _).tracked h₂.1) fun _ m₃ h₃ => ?_
  refine .bind ((Silent.requestEndError received).tracked h₃.1) fun rejection m₄ h₄ => ?_
  have hnone : m₄.state.completion = none := by rw [h₄.2, h₃.2, h₂.2, h₁.2, hnone]
  refine .bind (submitOnStream_ends batch rejection h₄.1 hnone) fun _ m₅ h₅ => ?_
  refine .bind ((Silent.recordTiming timing _).tracked h₅.1) fun _ m₆ h₆ => ?_
  refine .bind (copyOnStream_ends received views rejection h₆.1 (by rw [h₆.2, h₅.2]))
    fun decided m₇ h₇ => ?_
  refine .bind ((Silent.recordTiming timing _).tracked h₇.1) fun _ m₈ h₈ => ?_
  refine .bind ((Silent.call (c := .recordEvent .finish) ⟨rfl, rfl⟩).tracked h₈.1)
    fun _ m₉ h₉ => .pure ⟨h₉.1, h₇.2.keep (h₉.2.trans h₈.2)⟩

theorem closeHeld_ends (h : Midway m m' held) :
    Ends (closeHeld env held) m' (fun _ m'' => Failed m m'' held)
      fun error m'' => Failed m m'' held ∧ env.Lets error := by
  cases held with
  | none => exact .pure h.failed
  | some c => exact closeCompletion_ends h

theorem executeAsync_ends (timing : Bool) (received : ReceivedBatch) (views : Nat) (m : Machine) :
    ImplEnds env (executeAsync env timing received views) m := by
  refine Ends.bind_getSlot (.ite (fun _ => .throw ⟨⟨none, (Midway.start m).failed⟩, fun _ => rfl⟩)
    fun _ => Ends.bind_modifySlot ?_)
  have hstart : Tracked m (m.withSlot fun slot => { slot with completion := none }) :=
    ⟨rfl, nofun, rfl, rfl⟩
  refine .tryCatch (F := fun error m' => Tracked m m' ∧ env.Lets error) ?_ fun error m₁ h₁ =>
    Ends.bind_getSlot (.bind ((closeHeld_ends h₁.1).mono (fun _ _ h => h)
      fun _ _ h => ⟨⟨_, h.1⟩, h.2⟩) fun _ m₂ h₂ => .throw ⟨⟨_, h₂⟩, h₁.2⟩)
  refine .bind (within_ends ⟨rfl, rfl⟩ ⟨rfl, rfl⟩ hstart (fun m₁ h₁ hc₁ =>
    within_ends ⟨rfl, rfl⟩ ⟨rfl, rfl⟩ h₁ (fun m₂ h₂ hc₂ =>
      executeOnStream_ends timing received views h₂ (hc₂.trans hc₁))
      fun _ _ _ hd hq => hd.keep (by rw [hq.state])) fun _ _ _ hd hq => hd.keep (by rw [hq.state]))
    fun decided m₁ h₁ => ?_
  obtain ⟨rejection, responseOutput⟩ := decided
  refine .bind (((Silent.call ⟨rfl, rfl⟩).translate fun _ => translateDevice_isException).tracked
    h₁.1) fun _ m₂ h₂ => ?_
  refine .bind ((Silent.emitDeviceTimings timing).tracked h₂.1) fun _ m₃ h₃ => ?_
  refine Ends.bind_getSlot ?_
  refine .bind ((Silent.waitHeld m₃.state.completion).tracked h₃.1) fun _ m₄ h₄ => ?_
  refine .bind ((Silent.requestEndError received).tracked h₄.1) fun finalRejection m₅ h₅ => ?_
  have hmid : Midway m m₅ m₃.state.completion := (h₅.2.trans h₄.2) ▸ h₅.1
  cases finalRejection with
  | some finalRejection => exact setResult_ends none (some finalRejection) hmid rfl
  | none => exact setResult_ends responseOutput rejection hmid h₁.2.1

theorem executeImpl_ends (received : ReceivedBatch) (views : Nat) (m : Machine) :
    ImplEnds env (executeImpl env received views) m := by
  refine Ends.bind_getSlot ?_
  split
  · exact executeCpu_ends received views m
  · exact executeAsync_ends _ received views m

end

/-! ## `execute` and `release` -/

/-- the slot can be claimed: every result is released, and the completions of the submissions are
closed, each once and in their order -/
structure Idle (m : Machine) : Prop where
  busy : m.state.busy = false
  result : m.state.result = none
  released : m.state.released = List.range m.state.results
  closed : closedIn m.calls = List.range m.state.submitted

/-- the input of a batch is released without an exception -/
def Environment.KeepsInput (env : Environment) : Prop :=
  ∀ history serial, env.raises history (.releaseInput serial) = none

/-- an exception that `execute` has classified -/
def Raised.Classified : Raised → Prop
  | .request _ => True
  | .fatal _ => True
  | _ => False

section
variable {env : Environment} {m m' : Machine} {result : ExecutionResult}

theorem Idle.quiet (h : Idle m) (hq : Quiet m m') : Idle m' := by
  refine ⟨?_, ?_, ?_, ?_⟩
  · rw [hq.state]
    exact h.busy
  · rw [hq.state]
    exact h.result
  · rw [hq.state]
    exact h.released
  · rw [hq.state, hq.closed]
    exact h.closed

theorem range_held {n : Nat} {held : Option Nat} (h : ∀ c, held = some c → c = n) :
    List.range n ++ held.toList = List.range (n + held.toList.length) := by
  cases held with
  | none => exact List.append_nil _
  | some c =>
    rw [h c rfl]
    exact List.range_succ.symm

theorem Failed.idle {held : Option Nat} (h : Failed m m' held) (hidle : Idle m) : Idle m' := by
  refine ⟨?_, ?_, ?_, ?_⟩
  · rw [h.frame]
    exact hidle.busy
  · rw [h.frame]
    exact hidle.result
  · rw [h.frame]
    exact hidle.released
  · rw [h.frame, h.closed, hidle.closed]
    exact range_held h.own

theorem claim_ends (hbusy : m.state.busy = false) (hopen : m.state.closed = false)
    {E : Raised → Machine → Prop} : Ends claim m
      (fun _ m' => m' = m.withSlot fun slot => { slot with busy := true }) E := by
  refine Ends.bind_getSlot ?_
  rw [if_neg (Bool.eq_false_iff.mp hopen), if_neg (Bool.eq_false_iff.mp hbusy)]
  exact .modify rfl

theorem translateExecute_isException {error : Raised} (h : error.isException = true) :
    (translateExecute error).isException = true := by
  cases error <;> first | rfl | exact h

theorem translateExecute_classified {error : Raised} (h : error.isException = true) :
    (translateExecute error).Classified := by
  cases error with
  | cancelled => exact absurd h Bool.false_ne_true
  | exit text => exact absurd h Bool.false_ne_true
  | _ => trivial

/-- a claimed slot with the result, or the slot as idle as before -/
theorem execute_ends (received : ReceivedBatch) (hbusy : m.state.busy = false)
    (hopen : m.state.closed = false) :
    Ends (execute env received) m
      (fun result m' => Produced (m.withSlot fun slot => { slot with busy := true }) result m')
      fun error m' => (∃ held, Failed m m' held) ∧ env.Lets error ∧
        (env.Calm → env.KeepsInput → error.Classified) := by
  refine .bind (claim_ends hbusy hopen) ?_
  rintro _ _ rfl
  generalize hclaimed : (m.withSlot fun slot => { slot with busy := true }) = mc
  have hstate : mc.state = { m.state with busy := true } := by rw [← hclaimed]; rfl
  have hcalls : mc.calls = m.calls := by rw [← hclaimed]; rfl
  refine .tryCatch (F := fun error m' => (∃ held, Failed mc m' held) ∧ env.Lets error ∧
    (env.Calm → env.KeepsInput → error.Classified)) ?_ ?_
  · have hrequest : Ends (requestEndError env received) mc (fun _ m' => Midway mc m' none)
        fun error m' => (∃ held, Failed mc m' held) ∧ env.Lets error ∧
          (env.Calm → env.KeepsInput → error.Classified) := by
      refine .bind (Q := fun _ m' => Midway mc m' none)
        (.record ((Midway.start mc).quiet (quiet_call ⟨rfl, rfl⟩))) fun history m₁ h₁ => ?_
      refine .ite (fun _ => .pure h₁) fun _ => ?_
      refine .bind (Q := fun _ m' => Midway mc m' none)
        (.record (h₁.quiet (quiet_call ⟨rfl, rfl⟩))) fun history m₂ h₂ => ?_
      exact .ite (fun _ => .pure h₂) fun _ => .pure h₂
    refine .bind hrequest fun initialError m₁ h₁ => ?_
    cases initialError with
    | some initialError =>
      refine .bind (.call (Q := fun _ m' => Midway mc m' none)
        (fun _ => h₁.quiet (quiet_call ⟨rfl, rfl⟩)) fun error hraises =>
        ⟨⟨none, (h₁.quiet (quiet_call ⟨rfl, rfl⟩)).failed⟩, fun hcalm => hcalm.raises _ _ _ hraises,
          fun _ hkeeps => ?_⟩) fun _ m₂ h₂ => setResult_ends none (some initialError) h₂ rfl
      rw [hkeeps] at hraises
      cases hraises
    | none =>
      refine .tryCatch (F := fun error m' => (∃ held, Failed mc m' held) ∧ env.Lets error)
        (.bind (((Silent.validViews _).midway h₁).mono (fun _ _ h => h.1)
          fun _ _ h => ⟨⟨none, h.1.1.failed⟩, h.2⟩) fun views m₂ h₂ => ?_)
        fun error m₂ h₂ => .throw ⟨h₂.1, fun hcalm => translateExecute_isException (h₂.2 hcalm),
          fun hcalm _ => translateExecute_classified (h₂.2 hcalm)⟩
      refine (executeImpl_ends received views m₂).mono (fun result m₃ h₃ => ?_)
        fun error m₃ h₃ => ⟨?_, h₃.2⟩
      · have hframe : m₂.state = { mc.state with completion := m₂.state.completion } := h₂.frame
        refine ⟨?_, ?_, ?_, h₃.answers.trans h₂.answers, h₃.closed.trans h₂.closed, h₃.either⟩
        · rw [h₃.frame, hframe]
        · rw [h₃.serial, hframe]
        · intro c hc
          rw [h₃.own c hc, hframe]
      · obtain ⟨held, h₃⟩ := h₃.1
        have hframe : m₂.state = { mc.state with completion := m₂.state.completion } := h₂.frame
        refine ⟨held, ?_, ?_, h₃.answers.trans h₂.answers, ?_⟩
        · rw [h₃.frame, hframe]
        · intro c hc
          rw [h₃.own c hc, hframe]
        · rw [h₃.closed, h₂.closed]
  · rintro error m₁ ⟨⟨held, hfailed⟩, herror⟩
    refine Ends.bind_modifySlot (.throw ⟨⟨held, ?_, ?_, ?_, ?_⟩, herror⟩)
    · unfold Machine.withSlot
      rw [hfailed.frame, hstate, ← hbusy]
    · intro c hc
      rw [hfailed.own c hc, hstate]
    · exact hfailed.answers.trans (by rw [hcalls])
    · exact hfailed.closed.trans (by rw [hcalls])

/-- the slot holds a result that is not released, with its completion -/
structure Holding (result : ExecutionResult) (m : Machine) : Prop where
  held : m.state.result = some result.serial
  released : m.state.released = List.range result.serial
  results : m.state.results = result.serial + 1
  closed : closedIn m.calls ++ result.completion.toList = List.range m.state.submitted

theorem Produced.holding (hidle : Idle m)
    (h : Produced (m.withSlot fun slot => { slot with busy := true }) result m') :
    Holding result m' := by
  have hserial : result.serial = m.state.results := h.serial
  refine ⟨?_, ?_, ?_, ?_⟩
  · rw [h.frame]
  · rw [h.frame, hserial]
    exact hidle.released
  · rw [h.frame, hserial]
    rfl
  · rw [h.frame, h.closed]
    change closedIn m.calls ++ _ = _
    rw [hidle.closed]
    exact range_held h.own

/-- the completion is closed and the slot not yet free -/
structure Finishing (result : ExecutionResult) (m : Machine) : Prop where
  held : m.state.result = some result.serial
  released : m.state.released = List.range m.state.results
  closed : closedIn m.calls = List.range m.state.submitted

/-- what `release` leaves besides the exception -/
def Freed (m m' : Machine) : Prop :=
  Idle m' ∧ answersIn m'.calls = answersIn m.calls ∧ m'.state.closed = m.state.closed

theorem releaseResult_ends (h : Finishing result m) {E : Raised → Machine → Prop} :
    Ends (releaseResult result) m (fun _ m' => Freed m m') E := by
  refine Ends.bind_getSlot ?_
  rw [if_neg fun hne => hne h.held]
  exact .modify ⟨⟨rfl, rfl, h.released, h.closed⟩, rfl, rfl⟩

theorem closeHeld_finishing (hresult : m.state.result = some result.serial)
    (hreleased : m.state.released = List.range m.state.results)
    (hclosed : closedIn m.calls ++ result.completion.toList = List.range m.state.submitted) :
    Ends (closeHeld env result.completion) m
      (fun _ m' => Finishing result m' ∧ answersIn m'.calls = answersIn m.calls ∧
        m'.state.closed = m.state.closed)
      fun error m' => (Finishing result m' ∧ answersIn m'.calls = answersIn m.calls ∧
        m'.state.closed = m.state.closed) ∧ env.Lets error ∧
        ∃ history c, env.raises history (.closeCompletion c) = some error := by
  cases hcompletion : result.completion with
  | none =>
    rw [hcompletion, Option.toList_none, List.append_nil] at hclosed
    exact .pure ⟨⟨hresult, hreleased, hclosed⟩, rfl, rfl⟩
  | some c =>
    rw [hcompletion, Option.toList_some] at hclosed
    have hfinishing : Finishing result { m with calls := m.calls ++ [.closeCompletion c] } ∧
        answersIn (m.calls ++ [.closeCompletion c]) = answersIn m.calls ∧
        m.state.closed = m.state.closed := by
      refine ⟨⟨hresult, hreleased, hclosed ▸ ?_⟩, ?_, rfl⟩
      · simp only [closedIn, List.filterMap_append, List.filterMap_cons, List.filterMap_nil,
          Call.closing]
      · simp only [answersIn, List.filterMap_append, List.filterMap_cons, List.filterMap_nil,
          Call.answered, List.append_nil]
    exact .call (fun _ => hfinishing) fun _ hraises =>
      ⟨hfinishing, fun hcalm => hcalm.raises _ _ _ hraises, _, _, hraises⟩

/-- the slot is free again, whether the close of the completion raises or not -/
theorem release_ends (h : Holding result m) :
    Ends (release env result) m (fun _ m' => Freed m m') fun error m' =>
      Freed m m' ∧ env.Lets error ∧
        ∃ history c, env.raises history (.closeCompletion c) = some error := by
  have hfresh : result.serial ∉ m.state.released := by
    rw [h.released]
    exact fun hmem => Nat.lt_irrefl _ (List.mem_range.mp hmem)
  refine Ends.bind_getSlot ?_
  rw [if_neg hfresh]
  refine Ends.bind_modifySlot (.finally (closeHeld_finishing h.held ?_ h.closed) ?_ ?_)
  · change m.state.released ++ [result.serial] = List.range m.state.results
    rw [h.released, h.results]
    exact List.range_succ.symm
  · exact fun _ m₁ h₁ => (releaseResult_ends h₁.1).mono
      (fun _ _ h₂ => ⟨h₂.1, h₂.2.1.trans h₁.2.1, h₂.2.2.trans h₁.2.2⟩) fun _ _ h₂ => h₂
  · exact fun error m₁ h₁ => (releaseResult_ends h₁.1.1).mono
      (fun _ _ h₂ => ⟨⟨h₂.1, h₂.2.1.trans h₁.1.2.1, h₂.2.2.trans h₁.1.2.2⟩, h₁.2⟩) fun _ _ h₂ => h₂

/-- an idle slot closes -/
theorem close_ends (hidle : Idle m) {E : Raised → Machine → Prop} :
    Ends close m (fun _ m' => Idle m' ∧ m'.state.closed = true ∧ m'.calls = m.calls) E := by
  refine Ends.bind_getSlot ?_
  split
  · exact .pure ⟨hidle, ‹_›, rfl⟩
  · rw [if_neg (Bool.eq_false_iff.mp hidle.busy)]
    exact .modify ⟨⟨hidle.busy, hidle.result, hidle.released, hidle.closed⟩, rfl, rfl⟩

end

end ExpertKit.Worker.Execution

import ExpertKit.Lib.Ledger
import ExpertKit.Lib.Steps
import ExpertKit.Worker.Slot

/-!
# Worker: the executor

`WorkerExecutor` with its slot loops: batches are taken from the receiver, computed in their slots
and answered, in any order of the loops, until a fatal error or `close` ends them.

* `processBatch`             one batch from `_run_slot` to `result.release()`, with its handlers;
* `processBatch_ends`        the slot is free again, and the batch answered once;
* `WorkerExecutor.step`      one step of a loop, of a cancelled task or of `close`;
* `batches_answered`         in every run: each batch once, and the first fatal error is kept;
* `slots_freed`              in every run: no slot and no completion is lost, whatever is raised.
-/

namespace ExpertKit.Worker.Execution
open Attempts
open Routing (TransportError TransportErrorCode)

/-! ## one batch -/

def requestError : BackendRequestError → TransportError
  | .weightUnavailable unavailableExpertIds =>
    ⟨.expertNotReady, true, none, none, unavailableExpertIds,
      (BackendRequestError.weightUnavailable unavailableExpertIds).text⟩
  | .unsupportedBatch text => ⟨.unsupported, false, none, none, [], text⟩
  | .invalidInput text => ⟨.invalidRequest, false, none, none, [], text⟩
  | .other _ => ⟨.invalidRequest, false, none, none, [],
      "Backend rejected the request without a more specific classification"⟩

def wrongInstance : TransportError :=
  ⟨.invalidRequest, false, none, none, [],
    "Worker batch instance ID does not match this process"⟩

def cannotContinue : TransportError :=
  ⟨.unavailable, true, none, none, [], "Worker Backend cannot continue serving"⟩

/-- the thread ends before the task goes on; a second cancellation abandons its result -/
def runSlot (env : Environment) (received : ReceivedBatch) : Program ExecutionResult := do
  let outcome ← observing (execute env received)
  if env.interrupted (← record .awaitWork) .awaitWork then
    if env.interrupted (← record .awaitWorkAgain) .awaitWorkAgain then
      throw .cancelled
    else
      match outcome with
      | .ok result => do
        release env result
        throw .cancelled
      | .error _ => throw .cancelled
  else
    match outcome with
    | .ok result => pure result
    | .error error => throw error

/-- `contextlib.suppress(Exception)` and `except Exception` -/
def suppressing (body : Program Unit) : Program Unit :=
  tryCatch body fun error => if error.isException then pure () else throw error

/-- the first `try` of `_process_batch`: what it returned early, or the result of the slot -/
def compute (env : Environment) (instanceId : Nat) (received : ReceivedBatch) :
    Program (Option BackendFatalError ⊕ ExecutionResult) :=
  tryCatch
    (if received.batch.instanceId ≠ instanceId then do
      call env.raises (.releaseInput received.serial)
      call env.raises (.reject received.serial wrongInstance)
      pure (.inl none)
    else
      .inr <$> runSlot env received)
    fun error => match error with
      | .request error => do
        call env.raises (.reject received.serial (requestError error))
        pure (.inl none)
      | .fatal error => do
        suppressing (call env.raises (.reject received.serial cannotContinue))
        pure (.inl (some error))
      | error => throw error

/-- the second `try` up to its `finally` -/
def respond (env : Environment) (received : ReceivedBatch) (result : ExecutionResult) :
    Program Unit :=
  match result.rejection with
  | some rejection => call env.raises (.reject received.serial rejection)
  | none =>
    match result.output with
    | none => throw (.other "active slot produced neither output nor rejection")
    | some output => call env.raises (.complete received.serial output)

def processBatch (env : Environment) (instanceId : Nat) (received : ReceivedBatch) :
    Program (Option BackendFatalError) := do
  match ← compute env instanceId received with
  | .inl fatal => pure fatal
  | .inr result => do
    tryFinally (suppressing (respond env received result)) (release env result)
    pure none

/-! ## what one batch leaves -/

/-- what the code relies on: answers, the release of the input and the close of a completion do
not raise, and nothing else raises what is no `Exception` -/
structure Environment.Assumed (env : Environment) : Prop where
  calm : env.Calm
  keepsInput : env.KeepsInput
  completes : ∀ history serial output, env.raises history (.complete serial output) = none
  rejects : ∀ history serial error, env.raises history (.reject serial error) = none
  closes : ∀ history c, env.raises history (.closeCompletion c) = none

/-- a task that waits for its thread is not cancelled again -/
def Environment.Patient (env : Environment) : Prop :=
  ∀ history, env.interrupted history .awaitWorkAgain = false

theorem Environment.Assumed.patient {env : Environment} (h : env.Assumed) : env.Patient :=
  fun history => h.calm.interrupted history _

section
variable {env : Environment} {m m' m'' : Machine} {received : ReceivedBatch}
  {result : ExecutionResult}

/-- the call was an answer and nothing else changed -/
structure Answered (m m' : Machine) (answer : Nat × Option TransportError) : Prop where
  state : m'.state = m.state
  closed : closedIn m'.calls = closedIn m.calls
  answers : answersIn m'.calls = answersIn m.calls ++ [answer]

theorem answer_ends {c : Call} {answer : Nat × Option TransportError}
    (hanswer : c.answered = some answer) (hclosing : c.closing = none) (m : Machine) :
    Ends (call env.raises c) m (fun _ m' => Answered m m' answer) fun error m' =>
      Answered m m' answer ∧ ∃ history, env.raises history c = some error := by
  have hcalled : Answered m { m with calls := m.calls ++ [c] } answer := by
    refine ⟨rfl, ?_, ?_⟩
    · simp only [closedIn, List.filterMap_append, List.filterMap_cons, List.filterMap_nil, hclosing,
        List.append_nil]
    · simp only [answersIn, List.filterMap_append, List.filterMap_cons, List.filterMap_nil, hanswer]
  exact .call (fun _ => hcalled) fun _ hraises => ⟨hcalled, _, hraises⟩

theorem Idle.answered {answer : Nat × Option TransportError} (h : Idle m)
    (hanswer : Answered m m' answer) : Idle m' := by
  refine ⟨?_, ?_, ?_, ?_⟩
  · rw [hanswer.state]
    exact h.busy
  · rw [hanswer.state]
    exact h.result
  · rw [hanswer.state]
    exact h.released
  · rw [hanswer.state, hanswer.closed]
    exact h.closed

theorem Holding.same (h : Holding result m) (hstate : m'.state = m.state)
    (hclosed : closedIn m'.calls = closedIn m.calls) : Holding result m' := by
  refine ⟨?_, ?_, ?_, ?_⟩
  · rw [hstate]
    exact h.held
  · rw [hstate]
    exact h.released
  · rw [hstate]
    exact h.results
  · rw [hstate, hclosed]
    exact h.closed

theorem Freed.refl (h : Idle m) : Freed m m := ⟨h, rfl, rfl⟩

theorem Freed.quiet (h : Freed m m') (hq : Quiet m' m'') : Freed m m'' :=
  ⟨h.1.quiet hq, hq.answers.trans h.2.1, by rw [hq.state]; exact h.2.2⟩

/-- the slot holds the result of the batch, which has an output or a rejection -/
structure Ready (m m' : Machine) (result : ExecutionResult) : Prop where
  holding : Holding result m'
  answers : answersIn m'.calls = answersIn m.calls
  closed : m'.state.closed = m.state.closed
  either : result.output.isSome = result.rejection.isNone

theorem Ready.quiet (h : Ready m m' result) (hq : Quiet m' m'') : Ready m m'' result :=
  ⟨h.holding.same hq.state hq.closed, hq.answers.trans h.answers,
    by rw [hq.state]; exact h.closed, h.either⟩

theorem execute_observed (hidle : Idle m) (hopen : m.state.closed = false) :
    Ends (observing (execute env received)) m
      (fun outcome m' => match outcome with
        | .ok result => Ready m m' result
        | .error error => Freed m m' ∧ (env.Assumed → error.Classified))
      fun _ _ => False := by
  refine .observing ((execute_ends received hidle.busy hopen).mono (fun result m₁ h₁ => ?_)
    fun error m₁ h₁ => ?_)
  · refine ⟨h₁.holding hidle, h₁.answers, ?_, h₁.either⟩
    rw [h₁.frame]
    rfl
  · obtain ⟨⟨held, hfailed⟩, -, hclassified⟩ := h₁
    refine ⟨⟨hfailed.idle hidle, hfailed.answers, ?_⟩, fun h => hclassified h.calm h.keepsInput⟩
    rw [hfailed.frame]

theorem runSlot_ends (hpatient : env.Patient) (hidle : Idle m) (hopen : m.state.closed = false) :
    Ends (runSlot env received) m (fun result m' => Ready m m' result) fun error m' =>
      Freed m m' ∧ (env.Assumed → error.Classified) := by
  refine .bind ((execute_observed hidle hopen).mono (fun _ _ h => h) fun _ _ h => h.elim)
    fun outcome m₁ h₁ => ?_
  refine .bind (Q := fun history m' => Quiet m₁ m' ∧ history = m₁.calls)
    (.record ⟨quiet_call ⟨rfl, rfl⟩, rfl⟩) ?_
  rintro _ m₂ ⟨h₂, rfl⟩
  refine .ite (fun hinterrupted => ?_) fun _ => ?_
  · have hnot : env.Assumed → Raised.cancelled.Classified := fun h => by
      rw [h.calm.interrupted] at hinterrupted
      cases hinterrupted
    refine .bind (Q := fun _ m' => Quiet m₁ m') (.record (h₂.trans (quiet_call ⟨rfl, rfl⟩)))
      fun history m₃ h₃ => ?_
    rw [hpatient, if_neg Bool.false_ne_true]
    cases outcome with
    | error error => exact .throw ⟨h₁.1.quiet h₃, hnot⟩
    | ok result =>
      have hready : Ready m m₃ result := h₁.quiet h₃
      have hfreed : ∀ m₄, Freed m₃ m₄ → Freed m m₄ := fun m₄ h₄ =>
        ⟨h₄.1, h₄.2.1.trans hready.answers, h₄.2.2.trans hready.closed⟩
      refine .bind ((release_ends hready.holding).mono (fun _ _ h => h) fun error m₄ h₄ =>
        ⟨hfreed _ h₄.1, fun h => ?_⟩) fun _ m₄ h₄ => .throw ⟨hfreed _ h₄, hnot⟩
      obtain ⟨-, -, history, c, hraises⟩ := h₄
      rw [h.closes] at hraises
      cases hraises
  · cases outcome with
    | error error => exact .throw ⟨h₁.1.quiet h₂, h₁.2⟩
    | ok result => exact .pure (h₁.quiet h₂)

/-- the slot is free and the batch answered once, if the calls keep to the assumptions -/
def Done (env : Environment) (received : ReceivedBatch) (m m' : Machine) : Prop :=
  Idle m' ∧ m'.state.closed = m.state.closed ∧ (env.Assumed →
    ∃ answer, answersIn m'.calls = answersIn m.calls ++ [(received.serial, answer)])

/-- the slot is free, and a call did not keep to the assumptions -/
def Undone (env : Environment) (m m' : Machine) : Prop :=
  Idle m' ∧ m'.state.closed = m.state.closed ∧ ¬env.Assumed

theorem Freed.done {error : TransportError} (h : Freed m m')
    (h' : Answered m' m'' (received.serial, some error)) : Done env received m m'' :=
  ⟨h.1.answered h', by rw [h'.state]; exact h.2.2, fun _ => ⟨some error, by rw [h'.answers, h.2.1]⟩⟩

theorem reject_ends (error : TransportError) (h : Freed m m') :
    Ends (call env.raises (.reject received.serial error)) m'
      (fun _ m'' => Done env received m m'') fun _ m'' => Undone env m m'' := by
  refine (answer_ends rfl rfl m').mono (fun _ _ h₁ => h.done h₁) fun raised m₁ h₁ => ?_
  refine ⟨h.1.answered h₁.1, by rw [h₁.1.state]; exact h.2.2, fun hassumed => ?_⟩
  obtain ⟨-, history, hraises⟩ := h₁
  rw [hassumed.rejects] at hraises
  cases hraises

theorem compute_ends (hpatient : env.Patient) (instanceId : Nat) (hidle : Idle m)
    (hopen : m.state.closed = false) :
    Ends (compute env instanceId received) m
      (fun outcome m' => match outcome with
        | .inl _ => Done env received m m'
        | .inr result => Ready m m' result)
      fun _ m' => Undone env m m' := by
  -- an exception of the first part leaves a free slot without an answer, unless it was a rejection
  refine .tryCatch (F := fun error m' => Idle m' ∧ m'.state.closed = m.state.closed ∧
    (env.Assumed → Freed m m' ∧ error.Classified)) ?_ ?_
  · refine .ite (fun _ => ?_) fun _ => .map ((runSlot_ends hpatient hidle hopen).mono
      (fun _ _ h => h) fun _ _ h => ⟨h.1.1, h.1.2.2, fun hassumed => ⟨h.1, h.2 hassumed⟩⟩)
    refine .bind (.call (Q := fun _ m' => Freed m m')
      (fun _ => (Freed.refl hidle).quiet (quiet_call ⟨rfl, rfl⟩)) fun error hraises => ?_)
      fun _ m₁ h₁ => .bind ((reject_ends wrongInstance h₁).mono (fun _ _ h => h)
        fun _ _ h => ⟨h.1, h.2.1, fun hassumed => absurd hassumed h.2.2⟩) fun _ _ h => .pure h
    refine ⟨hidle.quiet (quiet_call ⟨rfl, rfl⟩), rfl, fun hassumed => ?_⟩
    rw [hassumed.keepsInput] at hraises
    cases hraises
  · rintro error m₁ ⟨hidle₁, hclosed₁, hclassified⟩
    have hreject : ∀ rejection, Ends (call env.raises (.reject received.serial rejection)) m₁
        (fun _ m'' => Done env received m m'') fun _ m'' => Undone env m m'' := fun rejection => by
      refine (reject_ends rejection (Freed.refl hidle₁)).mono (fun _ _ h => ⟨h.1,
        h.2.1.trans hclosed₁, fun hassumed => ?_⟩) fun _ _ h => ⟨h.1, h.2.1.trans hclosed₁, h.2.2⟩
      obtain ⟨answer, hanswer⟩ := h.2.2 hassumed
      exact ⟨answer, by rw [hanswer, (hclassified hassumed).1.2.1]⟩
    have hundone : ¬error.Classified → Undone env m m₁ := fun hnot =>
      ⟨hidle₁, hclosed₁, fun hassumed => hnot (hclassified hassumed).2⟩
    cases error with
    | request error => exact .bind (hreject _) fun _ _ h => .pure h
    | fatal error =>
      refine .bind (.tryCatch (hreject cannotContinue) fun raised m₂ h₂ => .ite
        (fun _ => .pure ⟨h₂.1, h₂.2.1, fun hassumed => absurd hassumed h₂.2.2⟩)
        fun _ => .throw h₂) fun _ _ h => .pure h
    | _ => exact .throw (hundone id)

/-- the answer is sent, or refused with an exception that the calls do not raise -/
theorem respond_ends (h : Ready m m' result) :
    Ends (suppressing (respond env received result)) m'
      (fun _ m'' => Holding result m'' ∧ m''.state.closed = m.state.closed ∧ (env.Assumed →
        ∃ answer, answersIn m''.calls = answersIn m.calls ++ [(received.serial, answer)]))
      fun _ m'' => Holding result m'' ∧ m''.state.closed = m.state.closed ∧ ¬env.Assumed := by
  have hanswer : ∀ {c : Call} {answer : Option TransportError},
      c.answered = some (received.serial, answer) → c.closing = none →
      (env.Assumed → ∀ history, env.raises history c = none) →
      Ends (call env.raises c) m'
        (fun _ m'' => Holding result m'' ∧ m''.state.closed = m.state.closed ∧ (env.Assumed →
          ∃ answer, answersIn m''.calls = answersIn m.calls ++ [(received.serial, answer)]))
        fun _ m'' => Holding result m'' ∧ m''.state.closed = m.state.closed ∧ ¬env.Assumed := by
    intro c answer hanswer hclosing hnever
    refine (answer_ends hanswer hclosing m').mono (fun _ _ h₁ => ⟨h.holding.same h₁.state h₁.closed,
      by rw [h₁.state]; exact h.closed, fun _ => ⟨answer, by rw [h₁.answers, h.answers]⟩⟩)
      fun _ _ h₁ => ⟨h.holding.same h₁.1.state h₁.1.closed, by rw [h₁.1.state]; exact h.closed,
        fun hassumed => ?_⟩
    obtain ⟨-, history, hraises⟩ := h₁
    rw [hnever hassumed] at hraises
    cases hraises
  refine .tryCatch ?_ fun error m₁ h₁ => .ite
    (fun _ => .pure ⟨h₁.1, h₁.2.1, fun hassumed => absurd hassumed h₁.2.2⟩) fun _ => .throw h₁
  unfold respond
  cases hrejection : result.rejection with
  | some rejection => exact hanswer rfl rfl fun hassumed history => hassumed.rejects _ _ _
  | none =>
    cases houtput : result.output with
    | some output => exact hanswer rfl rfl fun hassumed history => hassumed.completes _ _ _
    | none =>
      have heither := h.either
      rw [houtput, hrejection] at heither
      cases heither

/-- whatever is raised, the slot is free again; the batch is answered once -/
theorem processBatch_ends (hpatient : env.Patient) (instanceId : Nat) (hidle : Idle m)
    (hopen : m.state.closed = false) :
    Ends (processBatch env instanceId received) m (fun _ m' => Done env received m m')
      fun _ m' => Undone env m m' := by
  refine .bind (compute_ends hpatient instanceId hidle hopen) fun outcome m₁ h₁ => ?_
  cases outcome with
  | inl fatal => exact .pure h₁
  | inr result =>
    refine .bind (.finally (respond_ends h₁) (fun _ m₂ h₂ => ?_) fun error m₂ h₂ => ?_)
      fun _ _ h => .pure h
    · refine (release_ends h₂.1).mono (fun _ m₃ h₃ => ⟨h₃.1, h₃.2.2.trans h₂.2.1,
        fun hassumed => ?_⟩) fun _ m₃ h₃ => ⟨h₃.1.1, h₃.1.2.2.trans h₂.2.1, fun hassumed => ?_⟩
      · obtain ⟨answer, hanswer⟩ := h₂.2.2 hassumed
        exact ⟨answer, h₃.2.1.trans hanswer⟩
      · obtain ⟨-, -, history, c, hraises⟩ := h₃
        rw [hassumed.closes] at hraises
        cases hraises
    · exact (release_ends h₂.1).mono (fun _ m₃ h₃ => ⟨h₃.1, h₃.2.2.trans h₂.2.1, h₂.2.2⟩)
        fun _ m₃ h₃ => ⟨h₃.1.1, h₃.1.2.2.trans h₂.2.1, h₂.2.2⟩

end

/-! ## the loops -/

/-- where `_serve_slot` stands -/
inductive Phase where
  | waiting
  | serving (received : ReceivedBatch)
  | closing
  | ended
  | died (error : Raised)
deriving DecidableEq, Repr

structure Loop where
  machine : Machine
  phase : Phase

/-- where `_close` stands -/
inductive Shutdown where
  | running
  | waiting
  | closed
  | failed (error : Raised)
deriving DecidableEq, Repr

/-- `taken` and `fatals` record the batches handed out and the fatal errors met, in order -/
structure WorkerExecutor where
  instanceId : Nat
  loops : List Loop
  fatalError : Option BackendFatalError
  receiverClosed : Bool
  shutdown : Shutdown
  taken : List Nat
  fatals : List BackendFatalError

def WorkerExecutor.new (instanceId : Nat) (slots : List (SlotKind × Nat)) : WorkerExecutor :=
  ⟨instanceId, slots.map fun slot => ⟨⟨Slot.new slot.1 slot.2, []⟩, .waiting⟩, none, false,
    .running, [], []⟩

inductive ExecutorEvent where
  | take (slot : Nat) (received : ReceivedBatch)
  | serve (slot : Nat) (env : Environment)
  | receiverClosed (slot : Nat)
  | stop (slot : Nat)
  | cancel (slot : Nat)
  | close
  | finish

def Loop.finished (loop : Loop) : Bool :=
  match loop.phase with
  | .ended => true
  | .died _ => true
  | _ => false

/-- the slots are closed one after the other, until one raises -/
def closeSlots : List Loop → List Loop × Option Raised
  | [] => ([], none)
  | loop :: rest =>
    match close loop.machine with
    | .ok _ machine => (⟨machine, loop.phase⟩ :: (closeSlots rest).1, (closeSlots rest).2)
    | .error error machine => (⟨machine, loop.phase⟩ :: rest, some error)

def WorkerExecutor.setLoop (x : WorkerExecutor) (slot : Nat) (machine : Machine) (phase : Phase) :
    WorkerExecutor :=
  { x with loops := x.loops.set slot ⟨machine, phase⟩ }

/-- a batch that the receiver hands out is handed out once; a cancelled task ends with the
exception -/
def WorkerExecutor.step (x : WorkerExecutor) : ExecutorEvent → Option WorkerExecutor
  | .take slot received =>
    match x.loops[slot]? with
    | some ⟨machine, .waiting⟩ =>
      if x.receiverClosed ∨ received.serial ∈ x.taken then none
      else some { x.setLoop slot machine (.serving received) with
        taken := x.taken ++ [received.serial] }
    | _ => none
  | .serve slot env =>
    match x.loops[slot]? with
    | some ⟨machine, .serving received⟩ =>
      match processBatch env x.instanceId received machine with
      | .ok none machine => some (x.setLoop slot machine .waiting)
      | .ok (some fatal) machine => some { x.setLoop slot machine .closing with
          fatalError := some (x.fatalError.getD fatal), fatals := x.fatals ++ [fatal] }
      | .error error machine => some (x.setLoop slot machine (.died error))
    | _ => none
  | .receiverClosed slot =>
    match x.loops[slot]? with
    | some ⟨machine, .closing⟩ => some { x.setLoop slot machine .ended with receiverClosed := true }
    | _ => none
  | .stop slot =>
    match x.loops[slot]? with
    | some ⟨machine, .waiting⟩ =>
      if x.receiverClosed then some (x.setLoop slot machine .ended) else none
    | _ => none
  | .cancel slot =>
    match x.loops[slot]? with
    | some ⟨machine, .waiting⟩ => some (x.setLoop slot machine (.died .cancelled))
    | some ⟨machine, .closing⟩ => some (x.setLoop slot machine (.died .cancelled))
    | _ => none
  | .close =>
    match x.shutdown with
    | .running => some { x with receiverClosed := true, shutdown := .waiting }
    | _ => none
  | .finish =>
    match x.shutdown with
    | .waiting =>
      if x.loops.all Loop.finished then
        match closeSlots x.loops with
        | (loops, none) => some { x with loops := loops, shutdown := .closed }
        | (loops, some error) => some { x with loops := loops, shutdown := .failed error }
      else none
    | _ => none

/-- what `wait` raises when every loop has ended -/
def WorkerExecutor.wait (x : WorkerExecutor) : Option (Option BackendFatalError) :=
  if x.loops.all fun loop => loop.phase = .ended then some x.fatalError else none

/-- what each event needs and does -/
inductive Stepped (x : WorkerExecutor) : ExecutorEvent → WorkerExecutor → Prop where
  | take {slot : Nat} {received : ReceivedBatch} {machine : Machine}
      (hloop : x.loops[slot]? = some ⟨machine, .waiting⟩) (hopen : x.receiverClosed = false)
      (hfresh : received.serial ∉ x.taken) :
      Stepped x (.take slot received) { x.setLoop slot machine (.serving received) with
        taken := x.taken ++ [received.serial] }
  | served {slot : Nat} {env : Environment} {received : ReceivedBatch} {machine machine' : Machine}
      (hloop : x.loops[slot]? = some ⟨machine, .serving received⟩)
      (hrun : processBatch env x.instanceId received machine = .ok none machine') :
      Stepped x (.serve slot env) (x.setLoop slot machine' .waiting)
  | fatal {slot : Nat} {env : Environment} {received : ReceivedBatch} {machine machine' : Machine}
      {fatal : BackendFatalError} (hloop : x.loops[slot]? = some ⟨machine, .serving received⟩)
      (hrun : processBatch env x.instanceId received machine = .ok (some fatal) machine') :
      Stepped x (.serve slot env) { x.setLoop slot machine' .closing with
        fatalError := some (x.fatalError.getD fatal), fatals := x.fatals ++ [fatal] }
  | raised {slot : Nat} {env : Environment} {received : ReceivedBatch} {machine machine' : Machine}
      {error : Raised} (hloop : x.loops[slot]? = some ⟨machine, .serving received⟩)
      (hrun : processBatch env x.instanceId received machine = .error error machine') :
      Stepped x (.serve slot env) (x.setLoop slot machine' (.died error))
  | receiverClosed {slot : Nat} {machine : Machine}
      (hloop : x.loops[slot]? = some ⟨machine, .closing⟩) :
      Stepped x (.receiverClosed slot) { x.setLoop slot machine .ended with receiverClosed := true }
  | stop {slot : Nat} {machine : Machine} (hloop : x.loops[slot]? = some ⟨machine, .waiting⟩)
      (hclosed : x.receiverClosed = true) : Stepped x (.stop slot) (x.setLoop slot machine .ended)
  | cancel {slot : Nat} {machine : Machine} {phase : Phase}
      (hloop : x.loops[slot]? = some ⟨machine, phase⟩)
      (hphase : phase = .waiting ∨ phase = .closing) :
      Stepped x (.cancel slot) (x.setLoop slot machine (.died .cancelled))
  | close (hrunning : x.shutdown = .running) :
      Stepped x .close { x with receiverClosed := true, shutdown := .waiting }
  | closed (hwaiting : x.shutdown = .waiting) (hall : x.loops.all Loop.finished = true)
      (hnone : (closeSlots x.loops).2 = none) :
      Stepped x .finish { x with loops := (closeSlots x.loops).1, shutdown := .closed }
  | failed {error : Raised} (hwaiting : x.shutdown = .waiting)
      (hall : x.loops.all Loop.finished = true) (hraised : (closeSlots x.loops).2 = some error) :
      Stepped x .finish { x with loops := (closeSlots x.loops).1, shutdown := .failed error }

theorem step_stepped {x x' : WorkerExecutor} {event : ExecutorEvent}
    (hs : x.step event = some x') : Stepped x event x' := by
  cases event with
  | take slot received =>
    simp only [WorkerExecutor.step] at hs
    split at hs
    · split at hs
      · cases hs
      · rename_i hloop hnot
        cases hs
        rw [not_or, Bool.not_eq_true] at hnot
        exact .take hloop hnot.1 hnot.2
    · cases hs
  | serve slot env =>
    simp only [WorkerExecutor.step] at hs
    split at hs
    · rename_i hloop
      split at hs
      · cases hs
        exact .served hloop ‹_›
      · cases hs
        exact .fatal hloop ‹_›
      · cases hs
        exact .raised hloop ‹_›
    · cases hs
  | receiverClosed slot =>
    simp only [WorkerExecutor.step] at hs
    split at hs
    · cases hs
      exact .receiverClosed ‹_›
    · cases hs
  | stop slot =>
    simp only [WorkerExecutor.step] at hs
    split at hs
    · split at hs
      · cases hs
        exact .stop ‹_› ‹_›
      · cases hs
    · cases hs
  | cancel slot =>
    simp only [WorkerExecutor.step] at hs
    split at hs
    · cases hs
      exact .cancel ‹_› (.inl rfl)
    · cases hs
      exact .cancel ‹_› (.inr rfl)
    · cases hs
  | close =>
    simp only [WorkerExecutor.step] at hs
    split at hs
    · cases hs
      exact .close ‹_›
    · cases hs
  | finish =>
    simp only [WorkerExecutor.step] at hs
    split at hs
    · split at hs
      · split at hs
        · rename_i hwaiting hall _ loops hclose
          cases hs
          have hresult := Stepped.closed hwaiting hall (congrArg Prod.snd hclose)
          rw [hclose] at hresult
          exact hresult
        · rename_i hwaiting hall _ loops error hclose
          cases hs
          have hresult := Stepped.failed hwaiting hall (congrArg Prod.snd hclose)
          rw [hclose] at hresult
          exact hresult
      · cases hs
    · cases hs

/-! ## invariants of a run -/

/-- the batch in the slot, not answered yet -/
def Loop.inService (loop : Loop) : List Nat :=
  match loop.phase with
  | .serving received => [received.serial]
  | _ => []

/-- the batches that the slot has answered, by each call of `complete` or `reject` -/
def Loop.answered (loop : Loop) : List Nat := (answersIn loop.machine.calls).map Prod.fst

/-- what the close of a slot leaves alone -/
def Loop.record (loop : Loop) : Phase × List Call := (loop.phase, loop.machine.calls)

/-- the batches of a slot, each call that answers one counted -/
def Loop.booked (loop : Loop) : List Nat := loop.inService ++ loop.answered

/-- the loop ends, or will once the receiver is closed -/
def Loop.leaving (loop : Loop) : Bool :=
  match loop.phase with
  | .closing => true
  | .ended => true
  | _ => false

theorem Loop.finished_congr {l l' : Loop} (h : l.record = l'.record) :
    l.finished = l'.finished := by
  unfold Loop.finished
  rw [show l.phase = l'.phase from congrArg Prod.fst h]

theorem Loop.leaving_congr {l l' : Loop} (h : l.record = l'.record) : l.leaving = l'.leaving := by
  unfold Loop.leaving
  rw [show l.phase = l'.phase from congrArg Prod.fst h]

theorem Loop.booked_congr {l l' : Loop} (h : l.record = l'.record) : l.booked = l'.booked := by
  unfold Loop.booked Loop.inService Loop.answered
  rw [show l.phase = l'.phase from congrArg Prod.fst h,
    show l.machine.calls = l'.machine.calls from congrArg Prod.snd h]

/-- no slot and no completion is lost: idle slots, with every completion closed once -/
structure Sound (x : WorkerExecutor) : Prop where
  idle : ∀ loop ∈ x.loops, Idle loop.machine
  shut : ∀ loop ∈ x.loops, loop.machine.state.closed = decide (x.shutdown = .closed)
  closed : ∀ error, x.shutdown ≠ .failed error
  finished : x.shutdown = .closed → ∀ loop ∈ x.loops, loop.finished = true

/-- the first fatal error is kept, and the receiver is closed after it -/
structure FirstFatal (x : WorkerExecutor) : Prop where
  first : x.fatalError = x.fatals.head?
  ended : x.fatals.length ≤ x.loops.countP Loop.leaving
  closed : x.fatals ≠ [] → x.receiverClosed = true ∨ ∃ loop ∈ x.loops, loop.phase = .closing

/-- every batch is in a slot or answered, once -/
structure AnsweredOnce (x : WorkerExecutor) : Prop where
  alive : ∀ loop ∈ x.loops, ∀ error, loop.phase ≠ .died error
  taken : (x.loops.flatMap Loop.booked).Perm x.taken
  distinct : x.taken.Nodup

section
variable {x x' : WorkerExecutor} {slot : Nat} {machine machine' : Machine} {phase phase' : Phase}

theorem Sound.congr (h : Sound x) (hloops : x'.loops = x.loops)
    (hshutdown : x'.shutdown = x.shutdown) : Sound x' := by
  refine ⟨?_, ?_, ?_, ?_⟩
  · rw [hloops]
    exact h.idle
  · rw [hloops, hshutdown]
    exact h.shut
  · rw [hshutdown]
    exact h.closed
  · rw [hloops, hshutdown]
    exact h.finished

theorem Sound.setLoop (h : Sound x) (hloop : x.loops[slot]? = some ⟨machine, phase⟩)
    (hidle : Idle machine') (hshut : machine'.state.closed = machine.state.closed)
    (hphase : (⟨machine, phase⟩ : Loop).finished = false ∨
      (⟨machine', phase'⟩ : Loop).finished = true) : Sound (x.setLoop slot machine' phase') := by
  have hmem : ⟨machine, phase⟩ ∈ x.loops := List.mem_of_getElem? hloop
  refine ⟨fun loop hl => ?_, fun loop hl => ?_, h.closed, fun hclosed loop hl => ?_⟩
  · rcases List.mem_or_eq_of_mem_set hl with hl | rfl
    · exact h.idle loop hl
    · exact hidle
  · rcases List.mem_or_eq_of_mem_set hl with hl | rfl
    · exact h.shut loop hl
    · exact hshut.trans (h.shut _ hmem)
  · rcases List.mem_or_eq_of_mem_set hl with hl | rfl
    · exact h.finished hclosed loop hl
    · rcases hphase with hphase | hphase
      · exact absurd (h.finished hclosed _ hmem) (Bool.eq_false_iff.mp hphase)
      · exact hphase

theorem closeSlots_sound (loops : List Loop) (hidle : ∀ loop ∈ loops, Idle loop.machine) :
    (closeSlots loops).2 = none ∧
      ∀ loop ∈ (closeSlots loops).1, Idle loop.machine ∧ loop.machine.state.closed = true := by
  induction loops with
  | nil => exact ⟨rfl, fun _ h => absurd h List.not_mem_nil⟩
  | cons loop loops ih =>
    obtain ⟨hnone, hall⟩ := ih fun l hl => hidle l (List.mem_cons_of_mem _ hl)
    have hclose := close_ends (E := fun _ _ => False) (hidle loop List.mem_cons_self)
    unfold closeSlots
    cases hrun : close loop.machine with
    | error error machine => exact (hclose.error hrun).elim
    | ok u machine =>
      have hspec := hclose.ok hrun
      refine ⟨hnone, fun l hl => ?_⟩
      rcases List.mem_cons.mp hl with rfl | hl
      · exact ⟨hspec.1, hspec.2.1⟩
      · exact hall l hl

theorem closeSlots_map {β : Type} {f : Loop → β} (hf : ∀ l l', l.record = l'.record → f l = f l')
    (loops : List Loop) (hidle : ∀ loop ∈ loops, Idle loop.machine) :
    (closeSlots loops).1.map f = loops.map f := by
  induction loops with
  | nil => rfl
  | cons loop loops ih =>
    have hrest := ih fun l hl => hidle l (List.mem_cons_of_mem _ hl)
    have hclose := close_ends (E := fun _ _ => False) (hidle loop List.mem_cons_self)
    unfold closeSlots
    cases hrun : close loop.machine with
    | error error machine => exact (hclose.error hrun).elim
    | ok u machine =>
      have hsame : f ⟨machine, loop.phase⟩ = f loop :=
        hf _ _ (by rw [Loop.record, Loop.record, (hclose.ok hrun).2.2])
      rw [List.map_cons, List.map_cons, hrest, hsame]

theorem Sound.finish (h : Sound x) (hall : x.loops.all Loop.finished = true) :
    Sound { x with loops := (closeSlots x.loops).1, shutdown := .closed } := by
  obtain ⟨-, hclosed⟩ := closeSlots_sound x.loops h.idle
  refine ⟨fun loop hl => (hclosed loop hl).1, fun loop hl => (hclosed loop hl).2, nofun,
    fun _ loop hl => ?_⟩
  have hmap := closeSlots_map (f := Loop.finished) (fun _ _ => Loop.finished_congr) x.loops h.idle
  have hmem : loop.finished ∈ x.loops.map Loop.finished := hmap ▸ List.mem_map_of_mem hl
  obtain ⟨old, hold, hsame⟩ := List.mem_map.mp hmem
  exact hsame.symm.trans (List.all_eq_true.mp hall old hold)

/-- the slot of a batch in service is open -/
theorem Sound.serving (h : Sound x) {received : ReceivedBatch}
    (hloop : x.loops[slot]? = some ⟨machine, .serving received⟩) :
    Idle machine ∧ machine.state.closed = false := by
  have hmem : ⟨machine, .serving received⟩ ∈ x.loops := List.mem_of_getElem? hloop
  refine ⟨h.idle _ hmem, (h.shut _ hmem).trans (decide_eq_false fun hclosed => ?_)⟩
  exact absurd (h.finished hclosed _ hmem) Bool.false_ne_true

/-- tasks are cancelled at any step, but not again while they wait for their thread -/
def ExecutorEvent.Patient : ExecutorEvent → Prop
  | .serve _ env => env.Patient
  | _ => True

theorem Sound.step {event : ExecutorEvent} (h : Sound x) (hok : event.Patient)
    (hs : x.step event = some x') : Sound x' := by
  cases step_stepped hs with
  | take hloop _ _ =>
    exact (h.setLoop hloop (h.idle _ (List.mem_of_getElem? hloop)) rfl (.inl rfl)).congr rfl rfl
  | served hloop hrun =>
    obtain ⟨hidle, hopen⟩ := h.serving hloop
    have hdone := (processBatch_ends hok x.instanceId hidle hopen).ok hrun
    exact h.setLoop hloop hdone.1 hdone.2.1 (.inl rfl)
  | fatal hloop hrun =>
    obtain ⟨hidle, hopen⟩ := h.serving hloop
    have hdone := (processBatch_ends hok x.instanceId hidle hopen).ok hrun
    exact (h.setLoop hloop hdone.1 hdone.2.1 (.inl rfl)).congr rfl rfl
  | raised hloop hrun =>
    obtain ⟨hidle, hopen⟩ := h.serving hloop
    have hundone := (processBatch_ends hok x.instanceId hidle hopen).error hrun
    exact h.setLoop hloop hundone.1 hundone.2.1 (.inl rfl)
  | receiverClosed hloop =>
    exact (h.setLoop hloop (h.idle _ (List.mem_of_getElem? hloop)) rfl (.inl rfl)).congr rfl rfl
  | stop hloop _ => exact h.setLoop hloop (h.idle _ (List.mem_of_getElem? hloop)) rfl (.inl rfl)
  | cancel hloop hphase =>
    refine h.setLoop hloop (h.idle _ (List.mem_of_getElem? hloop)) rfl (.inr rfl)
  | close hrunning =>
    refine ⟨h.idle, fun loop hl => (h.shut loop hl).trans ?_, nofun, nofun⟩
    rw [hrunning]
    rfl
  | closed _ hall _ => exact h.finish hall
  | failed _ _ hraised =>
    rw [(closeSlots_sound x.loops h.idle).1] at hraised
    cases hraised

theorem Sound.new (instanceId : Nat) (slots : List (SlotKind × Nat)) :
    Sound (.new instanceId slots) := by
  refine ⟨fun loop hl => ?_, fun loop hl => ?_, nofun, nofun⟩
  · obtain ⟨slot, -, rfl⟩ := List.mem_map.mp hl
    exact ⟨rfl, rfl, rfl, rfl⟩
  · obtain ⟨slot, -, rfl⟩ := List.mem_map.mp hl
    rfl

/-! ## every batch is answered -/

/-- the calls keep to the assumptions, and no task is cancelled -/
def ExecutorEvent.Assumed : ExecutorEvent → Prop
  | .serve _ env => env.Assumed
  | .cancel _ => False
  | _ => True

theorem ExecutorEvent.Assumed.patient {event : ExecutorEvent} (h : event.Assumed) :
    event.Patient := by
  cases event with
  | serve slot env => exact Environment.Assumed.patient h
  | _ => trivial

theorem AnsweredOnce.setLoop (h : AnsweredOnce x) (hloop : x.loops[slot]? = some ⟨machine, phase⟩)
    (halive : ∀ error, phase' ≠ .died error)
    (hbooked : (⟨machine', phase'⟩ : Loop).booked.Perm (⟨machine, phase⟩ : Loop).booked) :
    AnsweredOnce (x.setLoop slot machine' phase') := by
  refine ⟨fun loop hl => ?_, ?_, h.distinct⟩
  · rcases List.mem_or_eq_of_mem_set hl with hl | rfl
    · exact h.alive loop hl
    · exact halive
  · obtain ⟨rest, hold, hnew⟩ := Ledger.flatMap_set_perm hloop Loop.booked
    exact ((hnew ⟨machine', phase'⟩).trans (hbooked.append_right rest)).trans
      (hold.symm.trans h.taken)

theorem booked_done {env : Environment} {received : ReceivedBatch} (hassumed : env.Assumed)
    (h : Done env received machine machine') (hphase : (⟨machine', phase'⟩ : Loop).inService = []) :
    (⟨machine', phase'⟩ : Loop).booked.Perm (⟨machine, .serving received⟩ : Loop).booked := by
  obtain ⟨answer, hanswers⟩ := h.2.2 hassumed
  unfold Loop.booked
  rw [hphase, List.nil_append]
  change ((answersIn machine'.calls).map Prod.fst).Perm
    ([received.serial] ++ (answersIn machine.calls).map Prod.fst)
  rw [hanswers, List.map_append]
  exact List.perm_append_comm

theorem AnsweredOnce.step {event : ExecutorEvent} (hsound : Sound x) (h : AnsweredOnce x)
    (hok : event.Assumed) (hs : x.step event = some x') : AnsweredOnce x' := by
  cases step_stepped hs with
  | @take slot received machine hloop _ hfresh =>
    refine ⟨fun loop hl => ?_, ?_, ?_⟩
    · rcases List.mem_or_eq_of_mem_set hl with hl | rfl
      · exact h.alive loop hl
      · exact nofun
    · obtain ⟨rest, hold, hnew⟩ := Ledger.flatMap_set_perm hloop Loop.booked
      have hnext : ((⟨machine, .serving received⟩ : Loop).booked ++ rest).Perm
          ((⟨machine, .waiting⟩ : Loop).booked ++ rest ++ [received.serial]) :=
        (List.perm_append_comm : ([received.serial] ++ _).Perm _)
      exact ((hnew _).trans hnext).trans ((hold.symm.trans h.taken).append_right _)
    · exact List.nodup_append.mpr ⟨h.distinct, List.nodup_singleton _, fun a ha b hb hab =>
        hfresh (List.mem_singleton.mp hb ▸ hab ▸ ha)⟩
  | served hloop hrun =>
    obtain ⟨hidle, hopen⟩ := hsound.serving hloop
    have hdone := (processBatch_ends (Environment.Assumed.patient hok) x.instanceId hidle hopen).ok
      hrun
    exact h.setLoop hloop nofun (booked_done hok hdone rfl)
  | @fatal slot env received machine machine' error hloop hrun =>
    obtain ⟨hidle, hopen⟩ := hsound.serving hloop
    have hdone := (processBatch_ends (Environment.Assumed.patient hok) x.instanceId hidle hopen).ok
      hrun
    have hset : AnsweredOnce (x.setLoop slot machine' .closing) :=
      h.setLoop hloop nofun (booked_done hok hdone rfl)
    exact ⟨hset.alive, hset.taken, hset.distinct⟩
  | raised hloop hrun =>
    obtain ⟨hidle, hopen⟩ := hsound.serving hloop
    exact absurd hok ((processBatch_ends (Environment.Assumed.patient hok) x.instanceId hidle
      hopen).error hrun).2.2
  | @receiverClosed slot machine hloop =>
    have hset : AnsweredOnce (x.setLoop slot machine .ended) := h.setLoop hloop nofun (.refl _)
    exact ⟨hset.alive, hset.taken, hset.distinct⟩
  | stop hloop _ => exact h.setLoop hloop nofun (.refl _)
  | cancel _ _ => exact hok.elim
  | close _ => exact ⟨h.alive, h.taken, h.distinct⟩
  | closed _ _ _ =>
    refine ⟨fun loop hl => ?_, ?_, h.distinct⟩
    · have hmap := closeSlots_map (f := Loop.phase) (fun _ _ => congrArg Prod.fst) x.loops
        hsound.idle
      have hmem : loop.phase ∈ x.loops.map Loop.phase := hmap ▸ List.mem_map_of_mem hl
      obtain ⟨old, hold, hsame⟩ := List.mem_map.mp hmem
      exact hsame ▸ h.alive old hold
    · have hmap := closeSlots_map (fun _ _ => Loop.booked_congr) x.loops hsound.idle
      change ((closeSlots x.loops).1.flatMap Loop.booked).Perm x.taken
      rw [List.flatMap_def, hmap, ← List.flatMap_def]
      exact h.taken
  | failed _ _ hraised =>
    rw [(closeSlots_sound x.loops hsound.idle).1] at hraised
    cases hraised

theorem FirstFatal.step {event : ExecutorEvent} (hsound : Sound x) (h : FirstFatal x)
    (hok : event.Assumed) (hs : x.step event = some x') : FirstFatal x' := by
  have hcount : ∀ {slot : Nat} {loop loop' : Loop}, x.loops[slot]? = some loop →
      loop.leaving = false ∨ loop'.leaving = true →
      x.loops.countP Loop.leaving ≤ (x.loops.set slot loop').countP Loop.leaving := by
    intro slot loop loop' hloop hleaving
    have hset := Ledger.countP_set hloop loop' Loop.leaving
    rcases hleaving with hleaving | hleaving <;>
      simp only [hleaving, Bool.false_eq_true, if_false, if_true] at hset <;>
      split at hset <;> omega
  -- a loop that is not closing the receiver leaves the one that does
  have hkeep : ∀ {slot : Nat} {loop loop' : Loop}, x.loops[slot]? = some loop →
      loop.phase ≠ .closing →
      (∃ l ∈ x.loops, l.phase = .closing) → ∃ l ∈ x.loops.set slot loop', l.phase = .closing := by
    rintro slot loop loop' hloop hphase ⟨l, hl, hclosing⟩
    obtain ⟨i, hi⟩ := List.getElem?_of_mem hl
    refine ⟨l, List.mem_of_getElem? (i := i) ?_, hclosing⟩
    have hne : slot ≠ i := by
      rintro rfl
      exact hphase (Option.some.inj (hloop.symm.trans hi) ▸ hclosing)
    rw [List.getElem?_set_ne hne]
    exact hi
  cases step_stepped hs with
  | take hloop _ _ =>
    exact ⟨h.first, h.ended.trans (hcount hloop (.inl rfl)),
      fun hne => (h.closed hne).imp_right (hkeep hloop nofun)⟩
  | served hloop hrun =>
    exact ⟨h.first, h.ended.trans (hcount hloop (.inl rfl)),
      fun hne => (h.closed hne).imp_right (hkeep hloop nofun)⟩
  | @fatal slot env received machine machine' fatal hloop hrun =>
    refine ⟨?_, ?_, fun _ => .inr ⟨_, List.mem_set (List.getElem?_eq_some_iff.mp hloop).1 _, rfl⟩⟩
    · change some (x.fatalError.getD fatal) = (x.fatals ++ [fatal]).head?
      rw [h.first]
      cases x.fatals with
      | nil => rfl
      | cons first rest => rfl
    · have hset : (x.loops.set slot ⟨machine', .closing⟩).countP Loop.leaving =
          x.loops.countP Loop.leaving + 1 :=
        Ledger.countP_set hloop ⟨machine', .closing⟩ Loop.leaving
      change (x.fatals ++ [fatal]).length ≤ (x.loops.set slot ⟨machine', .closing⟩).countP _
      rw [List.length_append, hset]
      exact Nat.succ_le_succ h.ended
  | raised hloop hrun =>
    exact ⟨h.first, h.ended.trans (hcount hloop (.inl rfl)),
      fun hne => (h.closed hne).imp_right (hkeep hloop nofun)⟩
  | receiverClosed hloop =>
    exact ⟨h.first, h.ended.trans (hcount hloop (.inr rfl)), fun _ => .inl rfl⟩
  | stop hloop hclosed =>
    exact ⟨h.first, h.ended.trans (hcount hloop (.inr rfl)), fun _ => .inl hclosed⟩
  | cancel _ _ => exact hok.elim
  | close _ => exact ⟨h.first, h.ended, fun _ => .inl rfl⟩
  | closed _ _ _ =>
    have hleaving := closeSlots_map (fun _ _ => Loop.leaving_congr) x.loops hsound.idle
    have hphases := closeSlots_map (f := Loop.phase) (fun _ _ => congrArg Prod.fst) x.loops
      hsound.idle
    refine ⟨h.first, ?_, fun hne => (h.closed hne).imp_right ?_⟩
    · have hcounts := congrArg (List.countP id) hleaving
      rw [List.countP_map, List.countP_map] at hcounts
      exact h.ended.trans_eq hcounts.symm
    · rintro ⟨l, hl, hclosing⟩
      have hmem : l.phase ∈ (closeSlots x.loops).1.map Loop.phase :=
        hphases ▸ List.mem_map_of_mem hl
      obtain ⟨l', hl', hsame⟩ := List.mem_map.mp hmem
      exact ⟨l', hl', hsame.trans hclosing⟩
  | failed _ _ hraised =>
    rw [(closeSlots_sound x.loops hsound.idle).1] at hraised
    cases hraised

theorem AnsweredOnce.new (instanceId : Nat) (slots : List (SlotKind × Nat)) :
    AnsweredOnce (.new instanceId slots) := by
  refine ⟨fun loop hl => ?_, ?_, List.nodup_nil⟩
  · obtain ⟨slot, -, rfl⟩ := List.mem_map.mp hl
    exact nofun
  · refine List.Perm.of_eq (List.flatMap_eq_nil_iff.mpr fun loop hl => ?_)
    obtain ⟨slot, -, rfl⟩ := List.mem_map.mp hl
    rfl

end

/-- the device is out of memory at each submission -/
def exhausted : Environment :=
  ⟨fun _ c => if let .submit _ := c then some (.outOfMemory "out of memory") else none,
    fun _ => false, fun _ => 0, fun _ _ => false⟩

/-- the response fails, and then the close of the completion -/
def unreachable : Environment :=
  ⟨fun _ c => match c with
    | .complete _ _ => some (.other "connection lost")
    | .closeCompletion _ => some (.exit "interpreter exit")
    | _ => none, fun _ => false, fun _ => 0, fun _ _ => false⟩

/-- the task is cancelled while it waits for its thread -/
def cancelledOnce : Environment :=
  ⟨fun _ _ => none, fun _ => false, fun _ => 0, fun _ c => decide (c = .awaitWork)⟩

def oneBatch (serial : Nat) : ReceivedBatch := ⟨serial, ⟨7, 0, 2, [1, 4]⟩, 10, true⟩

theorem exhausted_assumed : exhausted.Assumed := by
  refine ⟨⟨fun history c error h => ?_, fun _ _ => rfl⟩, fun _ _ => rfl, fun _ _ _ => rfl,
    fun _ _ _ => rfl, fun _ _ => rfl⟩
  cases c <;> first | cases h; rfl | cases h

/-! ## every run -/

section
variable {x : WorkerExecutor}

/-- however the loops interleave and whatever the copies, the Backend and the device raise: each
batch taken is in a slot or answered by one call, every slot can be claimed again and has closed
each completion once, and the first fatal error is kept and closes the receiver -/
theorem batches_answered {instanceId : Nat} {slots : List (SlotKind × Nat)}
    (h : Steps.Reach WorkerExecutor.step (fun _ event => event.Assumed)
      (.new instanceId slots) x) : AnsweredOnce x ∧ FirstFatal x ∧ Sound x := by
  refine h.invariant (P := fun x => AnsweredOnce x ∧ FirstFatal x ∧ Sound x)
    ⟨.new instanceId slots, ⟨rfl, Nat.zero_le _, fun hne => absurd rfl hne⟩,
      .new instanceId slots⟩ ?_
  intro x event x' hx hok hs
  exact ⟨hx.1.step hx.2.2 hok hs, hx.2.1.step hx.2.2 hok hs, hx.2.2.step hok.patient hs⟩

theorem batches_answered_exhausted : ∃ x : WorkerExecutor,
    x.fatals = [⟨.deviceOom, "out of memory"⟩] ∧ x.taken = [0] ∧
      AnsweredOnce x ∧ FirstFatal x ∧ Sound x := by
  have htaken : Steps.Reach WorkerExecutor.step (fun _ event => event.Assumed)
      (.new 7 [(.cpu, 4), (.async true, 4)]) _ :=
    .step (.take 0 (oneBatch 0)) .refl trivial rfl
  have hserved := htaken.step (ExecutorEvent.serve 0 exhausted) exhausted_assumed rfl
  exact ⟨_, rfl, rfl, batches_answered (.step (.receiverClosed 0) hserved trivial rfl)⟩

/-- whatever is raised by any call, the answers and the closes included, and wherever a task is
cancelled once: every slot can be claimed again, each completion is closed once, and the slots
close when the loops have ended -/
theorem slots_freed {instanceId : Nat} {slots : List (SlotKind × Nat)}
    (h : Steps.Reach WorkerExecutor.step (fun _ event => event.Patient)
      (.new instanceId slots) x) : Sound x :=
  h.invariant (.new instanceId slots) fun _ _ _ hx hok hs => hx.step hok hs

/-- the response of one batch fails, and the task that serves the other one is cancelled -/
def failingServes : List ExecutorEvent :=
  [.take 0 (oneBatch 0), .serve 0 unreachable, .take 1 (oneBatch 1), .serve 1 cancelledOnce]

theorem slots_freed_unreachable : ∃ x : WorkerExecutor,
    x.loops.map Loop.phase = [.died (.exit "interpreter exit"), .died .cancelled] ∧
      x.loops.map (fun loop => (loop.machine.state.busy, loop.machine.state.submitted))
        = [(false, 1), (false, 1)] ∧ Sound x := by
  have hruns : (Steps.run WorkerExecutor.step (fun _ _ => true) (.new 7 [(.cpu, 4), (.async true, 4)])
      failingServes).any (fun x : WorkerExecutor => decide (
        x.loops.map Loop.phase = [.died (.exit "interpreter exit"), .died .cancelled] ∧
        x.loops.map (fun loop => (loop.machine.state.busy, loop.machine.state.submitted))
          = [(false, 1), (false, 1)])) = true := by decide +kernel
  obtain ⟨x, hrun, hend⟩ := (Option.any_eq_true _ _).mp hruns
  obtain ⟨hphases, hslots⟩ := of_decide_eq_true hend
  obtain ⟨_, _, htaken, hrun⟩ := Steps.run_cons hrun
  obtain ⟨_, _, hserved, hrun⟩ := Steps.run_cons hrun
  obtain ⟨_, _, hother, hrun⟩ := Steps.run_cons hrun
  obtain ⟨_, _, hcancelled, hrun⟩ := Steps.run_cons hrun
  cases hrun
  have hunreachable : (ExecutorEvent.serve 0 unreachable).Patient := fun _ => rfl
  have hcancelledOnce : (ExecutorEvent.serve 1 cancelledOnce).Patient := fun _ => rfl
  have hreach : Steps.Reach WorkerExecutor.step (fun _ event => event.Patient)
      (.new 7 [(.cpu, 4), (.async true, 4)]) x :=
    (((Steps.Reach.refl.step _ trivial htaken).step _ hunreachable hserved).step _ trivial
      hother).step _ hcancelledOnce hcancelled
  exact ⟨x, hphases, hslots, slots_freed hreach⟩

end

end ExpertKit.Worker.Execution

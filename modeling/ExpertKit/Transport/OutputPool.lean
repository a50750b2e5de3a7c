import ExpertKit.Lib.Ledger
import ExpertKit.Lib.Steps

/-!
# Transport: the pool of output tensors

`buffers.py`: users lease one tensor each, return it in a task of their own behind a shield, and
`close` drains the pool.  A step is what one task does from one `await` to the next; what the clock
and the device answer comes with the step.  A task parks where the lock of the condition is taken,
and a waiting call may run again at any time: `notify_all` wakes a subset of these.

* `LeaseUser`, `OutputPool`     the tasks and the pool;
* `OutputPool.acquireLoop`, `finishReturn`, `drain`   the sections under the lock;
* `OutputPool.step`             one step of any task, deadline or cancellation;
* `UserMove`, `user_move`       what one step of a user does to the slots;
* `PoolInv`, `pool_cases`       the slots are conserved, and no task is parked at the lock again;
* `output_pool_conserves`       every slot is available or leased once, in all runs.
-/

set_option linter.unusedSectionVars false

namespace ExpertKit.Transport

/-! ## tasks -/

inductive LeaseError where
  | deadlineExceeded
  | unavailable
  /-- an event could not be created, recorded or waited for -/
  | device
  | cancelled
deriving DecidableEq, Repr

/-- where an `async with pool.lease(..)` stands -/
inductive UserPhase where
  /-- at the lock of `_acquire` -/
  | lock
  | waiting
  /-- at the lock that `wait` takes again, with the exception that it raises then -/
  | relock (error : Option LeaseError)
  /-- at the lock of the undo path -/
  | undo (slot : Nat)
  | holding (slot : Nat) (consumed : Bool)
  /-- at the shield of `__aexit__` -/
  | shielded
  /-- at `await cleanup` -/
  | cleaning
  | left (error : Option LeaseError)
deriving DecidableEq, Repr

/-- the task of `_return` -/
inductive Cleanup where
  | absent
  | scheduled (slot : Nat) (consumed : Bool)
  | lock (slot : Nat) (failed : Bool)
  | done (failed : Bool)
deriving DecidableEq, Repr

structure LeaseUser where
  phase : UserPhase
  cleanup : Cleanup
  /-- its cancellation was delivered -/
  cancelled : Bool
deriving DecidableEq, Repr

/-- the task of `_close` -/
inductive CloseTask where
  | absent
  | scheduled
  | lock
  | waiting
  | relock
  /-- at the lock after the slots were collected -/
  | finalLock (failed : Bool)
  | done (failed : Bool)
deriving DecidableEq, Repr

/-- a call of `close` -/
inductive Closer where
  | waiting
  | returned
  | raised
  | cancelled
deriving DecidableEq, Repr

structure OutputPool where
  available : List Nat
  leased : Int
  failed : Bool
  closing : Bool
  closed : Bool
  /-- the lock of the condition, as a task that starts to run finds it -/
  lock : Bool
  /-- the slots with a `reuse_event` -/
  events : Nat → Bool
  /-- `_accelerator is not None` -/
  accelerated : Bool
  users : List LeaseUser
  closeTask : CloseTask
  closers : List Closer

def UserPhase.slots : UserPhase → List Nat
  | .undo slot => [slot]
  | .holding slot _ => [slot]
  | _ => []

def Cleanup.slots : Cleanup → List Nat
  | .scheduled slot _ => [slot]
  | .lock slot _ => [slot]
  | _ => []

/-- the slots that the user or its cleanup still has -/
def LeaseUser.slots (user : LeaseUser) : List Nat := user.phase.slots ++ user.cleanup.slots

namespace OutputPool

def new (capacity : Nat) (accelerated : Bool) : OutputPool :=
  ⟨List.range capacity, 0, false, false, false, false, fun _ => false, accelerated, [], .absent, []⟩

def leasedSlots (x : OutputPool) : List Nat := x.users.flatMap LeaseUser.slots

/-- a lease, or its cleanup, still has the slot -/
def Holds (x : OutputPool) (u slot : Nat) : Prop :=
  ∃ user, x.users[u]? = some user ∧ slot ∈ user.slots

/-- `_close` took the slots -/
def collected (x : OutputPool) : Bool :=
  match x.closeTask with
  | .finalLock _ | .done _ => true
  | _ => false

/-- the first statement of `_close` ran -/
def closeStarted (x : OutputPool) : Bool :=
  match x.closeTask with
  | .absent | .scheduled => false
  | _ => true

/-! ## the sections under the lock -/

/-- `async with self._condition` around statements without an `await` -/
def locked (x : OutputPool) (body : OutputPool → OutputPool) : OutputPool :=
  { body { x with lock := true } with lock := false }

theorem locked_lock (x : OutputPool) (body : OutputPool → OutputPool) :
    (x.locked body).lock = false := rfl

def setPhase (x : OutputPool) (u : Nat) (user : LeaseUser) (phase : UserPhase) : OutputPool :=
  { x with users := x.users.set u { user with phase := phase } }

def leave (x : OutputPool) (u : Nat) (user : LeaseUser) (error : Option LeaseError) : OutputPool :=
  x.setPhase u user (.left error)

def giveBack (slot : Nat) (failed : Bool) (x : OutputPool) : OutputPool :=
  { x with
    available := x.available ++ [slot]
    leased := x.leased - 1
    failed := x.failed || failed }

inductive Grant where
  | refused (error : LeaseError)
  | wait
  | slot (slot : Nat)

/-- the loop of `_acquire` up to the `pop` or the `wait` -/
def grant (x : OutputPool) (late : Bool) : Grant :=
  match x.available.getLast? with
  | none =>
    if x.closing || x.failed then .refused .unavailable
    else if late then .refused .deadlineExceeded
    else .wait
  | some slot => if x.closing || x.failed then .refused .unavailable else .slot slot

/-- `_acquire` from its loop on -/
def acquireLoop (x : OutputPool) (u : Nat) (user : LeaseUser) (late fails : Bool) : OutputPool :=
  match x.grant late with
  | .refused error => x.leave u user (some error)
  | .wait => x.setPhase u user .waiting
  | .slot slot =>
    let y := x.locked fun x =>
      { x with available := x.available.dropLast, leased := x.leased + 1 }
    if y.events slot && fails then
      if y.lock then y.setPhase u user (.undo slot)
      else (y.locked (giveBack slot true)).leave u user (some .device)
    else y.setPhase u user (.holding slot false)

/-- a task of a user goes on where it was parked or waited -/
def resume (x : OutputPool) (u : Nat) (user : LeaseUser) (late later fails : Bool) :
    Option OutputPool :=
  match user.phase with
  | .lock =>
    if x.lock then none
    else if late then some (x.leave u user (some .deadlineExceeded))
    else some (x.acquireLoop u user later fails)
  | .waiting =>
    if x.lock then some (x.setPhase u user (.relock none))
    else some (x.acquireLoop u user later fails)
  | .relock none => if x.lock then none else some (x.acquireLoop u user later fails)
  | .relock (some error) => if x.lock then none else some (x.leave u user (some error))
  | .undo slot =>
    if x.lock then none
    else some ((x.locked (giveBack slot true)).leave u user (some .device))
  | _ => none

/-- an exception inside `wait` -/
def raiseInWait (x : OutputPool) (u : Nat) (user : LeaseUser) (error : LeaseError) : OutputPool :=
  if x.lock then x.setPhase u user (.relock (some error)) else x.leave u user (some error)

/-- a user is cancelled at the `await` where it stands; the body of an `async with` may go on -/
def cancel (x : OutputPool) (u : Nat) (user : LeaseUser) : Option OutputPool :=
  match user.phase with
  | .lock | .undo _ => some (x.leave u user (some .cancelled))
  | .waiting => some (x.raiseInWait u user .cancelled)
  | .relock _ => some (x.setPhase u user (.relock (some .cancelled)))
  | .holding _ _ => some (x.setPhase u user user.phase)
  | .shielded => some (x.setPhase u user .cleaning)
  | .cleaning | .left _ => none

/-- the second half of `_return` -/
def finishReturn (x : OutputPool) (u : Nat) (user : LeaseUser) (slot : Nat) (failed : Bool) :
    OutputPool :=
  if x.lock then { x with users := x.users.set u { user with cleanup := .lock slot failed } }
  else
    let y := x.locked (giveBack slot failed)
    { y with users := y.users.set u { user with cleanup := .done failed } }

/-- `_return`, with what `create_event` and `record` do -/
def runCleanup (x : OutputPool) (u : Nat) (user : LeaseUser) (created recorded : Bool) :
    Option OutputPool :=
  match user.cleanup with
  | .scheduled slot consumed =>
    if consumed && x.accelerated then
      if !x.events slot && !created then some (x.finishReturn u user slot true)
      else some ({ x with events := Function.update x.events slot true }.finishReturn u user slot
        (!recorded))
    else some (x.finishReturn u user slot false)
  | .lock slot failed => if x.lock then none else some (x.finishReturn u user slot failed)
  | _ => none

/-- the end of `_close` -/
def finishClose (x : OutputPool) (failed : Bool) : OutputPool :=
  if x.lock then { x with closeTask := .finalLock failed }
  else x.locked fun x => { x with closed := true, closeTask := .done failed }

/-- `_close` from its `wait_for` on -/
def drain (x : OutputPool) (fails : Bool) : OutputPool :=
  if x.leased = 0 then
    (x.locked fun x => { x with available := [] }).finishClose (fails && x.available.any x.events)
  else x.locked fun x => { x with closeTask := .waiting }

def runClose (x : OutputPool) (fails : Bool) : Option OutputPool :=
  match x.closeTask with
  | .scheduled =>
    if x.lock then some { x with closeTask := .lock }
    else if x.closed then some { x with closeTask := .done false }
    else some ({ x with closing := true }.drain fails)
  | .lock =>
    if x.lock then none
    else if x.closed then some { x with closeTask := .done false }
    else some ({ x with closing := true }.drain fails)
  | .waiting => if x.lock then some { x with closeTask := .relock } else some (x.drain fails)
  | .relock => if x.lock then none else some (x.drain fails)
  | .finalLock failed => if x.lock then none else some (x.finishClose failed)
  | .absent | .done _ => none

end OutputPool

/-! ## steps -/

inductive PoolStep where
  /-- a new user enters: the deadline at the first check and in the loop, `wait_event` -/
  | enter (late later fails : Bool)
  | resume (user : Nat) (late later fails : Bool)
  /-- the deadline of a waiting user -/
  | expire (user : Nat)
  | markConsumed (user : Nat)
  | exit (user : Nat)
  | cancel (user : Nat)
  | runCleanup (user : Nat) (created recorded : Bool)
  /-- the cleanup of the user is done -/
  | join (user : Nat)
  | close
  | runClose (fails : Bool)
  | answer (closer : Nat)
  | cancelClose (closer : Nat)
deriving DecidableEq, Repr

namespace OutputPool

/-- a new user, before its first statement -/
def arrive (x : OutputPool) : OutputPool :=
  { x with users := x.users ++ [⟨.lock, .absent, false⟩] }

def step (x : OutputPool) : PoolStep → Option OutputPool
  | .enter late later fails =>
    some ((x.arrive.resume x.users.length ⟨.lock, .absent, false⟩ late later fails).getD x.arrive)
  | .resume u late later fails => x.users[u]?.bind fun user => x.resume u user late later fails
  | .expire u => x.users[u]?.bind fun user =>
    if user.phase = .waiting then some (x.raiseInWait u user .deadlineExceeded) else none
  | .markConsumed u => x.users[u]?.bind fun user =>
    match user.phase with
    | .holding slot false => some (x.setPhase u user (.holding slot true))
    | _ => none
  | .exit u => x.users[u]?.bind fun user =>
    match user.phase with
    | .holding slot consumed =>
      some (x.setPhase u { user with cleanup := .scheduled slot consumed } .shielded)
    | _ => none
  | .cancel u => x.users[u]?.bind fun user =>
    if user.cancelled then none else x.cancel u { user with cancelled := true }
  | .runCleanup u created recorded => x.users[u]?.bind fun user =>
    x.runCleanup u user created recorded
  | .join u => x.users[u]?.bind fun user =>
    match user.phase, user.cleanup with
    | .shielded, .done failed => some (x.leave u user (if failed then some .device else none))
    | .cleaning, .done failed =>
      some (x.leave u user (some (if failed then .device else .cancelled)))
    | _, _ => none
  | .close => some { x with
      closers := x.closers ++ [.waiting]
      closeTask := if x.closeTask = .absent then .scheduled else x.closeTask }
  | .runClose fails => x.runClose fails
  | .answer c =>
    match x.closers[c]?, x.closeTask with
    | some .waiting, .done failed =>
      some { x with closers := x.closers.set c (if failed then .raised else .returned) }
    | _, _ => none
  | .cancelClose c =>
    if x.closers[c]? = some .waiting then some { x with closers := x.closers.set c .cancelled }
    else none

end OutputPool

/-- the user whose task, cleanup or deadline it is -/
def PoolStep.user : PoolStep → Option Nat
  | .resume u _ _ _ | .expire u | .markConsumed u | .exit u | .cancel u | .runCleanup u _ _
  | .join u => some u
  | _ => none

/-! ## what a user does to the slots -/

/-- no cleanup before the exit, and parked at most at the first lock -/
def LeaseUser.Sound (user : LeaseUser) : Prop :=
  match user.phase with
  | .relock _ | .undo _ => False
  | .lock | .waiting | .holding _ _ => user.cleanup = .absent
  | .shielded | .cleaning | .left _ => ∀ slot failed, user.cleanup ≠ .lock slot failed

/-- one step of a user -/
structure UserMove (x y : OutputPool) (u : Nat) (user user' : LeaseUser) : Prop where
  users : y.users = x.users.set u user'
  lock : y.lock = x.lock
  closing : y.closing = x.closing
  closed : y.closed = x.closed
  closeTask : y.closeTask = x.closeTask
  closers : y.closers = x.closers
  failed : x.failed = true → y.failed = true
  sound : user'.Sound
  slots : (y.available ++ user'.slots).Perm (x.available ++ user.slots)
  leased : y.leased - user'.slots.length = x.leased - user.slots.length
  kept : x.closing = true ∨ x.failed = true → user'.slots ⊆ user.slots

/-- the pool stays as it is, and the user keeps its slots -/
theorem UserMove.quiet {x : OutputPool} {u : Nat} {user user' : LeaseUser} (hsound : user'.Sound)
    (hslots : user'.slots = user.slots) :
    UserMove x { x with users := x.users.set u user' } u user user' where
  users := rfl
  lock := rfl
  closing := rfl
  closed := rfl
  closeTask := rfl
  closers := rfl
  failed := id
  sound := hsound
  slots := by rw [hslots]
  leased := by rw [hslots]
  kept := fun _ => by
    rw [hslots]
    exact List.Subset.refl _

section
variable {x y : OutputPool} {u : Nat} {user : LeaseUser}

/-- a user without a slot leaves -/
theorem leave_move (hslots : user.phase.slots = [])
    (hclean : ∀ slot failed, user.cleanup ≠ .lock slot failed) (error : Option LeaseError) :
    UserMove x (x.leave u user error) u user { user with phase := .left error } :=
  .quiet hclean (by rw [LeaseUser.slots, LeaseUser.slots, hslots]; rfl)

/-- the slot of the undo path or of a cleanup goes back -/
theorem back_move (hlock : x.lock = false) {slot : Nat} {failed : Bool} {user' : LeaseUser}
    (hsound : user'.Sound) (hslots : user.slots = [slot]) (hslots' : user'.slots = []) :
    UserMove x { x.locked (OutputPool.giveBack slot failed) with users := x.users.set u user' } u
      user user' where
  users := rfl
  lock := hlock.symm
  closing := rfl
  closed := rfl
  closeTask := rfl
  closers := rfl
  failed := fun h => (Bool.or_eq_true _ _).mpr (.inl h)
  sound := hsound
  slots := by
    rw [hslots, hslots', List.append_nil]
    exact .refl _
  leased := by
    rw [hslots, hslots']
    show x.leased - 1 - 0 = x.leased - 1
    omega
  kept := fun _ => by
    rw [hslots']
    exact List.nil_subset _

theorem grant_slot {late : Bool} {slot : Nat} (h : x.grant late = .slot slot) :
    x.available = x.available.dropLast ++ [slot] ∧ x.closing = false ∧ x.failed = false := by
  unfold OutputPool.grant at h
  cases hlast : x.available.getLast? with
  | none =>
    rw [hlast] at h
    simp only at h
    split_ifs at h
  | some last =>
    rw [hlast] at h
    simp only at h
    split_ifs at h with hclosed
    cases h
    rw [Bool.or_eq_true, not_or, Bool.not_eq_true, Bool.not_eq_true] at hclosed
    exact ⟨(List.dropLast_append_getLast? _ hlast).symm, hclosed⟩

theorem acquireLoop_move (hlock : x.lock = false) (hphase : user.phase.slots = [])
    (hclean : user.cleanup = .absent) (late fails : Bool) :
    ∃ user', UserMove x (x.acquireLoop u user late fails) u user user' := by
  have hslots : user.slots = [] := by rw [LeaseUser.slots, hphase, hclean]; rfl
  have hfree : ∀ slot failed, user.cleanup ≠ .lock slot failed := by
    rw [hclean]
    nofun
  unfold OutputPool.acquireLoop
  cases hgrant : x.grant late with
  | refused error => exact ⟨_, leave_move hphase hfree _⟩
  | wait => exact ⟨_, .quiet hclean (by rw [hslots, LeaseUser.slots, hclean]; rfl)⟩
  | slot slot =>
    obtain ⟨havailable, hclosing, hfailed⟩ := grant_slot hgrant
    have hopen : ¬ (x.closing = true ∨ x.failed = true) := by
      rw [hclosing, hfailed]
      decide
    simp only
    split_ifs with hevent hheld
    · cases hheld
    · refine ⟨{ user with phase := .left (some .device) }, rfl, hlock.symm, rfl, rfl, rfl, rfl,
        fun h => absurd (.inr h) hopen, hfree, ?_, ?_, fun h => absurd h hopen⟩
      · rw [hslots, LeaseUser.slots, hclean]
        show (x.available.dropLast ++ [slot] ++ []).Perm (x.available ++ [])
        rw [← havailable]
      · rw [hslots, LeaseUser.slots, hclean]
        show x.leased + 1 - 1 - 0 = x.leased - 0
        omega
    · refine ⟨{ user with phase := .holding slot false }, rfl, hlock.symm, rfl, rfl, rfl, rfl, id,
        hclean, ?_, ?_, fun h => absurd h hopen⟩
      · rw [hslots, LeaseUser.slots, hclean]
        show (x.available.dropLast ++ [slot]).Perm (x.available ++ [])
        rw [← havailable, List.append_nil]
      · rw [hslots, LeaseUser.slots, hclean]
        show x.leased + 1 - 1 = x.leased - 0
        omega

theorem resume_move (hlock : x.lock = false) (hsound : user.Sound) {late later fails : Bool}
    (h : x.resume u user late later fails = some y) : ∃ user', UserMove x y u user user' := by
  obtain ⟨phase, cleanup, cancelled⟩ := user
  unfold OutputPool.resume at h
  rw [hlock] at h
  cases phase with
  | lock =>
    obtain rfl : cleanup = .absent := hsound
    simp only [Bool.false_eq_true, if_false] at h
    split_ifs at h
    · cases h
      exact ⟨_, leave_move rfl (by nofun) _⟩
    · cases h
      exact acquireLoop_move hlock rfl rfl later fails
  | waiting =>
    cases h
    exact acquireLoop_move hlock rfl hsound later fails
  | relock error => exact hsound.elim
  | undo slot => exact hsound.elim
  | holding slot consumed => cases h
  | shielded => cases h
  | cleaning => cases h
  | left error => cases h

theorem cancel_move (hlock : x.lock = false) (hsound : user.Sound)
    (h : x.cancel u user = some y) : ∃ user', UserMove x y u user user' := by
  obtain ⟨phase, cleanup, cancelled⟩ := user
  unfold OutputPool.cancel at h
  cases phase with
  | waiting =>
    obtain rfl : cleanup = .absent := hsound
    cases h
    rw [OutputPool.raiseInWait, if_neg (by rw [hlock]; decide)]
    exact ⟨_, leave_move rfl (by nofun) _⟩
  | holding slot consumed =>
    cases h
    exact ⟨_, .quiet hsound rfl⟩
  | shielded =>
    cases h
    exact ⟨_, .quiet hsound rfl⟩
  | lock =>
    obtain rfl : cleanup = .absent := hsound
    cases h
    exact ⟨_, leave_move rfl (by nofun) _⟩
  | relock error => exact hsound.elim
  | undo slot => exact hsound.elim
  | cleaning => cases h
  | left error => cases h

theorem finishReturn_move (hlock : x.lock = false) {slot : Nat} {failed : Bool}
    (hclean : user.cleanup.slots = [slot]) (hphase : user.phase.slots = [])
    (hsound : ({ user with cleanup := .done failed } : LeaseUser).Sound) :
    UserMove x (x.finishReturn u user slot failed) u user
      { user with cleanup := .done failed } := by
  rw [OutputPool.finishReturn, if_neg (by rw [hlock]; decide)]
  refine back_move hlock hsound ?_ ?_
  · rw [LeaseUser.slots, hphase, hclean]
    rfl
  · rw [LeaseUser.slots, hphase]
    rfl

/-- the cleanup of a user after the exit -/
theorem runCleanup_move (hlock : x.lock = false) (hsound : user.Sound) {created recorded : Bool}
    (h : x.runCleanup u user created recorded = some y) :
    ∃ user', UserMove x y u user user' := by
  obtain ⟨phase, cleanup, cancelled⟩ := user
  unfold OutputPool.runCleanup at h
  cases cleanup with
  | scheduled slot consumed =>
    have hphase : phase.slots = [] ∧
        LeaseUser.Sound ⟨phase, .done false, cancelled⟩ ∧
        LeaseUser.Sound ⟨phase, .done true, cancelled⟩ := by
      cases phase with
      | waiting => cases hsound
      | holding slot consumed => cases hsound
      | shielded => exact ⟨rfl, nofun, nofun⟩
      | cleaning => exact ⟨rfl, nofun, nofun⟩
      | left error => exact ⟨rfl, nofun, nofun⟩
      | lock => cases hsound
      | relock error => exact hsound.elim
      | undo slot => exact hsound.elim
    have hreturned : ∀ failed, LeaseUser.Sound ⟨phase, .done failed, cancelled⟩ := by
      rintro (_ | _)
      · exact hphase.2.1
      · exact hphase.2.2
    simp only at h
    split_ifs at h
    · cases h
      exact ⟨_, finishReturn_move hlock rfl hphase.1 (hreturned _)⟩
    · cases h
      have hmove := @finishReturn_move { x with events := Function.update x.events slot true } u
        ⟨phase, .scheduled slot consumed, cancelled⟩ hlock slot (!recorded) rfl hphase.1
        (hreturned _)
      exact ⟨_, hmove.users, hmove.lock, hmove.closing, hmove.closed, hmove.closeTask,
        hmove.closers, hmove.failed, hmove.sound, hmove.slots, hmove.leased, hmove.kept⟩
    · cases h
      exact ⟨_, finishReturn_move hlock rfl hphase.1 (hreturned _)⟩
  | lock slot failed =>
    cases phase with
    | waiting => cases hsound
    | holding slot consumed => cases hsound
    | shielded => exact absurd rfl (hsound slot failed)
    | cleaning => exact absurd rfl (hsound slot failed)
    | left error => exact absurd rfl (hsound slot failed)
    | lock => cases hsound
    | relock error => exact hsound.elim
    | undo slot => exact hsound.elim
  | absent => cases h
  | done failed => cases h

/-- every step of a user is a move -/
theorem user_move {l : PoolStep} (hlock : x.lock = false) (hu : x.users[u]? = some user)
    (hsound : user.Sound) (hl : l.user = some u) (hs : x.step l = some y) :
    ∃ user', UserMove x y u user user' := by
  cases l with
  | resume v late later fails =>
    obtain rfl : v = u := Option.some.inj hl
    rw [OutputPool.step, hu] at hs
    exact resume_move hlock hsound hs
  | expire v =>
    obtain rfl : v = u := Option.some.inj hl
    rw [OutputPool.step, hu, Option.bind_some] at hs
    split_ifs at hs with hphase
    cases hs
    obtain ⟨phase, cleanup, cancelled⟩ := user
    obtain rfl : phase = .waiting := hphase
    obtain rfl : cleanup = .absent := hsound
    rw [OutputPool.raiseInWait, if_neg (by rw [hlock]; decide)]
    exact ⟨_, leave_move rfl (by nofun) _⟩
  | markConsumed v =>
    obtain rfl : v = u := Option.some.inj hl
    rw [OutputPool.step, hu, Option.bind_some] at hs
    obtain ⟨phase, cleanup, cancelled⟩ := user
    simp only at hs
    split at hs
    · cases hs
      exact ⟨_, .quiet hsound rfl⟩
    · cases hs
  | exit v =>
    obtain rfl : v = u := Option.some.inj hl
    rw [OutputPool.step, hu, Option.bind_some] at hs
    obtain ⟨phase, cleanup, cancelled⟩ := user
    simp only at hs
    split at hs
    · cases hs
      obtain rfl : cleanup = .absent := hsound
      exact ⟨_, .quiet (by nofun) rfl⟩
    · cases hs
  | cancel v =>
    obtain rfl : v = u := Option.some.inj hl
    rw [OutputPool.step, hu, Option.bind_some] at hs
    split_ifs at hs
    obtain ⟨user', hmove⟩ := cancel_move hlock
      (show LeaseUser.Sound { user with cancelled := true } from hsound) hs
    exact ⟨user', hmove.users, hmove.lock, hmove.closing, hmove.closed, hmove.closeTask,
      hmove.closers, hmove.failed, hmove.sound, hmove.slots, hmove.leased, hmove.kept⟩
  | runCleanup v created recorded =>
    obtain rfl : v = u := Option.some.inj hl
    rw [OutputPool.step, hu] at hs
    exact runCleanup_move hlock hsound hs
  | join v =>
    obtain rfl : v = u := Option.some.inj hl
    rw [OutputPool.step, hu, Option.bind_some] at hs
    obtain ⟨phase, cleanup, cancelled⟩ := user
    simp only at hs
    split at hs
    · cases hs
      exact ⟨_, leave_move rfl (by nofun) _⟩
    · cases hs
      exact ⟨_, leave_move rfl (by nofun) _⟩
    · cases hs
  | enter late later fails => cases hl
  | close => cases hl
  | runClose fails => cases hl
  | answer c => cases hl
  | cancelClose c => cases hl

end

/-! ## the invariant -/

structure PoolInv (capacity : Nat) (x : OutputPool) : Prop where
  lock : x.lock = false
  sound : ∀ user ∈ x.users, user.Sound
  counted : x.leased = x.leasedSlots.length
  conserved : x.collected = false →
    (x.available ++ x.leasedSlots).Perm (List.range capacity)
  drained : x.collected = true → x.leasedSlots = []
  /-- the close task is never parked -/
  unparked : x.closeTask ≠ .lock ∧ x.closeTask ≠ .relock ∧ ∀ failed, x.closeTask ≠ .finalLock failed
  started : x.closeStarted = true → x.closing = true
  closed : x.closed = true → x.collected = true
  answered : ∀ closer ∈ x.closers, closer = .returned → x.collected = true

section
variable {capacity : Nat} {x y : OutputPool}

theorem PoolInv.new (capacity : Nat) (accelerated : Bool) :
    PoolInv capacity (.new capacity accelerated) where
  lock := rfl
  sound := fun _ h => absurd h List.not_mem_nil
  counted := rfl
  conserved := fun _ => by
    show (List.range capacity ++ []).Perm _
    rw [List.append_nil]
  drained := fun h => (by cases h)
  unparked := ⟨nofun, nofun, nofun⟩
  started := fun h => (by cases h)
  closed := fun h => (by cases h)
  answered := fun _ h => absurd h List.not_mem_nil

theorem collected_closeStarted (h : x.collected = true) : x.closeStarted = true := by
  unfold OutputPool.collected at h
  unfold OutputPool.closeStarted
  cases hclose : x.closeTask <;> rw [hclose] at h <;> first | rfl | cases h

/-- the slots of one user among all -/
theorem UserMove.leasedSlots {u : Nat} {user user' : LeaseUser} (h : UserMove x y u user user')
    (hu : x.users[u]? = some user) : ∃ rest, x.leasedSlots.Perm (user.slots ++ rest) ∧
      y.leasedSlots.Perm (user'.slots ++ rest) := by
  obtain ⟨rest, hbefore, hafter⟩ := Ledger.flatMap_set_perm hu LeaseUser.slots
  refine ⟨rest, hbefore, ?_⟩
  rw [OutputPool.leasedSlots, h.users]
  exact hafter user'

theorem PoolInv.move {u : Nat} {user user' : LeaseUser} (h : PoolInv capacity x)
    (hmove : UserMove x y u user user') (hu : x.users[u]? = some user) : PoolInv capacity y := by
  obtain ⟨rest, hbefore, hafter⟩ := hmove.leasedSlots hu
  have hcollected : y.collected = x.collected := by
    unfold OutputPool.collected
    rw [hmove.closeTask]
  have hstarted : y.closeStarted = x.closeStarted := by
    unfold OutputPool.closeStarted
    rw [hmove.closeTask]
  refine ⟨hmove.lock.trans h.lock, fun other hother => ?_, ?_, fun hopen => ?_, fun hdone => ?_, ?_,
    fun hstart => ?_, fun hclosed => ?_, fun closer hcloser hreturned => ?_⟩
  · rw [hmove.users] at hother
    rcases List.mem_or_eq_of_mem_set hother with hold | rfl
    · exact h.sound other hold
    · exact hmove.sound
  · have hlengths := hmove.leased
    have hold := h.counted
    rw [hbefore.length_eq, List.length_append, Nat.cast_add] at hold
    rw [hafter.length_eq, List.length_append, Nat.cast_add]
    omega
  · have hsplit := hafter.append_left y.available
    rw [← List.append_assoc] at hsplit
    have hback := (hbefore.append_left x.available).symm
    rw [← List.append_assoc] at hback
    exact (hsplit.trans (hmove.slots.append_right rest)).trans
      (hback.trans (h.conserved (hcollected ▸ hopen)))
  · rw [hcollected] at hdone
    have hnone : user.slots ++ rest = [] := by
      rw [h.drained hdone] at hbefore
      exact hbefore.nil_eq.symm
    obtain ⟨huser, hrest⟩ := List.append_eq_nil_iff.mp hnone
    have hkept := hmove.kept (.inl (h.started (collected_closeStarted hdone)))
    rw [huser, List.subset_nil] at hkept
    rw [hkept, hrest] at hafter
    exact hafter.eq_nil
  · rw [hmove.closeTask]
    exact h.unparked
  · rw [hmove.closing]
    exact h.started (hstarted ▸ hstart)
  · rw [hmove.closed] at hclosed
    exact hcollected.trans (h.closed hclosed)
  · rw [hmove.closers] at hcloser
    rw [hcollected]
    exact h.answered closer hcloser hreturned

theorem PoolInv.arrive (h : PoolInv capacity x) : PoolInv capacity x.arrive := by
  have hslots : x.arrive.leasedSlots = x.leasedSlots := by
    unfold OutputPool.leasedSlots OutputPool.arrive
    rw [List.flatMap_append]
    exact List.append_nil _
  refine ⟨h.lock, fun user huser => ?_, ?_, fun hopen => ?_, fun hdone => ?_, h.unparked, h.started,
    h.closed, h.answered⟩
  · rcases List.mem_append.mp huser with hold | hnew
    · exact h.sound user hold
    · rw [List.mem_singleton.mp hnew]
      rfl
  · rw [hslots]
    exact h.counted
  · rw [hslots]
    exact h.conserved hopen
  · rw [hslots]
    exact h.drained hdone

/-- the callers of `close` -/
theorem PoolInv.close (h : PoolInv capacity x) {task : CloseTask} {closers : List Closer}
    (htask : task = x.closeTask ∨ x.closeTask = .absent ∧ task = .scheduled)
    (hclosers : ∀ closer ∈ closers, closer = .returned → closer ∈ x.closers ∨ x.collected = true) :
    PoolInv capacity { x with closeTask := task, closers := closers } := by
  rcases htask with rfl | ⟨habsent, rfl⟩
  · exact ⟨h.lock, h.sound, h.counted, h.conserved, h.drained, h.unparked, h.started, h.closed,
      fun closer hcloser hreturned => (hclosers closer hcloser hreturned).elim
        (fun hold => h.answered closer hold hreturned) id⟩
  · have hopen : ¬ x.collected = true := by
      rw [OutputPool.collected, habsent]
      exact Bool.false_ne_true
    exact ⟨h.lock, h.sound, h.counted, fun _ => h.conserved (Bool.eq_false_iff.mpr hopen),
      fun hno => (by cases hno), ⟨nofun, nofun, nofun⟩, fun hno => (by cases hno),
      fun hclosed => absurd (h.closed hclosed) hopen,
      fun closer hcloser hreturned => (hclosers closer hcloser hreturned).elim
        (fun hold => absurd (h.answered closer hold hreturned) hopen)
        fun hdone => absurd hdone hopen⟩

theorem resume_enter_some {u : Nat} (hlock : x.lock = false) (late later fails : Bool) :
    ∃ y, x.resume u ⟨.lock, .absent, false⟩ late later fails = some y := by
  unfold OutputPool.resume
  simp only [hlock, Bool.false_eq_true, if_false]
  split_ifs <;> exact ⟨_, rfl⟩

/-- `_close` up to its end, or to the next wait -/
theorem PoolInv.drain {z : OutputPool} (h : PoolInv capacity x) (hopen : x.collected = false)
    (hz : z = { x with closing := true }) (fails : Bool) :
    PoolInv capacity (z.drain fails) ∧ (z.drain fails).users = x.users ∧
      (z.drain fails).closing = true := by
  subst hz
  unfold OutputPool.drain
  by_cases hzero : x.leased = 0
  · rw [if_pos hzero, OutputPool.finishClose, OutputPool.locked_lock, if_neg Bool.false_ne_true]
    have hnone : x.leasedSlots = [] := by
      refine List.length_eq_zero_iff.mp ?_
      have hcounted := h.counted
      omega
    exact ⟨⟨rfl, h.sound, h.counted, fun hno => (by cases hno), fun _ => hnone,
      ⟨nofun, nofun, nofun⟩, fun _ => rfl, fun _ => rfl, fun _ _ _ => rfl⟩, rfl, rfl⟩
  · rw [if_neg hzero]
    refine ⟨⟨rfl, h.sound, h.counted, fun _ => h.conserved hopen, fun hno => (by cases hno),
      ⟨nofun, nofun, nofun⟩, fun _ => rfl, fun hclosed => ?_, fun closer hcloser hreturned => ?_⟩,
      rfl, rfl⟩
    · exact absurd (hopen.symm.trans (h.closed hclosed)) Bool.false_ne_true
    · exact absurd (hopen.symm.trans (h.answered closer hcloser hreturned)) Bool.false_ne_true

theorem PoolInv.runClose {fails : Bool} (h : PoolInv capacity x) (hs : x.runClose fails = some y) :
    PoolInv capacity y ∧ y.users = x.users ∧ y.closing = true := by
  have hfree : ¬ x.lock = true := by
    rw [h.lock]
    exact Bool.false_ne_true
  obtain ⟨hlock, hrelock, hfinal⟩ := h.unparked
  unfold OutputPool.runClose at hs
  split at hs
  · rename_i htask
    have hopen : x.collected = false := by rw [OutputPool.collected, htask]
    have hclosed : ¬ x.closed = true := fun hyes =>
      absurd (hopen.symm.trans (h.closed hyes)) Bool.false_ne_true
    rw [if_neg hfree, if_neg hclosed] at hs
    cases hs
    exact h.drain hopen rfl fails
  · rename_i htask
    exact absurd htask hlock
  · rename_i htask
    have hopen : x.collected = false := by rw [OutputPool.collected, htask]
    have hclosing := h.started (by rw [OutputPool.closeStarted, htask])
    rw [if_neg hfree] at hs
    cases hs
    refine h.drain hopen ?_ fails
    rw [← hclosing]
  · rename_i htask
    exact absurd htask hrelock
  · rename_i failed htask
    exact absurd htask (hfinal failed)
  · cases hs
  · cases hs

/-- what any step does: a user moves, perhaps a new one, or somebody calls `close`, or `_close`
goes on -/
theorem pool_cases {l : PoolStep} (h : PoolInv capacity x) (hs : x.step l = some y) :
    (∃ z u user user', (z = x ∨ z = x.arrive) ∧ z.users[u]? = some user ∧
      UserMove z y u user user') ∨
    (∃ task closers, (task = x.closeTask ∨ x.closeTask = .absent ∧ task = .scheduled) ∧
      (∀ closer ∈ closers, closer = .returned → closer ∈ x.closers ∨ x.collected = true) ∧
      y = { x with closeTask := task, closers := closers }) ∨
    ∃ fails, x.runClose fails = some y := by
  by_cases huser : ∃ u, l.user = some u
  · obtain ⟨u, hl⟩ := huser
    cases hu : x.users[u]? with
    | none => cases l <;> cases hl <;> rw [OutputPool.step, hu] at hs <;> cases hs
    | some user =>
      obtain ⟨user', hmove⟩ := user_move h.lock hu (h.sound user (List.mem_of_getElem? hu)) hl hs
      exact .inl ⟨x, u, user, user', .inl rfl, hu, hmove⟩
  · cases l with
    | enter late later fails =>
      obtain ⟨z, hresume⟩ := resume_enter_some (x := x.arrive) (u := x.users.length)
        h.lock late later fails
      rw [OutputPool.step, hresume] at hs
      cases hs
      obtain ⟨user', hmove⟩ := resume_move (show x.arrive.lock = false from h.lock)
        (show LeaseUser.Sound ⟨.lock, .absent, false⟩ from rfl) hresume
      exact .inl ⟨x.arrive, _, _, user', .inr rfl, List.getElem?_concat_length, hmove⟩
    | close =>
      cases hs
      refine .inr (.inl ⟨_, _, ?_, fun closer hcloser hreturned => ?_, rfl⟩)
      · split_ifs with habsent
        · exact .inr ⟨habsent, rfl⟩
        · exact .inl rfl
      · rcases List.mem_append.mp hcloser with hold | hnew
        · exact .inl hold
        · rw [List.mem_singleton.mp hnew] at hreturned
          cases hreturned
    | runClose fails => exact .inr (.inr ⟨fails, hs⟩)
    | answer c =>
      rw [OutputPool.step] at hs
      split at hs
      · rename_i failed _ htask
        cases hs
        refine .inr (.inl ⟨_, _, .inl rfl, fun closer hcloser hreturned => .inr ?_, rfl⟩)
        rw [OutputPool.collected, htask]
      · cases hs
    | cancelClose c =>
      rw [OutputPool.step] at hs
      split_ifs at hs
      cases hs
      refine .inr (.inl ⟨_, _, .inl rfl, fun closer hcloser hreturned => ?_, rfl⟩)
      rcases List.mem_or_eq_of_mem_set hcloser with hold | rfl
      · exact .inl hold
      · cases hreturned
    | resume u late later fails => exact absurd ⟨u, rfl⟩ huser
    | expire u => exact absurd ⟨u, rfl⟩ huser
    | markConsumed u => exact absurd ⟨u, rfl⟩ huser
    | exit u => exact absurd ⟨u, rfl⟩ huser
    | cancel u => exact absurd ⟨u, rfl⟩ huser
    | runCleanup u created recorded => exact absurd ⟨u, rfl⟩ huser
    | join u => exact absurd ⟨u, rfl⟩ huser

theorem PoolInv.step {l : PoolStep} (h : PoolInv capacity x) (hs : x.step l = some y) :
    PoolInv capacity y := by
  rcases pool_cases h hs with ⟨z, u, user, user', hz, hu, hmove⟩ |
    ⟨task, closers, htask, hclosers, rfl⟩ | ⟨fails, hclose⟩
  · rcases hz with rfl | rfl
    · exact h.move hmove hu
    · exact h.arrive.move hmove hu
  · exact h.close htask hclosers
  · exact (h.runClose hclose).1

/-! ## no lease after a failure or the start of `_close` -/

theorem UserMove.holds {u : Nat} {user user' : LeaseUser} (h : UserMove x y u user user')
    (hu : x.users[u]? = some user) (hstop : x.closing = true ∨ x.failed = true) {v slot : Nat}
    (hholds : y.Holds v slot) : x.Holds v slot := by
  obtain ⟨other, hother, hslot⟩ := hholds
  rw [h.users] at hother
  rcases Ledger.getElem?_set_cases hother with ⟨rfl, rfl⟩ | ⟨_, hold⟩
  · exact ⟨user, hu, h.kept hstop hslot⟩
  · exact ⟨other, hold, hslot⟩

theorem holds_arrive {u slot : Nat} (h : x.arrive.Holds u slot) : x.Holds u slot := by
  obtain ⟨other, hother, hslot⟩ := h
  rcases Ledger.getElem?_concat_cases hother with ⟨_, rfl⟩ | ⟨_, hold⟩
  · exact absurd hslot List.not_mem_nil
  · exact ⟨other, hold, hslot⟩

/-- one step of a pool that stops -/
theorem PoolInv.stopped {l : PoolStep} (h : PoolInv capacity x)
    (hstop : x.closing = true ∨ x.failed = true) (hs : x.step l = some y) :
    (y.closing = true ∨ y.failed = true) ∧
      ∀ u slot, y.Holds u slot → x.Holds u slot := by
  rcases pool_cases h hs with ⟨z, u, user, user', hz, hu, hmove⟩ | ⟨task, closers, _, _, rfl⟩ |
    ⟨fails, hclose⟩
  · have hstop' : z.closing = true ∨ z.failed = true := by
      rcases hz with rfl | rfl
      · exact hstop
      · exact hstop
    refine ⟨hstop'.imp (fun hyes => hmove.closing.trans hyes) hmove.failed, fun v slot hholds => ?_⟩
    have hbefore := hmove.holds hu hstop' hholds
    rcases hz with rfl | rfl
    · exact hbefore
    · exact holds_arrive hbefore
  · exact ⟨hstop, fun _ _ => id⟩
  · obtain ⟨_, husers, hclosing⟩ := h.runClose hclose
    refine ⟨.inl hclosing, fun u slot => ?_⟩
    unfold OutputPool.Holds
    rw [husers]
    exact id

end

/-! ## all runs -/

/-- **The pool conserves its tensors.**  In every run the available slots and the leased ones are
the initial slots, each once, until `_close` collects them; no slot is leased twice; nobody gets a
slot after `_close` started or a failure was recorded; and `close` returns with no lease left. -/
theorem output_pool_conserves (capacity : Nat) (accelerated : Bool) {x : OutputPool}
    (hx : Steps.Reach OutputPool.step (fun _ _ => True) (.new capacity accelerated) x) :
    (x.collected = false → (x.available ++ x.leasedSlots).Perm (List.range capacity)) ∧
    x.leasedSlots.Nodup ∧ x.leased = x.leasedSlots.length ∧
    (x.closeStarted = true ∨ x.failed = true → ∀ y,
      Steps.Reach OutputPool.step (fun _ _ => True) x y →
        ∀ u slot, y.Holds u slot → x.Holds u slot) ∧
    (Closer.returned ∈ x.closers → x.leasedSlots = []) := by
  have h : PoolInv capacity x :=
    hx.invariant (.new capacity accelerated) fun _ _ _ h _ hs => h.step hs
  refine ⟨h.conserved, ?_, h.counted, fun hstop y hy => ?_, fun hreturned => ?_⟩
  · cases hcollected : x.collected with
    | false =>
      have hnodup := (h.conserved hcollected).nodup_iff.mpr List.nodup_range
      exact hnodup.of_append_right
    | true =>
      rw [h.drained hcollected]
      exact List.nodup_nil
  · have hrun := hy.invariant (P := fun z => PoolInv capacity z ∧
        (z.closing = true ∨ z.failed = true) ∧ ∀ u slot, z.Holds u slot → x.Holds u slot)
      ⟨h, hstop.imp_left h.started, fun _ _ => id⟩ fun s l s' hz _ hs => by
        obtain ⟨hinv, hstop, hkept⟩ := hz
        obtain ⟨hstop', hheld⟩ := hinv.stopped hstop hs
        exact ⟨hinv.step hs, hstop', fun u slot hholds => hkept u slot (hheld u slot hholds)⟩
    exact hrun.2.2
  · exact h.drained (h.answered _ hreturned rfl)

/-- two users of a pool on a device: the first one is cancelled at the shield while its cleanup,
whose event cannot be created, waits to run; `close` comes before that -/
def shieldedRun : List PoolStep :=
  [.enter false false false, .enter false false false, .markConsumed 0, .exit 0, .cancel 0, .close,
    .runClose false, .runCleanup 0 false true, .join 0, .exit 1, .runCleanup 1 true true, .join 1,
    .runClose false, .answer 0]

theorem output_pool_conserves_shielded : ∃ x : OutputPool, x.failed = true ∧
    x.closers = [.returned] ∧ x.leasedSlots = [] ∧ x.leased = 0 := by
  obtain ⟨x, hx, hend⟩ := (Option.any_eq_true
    (fun x : OutputPool => x.failed && decide (x.closers = [.returned]))
    (Steps.run OutputPool.step (fun _ _ => true) (.new 2 true) shieldedRun)).mp (by decide)
  obtain ⟨hfailed, hclosers⟩ := (Bool.and_eq_true _ _).mp hend
  have hreturned := of_decide_eq_true hclosers
  obtain ⟨_, _, hcounted, _, hdone⟩ := output_pool_conserves 2 true
    ((Steps.Reach.of_run .refl hx).mono fun _ _ _ => trivial)
  have hnone := hdone (by rw [hreturned]; exact List.mem_singleton_self _)
  refine ⟨x, hfailed, hreturned, hnone, ?_⟩
  rw [hcounted, hnone]
  rfl

end ExpertKit.Transport

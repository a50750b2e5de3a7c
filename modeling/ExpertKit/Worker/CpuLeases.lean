import ExpertKit.Worker.DramCache
import ExpertKit.Worker.SharedLoads

/-!
# Worker: the leases of the CPU weight loader

`CpuWeightLoader` of `ek-worker/src/expertkit_worker/weights/loader.py` over the DRAM cache, for all
keys.  A task runs from one suspension to the next.  A cancellation reaches it at the suspension: an
unfinished load behind its shield, the gather of an unfinished load, the wait of `reserve`, or a
fetch.  From Python 3.12 on, which the type parameters of these classes need, the gather of a
finished task does not suspend.

* `AsyncLock`             a lock that counts the acquisitions that had to suspend;
* `CpuWeightLoader`, `acquire`, `join`, `leave`, `resume`, `gathered`   the callers;
* `run`, `fetched`        `_populate_cache`;
* `Tasks`, `Account`      the invariants of callers and loads, and of the cache;
* `Settled`, `cpu_weight_loader_releases`   what all runs give back.
-/

set_option linter.unusedSectionVars false

namespace ExpertKit.Worker.CpuLeases

open SharedLoads (LoadPolicy)

/-! ## locks -/

structure AsyncLock where
  held : Bool
  suspended : Nat
deriving DecidableEq, Repr

namespace AsyncLock

def free : AsyncLock := ⟨false, 0⟩

def acquire (l : AsyncLock) : AsyncLock :=
  if l.held then { l with suspended := l.suspended + 1 } else { l with held := true }

def release (l : AsyncLock) : AsyncLock := { l with held := false }

/-- `async with lock` around a body without an await -/
def guarded (l : AsyncLock) : AsyncLock := l.acquire.release

@[simp] theorem guarded_free : free.guarded = free := rfl

end AsyncLock

/-! ## loads and callers -/

inductive WeightSource where
  | dram
  | disk
  | peer
  | weightServer
deriving DecidableEq, Repr

/-- what `_populate_cache` can raise -/
inductive LoadError where
  | weightLoadFailed
  /-- of a fetch, other than a failed source -/
  | source (diagnostic : String)
  /-- of the DRAM cache -/
  | cache (diagnostic : String)
deriving DecidableEq, Repr

/-- `loaded` is the `_LoadResult` with its seed lease -/
inductive Outcome (T : Type) where
  | loaded (source : WeightSource) (value : T) (seedOpen : Bool)
  | raised (error : LoadError)
  | cancelled
deriving DecidableEq

/-- where the task of `_populate_cache` is -/
inductive Progress (T : Type) where
  | created
  | reserving
  | loading
  | done (outcome : Outcome T)
deriving DecidableEq

structure InflightLoad (T : Type) where
  key : WeightKey
  policy : LoadPolicy
  progress : Progress T
  /-- `task.cancel()` was called before the task was done -/
  cancelling : Bool
  waiters : Nat
deriving DecidableEq

inductive Result (T : Type) where
  | lease (value : T) (source : WeightSource) (closed : Bool)
  | raised (error : LoadError)
  | runtime (diagnostic : String)
  | cancelled
deriving DecidableEq

/-- where a caller goes on after `_leave_inflight` -/
inductive After (T : Type) where
  | retry
  | finish (result : Result T)
deriving DecidableEq

inductive Phase (T : Type) where
  /-- at the head of the loop -/
  | joining
  | waiting (load : Nat)
  /-- at the gather of an unfinished load -/
  | gathering (load : Nat) (after : After T)
  | ended (result : Result T)
deriving DecidableEq

def After.phase {T : Type} : After T → Phase T
  | .retry => .joining
  | .finish result => .ended result

structure Caller (T : Type) where
  key : WeightKey
  policy : LoadPolicy
  phase : Phase T
  /-- it was cancelled at some time -/
  cancelled : Bool
  /-- a cancellation that has not reached it yet -/
  pending : Bool
deriving DecidableEq

/-- `faults` are the errors of calls that close a returned lease -/
structure CpuWeightLoader (T : Type) where
  reservationBytes : Int
  cache : DramCache T
  condition : AsyncLock
  inflightLock : AsyncLock
  inflight : List (WeightKey × Nat)
  loads : List (InflightLoad T)
  callers : List (Caller T)
  faults : List String

namespace CpuWeightLoader

section
variable {T : Type}

def new (reservationBytes maxBytes : Int) : CpuWeightLoader T :=
  ⟨reservationBytes, .new maxBytes, .free, .free, [], [], [], []⟩

/-- a locked section of the cache -/
def withCache {α : Type} (s : CpuWeightLoader T) (f : DramCache T → α × DramCache T) :
    α × CpuWeightLoader T :=
  ((f s.cache).1, { s with cache := (f s.cache).2, condition := s.condition.guarded })

theorem withCache_eq {α : Type} {s : CpuWeightLoader T} {f : DramCache T → α × DramCache T} {a : α}
    {c : DramCache T} (h : f s.cache = (a, c)) :
    s.withCache f = (a, { s with cache := c, condition := s.condition.guarded }) := by
  unfold withCache
  rw [h]

def setLoad (s : CpuWeightLoader T) (id : Nat) (l : InflightLoad T) : CpuWeightLoader T :=
  { s with loads := s.loads.set id l }

def setCaller (s : CpuWeightLoader T) (i : Nat) (c : Caller T) : CpuWeightLoader T :=
  { s with callers := s.callers.set i c }

/-! ## callers -/

/-- `_acquire` up to its loop -/
def acquire (s : CpuWeightLoader T) (key : WeightKey) (policy : LoadPolicy) : CpuWeightLoader T :=
  match s.withCache fun c => c.acquire key with
  | (some value, s) => { s with
      callers := s.callers ++ [⟨key, policy, .ended (.lease value .dram false), false, false⟩] }
  | (none, s) => { s with callers := s.callers ++ [⟨key, policy, .joining, false, false⟩] }

/-- `_join_inflight` -/
def joinInflight (s : CpuWeightLoader T) (i : Nat) (c : Caller T) : Option (CpuWeightLoader T) :=
  let s := { s with inflightLock := s.inflightLock.guarded }
  match s.inflight.lookup c.key with
  | some id =>
    match s.loads[id]? with
    | some l => some ((s.setLoad id { l with waiters := l.waiters + 1 }).setCaller i
        { c with phase := .waiting id })
    | none => none
  | none => some { s with
      inflight := s.inflight ++ [(c.key, s.loads.length)]
      loads := s.loads ++ [⟨c.key, c.policy, .created, false, 1⟩]
      callers := s.callers.set i { c with phase := .waiting s.loads.length } }

def join (s : CpuWeightLoader T) (i : Nat) : Option (CpuWeightLoader T) :=
  match s.callers[i]? with
  | none => none
  | some c =>
    match c.phase with
    | .joining => s.joinInflight i c
    | _ => none

/-- the end of `_leave_inflight` once the load is done, and what the caller does then -/
def cleanUp (s : CpuWeightLoader T) (i : Nat) (c : Caller T) (id : Nat) (l : InflightLoad T)
    (outcome : Outcome T) (after : After T) : CpuWeightLoader T :=
  match outcome with
  | .loaded source value true =>
    let s := s.setLoad id { l with progress := .done (.loaded source value false) }
    match s.withCache fun cache => cache.release l.key with
    | (.ok _, s) => s.setCaller i { c with phase := after.phase }
    | (.error diagnostic, s) => s.setCaller i { c with phase := .ended (.runtime diagnostic) }
  | _ => (s.setLoad id l).setCaller i { c with phase := after.phase }

/-- `_leave_inflight` up to the gather of an unfinished load -/
def leave (s : CpuWeightLoader T) (i : Nat) (c : Caller T) (id : Nat) (l : InflightLoad T)
    (after : After T) : CpuWeightLoader T :=
  let s := { s with inflightLock := s.inflightLock.guarded }
  if l.waiters = 0 then
    s.setCaller i { c with
      phase := .ended (.runtime "CPU weight in-flight waiter accounting underflow") }
  else
    let l := { l with waiters := l.waiters - 1 }
    if l.waiters = 0 ∧ s.inflight.lookup c.key = some id then
      let s := { s with inflight := Assoc.erase s.inflight c.key }
      match l.progress with
      | .done outcome => s.cleanUp i c id l outcome after
      | _ => (s.setLoad id { l with cancelling := true }).setCaller i
          { c with phase := .gathering id after }
    else (s.setLoad id l).setCaller i { c with phase := after.phase }

/-- what a caller makes of the outcome of the load it has joined, with the lease it takes -/
def received (s : CpuWeightLoader T) (c : Caller T) (l : InflightLoad T) :
    Outcome T → After T × CpuWeightLoader T
  | .loaded source _ _ =>
    match s.withCache fun cache => cache.acquire c.key with
    | (some value, s) => (.finish (.lease value source false), s)
    | (none, s) =>
      (.finish (.runtime "completed CPU weight load is missing from DRAM cache"), s)
  | .raised .weightLoadFailed =>
    (if l.policy = c.policy then .finish (.raised .weightLoadFailed) else .retry, s)
  | .raised error => (.finish (.raised error), s)
  | .cancelled => (.finish .cancelled, s)

/-- a caller behind the shield of its load runs on -/
def resume (s : CpuWeightLoader T) (i : Nat) : Option (CpuWeightLoader T) :=
  match s.callers[i]? with
  | none => none
  | some c =>
    match c.phase with
    | .waiting id =>
      match s.loads[id]? with
      | none => none
      | some l =>
        if c.pending then
          some (s.leave i { c with pending := false } id l (.finish .cancelled))
        else
          match l.progress with
          | .done outcome =>
            some ((s.received c l outcome).2.leave i c id l (s.received c l outcome).1)
          | _ => none
    | _ => none

/-- the gathered load is done -/
def gathered (s : CpuWeightLoader T) (i : Nat) : Option (CpuWeightLoader T) :=
  match s.callers[i]? with
  | none => none
  | some c =>
    match c.phase with
    | .gathering id after =>
      match s.loads[id]? with
      | none => none
      | some l =>
        match l.progress with
        | .done outcome =>
          -- a cancelled gather raises, and the outcome is lost
          if c.pending then
            some (s.setCaller i { c with phase := .ended .cancelled, pending := false })
          else some (s.cleanUp i c id l outcome after)
        | _ => none
    | _ => none

/-- `task.cancel()` of a caller; the gather hands it on to the load -/
def cancel (s : CpuWeightLoader T) (i : Nat) : Option (CpuWeightLoader T) :=
  match s.callers[i]? with
  | none => none
  | some c =>
    match c.phase with
    | .waiting _ => some (s.setCaller i { c with cancelled := true, pending := true })
    | .gathering id _ =>
      match s.loads[id]? with
      | none => none
      | some l =>
        let s := s.setCaller i { c with cancelled := true, pending := true }
        match l.progress with
        | .done _ => some s
        | _ => some (s.setLoad id { l with cancelling := true })
    | _ => none

/-- `close` of the lease that a call returned -/
def close (s : CpuWeightLoader T) (i : Nat) : Option (CpuWeightLoader T) :=
  match s.callers[i]? with
  | none => none
  | some c =>
    match c.phase with
    | .ended (.lease value source closed) =>
      if closed then some s
      else
        let s := s.setCaller i { c with phase := .ended (.lease value source true) }
        match s.withCache fun cache => cache.release c.key with
        | (.ok _, s) => some s
        | (.error diagnostic, s) => some { s with faults := s.faults ++ [diagnostic] }
    | _ => none

/-! ## `_populate_cache` -/

/-- what the sources give to a load -/
inductive Fetch (T : Type) where
  | prepared (source : WeightSource) (entry : T) (byteCount : Int)
  | missing
  | raised (diagnostic : String)

/-- a local load reads the disk only -/
def allows (policy : LoadPolicy) : WeightSource → Bool
  | .dram => false
  | .disk => true
  | .peer => !policy.localOnly && !policy.peerEndpoints.isEmpty
  | .weightServer => !policy.localOnly

def Fetch.allowed (policy : LoadPolicy) : Fetch T → Bool
  | .prepared source _ _ => allows policy source
  | _ => true

def finish (s : CpuWeightLoader T) (id : Nat) (l : InflightLoad T) (outcome : Outcome T) :
    CpuWeightLoader T :=
  s.setLoad id { l with progress := .done outcome }

/-- the `finally` of a load whose reservation is not finished -/
def giveBack (s : CpuWeightLoader T) (id : Nat) (l : InflightLoad T) (outcome : Outcome T) :
    CpuWeightLoader T :=
  match s.withCache fun cache => cache.cancel s.reservationBytes with
  | (.ok _, s) => s.finish id l outcome
  | (.error diagnostic, s) => s.finish id l (.raised (.cache diagnostic))

/-- one pass of `reserve`, and on success the second look into the cache -/
def reserve (s : CpuWeightLoader T) (id : Nat) (l : InflightLoad T) : CpuWeightLoader T :=
  match s.withCache fun cache => cache.reserve s.reservationBytes with
  | (false, s) => s.setLoad id { l with progress := .reserving }
  | (true, s) =>
    match s.withCache fun cache => cache.acquire l.key with
    | (some value, s) => s.giveBack id l (.loaded .dram value true)
    | (none, s) => s.setLoad id { l with progress := .loading }

/-- the task of a load runs from its start or from the wait of `reserve`, or is cancelled there or
at a fetch -/
def run (s : CpuWeightLoader T) (id : Nat) : Option (CpuWeightLoader T) :=
  match s.loads[id]? with
  | none => none
  | some l =>
    match l.progress with
    | .created =>
      if l.cancelling then some (s.finish id l .cancelled)
      else
        match s.cache.checkReserve s.reservationBytes with
        | some diagnostic => some (s.finish id l (.raised (.cache diagnostic)))
        | none => some (s.reserve id l)
    | .reserving =>
      -- a cancelled wait takes the lock of the condition again before it raises
      if l.cancelling then
        some ({ s with condition := s.condition.guarded }.finish id l .cancelled)
      else some (s.reserve id l)
    | .loading => if l.cancelling then some (s.giveBack id l .cancelled) else none
    | .done _ => none

/-- the sources have answered a load that is not cancelled -/
def fetched (s : CpuWeightLoader T) (id : Nat) (fetch : Fetch T) : Option (CpuWeightLoader T) :=
  match s.loads[id]? with
  | none => none
  | some l =>
    match l.progress with
    | .loading =>
      if l.cancelling ∨ fetch.allowed l.policy = false then none
      else
        match fetch with
        | .prepared source entry byteCount =>
          match s.withCache fun cache =>
              cache.commit s.reservationBytes l.key entry byteCount with
          | (.ok value, s) => some (s.finish id l (.loaded source value true))
          | (.error diagnostic, s) => some (s.finish id l (.raised (.cache diagnostic)))
        | .missing => some (s.giveBack id l (.raised .weightLoadFailed))
        | .raised diagnostic => some (s.giveBack id l (.raised (.source diagnostic)))
    | _ => none

end

end CpuWeightLoader

open CpuWeightLoader (Fetch)

inductive Label (T : Type) where
  | acquire (key : WeightKey) (policy : LoadPolicy)
  | join (caller : Nat)
  | resume (caller : Nat)
  | gathered (caller : Nat)
  | cancel (caller : Nat)
  | close (caller : Nat)
  | run (load : Nat)
  | fetched (load : Nat) (fetch : Fetch T)

section
variable {T : Type}

def step (s : CpuWeightLoader T) : Label T → Option (CpuWeightLoader T)
  | .acquire key policy => some (s.acquire key policy)
  | .join i => s.join i
  | .resume i => s.resume i
  | .gathered i => s.gathered i
  | .cancel i => s.cancel i
  | .close i => s.close i
  | .run id => s.run id
  | .fetched id fetch => s.fetched id fetch

/-- no caller is cancelled twice -/
def once (s : CpuWeightLoader T) : Label T → Bool
  | .cancel i =>
    match s.callers[i]? with
    | none => true
    | some c => !c.cancelled
  | _ => true

/-! ## callers and loads -/

def InflightLoad.finished (l : InflightLoad T) : Bool :=
  match l.progress with
  | .done _ => true
  | _ => false

def InflightLoad.isLoading (l : InflightLoad T) : Bool :=
  match l.progress with
  | .loading => true
  | _ => false

/-- the reservation passed the checks of `reserve` and is not settled -/
def InflightLoad.admitted (l : InflightLoad T) : Bool :=
  match l.progress with
  | .reserving => true
  | .loading => true
  | _ => false

/-- the load keeps a seed lease on this key -/
def InflightLoad.seeds (key : WeightKey) (l : InflightLoad T) : Bool :=
  match l.progress with
  | .done (.loaded _ _ seedOpen) => seedOpen && decide (l.key = key)
  | _ => false

def Caller.waitsFor (id : Nat) (c : Caller T) : Bool :=
  match c.phase with
  | .waiting load => decide (load = id)
  | _ => false

/-- the caller has returned a lease on this key that is not closed -/
def Caller.holds (key : WeightKey) (c : Caller T) : Bool :=
  match c.phase with
  | .ended (.lease _ _ closed) => !closed && decide (c.key = key)
  | _ => false

/-- no error of the accounting -/
def LoadError.Ok : LoadError → Prop
  | .cache diagnostic => diagnostic ≠ "DRAM cache key is already present" ∧
      diagnostic ≠ "DRAM cache reservation accounting underflow"
  | _ => True

def Outcome.Ok : Outcome T → Prop
  | .raised error => error.Ok
  | _ => True

/-- a call ends with a lease, with an error of its load, or cancelled -/
def Result.Ok : Result T → Prop
  | .runtime _ => False
  | .raised error => error.Ok
  | _ => True

/-- a registered load -/
structure InflightLoad.Live (l : InflightLoad T) : Prop where
  uncancelled : l.cancelling = false
  awaited : 0 < l.waiters
  outcome : ∀ o, l.progress = .done o → o ≠ .cancelled ∧ ∀ source v, o ≠ .loaded source v false

/-- a load that nobody waits for -/
structure InflightLoad.Left (l : InflightLoad T) : Prop where
  waiters : l.waiters = 0
  outcome : ∀ o, l.progress = .done o → ∀ source v, o ≠ .loaded source v true
  cancelling : l.finished = false → l.cancelling = true

def Caller.Ok (loads : List (InflightLoad T)) (c : Caller T) : Prop :=
  match c.phase with
  | .joining => c.pending = false
  | .waiting id => (∃ l, loads[id]? = some l ∧ l.key = c.key) ∧
      (c.pending = true → c.cancelled = true)
  | .gathering id after => after = .finish .cancelled ∧ c.cancelled = true ∧ c.pending = false ∧
      ∃ l, loads[id]? = some l ∧ l.cancelling = true
  | .ended result => result.Ok

structure InflightLoad.Ok (inflight : List (WeightKey × Nat)) (callers : List (Caller T)) (id : Nat)
    (l : InflightLoad T) : Prop where
  waiters : l.waiters = callers.countP (Caller.waitsFor id)
  left : (l.key, id) ∉ inflight → l.Left
  cancelled : l.cancelling = true → ∀ o, l.progress = .done o → o = .cancelled
  gatherer : l.cancelling = true → l.finished = false →
    ∃ c ∈ callers, ∃ after, c.phase = .gathering id after
  outcome : ∀ o, l.progress = .done o → o.Ok

structure Tasks (inflight : List (WeightKey × Nat)) (loads : List (InflightLoad T))
    (callers : List (Caller T)) : Prop where
  keys : (inflight.map Prod.fst).Nodup
  registered : ∀ e ∈ inflight, ∃ l, loads[e.2]? = some l ∧ l.key = e.1 ∧ l.Live
  loadsOk : ∀ (id : Nat) l, loads[id]? = some l → l.Ok inflight callers id
  callersOk : ∀ c ∈ callers, c.Ok loads

variable {inflight : List (WeightKey × Nat)} {loads : List (InflightLoad T)}
  {callers : List (Caller T)}

/-- the callers go on to mean the same loads -/
theorem Caller.Ok.mono {c : Caller T} (h : c.Ok loads) {loads' : List (InflightLoad T)}
    (hloads : ∀ (id : Nat) l, loads[id]? = some l → ∃ l', loads'[id]? = some l' ∧ l'.key = l.key ∧
      (l.cancelling = true → l'.cancelling = true)) : c.Ok loads' := by
  unfold Caller.Ok at h ⊢
  split at h
  · exact h
  · rename_i id _
    obtain ⟨⟨l, hl, hkey⟩, hpending⟩ := h
    obtain ⟨l', hl', hkey', _⟩ := hloads id l hl
    exact ⟨⟨l', hl', hkey'.trans hkey⟩, hpending⟩
  · rename_i id after _
    obtain ⟨hafter, hcancelled, hpending, l, hl, hcancelling⟩ := h
    obtain ⟨l', hl', _, hkept⟩ := hloads id l hl
    exact ⟨hafter, hcancelled, hpending, l', hl', hkept hcancelling⟩
  · exact h

theorem set_mono {id : Nat} {l : InflightLoad T} (hl : loads[id]? = some l) (l' : InflightLoad T)
    (hkey : l'.key = l.key) (hcancelling : l.cancelling = true → l'.cancelling = true) :
    ∀ (j : Nat) a, loads[j]? = some a → ∃ b, (loads.set id l')[j]? = some b ∧ b.key = a.key ∧
      (a.cancelling = true → b.cancelling = true) := by
  intro j a ha
  by_cases hj : id = j
  · subst hj
    rw [hl] at ha
    cases ha
    refine ⟨l', ?_, hkey, hcancelling⟩
    rw [List.getElem?_set_self (List.getElem?_eq_some_iff.mp hl).1]
  · exact ⟨a, by rw [List.getElem?_set_ne hj]; exact ha, rfl, fun hc => hc⟩

theorem Tasks.new : Tasks ([] : List (WeightKey × Nat)) ([] : List (InflightLoad T)) [] :=
  ⟨List.nodup_nil, by simp, by simp, by simp⟩

/-- a caller changes that neither waits nor waited -/
theorem Tasks.setCaller (h : Tasks inflight loads callers) {i : Nat} {c : Caller T}
    (hc : callers[i]? = some c) {c' : Caller T} (hok : c'.Ok loads)
    (hwaits : ∀ id, c'.waitsFor id = c.waitsFor id)
    (hgather : ∀ id after, c.phase = .gathering id after →
      ∃ l, loads[id]? = some l ∧ l.finished = true) :
    Tasks inflight loads (callers.set i c') := by
  refine ⟨h.keys, h.registered, ?_, ?_⟩
  · intro id l hl
    obtain ⟨hwaiters, hleft, hcancelled, hgatherer, hout⟩ := h.loadsOk id l hl
    refine ⟨?_, hleft, hcancelled, ?_, hout⟩
    · have hset := Ledger.countP_set hc c' (Caller.waitsFor id)
      rw [hwaits id] at hset
      omega
    · intro hcancelling hfinished
      obtain ⟨g, hg, after, hphase⟩ := hgatherer hcancelling hfinished
      obtain ⟨j, hj⟩ := List.mem_iff_getElem?.mp hg
      by_cases hij : i = j
      · -- the changed caller gathered a load that is done
        subst hij
        rw [hc] at hj
        cases hj
        obtain ⟨l', hl', hfinished'⟩ := hgather id after hphase
        rw [hl] at hl'
        cases hl'
        rw [hfinished] at hfinished'
        cases hfinished'
      · exact ⟨g, List.mem_of_getElem? (by rw [List.getElem?_set_ne hij]; exact hj), after, hphase⟩
  · intro a ha
    rcases List.mem_or_eq_of_mem_set ha with ha | rfl
    · exact h.callersOk a ha
    · exact hok

/-- a load goes on; its waiters and its registration stay -/
theorem Tasks.setLoad (h : Tasks inflight loads callers) {id : Nat} {l : InflightLoad T}
    (hl : loads[id]? = some l) {l' : InflightLoad T} (hkey : l'.key = l.key)
    (hwaiters : l'.waiters = l.waiters) (hcancelling : l'.cancelling = l.cancelling)
    (hprogress : l.finished = false)
    (hdone : ∀ o, l'.progress = .done o → o.Ok ∧
      (l.cancelling = true → o = .cancelled) ∧
      (l.cancelling = false → o ≠ .cancelled ∧ ∀ source v, o ≠ .loaded source v false)) :
    Tasks inflight (loads.set id l') callers := by
  have hat := (List.getElem?_eq_some_iff.mp hl).1
  refine ⟨h.keys, ?_, ?_, fun c hc => (h.callersOk c hc).mono
    (set_mono hl _ hkey fun hc => hcancelling.trans hc)⟩
  · intro e he
    obtain ⟨a, ha, hak, hlive⟩ := h.registered e he
    by_cases hid : id = e.2
    · rw [← hid, hl] at ha
      cases ha
      refine ⟨l', by rw [← hid, List.getElem?_set_self hat], hkey.trans hak, ?_⟩
      exact ⟨hcancelling.trans hlive.uncancelled, hwaiters ▸ hlive.awaited,
        fun o ho => (hdone o ho).2.2 hlive.uncancelled⟩
    · exact ⟨a, by rw [List.getElem?_set_ne hid]; exact ha, hak, hlive⟩
  · intro j a ha
    by_cases hj : id = j
    · subst hj
      rw [List.getElem?_set_self hat] at ha
      cases ha
      have hold := h.loadsOk id l hl
      refine ⟨hwaiters.trans hold.waiters, ?_, ?_, ?_, fun o ho => (hdone o ho).1⟩
      · intro hmem
        rw [hkey] at hmem
        have hleft := hold.left hmem
        have hcanc := hleft.cancelling hprogress
        refine ⟨hwaiters.trans hleft.waiters, ?_, fun _ => hcancelling.trans hcanc⟩
        intro o ho source v hloaded
        have := (hdone o ho).2.1 hcanc
        rw [this] at hloaded
        cases hloaded
      · intro hc o ho
        exact (hdone o ho).2.1 (hcancelling ▸ hc)
      · intro hc _
        exact hold.gatherer (hcancelling ▸ hc) hprogress
    · rw [List.getElem?_set_ne hj] at ha
      exact h.loadsOk j a ha

theorem Tasks.acquired (h : Tasks inflight loads callers) {c : Caller T} (hok : c.Ok loads)
    (hwaits : ∀ id, c.waitsFor id = false) : Tasks inflight loads (callers ++ [c]) := by
  refine ⟨h.keys, h.registered, ?_, ?_⟩
  · intro id l hl
    obtain ⟨hwaiters, hleft, hcancelled, hgatherer, hout⟩ := h.loadsOk id l hl
    refine ⟨?_, hleft, hcancelled, ?_, hout⟩
    · rw [List.countP_append, hwaiters]
      simp [hwaits]
    · intro hcancelling hfinished
      obtain ⟨g, hg, after, hphase⟩ := hgatherer hcancelling hfinished
      exact ⟨g, List.mem_append_left _ hg, after, hphase⟩
  · intro a ha
    rcases List.mem_append.mp ha with ha | ha
    · exact h.callersOk a ha
    · rw [List.mem_singleton.mp ha]
      exact hok

/-- the gatherers of before are still there when a caller moves that did not gather -/
theorem gatherer_set {i : Nat} {c c' : Caller T} (hc : callers[i]? = some c)
    (hnot : ∀ id after, c.phase ≠ .gathering id after) {id : Nat}
    (h : ∃ g ∈ callers, ∃ after, g.phase = .gathering id after) :
    ∃ g ∈ callers.set i c', ∃ after, g.phase = .gathering id after := by
  obtain ⟨g, hg, after, hphase⟩ := h
  obtain ⟨j, hj⟩ := List.mem_iff_getElem?.mp hg
  have hij : i ≠ j := by
    rintro rfl
    rw [hc] at hj
    cases hj
    exact hnot id after hphase
  exact ⟨g, List.mem_of_getElem? (by rw [List.getElem?_set_ne hij]; exact hj), after, hphase⟩

theorem Tasks.lookup_iff (h : Tasks inflight loads callers) {key : WeightKey} {id : Nat} :
    inflight.lookup key = some id ↔ (key, id) ∈ inflight :=
  Assoc.lookup_iff_mem h.keys

theorem Tasks.not_pending (h : Tasks inflight loads callers) {i : Nat} {c : Caller T}
    (hc : callers[i]? = some c) (hphase : c.phase = .joining) : c.pending = false := by
  have hok := h.callersOk c (List.mem_of_getElem? hc)
  unfold Caller.Ok at hok
  rw [hphase] at hok
  exact hok

theorem Tasks.joined (h : Tasks inflight loads callers) {i id : Nat} {c : Caller T}
    {l : InflightLoad T} (hc : callers[i]? = some c) (hphase : c.phase = .joining)
    (hid : inflight.lookup c.key = some id) (hl : loads[id]? = some l) :
    Tasks inflight (loads.set id { l with waiters := l.waiters + 1 })
      (callers.set i { c with phase := .waiting id }) := by
  have hat := (List.getElem?_eq_some_iff.mp hl).1
  have hmem := h.lookup_iff.mp hid
  obtain ⟨a, ha, hkey, hlive⟩ := h.registered _ hmem
  rw [hl] at ha
  cases ha
  have hmono := set_mono hl { l with waiters := l.waiters + 1 } rfl fun hc => hc
  have hcount : ∀ j, (callers.set i { c with phase := .waiting id }).countP (Caller.waitsFor j)
      = callers.countP (Caller.waitsFor j) + if id = j then 1 else 0 := by
    intro j
    have hset := Ledger.countP_set hc { c with phase := .waiting id } (Caller.waitsFor j)
    simpa [Caller.waitsFor, hphase] using hset
  refine ⟨h.keys, ?_, ?_, ?_⟩
  · intro e he
    obtain ⟨a, ha, hak, halive⟩ := h.registered e he
    by_cases hide : id = e.2
    · rw [← hide, hl] at ha
      cases ha
      refine ⟨{ l with waiters := l.waiters + 1 },
        by rw [← hide, List.getElem?_set_self hat], hak, ?_⟩
      exact ⟨halive.uncancelled, Nat.succ_pos _, halive.outcome⟩
    · exact ⟨a, by rw [List.getElem?_set_ne hide]; exact ha, hak, halive⟩
  · intro j a ha
    by_cases hj : id = j
    · subst hj
      rw [List.getElem?_set_self hat] at ha
      cases ha
      have hold := h.loadsOk id l hl
      refine ⟨?_, ?_, hold.cancelled, ?_, hold.outcome⟩
      · rw [hcount, if_pos rfl, ← hold.waiters]
      · intro hnot
        exact absurd (hkey ▸ hmem) hnot
      · intro hcancelling
        rw [hlive.uncancelled] at hcancelling
        cases hcancelling
    · rw [List.getElem?_set_ne hj] at ha
      have hold := h.loadsOk j a ha
      refine ⟨?_, hold.left, hold.cancelled, ?_, hold.outcome⟩
      · rw [hcount, if_neg hj, Nat.add_zero]
        exact hold.waiters
      · intro h1 h2
        exact gatherer_set hc (by simp [hphase]) (hold.gatherer h1 h2)
  · intro a ha
    rcases List.mem_or_eq_of_mem_set ha with ha | rfl
    · exact (h.callersOk a ha).mono hmono
    · exact ⟨⟨_, List.getElem?_set_self hat, hkey⟩, by simp [h.not_pending hc hphase]⟩

theorem Tasks.created (h : Tasks inflight loads callers) {i : Nat} {c : Caller T}
    (hc : callers[i]? = some c) (hphase : c.phase = .joining)
    (hnone : inflight.lookup c.key = none) :
    Tasks (inflight ++ [(c.key, loads.length)])
      (loads ++ [⟨c.key, c.policy, .created, false, 1⟩])
      (callers.set i { c with phase := .waiting loads.length }) := by
  have hkey := Assoc.lookup_none_iff.mp hnone
  have hold : ∀ (j : Nat) a, loads[j]? = some a →
      (loads ++ [(⟨c.key, c.policy, .created, false, 1⟩ : InflightLoad T)])[j]? = some a := by
    intro j a ha
    rw [List.getElem?_append_left (List.getElem?_eq_some_iff.mp ha).1]
    exact ha
  have hnew : (loads ++ [(⟨c.key, c.policy, .created, false, 1⟩ : InflightLoad T)])[loads.length]?
      = some ⟨c.key, c.policy, .created, false, 1⟩ := by simp
  have hcount : ∀ j, (callers.set i { c with phase := .waiting loads.length }).countP
      (Caller.waitsFor j) = callers.countP (Caller.waitsFor j)
        + if loads.length = j then 1 else 0 := by
    intro j
    have hset := Ledger.countP_set hc { c with phase := .waiting loads.length }
      (Caller.waitsFor j)
    simpa [Caller.waitsFor, hphase] using hset
  refine ⟨?_, ?_, ?_, ?_⟩
  · rw [List.map_append, List.nodup_append]
    refine ⟨h.keys, List.nodup_singleton _, ?_⟩
    rintro a ha b hb rfl
    rw [List.map_singleton, List.mem_singleton] at hb
    rw [hb] at ha
    exact hkey ha
  · intro e he
    rcases List.mem_append.mp he with he | he
    · obtain ⟨a, ha, hak, hlive⟩ := h.registered e he
      exact ⟨a, hold _ a ha, hak, hlive⟩
    · rw [List.mem_singleton.mp he]
      exact ⟨_, hnew, rfl, rfl, Nat.one_pos, by simp⟩
  · intro j a ha
    by_cases hj : j < loads.length
    · rw [List.getElem?_append_left hj] at ha
      obtain ⟨hwaiters, hleft, hcancelled, hgatherer, hout⟩ := h.loadsOk j a ha
      refine ⟨?_, ?_, hcancelled, ?_, hout⟩
      · rw [hcount, if_neg (by omega), Nat.add_zero]
        exact hwaiters
      · intro hmem
        exact hleft fun hin => hmem (List.mem_append_left _ hin)
      · intro h1 h2
        exact gatherer_set hc (by simp [hphase]) (hgatherer h1 h2)
    · have hlen : j = loads.length := by
        have hlt := (List.getElem?_eq_some_iff.mp ha).1
        rw [List.length_append, List.length_singleton] at hlt
        omega
      subst hlen
      rw [hnew] at ha
      cases ha
      refine ⟨?_, ?_, by simp, by simp, by simp⟩
      · -- nobody has waited for a load that was not there
        have hzero : callers.countP (Caller.waitsFor loads.length) = 0 := by
          rw [List.countP_eq_zero]
          intro a ha hwaits
          have hok := h.callersOk a ha
          unfold Caller.waitsFor at hwaits
          unfold Caller.Ok at hok
          split at hwaits
          · rename_i load hphase'
            rw [hphase'] at hok
            obtain ⟨⟨l, hl, _⟩, _⟩ := hok
            have hlt := (List.getElem?_eq_some_iff.mp hl).1
            have heq := of_decide_eq_true hwaits
            omega
          · cases hwaits
        rw [hcount, hzero, if_pos rfl]
      · intro hmem
        exact absurd (List.mem_append_right _ (List.mem_singleton_self _)) hmem
  · intro a ha
    rcases List.mem_or_eq_of_mem_set ha with ha | rfl
    · exact (h.callersOk a ha).mono fun j b hb => ⟨b, hold j b hb, rfl, fun hc => hc⟩
    · exact ⟨⟨_, hnew, rfl⟩, by simp [h.not_pending hc hphase]⟩

/-- a caller that waits has a registered load of its key -/
theorem Tasks.waiting (h : Tasks inflight loads callers) {i id : Nat} {c : Caller T}
    (hc : callers[i]? = some c) (hphase : c.phase = .waiting id) :
    ∃ l, loads[id]? = some l ∧ l.key = c.key ∧ inflight.lookup c.key = some id ∧ l.Live := by
  have hok := h.callersOk c (List.mem_of_getElem? hc)
  unfold Caller.Ok at hok
  rw [hphase] at hok
  obtain ⟨⟨l, hl, hkey⟩, _⟩ := hok
  have hpos : 0 < callers.countP (Caller.waitsFor id) :=
    List.countP_pos_iff.mpr ⟨c, List.mem_of_getElem? hc, by simp [Caller.waitsFor, hphase]⟩
  have hl' := h.loadsOk id l hl
  have hmem : (l.key, id) ∈ inflight := by
    by_contra hnot
    have hzero := (hl'.left hnot).waiters
    have hwaiters := hl'.waiters
    omega
  obtain ⟨a, ha, _, hlive⟩ := h.registered _ hmem
  rw [hl] at ha
  cases ha
  exact ⟨l, hl, hkey, h.lookup_iff.mpr (hkey ▸ hmem), hlive⟩

theorem countP_left {i id : Nat} {c c' : Caller T} (hc : callers[i]? = some c)
    (hphase : c.phase = .waiting id) (hmoved : ∀ j, c'.waitsFor j = false) (j : Nat) :
    (callers.set i c').countP (Caller.waitsFor j) + (if id = j then 1 else 0)
      = callers.countP (Caller.waitsFor j) := by
  have hset := Ledger.countP_set hc c' (Caller.waitsFor j)
  have hold : c.waitsFor j = decide (id = j) := by simp [Caller.waitsFor, hphase]
  rw [hmoved j, hold] at hset
  simpa using hset

/-- a caller leaves a load that others still wait for -/
theorem Tasks.leftShared (h : Tasks inflight loads callers) {i id : Nat} {c c' : Caller T}
    {l : InflightLoad T} (hc : callers[i]? = some c) (hphase : c.phase = .waiting id)
    (hl : loads[id]? = some l) (hshared : 1 < l.waiters) (hmoved : ∀ j, c'.waitsFor j = false)
    (hok : c'.Ok loads) :
    Tasks inflight (loads.set id { l with waiters := l.waiters - 1 }) (callers.set i c') := by
  have hat := (List.getElem?_eq_some_iff.mp hl).1
  have hcount := countP_left hc hphase hmoved
  have hmono := set_mono hl { l with waiters := l.waiters - 1 } rfl fun hc => hc
  refine ⟨h.keys, ?_, ?_, ?_⟩
  · intro e he
    obtain ⟨a, ha, hak, hlive⟩ := h.registered e he
    by_cases hide : id = e.2
    · rw [← hide, hl] at ha
      cases ha
      refine ⟨{ l with waiters := l.waiters - 1 },
        by rw [← hide, List.getElem?_set_self hat], hak, ?_⟩
      exact ⟨hlive.uncancelled, Nat.sub_pos_of_lt hshared, hlive.outcome⟩
    · exact ⟨a, by rw [List.getElem?_set_ne hide]; exact ha, hak, hlive⟩
  · intro j a ha
    have hj := hcount j
    by_cases hide : id = j
    · subst hide
      rw [List.getElem?_set_self hat] at ha
      cases ha
      have hold := h.loadsOk id l hl
      rw [if_pos rfl] at hj
      refine ⟨?_, ?_, hold.cancelled, ?_, hold.outcome⟩
      · have hwaiters := hold.waiters
        simp only
        omega
      · intro hnot
        have hzero := (hold.left hnot).waiters
        omega
      · intro h1 h2
        exact gatherer_set hc (by simp [hphase]) (hold.gatherer h1 h2)
    · rw [List.getElem?_set_ne hide] at ha
      have hold := h.loadsOk j a ha
      rw [if_neg hide, Nat.add_zero] at hj
      refine ⟨hj ▸ hold.waiters, hold.left, hold.cancelled, ?_, hold.outcome⟩
      intro h1 h2
      exact gatherer_set hc (by simp [hphase]) (hold.gatherer h1 h2)
  · intro a ha
    rcases List.mem_or_eq_of_mem_set ha with ha | rfl
    · exact (h.callersOk a ha).mono hmono
    · exact hok.mono hmono

/-- the last caller of a load leaves it, and the load is no longer registered -/
theorem Tasks.leftLast (h : Tasks inflight loads callers) {i id : Nat} {c c' : Caller T}
    {l l' : InflightLoad T} (hc : callers[i]? = some c) (hphase : c.phase = .waiting id)
    (hl : loads[id]? = some l) (hlast : l.waiters = 1) (hmoved : ∀ j, c'.waitsFor j = false)
    (hkey : l'.key = l.key) (hleft : l'.Left)
    (hcancelled : l'.cancelling = true →
      l'.finished = false ∧ ∃ after, c'.phase = .gathering id after)
    (hout : ∀ o, l'.progress = .done o → o.Ok)
    (hok : c'.Ok (loads.set id l')) :
    Tasks (Assoc.erase inflight c.key) (loads.set id l') (callers.set i c') := by
  have hat := (List.getElem?_eq_some_iff.mp hl).1
  have hcount := countP_left hc hphase hmoved
  obtain ⟨a, ha, hak, hid, hlive⟩ := h.waiting hc hphase
  rw [hl] at ha
  cases ha
  have hmono := set_mono hl l' hkey fun hc => absurd hc (by simp [hlive.uncancelled])
  have hothers : ∀ e ∈ inflight, e.1 ≠ c.key → e.2 ≠ id := by
    rintro e he hne rfl
    obtain ⟨b, hb, hbk, _⟩ := h.registered e he
    rw [hl] at hb
    cases hb
    exact hne (hbk.symm.trans hak)
  refine ⟨Assoc.nodup_erase h.keys _, ?_, ?_, ?_⟩
  · intro e he
    obtain ⟨he, hne⟩ := Assoc.mem_erase.mp he
    obtain ⟨b, hb, hbk, hblive⟩ := h.registered e he
    exact ⟨b, by rw [List.getElem?_set_ne (hothers e he hne).symm]; exact hb, hbk, hblive⟩
  · intro j b hb
    have hj := hcount j
    by_cases hide : id = j
    · subst hide
      rw [List.getElem?_set_self hat] at hb
      cases hb
      have hwaiters := (h.loadsOk id l hl).waiters
      rw [if_pos rfl] at hj
      refine ⟨?_, fun _ => hleft, ?_, ?_, hout⟩
      · rw [hleft.waiters]
        omega
      · intro hcancelling o ho
        have hfinished := (hcancelled hcancelling).1
        unfold InflightLoad.finished at hfinished
        rw [ho] at hfinished
        cases hfinished
      · intro hcancelling _
        obtain ⟨after, hafter⟩ := (hcancelled hcancelling).2
        exact ⟨c', List.mem_set (List.getElem?_eq_some_iff.mp hc).1 _, after, hafter⟩
    · rw [List.getElem?_set_ne hide] at hb
      have hold := h.loadsOk j b hb
      rw [if_neg hide, Nat.add_zero] at hj
      refine ⟨hj ▸ hold.waiters, ?_, hold.cancelled, ?_, hold.outcome⟩
      · intro hnot
        refine hold.left fun hin => hnot (Assoc.mem_erase.mpr ⟨hin, ?_⟩)
        rintro hbk
        simp only at hbk
        rw [hbk, ← h.lookup_iff, hid] at hin
        exact hide (Option.some.inj hin)
      · intro h1 h2
        exact gatherer_set hc (by simp [hphase]) (hold.gatherer h1 h2)
  · intro b hb
    rcases List.mem_or_eq_of_mem_set hb with hb | rfl
    · exact (h.callersOk b hb).mono hmono
    · exact hok

/-! ## the cache -/

/-- the open leases on a key: those of callers, and the seeds of loads -/
def opened (loads : List (InflightLoad T)) (callers : List (Caller T)) (key : WeightKey) : Nat :=
  callers.countP (Caller.holds key) + loads.countP (InflightLoad.seeds key)

/-- `extra` are leases taken by the running task that no caller has returned yet -/
structure Account (s : CpuWeightLoader T) (extra : WeightKey → Nat) : Prop where
  cache : s.cache.Ok (fun key => opened s.loads s.callers key + extra key)
    (s.reservationBytes * s.loads.countP InflightLoad.isLoading)
  positive : ∀ l ∈ s.loads, l.admitted = true → 0 < s.reservationBytes
  absent : ∀ l ∈ s.loads, l.isLoading = true → l.cancelling = false → s.cache.find l.key = none
  condition : s.condition = .free
  inflightLock : s.inflightLock = .free

def noExtra : WeightKey → Nat := fun _ => 0

theorem find_none_of_keys {c c' : DramCache T}
    (hkeys : ∀ k ∈ c'.entries.map Prod.fst, k ∈ c.entries.map Prod.fst) {key : WeightKey}
    (h : c.find key = none) : c'.find key = none :=
  Assoc.lookup_none_iff.mpr fun hmem => Assoc.lookup_none_iff.mp h (hkeys key hmem)

theorem acquire_keys (c : DramCache T) (key : WeightKey) :
    ∀ k ∈ (c.acquire key).2.entries.map Prod.fst, k ∈ c.entries.map Prod.fst := by
  intro k hk
  rcases DramCache.acquire_cases c key with ⟨_, ha⟩ | ⟨record, hf, ha⟩
  · rw [ha] at hk
    exact hk
  · rw [ha] at hk
    simp only [List.map_append, List.mem_append, List.map_singleton, List.mem_singleton] at hk
    rcases hk with hk | rfl
    · rw [Assoc.keys_erase] at hk
      exact (List.mem_filter.mp hk).1
    · exact List.mem_map_of_mem (Assoc.mem_of_lookup hf)

theorem reserve_keys {c : DramCache T} {opened : WeightKey → Nat} {reserved : Int}
    (h : c.Ok opened reserved) (byteCount : Int) :
    ∀ k ∈ (c.reserve byteCount).2.entries.map Prod.fst, k ∈ c.entries.map Prod.fst := by
  obtain ⟨victims, hev⟩ := (DramCache.reserve_ok h byteCount).2 (fun _ _ => True)
    (List.pairwise_of_forall fun _ _ => trivial)
  intro k hk
  rw [hev.entries] at hk
  obtain ⟨e, he, rfl⟩ := List.mem_map.mp hk
  exact List.mem_map_of_mem (List.mem_filter.mp he).1

/-- every load that is admitted now was so before -/
def Kept (loads loads' : List (InflightLoad T)) : Prop :=
  ∀ l ∈ loads', l.admitted = true → ∃ l0 ∈ loads, l0.key = l.key ∧ l0.progress = l.progress ∧
    (l.cancelling = false → l0.cancelling = false)

theorem Kept.refl (loads : List (InflightLoad T)) : Kept loads loads :=
  fun l hl _ => ⟨l, hl, rfl, rfl, fun h => h⟩

theorem Kept.set {id : Nat} {l' : InflightLoad T}
    (h : l'.admitted = true → ∃ l0 ∈ loads, l0.key = l'.key ∧ l0.progress = l'.progress ∧
      (l'.cancelling = false → l0.cancelling = false)) : Kept loads (loads.set id l') := by
  intro l hl hadmitted
  rcases List.mem_or_eq_of_mem_set hl with hl | rfl
  · exact Kept.refl loads l hl hadmitted
  · exact h hadmitted

theorem InflightLoad.admitted_of_loading {l : InflightLoad T} (h : l.isLoading = true) :
    l.admitted = true := by
  unfold InflightLoad.isLoading at h
  unfold InflightLoad.admitted
  split at h
  · rename_i hprogress
    simp [hprogress]
  · cases h

theorem Kept.positive {loads' : List (InflightLoad T)} {bytes : Int} (h : Kept loads loads')
    (hpositive : ∀ l ∈ loads, l.admitted = true → 0 < bytes) :
    ∀ l ∈ loads', l.admitted = true → 0 < bytes := by
  intro l hl hadmitted
  obtain ⟨l0, hl0, _, hprogress, _⟩ := h l hl hadmitted
  refine hpositive l0 hl0 ?_
  unfold InflightLoad.admitted at hadmitted ⊢
  rw [hprogress]
  exact hadmitted

theorem Kept.absent {loads' : List (InflightLoad T)} {P : WeightKey → Prop} (h : Kept loads loads')
    (habsent : ∀ l ∈ loads, l.isLoading = true → l.cancelling = false → P l.key) :
    ∀ l ∈ loads', l.isLoading = true → l.cancelling = false → P l.key := by
  intro l hl hloading hcancelling
  obtain ⟨l0, hl0, hkey, hprogress, hsame⟩ :=
    h l hl (InflightLoad.admitted_of_loading hloading)
  rw [← hkey]
  refine habsent l0 hl0 ?_ (hsame hcancelling)
  unfold InflightLoad.isLoading at hloading ⊢
  rw [hprogress]
  exact hloading

/-- the callers and loads change, the cache stays -/
theorem Account.congr {s s' : CpuWeightLoader T} {extra extra' : WeightKey → Nat}
    (h : Account s extra) (hcache : s'.cache = s.cache)
    (hbytes : s'.reservationBytes = s.reservationBytes) (hcondition : s'.condition = s.condition)
    (hlock : s'.inflightLock = s.inflightLock)
    (hopened : ∀ key, opened s'.loads s'.callers key + extra' key
      = opened s.loads s.callers key + extra key)
    (hloading : s'.loads.countP InflightLoad.isLoading = s.loads.countP InflightLoad.isLoading)
    (hkept : Kept s.loads s'.loads) : Account s' extra' := by
  refine ⟨?_, ?_, ?_, hcondition.trans h.condition, hlock.trans h.inflightLock⟩
  · rw [hcache, hbytes, hloading, funext hopened]
    exact h.cache
  · rw [hbytes]
    exact hkept.positive h.positive
  · rw [hcache]
    exact hkept.absent (P := fun key => s.cache.find key = none) h.absent

/-- the cache changes and gets no new key, and the callers and loads change with it -/
theorem Account.of_cache {s s' : CpuWeightLoader T} {extra extra' : WeightKey → Nat}
    (h : Account s extra)
    (hcache : s'.cache.Ok (fun key => opened s'.loads s'.callers key + extra' key)
      (s'.reservationBytes * s'.loads.countP InflightLoad.isLoading))
    (hkeys : ∀ k ∈ s'.cache.entries.map Prod.fst, k ∈ s.cache.entries.map Prod.fst)
    (hbytes : s'.reservationBytes = s.reservationBytes)
    (hcondition : s'.condition = s.condition.guarded) (hlock : s'.inflightLock = s.inflightLock)
    (hkept : Kept s.loads s'.loads) : Account s' extra' := by
  refine ⟨hcache, ?_, ?_, ?_, hlock.trans h.inflightLock⟩
  · rw [hbytes]
    exact hkept.positive h.positive
  · refine hkept.absent (P := fun key => s'.cache.find key = none) ?_
    intro l hl h1 h2
    exact find_none_of_keys hkeys (h.absent l hl h1 h2)
  · rw [hcondition, h.condition, AsyncLock.guarded_free]

theorem opened_setCaller (loads : List (InflightLoad T)) {i : Nat} {c : Caller T}
    (hc : callers[i]? = some c) (c' : Caller T) (key : WeightKey) :
    opened loads (callers.set i c') key + (if c.holds key then 1 else 0)
      = opened loads callers key + if c'.holds key then 1 else 0 := by
  have hset := Ledger.countP_set hc c' (Caller.holds key)
  unfold opened
  omega

theorem opened_setLoad (callers : List (Caller T)) {id : Nat} {l : InflightLoad T}
    (hl : loads[id]? = some l) (l' : InflightLoad T) (key : WeightKey) :
    opened (loads.set id l') callers key + (if l.seeds key then 1 else 0)
      = opened loads callers key + if l'.seeds key then 1 else 0 := by
  have hset := Ledger.countP_set hl l' (InflightLoad.seeds key)
  unfold opened
  omega

structure Inv (s : CpuWeightLoader T) : Prop where
  tasks : Tasks s.inflight s.loads s.callers
  account : Account s noExtra
  faults : s.faults = []

theorem new_inv {reservationBytes maxBytes : Int} (h : 0 ≤ maxBytes) :
    Inv (.new reservationBytes maxBytes : CpuWeightLoader T) := by
  refine ⟨.new, ⟨?_, ?_, ?_, rfl, rfl⟩, rfl⟩
  · simpa [CpuWeightLoader.new, opened, noExtra] using DramCache.new_ok h
  · simp [CpuWeightLoader.new]
  · simp [CpuWeightLoader.new]

/-! ## the callers' steps -/

variable {s : CpuWeightLoader T}

theorem acquire_inv (h : Inv s) (key : WeightKey) (policy : LoadPolicy) :
    Inv (s.acquire key policy) := by
  obtain ⟨htasks, haccount, hfaults⟩ := h
  unfold CpuWeightLoader.acquire
  cases ha : s.cache.acquire key with
  | mk hit cache =>
    have hkeys := acquire_keys s.cache key
    rw [ha] at hkeys
    rw [CpuWeightLoader.withCache_eq ha]
    cases hit with
    | none =>
      obtain ⟨hsame, _⟩ := DramCache.acquire_miss ha
      subst hsame
      refine ⟨htasks.acquired rfl fun _ => rfl, haccount.of_cache ?_ (fun _ hk => hk)
        rfl rfl rfl (Kept.refl _), hfaults⟩
      simp only
      have hopened : (fun k => opened s.loads (s.callers ++
          [⟨key, policy, .joining, false, false⟩]) k + noExtra k)
          = fun k => opened s.loads s.callers k + noExtra k := by
        funext k
        simp [opened, Caller.holds]
      rw [hopened]
      exact haccount.cache
    | some value =>
      refine ⟨htasks.acquired trivial fun _ => rfl, haccount.of_cache ?_ hkeys
        rfl rfl rfl (Kept.refl _), hfaults⟩
      simp only
      have hopened : (fun k => opened s.loads (s.callers ++
          [⟨key, policy, .ended (.lease value .dram false), false, false⟩]) k + noExtra k)
          = DramCache.oneMore (fun k => opened s.loads s.callers k + noExtra k) key := by
        funext k
        simp only [opened, List.countP_append, List.countP_singleton, Caller.holds, noExtra,
          DramCache.oneMore, Bool.not_false, Bool.true_and, decide_eq_true_eq, eq_comm (a := k)]
        omega
      rw [hopened]
      exact DramCache.acquire_ok haccount.cache ha

theorem join_inv (h : Inv s) {i : Nat} {s' : CpuWeightLoader T} (hs : s.join i = some s') :
    Inv s' := by
  obtain ⟨htasks, haccount, hfaults⟩ := h
  unfold CpuWeightLoader.join at hs
  split at hs
  · cases hs
  · rename_i c hc
    split at hs
    · rename_i hphase
      have hlock : s.inflightLock.guarded = s.inflightLock := by
        rw [haccount.inflightLock, AsyncLock.guarded_free]
      have hcallers : ∀ load key, opened s.loads
          (s.callers.set i { c with phase := .waiting load }) key
          = opened s.loads s.callers key := by
        intro load key
        have hset := opened_setCaller s.loads hc { c with phase := .waiting load } key
        simpa [Caller.holds, hphase] using hset
      unfold CpuWeightLoader.joinInflight at hs
      simp only at hs
      split at hs
      · rename_i id hid
        split at hs
        · rename_i l hl
          cases hs
          refine ⟨htasks.joined hc hphase hid hl, haccount.congr rfl rfl rfl hlock ?_ ?_ ?_,
            hfaults⟩
          · intro key
            have hset := opened_setLoad (s.callers.set i { c with phase := .waiting id })
              hl { l with waiters := l.waiters + 1 } key
            have hseeds : InflightLoad.seeds key { l with waiters := l.waiters + 1 }
                = l.seeds key := rfl
            rw [hcallers, hseeds] at hset
            simp only [CpuWeightLoader.setCaller, CpuWeightLoader.setLoad]
            omega
          · have hset := Ledger.countP_set hl { l with waiters := l.waiters + 1 }
              InflightLoad.isLoading
            have hsame : InflightLoad.isLoading { l with waiters := l.waiters + 1 }
                = l.isLoading := rfl
            rw [hsame] at hset
            simp only [CpuWeightLoader.setCaller, CpuWeightLoader.setLoad]
            omega
          · exact Kept.set fun _ => ⟨l, List.mem_of_getElem? hl, rfl, rfl, fun h => h⟩
        · cases hs
      · rename_i hnone
        cases hs
        refine ⟨htasks.created hc hphase hnone, haccount.congr rfl rfl rfl hlock ?_ ?_ ?_, hfaults⟩
        · intro key
          have hset := hcallers s.loads.length key
          unfold opened at hset ⊢
          rw [List.countP_append]
          simp only [List.countP_singleton, InflightLoad.seeds]
          simp only [Bool.false_eq_true, if_false, Nat.add_zero]
          omega
        · rw [List.countP_append]
          simp [InflightLoad.isLoading]
        · intro l hl hadmitted
          rcases List.mem_append.mp hl with hl | hl
          · exact Kept.refl _ l hl hadmitted
          · rw [List.mem_singleton.mp hl] at hadmitted
            cases hadmitted
    · cases hs

/-- the lease that a caller is about to return -/
def After.opens (after : After T) (key : WeightKey) : WeightKey → Nat := fun k =>
  match after with
  | .finish (.lease _ _ false) => if key = k then 1 else 0
  | _ => 0

theorem After.holds_phase (after : After T) {c : Caller T} (hphase : c.phase = after.phase)
    (k : WeightKey) : (if c.holds k then 1 else 0) = after.opens c.key k := by
  unfold Caller.holds After.opens
  rw [hphase]
  unfold After.phase
  cases after with
  | retry => rfl
  | finish result =>
    cases result with
    | lease value source closed => cases closed <;> simp
    | raised => rfl
    | runtime => rfl
    | cancelled => rfl

theorem After.not_waits (after : After T) {c : Caller T} (hphase : c.phase = after.phase)
    (id : Nat) : c.waitsFor id = false := by
  unfold Caller.waitsFor
  rw [hphase]
  cases after <;> rfl

/-- where a caller may go on from a load -/
def After.Ok (c : Caller T) : After T → Prop
  | .retry => c.pending = false
  | .finish result => result.Ok

theorem After.Ok.caller {after : After T} {c : Caller T} (h : after.Ok c) :
    Caller.Ok loads { c with phase := after.phase } := by
  cases after <;> exact h

theorem waiting_holds {c : Caller T} {id : Nat} (hphase : c.phase = .waiting id)
    (k : WeightKey) : c.holds k = false := by
  simp [Caller.holds, hphase]

/-- the load that a caller leaves is changed in a way that neither its seed nor its progress shows,
and the caller returns the lease that was taken for it -/
theorem Account.moved {extra extra' : WeightKey → Nat} (h : Account s extra) {i id : Nat}
    {c c' : Caller T} {l : InflightLoad T} (hc : s.callers[i]? = some c)
    (hphase : c.phase = .waiting id) (hl : s.loads[id]? = some l) (l' : InflightLoad T)
    (hkey : l'.key = l.key) (hprogress : l'.progress = l.progress)
    (hcancelling : l'.cancelling = false → l.cancelling = false)
    (hextra : ∀ k, (if c'.holds k then 1 else 0) + extra' k = extra k)
    (inflight : List (WeightKey × Nat)) :
    Account { s with
      inflight := inflight, loads := s.loads.set id l', callers := s.callers.set i c' } extra' := by
  have hloading : l'.isLoading = l.isLoading := by
    unfold InflightLoad.isLoading
    rw [hprogress]
  refine h.congr rfl rfl rfl rfl ?_ ?_ ?_
  · intro key
    have hseeds : l'.seeds key = l.seeds key := by
      unfold InflightLoad.seeds
      rw [hprogress, hkey]
    have h1 := opened_setCaller (s.loads.set id l') hc c' key
    have h2 := opened_setLoad s.callers hl l' key
    have h3 := hextra key
    rw [waiting_holds hphase key, if_neg Bool.false_ne_true, Nat.add_zero] at h1
    rw [hseeds] at h2
    simp only
    omega
  · have hset := Ledger.countP_set hl l' InflightLoad.isLoading
    rw [hloading] at hset
    simp only
    omega
  · exact Kept.set fun _ => ⟨l, List.mem_of_getElem? hl, hkey.symm, hprogress.symm, hcancelling⟩

/-- the last caller closes the seed lease -/
theorem leave_seed (htasks : Tasks s.inflight s.loads s.callers) {i id : Nat} {c c1 : Caller T}
    {l : InflightLoad T} {after : After T} (haccount : Account s (after.opens c1.key))
    (hfaults : s.faults = []) (hc : s.callers[i]? = some c) (hphase : c.phase = .waiting id)
    (hl : s.loads[id]? = some l) (hlast : l.waiters = 1) {source : WeightSource} {value : T}
    (hprogress : l.progress = .done (.loaded source value true)) (hafter : after.Ok c1) :
    Inv (CpuWeightLoader.cleanUp { s with inflight := Assoc.erase s.inflight c.key } i c1 id
      { l with waiters := l.waiters - 1 } (.loaded source value true) after) := by
  obtain ⟨a, ha, hak, hid, hlive⟩ := htasks.waiting hc hphase
  rw [hl] at ha
  cases ha
  let l' : InflightLoad T :=
    { l with waiters := l.waiters - 1, progress := .done (.loaded source value false) }
  let c' : Caller T := { c1 with phase := after.phase }
  have hseeds : ∀ k, l.seeds k = decide (l.key = k) := fun k => by
    simp [InflightLoad.seeds, hprogress]
  -- the seed is one of the open leases
  have hopen : 0 < opened s.loads s.callers l.key + after.opens c1.key l.key := by
    have hpos : 0 < s.loads.countP (InflightLoad.seeds l.key) :=
      List.countP_pos_iff.mpr ⟨l, List.mem_of_getElem? hl, by simp [hseeds]⟩
    unfold opened
    omega
  obtain ⟨cache, hrelease, hok⟩ := DramCache.release_ok haccount.cache hopen
  have hrelease' : (fun cache : DramCache T => cache.release l.key) s.cache = (.ok (), cache) :=
    hrelease
  have hkeys := DramCache.release_keys (c := s.cache) l.key
  rw [hrelease] at hkeys
  unfold CpuWeightLoader.cleanUp
  simp only
  rw [CpuWeightLoader.withCache_eq (s := CpuWeightLoader.setLoad _ _ _) hrelease']
  refine ⟨?_, haccount.of_cache ?_ (fun k hk => hkeys ▸ hk) rfl rfl rfl ?_, hfaults⟩
  · refine htasks.leftLast hc hphase hl hlast (after.not_waits rfl) rfl
      ⟨by simp [hlast], ?_, ?_⟩ ?_ ?_ hafter.caller
    · intro o ho source value hloaded
      rw [hloaded] at ho
      cases ho
    · intro hfinished
      cases hfinished
    · intro hcancelling
      exact absurd hcancelling (by simp [hlive.uncancelled])
    · intro o ho
      cases ho
      trivial
  · have hloading := Ledger.countP_set hl l' InflightLoad.isLoading
    have h1 : l.isLoading = false := by simp [InflightLoad.isLoading, hprogress]
    have h2 : l'.isLoading = false := rfl
    rw [h1, h2] at hloading
    have hloading' : (s.loads.set id l').countP InflightLoad.isLoading
        = s.loads.countP InflightLoad.isLoading := by simpa using hloading
    have hopened : (fun k => opened (s.loads.set id l') (s.callers.set i c') k + noExtra k)
        = DramCache.oneLess (fun k => opened s.loads s.callers k + after.opens c1.key k) l.key := by
      funext k
      have h1 := opened_setCaller (s.loads.set id l') hc c' k
      have h2 := opened_setLoad s.callers hl l' k
      have h3 := after.holds_phase (c := c') rfl k
      have h4 : l'.seeds k = false := rfl
      rw [waiting_holds hphase k, h3] at h1
      rw [hseeds, h4] at h2
      unfold DramCache.oneLess noExtra
      simp only [Bool.false_eq_true, if_false, Nat.add_zero, decide_eq_true_eq,
        eq_comm (a := l.key)] at h1 h2 ⊢
      have h5 : c'.key = c1.key := rfl
      rw [h5] at h1
      omega
    change cache.Ok (fun k => opened (s.loads.set id l') (s.callers.set i c') k + noExtra k)
      (s.reservationBytes * (s.loads.set id l').countP InflightLoad.isLoading)
    rw [hloading', hopened]
    exact hok
  · exact Kept.set fun hadmitted => by cases hadmitted

/-- a caller leaves its load, with the lease it is about to return -/
theorem leave_inv (htasks : Tasks s.inflight s.loads s.callers) {i id : Nat} {c c1 : Caller T}
    {l : InflightLoad T} {after : After T} (haccount : Account s (after.opens c1.key))
    (hfaults : s.faults = []) (hc : s.callers[i]? = some c) (hphase : c.phase = .waiting id)
    (hl : s.loads[id]? = some l) (hkey : c1.key = c.key) (hafter : after.Ok c1)
    (hunfinished : l.finished = false → after = .finish .cancelled ∧ c1.cancelled = true ∧
      c1.pending = false) : Inv (s.leave i c1 id l after) := by
  obtain ⟨a, ha, hak, hid, hlive⟩ := htasks.waiting hc hphase
  rw [hl] at ha
  cases ha
  have hat := (List.getElem?_eq_some_iff.mp hl).1
  have hlock : s.inflightLock.guarded = s.inflightLock := by
    rw [haccount.inflightLock, AsyncLock.guarded_free]
  have hwaiters := hlive.awaited
  have hreturns : ∀ k, (if Caller.holds k { c1 with phase := after.phase } then 1 else 0)
      + noExtra k = after.opens c1.key k := fun k =>
    after.holds_phase (c := { c1 with phase := after.phase }) rfl k
  have hmoved : ∀ j, Caller.waitsFor j { c1 with phase := after.phase } = false :=
    after.not_waits rfl
  unfold CpuWeightLoader.leave
  simp only
  rw [if_neg (by omega), hlock]
  by_cases hlast : l.waiters = 1
  · rw [if_pos ⟨by omega, hkey ▸ hid⟩]
    have hzero : l.waiters - 1 = 0 := by omega
    rw [hkey]
    split
    · rename_i outcome hprogress
      by_cases hseed : ∃ source value, outcome = .loaded source value true
      · obtain ⟨source, value, rfl⟩ := hseed
        exact leave_seed htasks haccount hfaults hc hphase hl hlast hprogress hafter
      · have hout := (htasks.loadsOk id l hl).outcome outcome hprogress
        have hsame : ∀ s : CpuWeightLoader T, ∀ l, s.cleanUp i c1 id l outcome after
            = (s.setLoad id l).setCaller i { c1 with phase := after.phase } := by
          intro s l
          unfold CpuWeightLoader.cleanUp
          split
          · rename_i source value
            exact absurd ⟨source, value, rfl⟩ hseed
          · rfl
        rw [hsame]
        refine ⟨htasks.leftLast hc hphase hl hlast hmoved rfl ⟨hzero, ?_, ?_⟩ ?_ ?_ hafter.caller,
          haccount.moved hc hphase hl { l with waiters := l.waiters - 1 } rfl rfl (fun h => h)
            hreturns _, hfaults⟩
        · intro o ho source value hloaded
          cases hprogress.symm.trans ho
          exact hseed ⟨source, value, hloaded⟩
        · intro hfinished
          simp [InflightLoad.finished, hprogress] at hfinished
        · intro hcancelling
          exact absurd hcancelling (by simp [hlive.uncancelled])
        · intro o ho
          cases hprogress.symm.trans ho
          exact hout
    · rename_i hnot
      have hnot : ∀ o, l.progress ≠ .done o := fun o ho => hnot o ho
      have hfinished : l.finished = false := by
        unfold InflightLoad.finished
        split
        · rename_i o ho
          exact absurd ho (hnot o)
        · rfl
      obtain ⟨rfl, hcancelled, hpending⟩ := hunfinished hfinished
      refine ⟨htasks.leftLast hc hphase hl hlast (fun _ => rfl) rfl
        ⟨hzero, fun o ho => absurd ho (hnot o), fun _ => rfl⟩
        (fun _ => ⟨hfinished, .finish .cancelled, rfl⟩) (fun o ho => absurd ho (hnot o))
        ⟨rfl, hcancelled, hpending, _, List.getElem?_set_self hat, rfl⟩,
        haccount.moved hc hphase hl { l with waiters := l.waiters - 1, cancelling := true } rfl rfl
          (fun h => by cases h) (fun _ => rfl) _, hfaults⟩
  · rw [if_neg fun hall => hlast (by omega)]
    exact ⟨htasks.leftShared hc hphase hl (by omega) hmoved hafter.caller,
      haccount.moved hc hphase hl { l with waiters := l.waiters - 1 } rfl rfl (fun h => h) hreturns
        s.inflight, hfaults⟩

/-- a waiting caller finds the entry of its load, which the seed keeps in the cache -/
theorem received_ok (h : Inv s) {i id : Nat} {c : Caller T} {l : InflightLoad T}
    {outcome : Outcome T} (hc : s.callers[i]? = some c) (hphase : c.phase = .waiting id)
    (hpending : c.pending = false) (hl : s.loads[id]? = some l)
    (hprogress : l.progress = .done outcome) :
    ∃ after s1, s.received c l outcome = (after, s1) ∧ s1.inflight = s.inflight ∧
      s1.loads = s.loads ∧ s1.callers = s.callers ∧ s1.faults = s.faults ∧
      Account s1 (after.opens c.key) ∧ after.Ok c := by
  obtain ⟨htasks, haccount, hfaults⟩ := h
  obtain ⟨a, ha, hak, hid, hlive⟩ := htasks.waiting hc hphase
  rw [hl] at ha
  cases ha
  unfold CpuWeightLoader.received
  split
  · rename_i source value seedOpen
    have hseed : seedOpen = true := by
      by_contra hne
      rw [Bool.not_eq_true] at hne
      exact (hlive.outcome _ hprogress).2 source value (by rw [hne])
    have hopen : 0 < opened s.loads s.callers c.key + noExtra c.key := by
      have hpos : 0 < s.loads.countP (InflightLoad.seeds c.key) :=
        List.countP_pos_iff.mpr ⟨l, List.mem_of_getElem? hl, by
          simp [InflightLoad.seeds, hprogress, hseed, hak]⟩
      unfold opened
      omega
    obtain ⟨record, hf⟩ := haccount.cache.find_of_opened hopen
    have hkeys := acquire_keys s.cache c.key
    rcases DramCache.acquire_cases s.cache c.key with ⟨hnone, _⟩ | ⟨record', hf', ha⟩
    · rw [hf] at hnone
      cases hnone
    · have hok := DramCache.acquire_ok haccount.cache ha
      rw [CpuWeightLoader.withCache_eq (f := fun cache => cache.acquire c.key) ha]
      rw [ha] at hkeys
      refine ⟨_, _, rfl, rfl, rfl, rfl, rfl, haccount.of_cache ?_ hkeys rfl rfl rfl
        (Kept.refl _), trivial⟩
      have hopened : (fun k => opened s.loads s.callers k
          + (After.finish (.lease record'.value source false)).opens c.key k)
          = DramCache.oneMore (fun k => opened s.loads s.callers k + noExtra k) c.key := by
        funext k
        simp only [After.opens, noExtra, DramCache.oneMore, eq_comm (a := k), Nat.add_zero]
      simp only
      rw [hopened]
      exact hok
  · split_ifs
    · exact ⟨_, s, rfl, rfl, rfl, rfl, rfl, haccount, trivial⟩
    · exact ⟨_, s, rfl, rfl, rfl, rfl, rfl, haccount, hpending⟩
  · rename_i error _
    exact ⟨_, s, rfl, rfl, rfl, rfl, rfl, haccount, (htasks.loadsOk id l hl).outcome _ hprogress⟩
  · exact ⟨_, s, rfl, rfl, rfl, rfl, rfl, haccount, trivial⟩

theorem resume_inv (h : Inv s) {i : Nat} {s' : CpuWeightLoader T} (hs : s.resume i = some s') :
    Inv s' := by
  unfold CpuWeightLoader.resume at hs
  split at hs
  · cases hs
  · rename_i c hc
    split at hs
    · rename_i id hphase
      split at hs
      · cases hs
      · rename_i l hl
        split_ifs at hs with hpending
        · cases hs
          have hok := h.tasks.callersOk c (List.mem_of_getElem? hc)
          unfold Caller.Ok at hok
          rw [hphase] at hok
          exact leave_inv h.tasks h.account h.faults hc hphase hl rfl trivial
            fun _ => ⟨rfl, hok.2 hpending, rfl⟩
        · rw [Bool.not_eq_true] at hpending
          split at hs
          · rename_i outcome hprogress
            cases hs
            obtain ⟨after, s1, hreceived, hi, hloads, hcallers, hfaults, haccount, hafter⟩ :=
              received_ok h hc hphase hpending hl hprogress
            rw [hreceived]
            refine leave_inv ?_ haccount (hfaults.trans h.faults) (hcallers ▸ hc) hphase
              (hloads ▸ hl) rfl hafter ?_
            · rw [hi, hloads, hcallers]
              exact h.tasks
            · intro hfinished
              simp [InflightLoad.finished, hprogress] at hfinished
          · cases hs
    · cases hs

theorem gathered_inv (h : Inv s) {i : Nat} {s' : CpuWeightLoader T}
    (hs : s.gathered i = some s') : Inv s' := by
  unfold CpuWeightLoader.gathered at hs
  split at hs
  · cases hs
  · rename_i c hc
    split at hs
    · rename_i id after hphase
      have hok := h.tasks.callersOk c (List.mem_of_getElem? hc)
      unfold Caller.Ok at hok
      rw [hphase] at hok
      obtain ⟨rfl, _, hpending, l, hl, hcancelling⟩ := hok
      rw [hl] at hs
      simp only at hs
      split at hs
      · rename_i outcome hprogress
        rw [if_neg (by simp [hpending])] at hs
        cases hs
        -- a cancelled load has no seed
        have hout := (h.tasks.loadsOk id l hl).cancelled hcancelling outcome hprogress
        subst hout
        have hfinished : l.finished = true := by simp [InflightLoad.finished, hprogress]
        have hsame : s.loads.set id l = s.loads := by
          obtain ⟨hat, rfl⟩ := List.getElem?_eq_some_iff.mp hl
          exact List.set_getElem_self hat
        unfold CpuWeightLoader.cleanUp CpuWeightLoader.setLoad CpuWeightLoader.setCaller
        simp only
        rw [hsame]
        refine ⟨h.tasks.setCaller hc trivial ?_ ?_, h.account.congr rfl rfl rfl rfl ?_ rfl
          (Kept.refl _), h.faults⟩
        · intro j
          simp [Caller.waitsFor, After.phase, hphase]
        · intro id' after' hphase'
          cases hphase.symm.trans hphase'
          exact ⟨l, hl, hfinished⟩
        · intro key
          have hset := opened_setCaller s.loads hc
            { c with phase := After.phase (.finish .cancelled) } key
          have hold : c.holds key = false := by simp [Caller.holds, hphase]
          rw [hold] at hset
          exact congrArg (· + noExtra key) hset
      · cases hs
    · cases hs

theorem cancel_inv (h : Inv s) {i : Nat} (honce : once s (.cancel i) = true)
    {s' : CpuWeightLoader T} (hs : s.cancel i = some s') : Inv s' := by
  unfold CpuWeightLoader.cancel at hs
  split at hs
  · cases hs
  · rename_i c hc
    have hok := h.tasks.callersOk c (List.mem_of_getElem? hc)
    unfold Caller.Ok at hok
    have hfresh : c.cancelled = false := by
      simpa only [once, hc, Bool.not_eq_true'] using honce
    split at hs
    · rename_i id hphase
      rw [hphase] at hok
      cases hs
      refine ⟨h.tasks.setCaller hc ?_ (fun _ => by simp [Caller.waitsFor]) ?_,
        h.account.congr rfl rfl rfl rfl ?_ rfl (Kept.refl _), h.faults⟩
      · unfold Caller.Ok
        simp only [hphase]
        exact ⟨hok.1, fun _ => trivial⟩
      · intro id' after' hphase'
        rw [hphase] at hphase'
        cases hphase'
      · intro key
        have hset := opened_setCaller s.loads hc
          { c with cancelled := true, pending := true } key
        have hsame : Caller.holds key { c with cancelled := true, pending := true }
            = c.holds key := rfl
        rw [hsame] at hset
        simp only [CpuWeightLoader.setCaller]
        omega
    · -- a caller at the gather was cancelled before
      rename_i id after hphase
      rw [hphase] at hok
      rw [hok.2.1] at hfresh
      cases hfresh
    · cases hs

theorem close_inv (h : Inv s) {i : Nat} {s' : CpuWeightLoader T} (hs : s.close i = some s') :
    Inv s' := by
  unfold CpuWeightLoader.close at hs
  split at hs
  · cases hs
  · rename_i c hc
    split at hs
    · rename_i value source closed hphase
      split_ifs at hs with hclosed
      · cases hs
        exact h
      · rw [Bool.not_eq_true] at hclosed
        subst hclosed
        let c' : Caller T := { c with phase := .ended (.lease value source true) }
        have hholds : ∀ key, c.holds key = decide (c.key = key) := fun key => by
          simp [Caller.holds, hphase]
        have hset : ∀ key, opened s.loads (s.callers.set i c') key
            + (if c.key = key then 1 else 0) = opened s.loads s.callers key := by
          intro key
          have hset := opened_setCaller s.loads hc c' key
          have hnone : c'.holds key = false := rfl
          rw [hholds, hnone] at hset
          simpa using hset
        have hopen : 0 < opened s.loads s.callers c.key + noExtra c.key := by
          have hkey := hset c.key
          rw [if_pos rfl] at hkey
          omega
        obtain ⟨cache, hrelease, hok⟩ := DramCache.release_ok h.account.cache hopen
        have hkeys := DramCache.release_keys (c := s.cache) c.key
        rw [hrelease] at hkeys
        have hrelease' : (fun cache : DramCache T => cache.release c.key) (s.setCaller i c').cache
            = (.ok (), cache) := hrelease
        simp only at hs
        rw [CpuWeightLoader.withCache_eq hrelease'] at hs
        cases hs
        refine ⟨h.tasks.setCaller hc trivial ?_ ?_, h.account.of_cache ?_ (fun k hk => hkeys ▸ hk)
          rfl rfl rfl (Kept.refl _), h.faults⟩
        · intro j
          simp [Caller.waitsFor, hphase]
        · intro id' after' hphase'
          rw [hphase] at hphase'
          cases hphase'
        · have hopened : (fun k => opened s.loads (s.callers.set i c') k + noExtra k)
              = DramCache.oneLess (fun k => opened s.loads s.callers k + noExtra k) c.key := by
            funext k
            have hk := hset k
            simp only [noExtra, DramCache.oneLess, eq_comm (a := k), Nat.add_zero]
            omega
          change cache.Ok (fun k => opened s.loads (s.callers.set i c') k + noExtra k)
            (s.reservationBytes * s.loads.countP InflightLoad.isLoading)
          rw [hopened]
          exact hok
    · cases hs

/-! ## the loads' steps -/

theorem unfinished_seeds {l : InflightLoad T} (h : l.finished = false) (k : WeightKey) :
    l.seeds k = false := by
  unfold InflightLoad.seeds
  split
  · rename_i hprogress
    simp [InflightLoad.finished, hprogress] at h
  · rfl

/-- two loads of a key that fetch and are not cancelled are the same -/
theorem Tasks.loading_unique (h : Tasks inflight loads callers) {id id' : Nat}
    {l l' : InflightLoad T} (hl : loads[id]? = some l) (hl' : loads[id']? = some l')
    (hkey : l'.key = l.key) (hunfinished : l.finished = false) (hunfinished' : l'.finished = false)
    (hcancelling : l.cancelling = false) (hcancelling' : l'.cancelling = false) : id' = id := by
  have hmem : ∀ {j a}, loads[j]? = some a → a.finished = false → a.cancelling = false →
      (a.key, j) ∈ inflight := by
    intro j a ha h1 h2
    by_contra hnot
    have hleft := ((h.loadsOk j a ha).left hnot).cancelling h1
    rw [h2] at hleft
    cases hleft
  have h1 := h.lookup_iff.mpr (hmem hl hunfinished hcancelling)
  have h2 := h.lookup_iff.mpr (hmem hl' hunfinished' hcancelling')
  rw [hkey, h1] at h2
  exact (Option.some.inj h2).symm

/-- a load goes on together with the cache -/
theorem load_inv (h : Inv s) {id : Nat} {l : InflightLoad T} (hl : s.loads[id]? = some l)
    (l' : InflightLoad T) (hkey : l'.key = l.key) (hwaiters : l'.waiters = l.waiters)
    (hcancelling : l'.cancelling = l.cancelling) (hunfinished : l.finished = false)
    (hdone : ∀ o, l'.progress = .done o → o.Ok ∧ (l.cancelling = true → o = .cancelled) ∧
      (l.cancelling = false → o ≠ .cancelled ∧ ∀ source v, o ≠ .loaded source v false))
    {cache : DramCache T} {reserved : Int}
    (hcache : cache.Ok (fun k => opened s.loads s.callers k + if l'.seeds k then 1 else 0) reserved)
    (hreserved : reserved + s.reservationBytes * (if l.isLoading then 1 else 0)
      = s.reservationBytes * s.loads.countP InflightLoad.isLoading
        + s.reservationBytes * if l'.isLoading then 1 else 0)
    (hpositive : l'.admitted = true → 0 < s.reservationBytes)
    (habsent : ∀ (j : Nat) a, s.loads[j]? = some a → j ≠ id → a.isLoading = true →
      a.cancelling = false → cache.find a.key = none)
    (habsent' : l'.isLoading = true → l'.cancelling = false → cache.find l'.key = none)
    {condition : AsyncLock} (hcondition : condition = .free) :
    Inv { s with cache := cache, condition := condition, loads := s.loads.set id l' } := by
  have hat := (List.getElem?_eq_some_iff.mp hl).1
  have hset := Ledger.countP_set hl l' InflightLoad.isLoading
  refine ⟨h.tasks.setLoad hl hkey hwaiters hcancelling hunfinished hdone,
    ⟨?_, ?_, ?_, hcondition, h.account.inflightLock⟩, h.faults⟩
  · have hopened : (fun k => opened (s.loads.set id l') s.callers k + noExtra k)
        = fun k => opened s.loads s.callers k + if l'.seeds k then 1 else 0 := by
      funext k
      have hk := opened_setLoad s.callers hl l' k
      rw [unfinished_seeds hunfinished k] at hk
      simpa [noExtra] using hk
    have hbytes : s.reservationBytes * ((s.loads.set id l').countP InflightLoad.isLoading : Int)
        = reserved := by
      have hcast : ((s.loads.set id l').countP InflightLoad.isLoading : Int)
          + (if l.isLoading then 1 else 0)
          = s.loads.countP InflightLoad.isLoading + if l'.isLoading then 1 else 0 := by
        exact_mod_cast hset
      linear_combination s.reservationBytes * hcast - hreserved
    simp only
    rw [hopened, hbytes]
    exact hcache
  · intro a ha hadmitted
    rcases List.mem_or_eq_of_mem_set ha with ha | rfl
    · exact h.account.positive a ha hadmitted
    · exact hpositive hadmitted
  · intro a ha h1 h2
    obtain ⟨j, hj⟩ := List.mem_iff_getElem?.mp ha
    simp only at hj
    by_cases hjid : id = j
    · subst hjid
      rw [List.getElem?_set_self hat] at hj
      cases hj
      exact habsent' h1 h2
    · rw [List.getElem?_set_ne hjid] at hj
      exact habsent j a hj (Ne.symm hjid) h1 h2

theorem giveBack_spec {opened : WeightKey → Nat} {reserved : Int}
    (hok : s.cache.Ok opened reserved) (hb : s.reservationBytes ≤ reserved)
    (hpos : 0 ≤ s.reservationBytes) (id : Nat) (l : InflightLoad T) (outcome : Outcome T) :
    ∃ cache, s.giveBack id l outcome = { s with
        cache := cache, condition := s.condition.guarded
        loads := s.loads.set id { l with progress := .done outcome } } ∧
      cache.Ok opened (reserved - s.reservationBytes) ∧ cache.entries = s.cache.entries := by
  obtain ⟨cache, hcancel, hok', hentries⟩ := DramCache.cancel_ok hok hb hpos
  refine ⟨cache, ?_, hok', hentries⟩
  unfold CpuWeightLoader.giveBack
  rw [CpuWeightLoader.withCache_eq (f := fun cache => cache.cancel s.reservationBytes) hcancel]
  rfl

theorem Inv.absent_of_keys (h : Inv s) {cache : DramCache T}
    (hkeys : ∀ k ∈ cache.entries.map Prod.fst, k ∈ s.cache.entries.map Prod.fst) (id : Nat) :
    ∀ (j : Nat) a, s.loads[j]? = some a → j ≠ id → a.isLoading = true →
      a.cancelling = false → cache.find a.key = none := by
  intro j a ha _ h1 h2
  exact find_none_of_keys hkeys (h.account.absent a (List.mem_of_getElem? ha) h1 h2)

theorem reserved_nonneg (hpos : 0 ≤ s.reservationBytes) :
    0 ≤ s.reservationBytes * s.loads.countP InflightLoad.isLoading :=
  Int.mul_nonneg hpos (Int.natCast_nonneg _)

/-- the seed of a load that has just ended is one more open lease -/
theorem oneMore_seed {l : InflightLoad T} {source : WeightSource} {value : T} {key : WeightKey}
    (hprogress : l.progress = .done (.loaded source value true)) (hkey : l.key = key) :
    DramCache.oneMore (fun k => opened loads callers k + noExtra k) key
      = fun k => opened loads callers k + if l.seeds k then 1 else 0 := by
  funext k
  simp only [DramCache.oneMore, noExtra, Nat.add_zero, InflightLoad.seeds, hprogress,
    Bool.true_and, decide_eq_true_eq, hkey, eq_comm (a := k)]

/-- one pass of `reserve` -/
theorem reserve_inv (h : Inv s) {id : Nat} {l : InflightLoad T} (hl : s.loads[id]? = some l)
    (hunfinished : l.finished = false) (hnot : l.isLoading = false)
    (hcancelling : l.cancelling = false) (hpos : 0 < s.reservationBytes) :
    Inv (s.reserve id l) := by
  have hok := h.account.cache
  have hkeys := reserve_keys hok s.reservationBytes
  have hreserve := (DramCache.reserve_ok hok s.reservationBytes).1
  have hnonneg := reserved_nonneg (s := s) hpos.le
  unfold CpuWeightLoader.reserve
  cases hr : s.cache.reserve s.reservationBytes with
  | mk got cache =>
    rw [hr] at hreserve hkeys
    rw [CpuWeightLoader.withCache_eq (f := fun cache => cache.reserve s.reservationBytes) hr]
    simp only at hreserve hkeys
    rcases hreserve with ⟨rfl, hok1⟩ | ⟨rfl, hok1⟩
    · simp only
      have hkeys2 := acquire_keys cache l.key
      rcases DramCache.acquire_cases cache l.key with ⟨hmiss, ha⟩ | ⟨record, hf, ha⟩
      · rw [CpuWeightLoader.withCache_eq (f := fun cache => cache.acquire l.key) ha]
        have hcond : s.condition.guarded.guarded = .free := by rw [h.account.condition]; rfl
        refine load_inv h hl { l with progress := .loading } rfl rfl rfl hunfinished
          (fun o ho => by cases ho) hok1 ?_ (fun _ => hpos) (h.absent_of_keys hkeys id)
          (fun _ _ => hmiss) hcond
        rw [hnot]
        simp [InflightLoad.isLoading]
      · have hok2 := DramCache.acquire_ok hok1 ha
        rw [CpuWeightLoader.withCache_eq (f := fun cache => cache.acquire l.key) ha]
        rw [ha] at hkeys2
        simp only at hkeys2 ⊢
        obtain ⟨cache3, hback, hok3, hentries⟩ := giveBack_spec
          (s := { s with
            cache := { cache with entries := Assoc.erase cache.entries l.key ++
              [(l.key, { record with references := record.references + 1 })] }
            condition := s.condition.guarded.guarded }) hok2 (by simp only; omega) hpos.le id l
          (.loaded .dram record.value true)
        rw [hback]
        have hcond : s.condition.guarded.guarded.guarded = .free := by
          rw [h.account.condition]
          rfl
        let l' : InflightLoad T := { l with progress := .done (.loaded .dram record.value true) }
        rw [oneMore_seed (l := l') rfl rfl] at hok3
        refine load_inv h hl l' rfl rfl
          rfl hunfinished ?_ hok3 ?_ (fun hadmitted => by cases hadmitted)
          (h.absent_of_keys ?_ id) (fun hloading => by cases hloading) hcond
        · intro o ho
          cases ho
          exact ⟨trivial, fun hc => absurd hc (by simp [hcancelling]), fun _ =>
            ⟨by simp, by simp⟩⟩
        · rw [hnot]
          simp [InflightLoad.isLoading, l']
        · intro k hk
          rw [hentries] at hk
          exact hkeys k (hkeys2 k hk)
    · simp only
      have hcond : s.condition.guarded = .free := by rw [h.account.condition]; rfl
      refine load_inv h hl { l with progress := .reserving } rfl rfl rfl hunfinished
        (fun o ho => by cases ho) hok1 ?_ (fun _ => hpos) (h.absent_of_keys hkeys id)
        (fun hloading => by cases hloading) hcond
      rw [hnot]
      simp [InflightLoad.isLoading]

/-- a load ends without a result and gives back what it has reserved -/
theorem ended_inv (h : Inv s) {id : Nat} {l : InflightLoad T} (hl : s.loads[id]? = some l)
    (hunfinished : l.finished = false) {outcome : Outcome T} (hok : outcome.Ok)
    (hcancelled : l.cancelling = true → outcome = .cancelled)
    (hlive : l.cancelling = false → outcome ≠ .cancelled)
    (hresult : ∀ source v seedOpen, outcome ≠ .loaded source v seedOpen)
    {cache : DramCache T} {reserved : Int}
    (hcache : cache.Ok (fun k => opened s.loads s.callers k + noExtra k) reserved)
    (hreserved : reserved + s.reservationBytes * (if l.isLoading then 1 else 0)
      = s.reservationBytes * s.loads.countP InflightLoad.isLoading)
    (hkeys : ∀ k ∈ cache.entries.map Prod.fst, k ∈ s.cache.entries.map Prod.fst)
    {condition : AsyncLock} (hcondition : condition = .free) :
    Inv { s with
      cache := cache, condition := condition
      loads := s.loads.set id { l with progress := .done outcome } } := by
  have hseeds : ∀ k, InflightLoad.seeds k { l with progress := .done outcome } = false := by
    intro k
    unfold InflightLoad.seeds
    split
    · rename_i source value seedOpen hprogress
      cases hprogress
      exact absurd rfl (hresult source value seedOpen)
    · rfl
  have hopened : (fun k => opened s.loads s.callers k + noExtra k)
      = fun k => opened s.loads s.callers k
        + if InflightLoad.seeds k { l with progress := .done outcome } then 1 else 0 := by
    funext k
    rw [hseeds]
    rfl
  rw [hopened] at hcache
  refine load_inv h hl { l with progress := .done outcome } rfl rfl rfl hunfinished ?_ hcache ?_
    (fun hadmitted => by cases hadmitted) (h.absent_of_keys hkeys id)
    (fun hloading => by cases hloading) hcondition
  · intro o ho
    cases ho
    exact ⟨hok, hcancelled, fun hc => ⟨hlive hc, fun source v => hresult source v false⟩⟩
  · rw [hreserved]
    simp [InflightLoad.isLoading]

theorem idle_inv (h : Inv s) {id : Nat} {l : InflightLoad T} (hl : s.loads[id]? = some l)
    (hunfinished : l.finished = false) (hnot : l.isLoading = false) {outcome : Outcome T}
    (hok : outcome.Ok) (hcancelled : l.cancelling = true → outcome = .cancelled)
    (hlive : l.cancelling = false → outcome ≠ .cancelled)
    (hresult : ∀ source v seedOpen, outcome ≠ .loaded source v seedOpen) {condition : AsyncLock}
    (hcondition : condition = .free) :
    Inv { s with
      condition := condition, loads := s.loads.set id { l with progress := .done outcome } } :=
  ended_inv h hl hunfinished hok hcancelled hlive hresult h.account.cache (by rw [hnot]; simp)
    (fun _ hk => hk) hcondition

/-- the reservation of a load that fetches is part of the reserved bytes -/
theorem loading_reserved (h : Inv s) {id : Nat} {l : InflightLoad T} (hl : s.loads[id]? = some l)
    (hloading : l.isLoading = true) :
    0 < s.reservationBytes ∧
      s.reservationBytes ≤ s.reservationBytes * s.loads.countP InflightLoad.isLoading := by
  have hpos := h.account.positive l (List.mem_of_getElem? hl)
    (InflightLoad.admitted_of_loading hloading)
  have hcount : 0 < s.loads.countP InflightLoad.isLoading :=
    List.countP_pos_iff.mpr ⟨l, List.mem_of_getElem? hl, hloading⟩
  refine ⟨hpos, le_mul_of_one_le_right hpos.le ?_⟩
  exact_mod_cast hcount

theorem loading_finished {l : InflightLoad T} (h : l.isLoading = true) : l.finished = false := by
  unfold InflightLoad.isLoading at h
  unfold InflightLoad.finished
  split at h
  · rename_i hprogress
    simp [hprogress]
  · cases h

theorem giveBack_inv (h : Inv s) {id : Nat} {l : InflightLoad T} (hl : s.loads[id]? = some l)
    (hloading : l.isLoading = true) {outcome : Outcome T} (hok : outcome.Ok)
    (hcancelled : l.cancelling = true → outcome = .cancelled)
    (hlive : l.cancelling = false → outcome ≠ .cancelled)
    (hresult : ∀ source v seedOpen, outcome ≠ .loaded source v seedOpen) :
    Inv (s.giveBack id l outcome) := by
  obtain ⟨hpos, hb⟩ := loading_reserved h hl hloading
  obtain ⟨cache, hback, hcache, hentries⟩ :=
    giveBack_spec h.account.cache hb hpos.le id l outcome
  rw [hback]
  have hcond : s.condition.guarded = .free := by rw [h.account.condition]; rfl
  refine ended_inv h hl (loading_finished hloading) hok hcancelled hlive hresult hcache ?_
    (fun k hk => hentries ▸ hk) hcond
  rw [hloading]
  simp

theorem run_inv (h : Inv s) {id : Nat} {s' : CpuWeightLoader T} (hs : s.run id = some s') :
    Inv s' := by
  unfold CpuWeightLoader.run at hs
  split at hs
  · cases hs
  · rename_i l hl
    split at hs
    · rename_i hprogress
      have hunfinished : l.finished = false := by simp [InflightLoad.finished, hprogress]
      have hnot : l.isLoading = false := by simp [InflightLoad.isLoading, hprogress]
      split_ifs at hs with hcancelling
      · cases hs
        exact idle_inv h hl hunfinished hnot (show Outcome.Ok (T := T) .cancelled from trivial)
          (fun _ => rfl) (fun hc => absurd hcancelling (by simp [hc])) (by simp) h.account.condition
      · rw [Bool.not_eq_true] at hcancelling
        split at hs
        · rename_i diagnostic hcheck
          cases hs
          refine idle_inv h hl hunfinished hnot ?_ (fun hc => absurd hc (by simp [hcancelling]))
            (by simp) (by simp) h.account.condition
          -- the checks of `reserve` have messages of their own
          unfold DramCache.checkReserve at hcheck
          split_ifs at hcheck
          · cases hcheck
            exact ⟨by decide, by decide⟩
          · cases hcheck
            exact ⟨by decide, by decide⟩
        · rename_i hcheck
          cases hs
          refine reserve_inv h hl hunfinished hnot hcancelling ?_
          unfold DramCache.checkReserve at hcheck
          split_ifs at hcheck with hle
          exact Int.lt_of_not_ge hle
    · rename_i hprogress
      have hunfinished : l.finished = false := by simp [InflightLoad.finished, hprogress]
      have hnot : l.isLoading = false := by simp [InflightLoad.isLoading, hprogress]
      split_ifs at hs with hcancelling
      · cases hs
        have hcond : s.condition.guarded = .free := by rw [h.account.condition]; rfl
        exact idle_inv h hl hunfinished hnot (show Outcome.Ok (T := T) .cancelled from trivial)
          (fun _ => rfl) (fun hc => absurd hcancelling (by simp [hc])) (by simp) hcond
      · rw [Bool.not_eq_true] at hcancelling
        cases hs
        exact reserve_inv h hl hunfinished hnot hcancelling (h.account.positive l
          (List.mem_of_getElem? hl) (by simp [InflightLoad.admitted, hprogress]))
    · rename_i hprogress
      split_ifs at hs with hcancelling
      cases hs
      exact giveBack_inv h hl (by simp [InflightLoad.isLoading, hprogress]) trivial
        (fun _ => rfl) (fun hc => absurd hcancelling (by simp [hc])) (by simp)
    · cases hs

theorem commit_error {c : DramCache T} {opened : WeightKey → Nat} {reserved bytes : Int}
    (h : c.Ok opened reserved) (hb : bytes ≤ reserved) {key : WeightKey}
    (habsent : c.find key = none) {value : T} {actualBytes : Int} {diagnostic : String}
    {cache : DramCache T}
    (hc : c.commit bytes key value actualBytes = (.error diagnostic, cache)) :
    (LoadError.cache diagnostic).Ok := by
  have hreserved : ¬ c.reservedBytes < bytes := by rw [h.reserved]; exact Int.not_lt.mpr hb
  unfold DramCache.commit DramCache.cancel at hc
  have hnone : DramCache.find { c with reservedBytes := c.reservedBytes - bytes } key = none :=
    habsent
  rw [if_neg hreserved, if_neg hreserved] at hc
  simp only [hnone] at hc
  split_ifs at hc
  · cases hc
    exact ⟨by decide, by decide⟩
  · cases hc
    exact ⟨by decide, by decide⟩
  · rename_i hsome
    cases hsome
  · cases hc

theorem fetched_inv (h : Inv s) {id : Nat} {fetch : Fetch T} {s' : CpuWeightLoader T}
    (hs : s.fetched id fetch = some s') : Inv s' := by
  unfold CpuWeightLoader.fetched at hs
  split at hs
  · cases hs
  · rename_i l hl
    split at hs
    · rename_i hprogress
      have hloading : l.isLoading = true := by simp [InflightLoad.isLoading, hprogress]
      split_ifs at hs with hnot
      have hcancelling : l.cancelling = false := by
        simpa using (not_or.mp hnot).1
      have hnever : ∀ {outcome : Outcome T}, l.cancelling = true → outcome = .cancelled :=
        fun hc => absurd hc (by simp [hcancelling])
      obtain ⟨hpos, hb⟩ := loading_reserved h hl hloading
      have habsent := h.account.absent l (List.mem_of_getElem? hl) hloading hcancelling
      have hcond : s.condition.guarded = .free := by rw [h.account.condition]; rfl
      have hsum : s.reservationBytes * (s.loads.countP InflightLoad.isLoading : Int)
          - s.reservationBytes + s.reservationBytes * (if l.isLoading then 1 else 0)
          = s.reservationBytes * s.loads.countP InflightLoad.isLoading := by
        rw [hloading]
        simp
      split at hs
      · rename_i source entry byteCount
        rcases DramCache.commit_ok h.account.cache hb hpos.le l.key entry byteCount with
          ⟨diagnostic, cache, hcommit, hok, hentries, _⟩ | ⟨cache, hcommit, _, hok, hentries⟩
        · rw [CpuWeightLoader.withCache_eq (f := fun cache =>
            cache.commit s.reservationBytes l.key entry byteCount) hcommit] at hs
          cases hs
          exact ended_inv h hl (loading_finished hloading)
            (show Outcome.Ok (T := T) (.raised (.cache diagnostic)) from
              commit_error h.account.cache hb habsent hcommit) hnever (by simp) (by simp) hok hsum
            (fun k hk => hentries ▸ hk) hcond
        · rw [CpuWeightLoader.withCache_eq (f := fun cache =>
            cache.commit s.reservationBytes l.key entry byteCount) hcommit] at hs
          cases hs
          let l' : InflightLoad T := { l with progress := .done (.loaded source entry true) }
          rw [oneMore_seed (l := l') rfl rfl] at hok
          refine load_inv h hl l' rfl rfl rfl (loading_finished hloading) ?_ hok ?_
            (fun hadmitted => by cases hadmitted) ?_ (fun hloading => by cases hloading) hcond
          · intro o ho
            cases ho
            exact ⟨trivial, hnever, fun _ => ⟨by simp, by simp⟩⟩
          · rw [hsum]
            simp [InflightLoad.isLoading, l']
          · -- no other load of the key that still fetches
            intro j a ha hj h1 h2
            refine Assoc.lookup_none_iff.mpr ?_
            rw [hentries, List.map_append, List.mem_append, not_or]
            have hnone := h.account.absent a (List.mem_of_getElem? ha) h1 h2
            refine ⟨Assoc.lookup_none_iff.mp hnone, ?_⟩
            rw [List.map_singleton, List.mem_singleton]
            intro hkey
            exact hj (h.tasks.loading_unique hl ha hkey (loading_finished hloading)
              (loading_finished h1) hcancelling h2)
      · cases hs
        exact giveBack_inv h hl hloading trivial hnever (by simp) (by simp)
      · cases hs
        exact giveBack_inv h hl hloading trivial hnever (by simp) (by simp)
    · cases hs

theorem Inv.step {label : Label T} (h : Inv s) (honce : once s label = true)
    {s' : CpuWeightLoader T} (hs : step s label = some s') : Inv s' := by
  cases label with
  | acquire key policy =>
    cases hs
    exact acquire_inv h key policy
  | join i => exact join_inv h hs
  | resume i => exact resume_inv h hs
  | gathered i => exact gathered_inv h hs
  | cancel i => exact cancel_inv h honce hs
  | close i => exact close_inv h hs
  | run id => exact run_inv h hs
  | fetched id fetch => exact fetched_inv h hs

/-! ## the end of all calls -/

/-- the call has ended, and the lease that it returned is closed -/
def Caller.settled (c : Caller T) : Bool :=
  match c.phase with
  | .ended (.lease _ _ closed) => closed
  | .ended _ => true
  | _ => false

def Settled (s : CpuWeightLoader T) : Prop := ∀ c ∈ s.callers, c.settled = true

theorem Settled.ended (h : Settled s) {c : Caller T} (hc : c ∈ s.callers) :
    ∃ result, c.phase = .ended result ∧ ∀ value source, result ≠ .lease value source false := by
  have hsettled := h c hc
  unfold Caller.settled at hsettled
  split at hsettled
  · rename_i value source closed hphase
    exact ⟨_, hphase, fun v src heq => by cases heq; cases hsettled⟩
  · rename_i result hnot hphase
    exact ⟨result, hphase, fun v src heq => hnot v src false heq⟩
  · cases hsettled

theorem Inv.settled_loads (h : Inv s) (hs : Settled s) :
    s.inflight = [] ∧ ∀ l ∈ s.loads, l.Left ∧ l.finished = true := by
  have hidle : ∀ id, s.callers.countP (Caller.waitsFor id) = 0 := by
    intro id
    rw [List.countP_eq_zero]
    intro c hc hwaits
    obtain ⟨result, hphase, _⟩ := hs.ended hc
    simp [Caller.waitsFor, hphase] at hwaits
  have hnil : s.inflight = [] := by
    rw [List.eq_nil_iff_forall_not_mem]
    intro e he
    obtain ⟨l, hl, _, hlive⟩ := h.tasks.registered e he
    have hawaited := hlive.awaited
    rw [(h.tasks.loadsOk e.2 l hl).waiters, hidle] at hawaited
    exact Nat.lt_irrefl 0 hawaited
  refine ⟨hnil, ?_⟩
  intro l hl
  obtain ⟨id, hid⟩ := List.mem_iff_getElem?.mp hl
  have hok := h.tasks.loadsOk id l hid
  have hleft := hok.left (by simp [hnil])
  refine ⟨hleft, ?_⟩
  by_contra hne
  rw [Bool.not_eq_true] at hne
  -- a load that is cancelled and not done is gathered by a caller
  obtain ⟨c, hc, after, hphase⟩ := hok.gatherer (hleft.cancelling hne) hne
  obtain ⟨result, hended, _⟩ := hs.ended hc
  rw [hphase] at hended
  cases hended

theorem Inv.settled_cache (h : Inv s) (hs : Settled s) :
    s.cache.reservedBytes = 0 ∧ ∀ e ∈ s.cache.entries, e.2.references = 0 := by
  obtain ⟨_, hloads⟩ := h.settled_loads hs
  have hopened : ∀ key, opened s.loads s.callers key = 0 := by
    intro key
    have hcallers : s.callers.countP (Caller.holds key) = 0 := by
      rw [List.countP_eq_zero]
      intro c hc hholds
      obtain ⟨result, hphase, hclosed⟩ := hs.ended hc
      unfold Caller.holds at hholds
      rw [hphase] at hholds
      cases result with
      | lease value source closed =>
        cases closed with
        | true => cases hholds
        | false => exact hclosed value source rfl
      | _ => cases hholds
    have hseeds : s.loads.countP (InflightLoad.seeds key) = 0 := by
      rw [List.countP_eq_zero]
      intro l hl hseed
      unfold InflightLoad.seeds at hseed
      split at hseed
      · rename_i source value seedOpen hprogress
        have hopen : seedOpen = true := (Bool.and_eq_true _ _ ▸ hseed).1
        exact (hloads l hl).1.outcome _ hprogress source value (by rw [hopen])
      · cases hseed
    unfold opened
    rw [hcallers, hseeds]
  have hloading : s.loads.countP InflightLoad.isLoading = 0 := by
    rw [List.countP_eq_zero]
    intro l hl hloading
    have hfinished := loading_finished hloading
    rw [(hloads l hl).2] at hfinished
    cases hfinished
  have hok := h.account.cache
  refine ⟨?_, ?_⟩
  · rw [hok.reserved, hloading]
    simp
  · intro e he
    rw [hok.references e he, hopened]
    rfl

/-- in every state of a run in which no call is cancelled twice: a key has at most one registered
load, no accounting error occurs and no lock was ever waited for; and once every call has ended and
every returned lease is closed, no entry is referenced and no byte is reserved -/
theorem cpu_weight_loader_releases {reservationBytes maxBytes : Int} (hmax : 0 < maxBytes)
    (hr : Steps.Reach step (fun s label => once s label = true)
      (.new reservationBytes maxBytes) s) :
    (s.inflight.map Prod.fst).Nodup ∧
      (∀ c ∈ s.callers, ∀ diagnostic, c.phase ≠ .ended (.runtime diagnostic)) ∧
      (∀ c ∈ s.callers, ∀ error, c.phase = .ended (.raised error) → error.Ok) ∧
      (∀ l ∈ s.loads, ∀ error, l.progress = .done (.raised error) → error.Ok) ∧
      s.faults = [] ∧ s.condition.suspended = 0 ∧ s.inflightLock.suspended = 0 ∧
      (Settled s → s.inflight = [] ∧ (∀ l ∈ s.loads, l.finished = true) ∧
        s.cache.reservedBytes = 0 ∧ ∀ e ∈ s.cache.entries, e.2.references = 0) := by
  have h : Inv s := hr.invariant (new_inv hmax.le) fun _ _ _ h honce hs => h.step honce hs
  have hended : ∀ c ∈ s.callers, ∀ result, c.phase = .ended result → result.Ok := by
    intro c hc result hphase
    have hok := h.tasks.callersOk c hc
    unfold Caller.Ok at hok
    rw [hphase] at hok
    exact hok
  refine ⟨h.tasks.keys, ?_, ?_, ?_, h.faults, ?_, ?_, ?_⟩
  · intro c hc diagnostic hphase
    exact hended c hc _ hphase
  · intro c hc error hphase
    exact hended c hc _ hphase
  · intro l hl error hprogress
    obtain ⟨id, hid⟩ := List.mem_iff_getElem?.mp hl
    exact (h.tasks.loadsOk id l hid).outcome _ hprogress
  · rw [h.account.condition]
    rfl
  · rw [h.account.inflightLock]
    rfl
  · intro hs
    obtain ⟨hinflight, hloads⟩ := h.settled_loads hs
    exact ⟨hinflight, fun l hl => (hloads l hl).2, h.settled_cache hs⟩

/-- two calls share a load, one is cancelled while it waits, and the other closes its lease; a third
call is cancelled as the only waiter of its load -/
def sharedRun : List (Label Nat) :=
  [.acquire ⟨0, 1⟩ ⟨false, []⟩, .join 0, .acquire ⟨0, 1⟩ ⟨true, []⟩, .join 1, .run 0, .cancel 1,
    .resume 1, .fetched 0 (.prepared .weightServer 7 5), .resume 0, .acquire ⟨0, 2⟩ ⟨false, []⟩,
    .join 2, .run 1, .cancel 2, .resume 2, .run 1, .gathered 2, .close 0, .close 0]

theorem cpu_weight_loader_releases_shared : ∃ s : CpuWeightLoader Nat,
    Steps.run step once (.new 8 16) sharedRun = some s ∧ s.cache.usedBytes = 5 ∧
      s.cache.reservedBytes = 0 ∧ ∀ e ∈ s.cache.entries, e.2.references = 0 := by
  have hrun : ∃ s : CpuWeightLoader Nat, Steps.run step once (.new 8 16) sharedRun = some s ∧
      (s.callers.all Caller.settled && decide (s.cache.usedBytes = 5)) = true :=
    (Option.any_eq_true (fun s : CpuWeightLoader Nat => s.callers.all Caller.settled
      && decide (s.cache.usedBytes = 5)) _).mp (by decide +kernel)
  obtain ⟨s, hs, hend⟩ := hrun
  obtain ⟨hsettled, hused⟩ := (Bool.and_eq_true _ _).mp hend
  have hreleased := cpu_weight_loader_releases (by decide) (Steps.Reach.of_run .refl hs)
  obtain ⟨_, _, hzero⟩ := hreleased.2.2.2.2.2.2.2 (List.all_eq_true.mp hsettled)
  exact ⟨s, hs, of_decide_eq_true hused, hzero⟩

end

end ExpertKit.Worker.CpuLeases

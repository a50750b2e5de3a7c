import ExpertKit.Lib.Ledger
import ExpertKit.Lib.Steps

/-!
# Worker: shared CPU weight loads

The retry loop of `CpuWeightLoader._acquire` in `ek-worker/src/expertkit_worker/weights/loader.py`,
for one expert.  Concurrent callers share one load task; a caller whose policy is not that of a failed
load goes round the loop again.  Awaiting a finished task and taking a free lock do not suspend, so a
caller runs on until it waits for an unfinished load, gathers the task as its last waiter, or ends.

* `LoadPolicy`, `normalizePeerEndpoints`   what a caller accepts as a source;
* `CpuWeightLoader`, `step`   the load tasks, the registered one and the callers;
* `yields`              a retrying caller is the last waiter of its failed load;
* `LoaderOk`, `LoaderOk.step`   the invariant of runs of such steps;
* `retry_terminates`    no caller joins a load twice, and every caller ends as it should, or with the
                      exception of a load it has joined;
* `retry_spins`         the loop that never yields.
-/

set_option linter.unusedSectionVars false

namespace ExpertKit.Worker.SharedLoads

/-! ## policies -/

structure LoadPolicy where
  localOnly : Bool
  peerEndpoints : List String
deriving DecidableEq, Repr

/-- `endpoint.rstrip("/")` -/
def stripSlashes (endpoint : String) : String :=
  String.ofList (endpoint.toList.reverse.dropWhile (· == '/')).reverse

def normalizePeerEndpoints : List String → List String → List String
  | [], normalized => normalized
  | endpoint :: rest, normalized =>
    let candidate := stripSlashes endpoint
    if candidate ≠ "" ∧ candidate ∉ normalized then
      normalizePeerEndpoints rest (normalized ++ [candidate])
    else normalizePeerEndpoints rest normalized

/-- `acquire` -/
def remotePolicy (peerEndpoints : List String) : LoadPolicy :=
  ⟨false, normalizePeerEndpoints peerEndpoints []⟩

/-- `acquire_local` -/
def localPolicy : LoadPolicy := ⟨true, []⟩

/-! ## loads and callers -/

/-- how `_populate_cache` ends; `raised` is any exception but `WeightLoadFailed` and `CancelledError`,
such as an `OSError` of `disk_cache.remove` -/
inductive LoadOutcome where
  | loaded
  | failed
  | cancelled
  | raised
deriving DecidableEq, Repr

/-- `_InflightLoad`, with the caller that created it -/
structure Load where
  policy : LoadPolicy
  creator : Nat
  outcome : Option LoadOutcome
  cancelling : Bool
  waiters : Nat
deriving DecidableEq, Repr

inductive Result where
  | lease
  | failed (policy : LoadPolicy)
  | cancelled
  /-- the exception of its load -/
  | raised
  | runtime (message : String)
deriving DecidableEq, Repr

/-- where the caller goes on after `_leave_inflight` -/
inductive After where
  | retry
  | finish (result : Result)
deriving DecidableEq, Repr

inductive Phase where
  /-- at the head of the loop -/
  | joining
  | waiting (load : Nat)
  /-- the last waiter, at `asyncio.gather` -/
  | cleaning (load : Nat) (after : After)
  | ended (result : Result)
deriving DecidableEq, Repr

def After.phase : After → Phase
  | .retry => .joining
  | .finish result => .ended result

structure Caller where
  policy : LoadPolicy
  phase : Phase
  /-- the loads it has joined, in order -/
  joined : List Nat
deriving DecidableEq, Repr

def Caller.waitsFor (load : Nat) (c : Caller) : Bool := decide (c.phase = .waiting load)

structure CpuWeightLoader where
  loads : List Load
  /-- the registered load of the key -/
  inflight : Option Nat
  /-- the DRAM cache holds the weight -/
  cached : Bool
  callers : List Caller
deriving DecidableEq, Repr

namespace CpuWeightLoader

def new : CpuWeightLoader := ⟨[], none, false, []⟩

def outcome (s : CpuWeightLoader) (id : Nat) : Option LoadOutcome := s.loads[id]?.bind Load.outcome

/-- a call begins with a look into the DRAM cache -/
def acquire (s : CpuWeightLoader) (policy : LoadPolicy) : CpuWeightLoader :=
  { s with
    callers := s.callers ++ [⟨policy, if s.cached then .ended .lease else .joining, []⟩] }

/-- `_join_inflight` -/
def join (s : CpuWeightLoader) (i : Nat) : Option CpuWeightLoader :=
  match s.callers[i]? with
  | none => none
  | some c =>
    if c.phase ≠ .joining then none
    else
      match s.inflight with
      | some id =>
        match s.loads[id]? with
        | none => none
        | some l => some { s with
            loads := s.loads.set id { l with waiters := l.waiters + 1 }
            callers := s.callers.set i { c with phase := .waiting id, joined := c.joined ++ [id] } }
      | none => some { s with
          loads := s.loads ++ [⟨c.policy, i, none, false, 1⟩]
          inflight := some s.loads.length
          callers := s.callers.set i { c with
            phase := .waiting s.loads.length, joined := c.joined ++ [s.loads.length] } }

/-- `_leave_inflight` up to its gather -/
def leave (s : CpuWeightLoader) (i : Nat) (c : Caller) (id : Nat) (l : Load) (after : After) :
    CpuWeightLoader :=
  if l.waiters = 0 then
    let failure := "CPU weight in-flight waiter accounting underflow"
    { s with callers := s.callers.set i { c with phase := .ended (.runtime failure) } }
  else if l.waiters = 1 ∧ s.inflight = some id then
    { s with
      loads := s.loads.set id { l with
        waiters := 0, cancelling := l.cancelling || l.outcome.isNone }
      inflight := none
      callers := s.callers.set i { c with phase := .cleaning id after } }
  else
    { s with
      loads := s.loads.set id { l with waiters := l.waiters - 1 }
      callers := s.callers.set i { c with phase := after.phase } }

/-- what a caller makes of the outcome of the load it has joined -/
def afterOutcome (s : CpuWeightLoader) (c : Caller) (l : Load) : LoadOutcome → After
  | .loaded => .finish
      (if s.cached then .lease else .runtime "completed CPU weight load is missing from DRAM cache")
  | .failed => if l.policy = c.policy then .finish (.failed c.policy) else .retry
  | .cancelled => .finish .cancelled
  | .raised => .finish .raised

/-- the load has ended, and a caller that joined it runs on -/
def resume (s : CpuWeightLoader) (i : Nat) : Option CpuWeightLoader :=
  match s.callers[i]? with
  | none => none
  | some c =>
    match c.phase with
    | .waiting id =>
      match s.loads[id]? with
      | none => none
      | some l =>
        match l.outcome with
        | none => none
        | some outcome => some (s.leave i c id l (s.afterOutcome c l outcome))
    | _ => none

/-- the caller is cancelled -/
def cancel (s : CpuWeightLoader) (i : Nat) : Option CpuWeightLoader :=
  match s.callers[i]? with
  | none => none
  | some c =>
    match c.phase with
    | .waiting id =>
      match s.loads[id]? with
      | none => none
      | some l => some (s.leave i c id l (.finish .cancelled))
    | .ended _ => none
    | _ => some { s with callers := s.callers.set i { c with phase := .ended .cancelled } }

/-- the gathered task has ended -/
def cleaned (s : CpuWeightLoader) (i : Nat) : Option CpuWeightLoader :=
  match s.callers[i]? with
  | none => none
  | some c =>
    match c.phase with
    | .cleaning id after =>
      match s.loads[id]? with
      | none => none
      | some l =>
        if l.outcome.isNone then none
        else some { s with callers := s.callers.set i { c with phase := after.phase } }
    | _ => none

/-- a load task ends; only a cancelled one ends with `CancelledError` -/
def endLoad (s : CpuWeightLoader) (id : Nat) (outcome : LoadOutcome) : Option CpuWeightLoader :=
  match s.loads[id]? with
  | none => none
  | some l =>
    if l.outcome.isSome ∨ (outcome = .cancelled ∧ l.cancelling = false) then none
    else some { s with
      loads := s.loads.set id { l with outcome := some outcome }
      cached := s.cached || decide (outcome = .loaded) }

/-- the cache may drop an entry that nobody leases; a load keeps its own lease for its waiters -/
def evict (s : CpuWeightLoader) : Option CpuWeightLoader :=
  if s.loads.all (fun l => l.outcome ≠ some .loaded || l.waiters = 0) then
    some { s with cached := false }
  else none

end CpuWeightLoader

inductive Label where
  | acquire (policy : LoadPolicy)
  | join (caller : Nat)
  | resume (caller : Nat)
  | cancel (caller : Nat)
  | cleaned (caller : Nat)
  | endLoad (load : Nat) (outcome : LoadOutcome)
  | evict
deriving DecidableEq, Repr

def step (s : CpuWeightLoader) : Label → Option CpuWeightLoader
  | .acquire policy => some (s.acquire policy)
  | .join i => s.join i
  | .resume i => s.resume i
  | .cancel i => s.cancel i
  | .cleaned i => s.cleaned i
  | .endLoad id outcome => s.endLoad id outcome
  | .evict => s.evict

/-- a caller that goes round the loop again is the last waiter of its failed load -/
def yields (s : CpuWeightLoader) : Label → Bool
  | .resume i =>
    match s.callers[i]? with
    | none => true
    | some c =>
      match c.phase with
      | .waiting id =>
        match s.loads[id]? with
        | none => true
        | some l => l.outcome ≠ some .failed || decide (l.policy = c.policy) || l.waiters = 1
      | _ => true
  | _ => true

/-! ## what a step can do -/

/-- every step, with the state it is taken in -/
inductive StepCases (s : CpuWeightLoader) : Label → CpuWeightLoader → Prop where
  | acquire (policy : LoadPolicy) : StepCases s (.acquire policy) (s.acquire policy)
  | joined (i id : Nat) (c : Caller) (l : Load) (hc : s.callers[i]? = some c)
      (hp : c.phase = .joining) (hf : s.inflight = some id) (hl : s.loads[id]? = some l) :
      StepCases s (.join i) { s with
        loads := s.loads.set id { l with waiters := l.waiters + 1 }
        callers := s.callers.set i { c with phase := .waiting id, joined := c.joined ++ [id] } }
  | created (i : Nat) (c : Caller) (hc : s.callers[i]? = some c) (hp : c.phase = .joining)
      (hf : s.inflight = none) :
      StepCases s (.join i) { s with
        loads := s.loads ++ [⟨c.policy, i, none, false, 1⟩]
        inflight := some s.loads.length
        callers := s.callers.set i { c with
          phase := .waiting s.loads.length, joined := c.joined ++ [s.loads.length] } }
  | resumed (i id : Nat) (c : Caller) (l : Load) (outcome : LoadOutcome)
      (hc : s.callers[i]? = some c) (hp : c.phase = .waiting id) (hl : s.loads[id]? = some l)
      (ho : l.outcome = some outcome) :
      StepCases s (.resume i) (s.leave i c id l (s.afterOutcome c l outcome))
  | left (i id : Nat) (c : Caller) (l : Load) (hc : s.callers[i]? = some c)
      (hp : c.phase = .waiting id) (hl : s.loads[id]? = some l) :
      StepCases s (.cancel i) (s.leave i c id l (.finish .cancelled))
  | stopped (i : Nat) (c : Caller) (hc : s.callers[i]? = some c)
      (hp : c.phase = .joining ∨ ∃ id after, c.phase = .cleaning id after) :
      StepCases s (.cancel i)
        { s with callers := s.callers.set i { c with phase := .ended .cancelled } }
  | cleaned (i id : Nat) (c : Caller) (after : After) (hc : s.callers[i]? = some c)
      (hp : c.phase = .cleaning id after) :
      StepCases s (.cleaned i)
        { s with callers := s.callers.set i { c with phase := after.phase } }
  | endLoad (id : Nat) (l : Load) (outcome : LoadOutcome) (hl : s.loads[id]? = some l)
      (ho : l.outcome = none) :
      StepCases s (.endLoad id outcome) { s with
        loads := s.loads.set id { l with outcome := some outcome }
        cached := s.cached || decide (outcome = .loaded) }
  | evict (h : ∀ l ∈ s.loads, l.outcome = some .loaded → l.waiters = 0) :
      StepCases s .evict { s with cached := false }

theorem step_cases {s s' : CpuWeightLoader} {l : Label} (h : step s l = some s') :
    StepCases s l s' := by
  cases l with
  | acquire policy =>
    cases h
    exact .acquire policy
  | join i =>
    change s.join i = some s' at h
    unfold CpuWeightLoader.join at h
    split at h
    · cases h
    · rename_i c hc
      split_ifs at h with hp
      rw [not_not] at hp
      split at h
      · rename_i id hf
        split at h
        · cases h
        · rename_i l hl
          cases h
          exact .joined i id c l hc hp hf hl
      · rename_i hf
        cases h
        exact .created i c hc hp hf
  | resume i =>
    change s.resume i = some s' at h
    unfold CpuWeightLoader.resume at h
    split at h
    · cases h
    · rename_i c hc
      split at h
      · rename_i id hp
        split at h
        · cases h
        · rename_i l hl
          split at h
          · cases h
          · rename_i outcome ho
            cases h
            exact .resumed i id c l outcome hc hp hl ho
      · cases h
  | cancel i =>
    change s.cancel i = some s' at h
    unfold CpuWeightLoader.cancel at h
    split at h
    · cases h
    · rename_i c hc
      split at h
      · rename_i id hp
        split at h
        · cases h
        · rename_i l hl
          cases h
          exact .left i id c l hc hp hl
      · cases h
      · rename_i h1 h2
        cases h
        refine .stopped i c hc ?_
        cases hp : c.phase with
        | joining => exact .inl rfl
        | waiting id => exact absurd hp (h1 id)
        | cleaning id after => exact .inr ⟨id, after, rfl⟩
        | ended result => exact absurd hp (h2 result)
  | cleaned i =>
    change s.cleaned i = some s' at h
    unfold CpuWeightLoader.cleaned at h
    split at h
    · cases h
    · rename_i c hc
      split at h
      · rename_i id after hp
        split at h
        · cases h
        · split_ifs at h
          cases h
          exact .cleaned i id c after hc hp
      · cases h
  | endLoad id outcome =>
    change s.endLoad id outcome = some s' at h
    unfold CpuWeightLoader.endLoad at h
    split at h
    · cases h
    · rename_i l hl
      split_ifs at h with hno
      cases h
      rw [not_or, Bool.not_eq_true, Option.isSome_eq_false_iff, Option.isNone_iff_eq_none] at hno
      exact .endLoad id l outcome hl hno.1
  | evict =>
    change s.evict = some s' at h
    unfold CpuWeightLoader.evict at h
    split_ifs at h with hall
    cases h
    refine .evict ?_
    intro l hl ho
    have hl' := List.all_eq_true.mp hall l hl
    simpa [ho] using hl'

/-! ## the invariant -/

/-- how a call should end -/
def Result.fine (policy : LoadPolicy) (r : Result) : Prop :=
  r = .lease ∨ r = .failed policy ∨ r = .cancelled

/-- how a call may end: only a load that it has joined hands it another exception -/
def CpuWeightLoader.mayEnd (s : CpuWeightLoader) (c : Caller) (r : Result) : Prop :=
  r.fine c.policy ∨ (r = .raised ∧ ∃ id ∈ c.joined, s.outcome id = some .raised)

/-- the caller is at rest or on its way out: it creates no load any more -/
def Caller.leaving (c : Caller) : Prop :=
  (∃ id r, c.phase = .cleaning id (.finish r)) ∨ ∃ r, c.phase = .ended r

structure CallerOk (s : CpuWeightLoader) (c : Caller) : Prop where
  nodup : c.joined.Nodup
  bounded : ∀ j ∈ c.joined, j < s.loads.length
  waiting : ∀ id, c.phase = .waiting id → s.inflight = some id ∧ id ∈ c.joined
  retrying : (c.phase = .joining ∨ ∃ id, c.phase = .cleaning id .retry) →
    ∀ j ∈ c.joined, s.inflight ≠ some j
  result : ∀ r, (c.phase = .ended r ∨ ∃ id, c.phase = .cleaning id (.finish r)) → s.mayEnd c r
  cleaning : ∀ id after, c.phase = .cleaning id after → id ∈ c.joined

structure LoaderOk (s : CpuWeightLoader) : Prop where
  inflight : ∀ id, s.inflight = some id → ∃ l, s.loads[id]? = some l ∧ 0 < l.waiters
  waiters : ∀ (id : Nat) (l : Load), s.loads[id]? = some l →
    l.waiters = s.callers.countP (·.waitsFor id)
  callers : ∀ c ∈ s.callers, CallerOk s c
  loaded : ∀ l ∈ s.loads, l.outcome = some .loaded → 0 < l.waiters → s.cached = true
  creator : ∀ (id : Nat) (l : Load), s.loads[id]? = some l → ∃ c, s.callers[l.creator]? = some c ∧
    c.policy = l.policy ∧ (c.phase = .waiting id ∨ c.leaving)
  creators : (s.loads.map Load.creator).Nodup

theorem loaderOk_new : LoaderOk .new := by
  refine ⟨?_, ?_, ?_, ?_, ?_, ?_⟩
  all_goals simp [CpuWeightLoader.new]

/-- the loads are at most as many as the callers: each has its own creator -/
theorem LoaderOk.loads_le {s : CpuWeightLoader} (h : LoaderOk s) :
    s.loads.length ≤ s.callers.length := by
  have hsub : s.loads.map Load.creator ⊆ List.range s.callers.length := by
    intro i hi
    obtain ⟨l, hl, rfl⟩ := List.mem_map.mp hi
    obtain ⟨id, hid⟩ := List.mem_iff_getElem?.mp hl
    obtain ⟨c, hc, _⟩ := h.creator id l hid
    rw [List.mem_range]
    exact (List.getElem?_eq_some_iff.mp hc).1
  have hlen := (h.creators.subperm hsub).length_le
  rwa [List.length_map, List.length_range] at hlen

/-! ## updates of one caller and one load -/

theorem map_creator_set {loads : List Load} {id : Nat} {l l' : Load} (hl : loads[id]? = some l)
    (hc : l'.creator = l.creator) :
    (loads.set id l').map Load.creator = loads.map Load.creator := by
  refine List.ext_getElem? fun j => ?_
  rw [List.getElem?_map, List.getElem?_map, List.getElem?_set]
  split_ifs with hj hlt
  · subst hj
    rw [hl, Option.map_some, Option.map_some, hc]
  · exact absurd (List.getElem?_eq_some_iff.mp hl).1 (hj ▸ hlt)
  · rfl

theorem outcome_eq {s : CpuWeightLoader} {id : Nat} {l : Load} (hl : s.loads[id]? = some l) :
    s.outcome id = l.outcome := by
  unfold CpuWeightLoader.outcome
  rw [hl]
  rfl

/-- a record of a load changes, and not its outcome -/
theorem outcome_of_set {s s' : CpuWeightLoader} {id : Nat} {l : Load} (hl : s.loads[id]? = some l)
    (l' : Load) (hs' : s'.loads = s.loads.set id l') (ho : l'.outcome = l.outcome) (j : Nat) :
    s'.outcome j = s.outcome j := by
  unfold CpuWeightLoader.outcome
  rw [hs', List.getElem?_set]
  split_ifs with hj hlt
  · subst hj
    rw [hl]
    exact ho
  · exact absurd (List.getElem?_eq_some_iff.mp hl).1 (hj ▸ hlt)
  · rfl

theorem CpuWeightLoader.mayEnd.mono {s s' : CpuWeightLoader} {c : Caller} {r : Result}
    (h : s.mayEnd c r) (hraised : ∀ j, s.outcome j = some .raised → s'.outcome j = some .raised) :
    s'.mayEnd c r :=
  h.imp_right fun ⟨hr, id, hid, ho⟩ => ⟨hr, id, hid, hraised id ho⟩

theorem waitsFor_iff {c : Caller} {id : Nat} : c.waitsFor id = true ↔ c.phase = .waiting id :=
  decide_eq_true_iff

/-- a caller that waits makes its load count it -/
theorem LoaderOk.waiters_pos {s : CpuWeightLoader} (h : LoaderOk s) {i id : Nat} {c : Caller}
    {l : Load} (hc : s.callers[i]? = some c) (hp : c.phase = .waiting id)
    (hl : s.loads[id]? = some l) : 0 < l.waiters := by
  rw [h.waiters id l hl]
  exact List.countP_pos_iff.mpr ⟨c, List.mem_of_getElem? hc, waitsFor_iff.mpr hp⟩

/-- the caller changes its phase and joins nothing; the registered load stays what it was -/
theorem CallerOk.mono {s s' : CpuWeightLoader} {c : Caller} (h : CallerOk s c)
    (hlen : s.loads.length ≤ s'.loads.length) (hf : s'.inflight = s.inflight)
    (hraised : ∀ j, s.outcome j = some .raised → s'.outcome j = some .raised) : CallerOk s' c := by
  refine ⟨h.nodup, fun j hj => (h.bounded j hj).trans_le hlen, ?_, ?_,
    fun r hr => (h.result r hr).mono hraised, h.cleaning⟩
  · rw [hf]
    exact h.waiting
  · rw [hf]
    exact h.retrying

/-- the last waiter of a load leaves: the load is no longer registered -/
theorem LoaderOk.leaveLast {s : CpuWeightLoader} (h : LoaderOk s) {i id : Nat} {c : Caller}
    {l : Load} (hc : s.callers[i]? = some c) (hp : c.phase = .waiting id)
    (hl : s.loads[id]? = some l) (hone : l.waiters = 1) {after : After}
    (hretry : after = .retry → l.policy ≠ c.policy)
    (hres : ∀ r, after = .finish r → s.mayEnd c r) (cancelling : Bool) :
    LoaderOk { s with
      loads := s.loads.set id { l with waiters := 0, cancelling := cancelling }
      inflight := none
      callers := s.callers.set i { c with phase := .cleaning id after } } := by
  have hok := h.callers c (List.mem_of_getElem? hc)
  have hraised : ∀ j, s.outcome j = some .raised → CpuWeightLoader.outcome { s with
      loads := s.loads.set id { l with waiters := 0, cancelling := cancelling }
      inflight := none
      callers := s.callers.set i { c with phase := .cleaning id after } } j = some .raised :=
    fun j hj => (outcome_of_set hl { l with waiters := 0, cancelling := cancelling } rfl rfl j).trans hj
  have hcount : ∀ j : Nat, (s.callers.set i { c with phase := .cleaning id after }).countP
      (·.waitsFor j) + (if id = j then 1 else 0) = s.callers.countP (·.waitsFor j) := by
    intro j
    have hadd := Ledger.countP_set hc { c with phase := .cleaning id after } (·.waitsFor j)
    simpa [Caller.waitsFor, hp] using hadd
  have hnone : ∀ c' ∈ s.callers.set i { c with phase := .cleaning id after },
      ∀ j, c'.phase ≠ .waiting j := by
    intro c' hc' j hp'
    rcases List.mem_or_eq_of_mem_set hc' with hold | rfl
    · -- whoever waits, waits for the registered load, and that has no waiter left
      have hj := ((h.callers c' hold).waiting j hp').1
      rw [(hok.waiting id hp).1] at hj
      cases hj
      have hzero := hcount id
      rw [if_pos rfl, ← h.waiters id l hl, hone] at hzero
      have hcount0 : (s.callers.set i { c with phase := .cleaning id after }).countP
          (·.waitsFor id) = 0 := by omega
      exact List.countP_eq_zero.mp hcount0 c' hc' (waitsFor_iff.mpr hp')
    · cases hp'
  refine ⟨fun j hj => (by cases hj), ?_, ?_, ?_, ?_, ?_⟩
  · intro j l' hl'
    have hj := hcount j
    rcases Ledger.getElem?_set_cases hl' with ⟨rfl, rfl⟩ | ⟨hne, hold⟩
    · rw [if_pos rfl, ← h.waiters id l hl, hone] at hj
      show 0 = (s.callers.set i _).countP _
      omega
    · rw [if_neg hne] at hj
      rw [h.waiters j l' hold]
      exact hj.symm
  · intro c' hc'
    rcases List.mem_or_eq_of_mem_set hc' with hold | rfl
    · have hok' := h.callers c' hold
      refine ⟨hok'.nodup, ?_, fun j hj => absurd hj (hnone c' hc' j), fun _ j _ => by simp,
        fun r hr => (hok'.result r hr).mono hraised, hok'.cleaning⟩
      simpa using hok'.bounded
    · refine ⟨hok.nodup, ?_, fun j hj => (by cases hj), fun _ j _ => by simp, ?_, ?_⟩
      · simpa using hok.bounded
      · intro r hr
        rcases hr with hr | ⟨id', hr⟩
        · cases hr
        · cases hr
          exact (hres r rfl).mono hraised
      · intro j after' hj
        cases hj
        exact (hok.waiting id hp).2
  · intro l' hl' ho hw
    rcases List.mem_or_eq_of_mem_set hl' with hold | rfl
    · exact h.loaded l' hold ho hw
    · exact absurd hw (Nat.lt_irrefl 0)
  · intro j l' hl'
    -- the creator of a load waits for that load or leaves; a retrying caller has created none
    have hcreator : ∀ l0 : Load, s.loads[j]? = some l0 → ∃ c',
        (s.callers.set i { c with phase := .cleaning id after })[l0.creator]? = some c' ∧
        c'.policy = l0.policy ∧ (c'.phase = .waiting j ∨ c'.leaving) := by
      intro l0 hl0
      obtain ⟨c0, hc0, hpol, hphase⟩ := h.creator j l0 hl0
      by_cases hi : i = l0.creator
      · rw [← hi, hc] at hc0
        cases hc0
        have hj : j = id := by
          rcases hphase with hw | ⟨id', r, hq⟩ | ⟨r, hq⟩
          · rw [hp] at hw
            cases hw
            rfl
          · rw [hp] at hq
            cases hq
          · rw [hp] at hq
            cases hq
        subst hj
        rw [hl] at hl0
        cases hl0
        refine ⟨{ c with phase := .cleaning j after }, ?_, hpol, .inr (.inl ⟨j, ?_⟩)⟩
        · rw [← hi, List.getElem?_set_self (List.getElem?_eq_some_iff.mp hc).1]
        · cases after with
          | retry => exact absurd hpol.symm (hretry rfl)
          | finish r => exact ⟨r, rfl⟩
      · exact ⟨c0, by rw [List.getElem?_set_ne hi]; exact hc0, hpol, hphase⟩
    rcases Ledger.getElem?_set_cases hl' with ⟨rfl, rfl⟩ | ⟨_, hold⟩
    · exact hcreator l hl
    · exact hcreator l' hold
  · show ((s.loads.set id _).map Load.creator).Nodup
    rw [map_creator_set hl]
    · exact h.creators
    · rfl

/-- another waiter stays: the caller ends, and the load stays registered -/
theorem LoaderOk.leaveOthers {s : CpuWeightLoader} (h : LoaderOk s) {i id : Nat} {c : Caller}
    {l : Load} (hc : s.callers[i]? = some c) (hp : c.phase = .waiting id)
    (hl : s.loads[id]? = some l) (hmore : 1 < l.waiters) {r : Result} (hr : s.mayEnd c r) :
    LoaderOk { s with
      loads := s.loads.set id { l with waiters := l.waiters - 1 }
      callers := s.callers.set i { c with phase := .ended r } } := by
  have hok := h.callers c (List.mem_of_getElem? hc)
  have hinflight := (hok.waiting id hp).1
  have hlen : s.loads.length ≤ (s.loads.set id { l with waiters := l.waiters - 1 }).length := by
    rw [List.length_set]
  have hraised : ∀ j, s.outcome j = some .raised → CpuWeightLoader.outcome { s with
      loads := s.loads.set id { l with waiters := l.waiters - 1 }
      callers := s.callers.set i { c with phase := .ended r } } j = some .raised :=
    fun j hj => (outcome_of_set hl { l with waiters := l.waiters - 1 } rfl rfl j).trans hj
  have hcount : ∀ j : Nat, (s.callers.set i { c with phase := .ended r }).countP (·.waitsFor j)
      + (if id = j then 1 else 0) = s.callers.countP (·.waitsFor j) := by
    intro j
    have hadd := Ledger.countP_set hc { c with phase := .ended r } (·.waitsFor j)
    simpa [Caller.waitsFor, hp] using hadd
  refine ⟨?_, ?_, ?_, ?_, ?_, ?_⟩
  · intro j hj
    change s.inflight = some j at hj
    rw [hinflight] at hj
    cases hj
    refine ⟨{ l with waiters := l.waiters - 1 }, ?_, show 0 < l.waiters - 1 by omega⟩
    rw [List.getElem?_set_self (List.getElem?_eq_some_iff.mp hl).1]
  · intro j l' hl'
    have hj := hcount j
    rcases Ledger.getElem?_set_cases hl' with ⟨rfl, rfl⟩ | ⟨hne, hold⟩
    · rw [if_pos rfl, ← h.waiters id l hl] at hj
      show l.waiters - 1 = (s.callers.set i _).countP _
      omega
    · rw [if_neg hne] at hj
      rw [h.waiters j l' hold]
      exact hj.symm
  · intro c' hc'
    rcases List.mem_or_eq_of_mem_set hc' with hold | rfl
    · exact (h.callers c' hold).mono hlen rfl hraised
    · refine ⟨hok.nodup, fun j hj => (hok.bounded j hj).trans_le hlen, fun j hj => (by cases hj), ?_,
        ?_, fun j after hj => (by cases hj)⟩
      · rintro (hj | ⟨_, hj⟩) <;> cases hj
      · rintro r' (hr' | ⟨_, hr'⟩)
        · cases hr'
          exact hr.mono hraised
        · cases hr'
  · intro l' hl' ho hw
    rcases List.mem_or_eq_of_mem_set hl' with hold | rfl
    · exact h.loaded l' hold ho hw
    · exact h.loaded l (List.mem_of_getElem? hl) ho (show 0 < l.waiters by omega)
  · intro j l' hl'
    have hcreator : ∀ l0 : Load, s.loads[j]? = some l0 → ∃ c',
        (s.callers.set i { c with phase := .ended r })[l0.creator]? = some c' ∧
        c'.policy = l0.policy ∧ (c'.phase = .waiting j ∨ c'.leaving) := by
      intro l0 hl0
      obtain ⟨c0, hc0, hpol, hphase⟩ := h.creator j l0 hl0
      by_cases hi : i = l0.creator
      · rw [← hi, hc] at hc0
        cases hc0
        refine ⟨{ c with phase := .ended r }, ?_, hpol, .inr (.inr ⟨r, rfl⟩)⟩
        rw [← hi, List.getElem?_set_self (List.getElem?_eq_some_iff.mp hc).1]
      · exact ⟨c0, by rw [List.getElem?_set_ne hi]; exact hc0, hpol, hphase⟩
    rcases Ledger.getElem?_set_cases hl' with ⟨rfl, rfl⟩ | ⟨_, hold⟩
    · exact hcreator l hl
    · exact hcreator l' hold
  · show ((s.loads.set id _).map Load.creator).Nodup
    rw [map_creator_set hl]
    · exact h.creators
    · rfl

theorem LoaderOk.leave {s : CpuWeightLoader} (h : LoaderOk s) {i id : Nat} {c : Caller} {l : Load}
    (hc : s.callers[i]? = some c) (hp : c.phase = .waiting id) (hl : s.loads[id]? = some l)
    {after : After} (hretry : after = .retry → l.policy ≠ c.policy ∧ l.waiters = 1)
    (hres : ∀ r, after = .finish r → s.mayEnd c r) : LoaderOk (s.leave i c id l after) := by
  have hpos := h.waiters_pos hc hp hl
  have hinflight := ((h.callers c (List.mem_of_getElem? hc)).waiting id hp).1
  unfold CpuWeightLoader.leave
  rw [if_neg (by omega)]
  split_ifs with hlast
  · exact h.leaveLast hc hp hl hlast.1 (fun ha => (hretry ha).1) hres _
  · have hmore : 1 < l.waiters := by
      by_contra hno
      exact hlast ⟨by omega, hinflight⟩
    cases after with
    | retry => exact absurd (hretry rfl).2 (by omega)
    | finish r => exact h.leaveOthers hc hp hl hmore (hres r rfl)

/-- the caller only changes its phase, and does not wait before or after -/
theorem LoaderOk.setPhase {s : CpuWeightLoader} (h : LoaderOk s) {i : Nat} {c : Caller}
    (hc : s.callers[i]? = some c) {phase : Phase} (hp : ∀ id, c.phase ≠ .waiting id)
    (hp' : ∀ id, phase ≠ .waiting id) (hq' : ∀ id after, phase ≠ .cleaning id after)
    (hleave : c.leaving → ∃ r, phase = .ended r)
    (hretry : (phase = .joining ∨ ∃ id, phase = .cleaning id .retry) →
      c.phase = .joining ∨ ∃ id, c.phase = .cleaning id .retry)
    (hres : ∀ r, (phase = .ended r ∨ ∃ id, phase = .cleaning id (.finish r)) → s.mayEnd c r) :
    LoaderOk { s with callers := s.callers.set i { c with phase := phase } } := by
  have hok := h.callers c (List.mem_of_getElem? hc)
  have hcount : ∀ j : Nat, (s.callers.set i { c with phase := phase }).countP (·.waitsFor j)
      = s.callers.countP (·.waitsFor j) := by
    intro j
    have hadd := Ledger.countP_set hc { c with phase := phase } (·.waitsFor j)
    simpa [Caller.waitsFor, hp j, hp' j] using hadd
  refine ⟨h.inflight, ?_, ?_, h.loaded, ?_, h.creators⟩
  · intro j l hl
    rw [h.waiters j l hl]
    exact (hcount j).symm
  · intro c' hc'
    rcases List.mem_or_eq_of_mem_set hc' with hold | rfl
    · exact (h.callers c' hold).mono le_rfl rfl fun _ => id
    · exact ⟨hok.nodup, hok.bounded, fun j hj => absurd hj (hp' j),
        fun hr => hok.retrying (hretry hr), hres, fun j after hj => absurd hj (hq' j after)⟩
  · intro j l hl
    obtain ⟨c0, hc0, hpol, hphase⟩ := h.creator j l hl
    by_cases hi : i = l.creator
    · rw [← hi, hc] at hc0
      cases hc0
      obtain ⟨r, hr⟩ := hleave (hphase.resolve_left (hp j))
      refine ⟨{ c with phase := phase }, ?_, hpol, .inr (.inr ⟨r, hr⟩)⟩
      rw [← hi, List.getElem?_set_self (List.getElem?_eq_some_iff.mp hc).1]
    · exact ⟨c0, by rw [List.getElem?_set_ne hi]; exact hc0, hpol, hphase⟩

/-- a caller at the head of the loop joins the registered load, which it has not joined before -/
theorem LoaderOk.joined {s : CpuWeightLoader} (h : LoaderOk s) {i id : Nat} {c : Caller} {l : Load}
    (hc : s.callers[i]? = some c) (hp : c.phase = .joining) (hf : s.inflight = some id)
    (hl : s.loads[id]? = some l) :
    LoaderOk { s with
      loads := s.loads.set id { l with waiters := l.waiters + 1 }
      callers := s.callers.set i { c with phase := .waiting id, joined := c.joined ++ [id] } } := by
  have hok := h.callers c (List.mem_of_getElem? hc)
  have hlt := (List.getElem?_eq_some_iff.mp hl).1
  have hlen : s.loads.length ≤ (s.loads.set id { l with waiters := l.waiters + 1 }).length := by
    rw [List.length_set]
  have hnew : id ∉ c.joined := fun hmem => hok.retrying (.inl hp) id hmem hf
  have hcount : ∀ j : Nat, (s.callers.set i { c with
      phase := .waiting id, joined := c.joined ++ [id] }).countP (·.waitsFor j)
      = s.callers.countP (·.waitsFor j) + (if id = j then 1 else 0) := by
    intro j
    have hadd := Ledger.countP_set hc { c with phase := .waiting id, joined := c.joined ++ [id] }
      (·.waitsFor j)
    simpa [Caller.waitsFor, hp] using hadd
  refine ⟨?_, ?_, ?_, ?_, ?_, ?_⟩
  · intro j hj
    change s.inflight = some j at hj
    rw [hf] at hj
    cases hj
    refine ⟨{ l with waiters := l.waiters + 1 }, ?_, Nat.succ_pos _⟩
    rw [List.getElem?_set_self hlt]
  · intro j l' hl'
    have hj := hcount j
    rcases Ledger.getElem?_set_cases hl' with ⟨rfl, rfl⟩ | ⟨hne, hold⟩
    · rw [if_pos rfl, ← h.waiters id l hl] at hj
      exact hj.symm
    · rw [if_neg hne, Nat.add_zero] at hj
      rw [h.waiters j l' hold]
      exact hj.symm
  · intro c' hc'
    rcases List.mem_or_eq_of_mem_set hc' with hold | rfl
    · exact (h.callers c' hold).mono hlen rfl
        fun j hj => (outcome_of_set hl { l with waiters := l.waiters + 1 } rfl rfl j).trans hj
    · refine ⟨?_, ?_, ?_, ?_, ?_, ?_⟩
      · exact List.nodup_append.mpr ⟨hok.nodup, by simp, by
          intro a ha b hb
          rw [List.mem_singleton] at hb
          rintro rfl
          exact hnew (hb ▸ ha)⟩
      · intro j hj
        rcases List.mem_append.mp hj with hj | hj
        · exact (hok.bounded j hj).trans_le hlen
        · rw [List.mem_singleton.mp hj]
          exact hlt.trans_le hlen
      · intro j hj
        cases hj
        exact ⟨hf, List.mem_append.mpr (.inr List.mem_cons_self)⟩
      · rintro (hj | ⟨_, hj⟩) <;> cases hj
      · rintro r (hr | ⟨_, hr⟩) <;> cases hr
      · exact fun j after hj => (by cases hj)
  · intro l' hl' ho hw
    rcases List.mem_or_eq_of_mem_set hl' with hold | rfl
    · exact h.loaded l' hold ho hw
    · obtain ⟨l0, hl0, hpos⟩ := h.inflight id hf
      rw [hl] at hl0
      cases hl0
      exact h.loaded l (List.mem_of_getElem? hl) ho hpos
  · intro j l' hl'
    have hcreator : ∀ l0 : Load, s.loads[j]? = some l0 → ∃ c',
        (s.callers.set i { c with phase := .waiting id, joined := c.joined ++ [id] })[l0.creator]?
          = some c' ∧ c'.policy = l0.policy ∧ (c'.phase = .waiting j ∨ c'.leaving) := by
      intro l0 hl0
      obtain ⟨c0, hc0, hpol, hphase⟩ := h.creator j l0 hl0
      have hi : i ≠ l0.creator := by
        rintro rfl
        rw [hc] at hc0
        cases hc0
        rcases hphase with hw | ⟨_, _, hq⟩ | ⟨_, hq⟩
        · rw [hp] at hw
          cases hw
        · rw [hp] at hq
          cases hq
        · rw [hp] at hq
          cases hq
      exact ⟨c0, by rw [List.getElem?_set_ne hi]; exact hc0, hpol, hphase⟩
    rcases Ledger.getElem?_set_cases hl' with ⟨rfl, rfl⟩ | ⟨_, hold⟩
    · exact hcreator l hl
    · exact hcreator l' hold
  · show ((s.loads.set id _).map Load.creator).Nodup
    rw [map_creator_set hl]
    · exact h.creators
    · rfl

/-- no load is registered: the caller creates one with its own policy -/
theorem LoaderOk.created {s : CpuWeightLoader} (h : LoaderOk s) {i : Nat} {c : Caller}
    (hc : s.callers[i]? = some c) (hp : c.phase = .joining) (hf : s.inflight = none) :
    LoaderOk { s with
      loads := s.loads ++ [⟨c.policy, i, none, false, 1⟩]
      inflight := some s.loads.length
      callers := s.callers.set i { c with
        phase := .waiting s.loads.length, joined := c.joined ++ [s.loads.length] } } := by
  have hok := h.callers c (List.mem_of_getElem? hc)
  have hlen : (s.loads ++ [(⟨c.policy, i, none, false, 1⟩ : Load)]).length = s.loads.length + 1 := by
    simp
  have hraised : ∀ j, s.outcome j = some .raised → CpuWeightLoader.outcome { s with
      loads := s.loads ++ [⟨c.policy, i, none, false, 1⟩]
      inflight := some s.loads.length
      callers := s.callers.set i { c with
        phase := .waiting s.loads.length, joined := c.joined ++ [s.loads.length] } } j
        = some .raised := by
    intro j hj
    obtain ⟨l, hl, ho⟩ := Option.bind_eq_some_iff.mp hj
    have hlt := (List.getElem?_eq_some_iff.mp hl).1
    exact (outcome_eq ((List.getElem?_append_left hlt).trans hl)).trans ho
  have hidle : ∀ c' ∈ s.callers, ∀ j, c'.phase ≠ .waiting j := by
    intro c' hc' j hj
    have hw := ((h.callers c' hc').waiting j hj).1
    rw [hf] at hw
    cases hw
  have hcount : ∀ j : Nat, (s.callers.set i { c with
      phase := .waiting s.loads.length, joined := c.joined ++ [s.loads.length] }).countP
      (·.waitsFor j) = s.callers.countP (·.waitsFor j) + (if s.loads.length = j then 1 else 0) := by
    intro j
    have hadd := Ledger.countP_set hc { c with
      phase := .waiting s.loads.length, joined := c.joined ++ [s.loads.length] } (·.waitsFor j)
    simpa [Caller.waitsFor, hp] using hadd
  have hzero : ∀ j : Nat, s.callers.countP (·.waitsFor j) = 0 := by
    intro j
    refine List.countP_eq_zero.mpr ?_
    intro c' hc' hw
    exact hidle c' hc' j (waitsFor_iff.mp hw)
  have hnot : ∀ (j : Nat) (l : Load), s.loads[j]? = some l → i ≠ l.creator := by
    rintro j l hl rfl
    obtain ⟨c0, hc0, _, hphase⟩ := h.creator j l hl
    rw [hc] at hc0
    cases hc0
    rcases hphase with hw | ⟨_, _, hq⟩ | ⟨_, hq⟩
    · rw [hp] at hw
      cases hw
    · rw [hp] at hq
      cases hq
    · rw [hp] at hq
      cases hq
  have hcases : ∀ (j : Nat) (l : Load),
      (s.loads ++ [(⟨c.policy, i, none, false, 1⟩ : Load)])[j]? = some l →
      s.loads[j]? = some l ∨ (j = s.loads.length ∧ l = ⟨c.policy, i, none, false, 1⟩) := by
    intro j l hl
    rcases Nat.lt_or_ge j s.loads.length with hj | hj
    · rw [List.getElem?_append_left hj] at hl
      exact .inl hl
    · rw [List.getElem?_append_right hj] at hl
      obtain ⟨hlt, hget⟩ := List.getElem?_eq_some_iff.mp hl
      have hj' : j = s.loads.length := by
        rw [List.length_singleton] at hlt
        omega
      refine .inr ⟨hj', ?_⟩
      subst hj'
      simpa using hget.symm
  refine ⟨?_, ?_, ?_, ?_, ?_, ?_⟩
  · intro j hj
    cases hj
    exact ⟨⟨c.policy, i, none, false, 1⟩, by simp, Nat.one_pos⟩
  · intro j l hl
    have hj := hcount j
    rcases hcases j l hl with hold | ⟨rfl, rfl⟩
    · have hne : s.loads.length ≠ j := (List.getElem?_eq_some_iff.mp hold).1.ne'
      rw [if_neg hne, Nat.add_zero] at hj
      rw [h.waiters j l hold]
      exact hj.symm
    · rw [if_pos rfl, hzero] at hj
      exact hj.symm
  · intro c' hc'
    rcases List.mem_or_eq_of_mem_set hc' with hold | rfl
    · have hok' := h.callers c' hold
      refine ⟨hok'.nodup, fun j hj => ?_, fun j hj => absurd hj (hidle c' hold j), ?_,
        fun r hr => (hok'.result r hr).mono hraised, hok'.cleaning⟩
      · exact (hok'.bounded j hj).trans (by rw [hlen]; omega)
      · intro _ j hj heq
        cases heq
        exact absurd (hok'.bounded _ hj) (Nat.lt_irrefl _)
    · refine ⟨?_, ?_, ?_, ?_, ?_, ?_⟩
      · exact List.nodup_append.mpr ⟨hok.nodup, by simp, by
          intro a ha b hb
          rw [List.mem_singleton] at hb
          rintro rfl
          exact absurd (hok.bounded a ha) (by omega)⟩
      · intro j hj
        rw [hlen]
        rcases List.mem_append.mp hj with hj | hj
        · exact (hok.bounded j hj).trans (Nat.lt_succ_self _)
        · rw [List.mem_singleton.mp hj]
          exact Nat.lt_succ_self _
      · intro j hj
        cases hj
        exact ⟨rfl, List.mem_append.mpr (.inr List.mem_cons_self)⟩
      · rintro (hj | ⟨_, hj⟩) <;> cases hj
      · rintro r (hr | ⟨_, hr⟩) <;> cases hr
      · exact fun j after hj => (by cases hj)
  · intro l hl ho hw
    rcases List.mem_append.mp hl with hold | hnew
    · exact h.loaded l hold ho hw
    · rw [List.mem_singleton] at hnew
      rw [hnew] at ho
      cases ho
  · intro j l hl
    rcases hcases j l hl with hold | ⟨rfl, rfl⟩
    · obtain ⟨c0, hc0, hpol, hphase⟩ := h.creator j l hold
      exact ⟨c0, by rw [List.getElem?_set_ne (hnot j l hold)]; exact hc0, hpol, hphase⟩
    · refine ⟨_, List.getElem?_set_self (List.getElem?_eq_some_iff.mp hc).1, rfl, .inl rfl⟩
  · show ((s.loads ++ [(⟨c.policy, i, none, false, 1⟩ : Load)]).map Load.creator).Nodup
    rw [List.map_append, List.nodup_append]
    refine ⟨h.creators, by simp, ?_⟩
    intro a ha b hb
    obtain ⟨l, hl, rfl⟩ := List.mem_map.mp ha
    obtain ⟨j, hj⟩ := List.mem_iff_getElem?.mp hl
    rw [List.map_singleton, List.mem_singleton] at hb
    rw [hb]
    exact (hnot j l hj).symm

theorem LoaderOk.acquire {s : CpuWeightLoader} (h : LoaderOk s) (policy : LoadPolicy) :
    LoaderOk (s.acquire policy) := by
  refine ⟨h.inflight, ?_, ?_, h.loaded, ?_, h.creators⟩
  · intro id l hl
    rw [h.waiters id l hl]
    show _ = (s.callers ++ [_]).countP _
    rw [List.countP_append, List.countP_singleton]
    cases s.cached <;> simp [Caller.waitsFor]
  · intro c hc
    rcases List.mem_append.mp hc with hold | hnew
    · exact (h.callers c hold).mono le_rfl rfl fun _ => id
    · rw [List.mem_singleton] at hnew
      subst hnew
      refine ⟨List.nodup_nil, fun j hj => absurd hj List.not_mem_nil, ?_, ?_, ?_, ?_⟩
      · intro id hid
        cases hcached : s.cached <;> simp [hcached] at hid
      · exact fun _ j hj => absurd hj List.not_mem_nil
      · intro r hr
        cases hcached : s.cached with
        | true =>
          simp only [hcached, if_true, Phase.ended.injEq, reduceCtorEq, exists_false, or_false]
            at hr
          exact .inl (.inl hr.symm)
        | false => simp [hcached] at hr
      · intro id after hid
        cases hcached : s.cached <;> simp [hcached] at hid
  · intro id l hl
    obtain ⟨c, hc, hpol, hphase⟩ := h.creator id l hl
    refine ⟨c, ?_, hpol, hphase⟩
    show (s.callers ++ [_])[l.creator]? = some c
    rw [List.getElem?_append_left (List.getElem?_eq_some_iff.mp hc).1, hc]

theorem LoaderOk.endLoad {s : CpuWeightLoader} (h : LoaderOk s) {id : Nat} {l : Load}
    (outcome : LoadOutcome) (hl : s.loads[id]? = some l) (ho : l.outcome = none) :
    LoaderOk { s with
      loads := s.loads.set id { l with outcome := some outcome }
      cached := s.cached || decide (outcome = .loaded) } := by
  have hlt := (List.getElem?_eq_some_iff.mp hl).1
  refine ⟨?_, ?_, ?_, ?_, ?_, ?_⟩
  · intro j hj
    obtain ⟨l', hl', hpos⟩ := h.inflight j hj
    by_cases hij : id = j
    · subst hij
      rw [hl] at hl'
      cases hl'
      exact ⟨{ l with outcome := some outcome }, by rw [List.getElem?_set_self hlt], hpos⟩
    · exact ⟨l', by rw [List.getElem?_set_ne hij]; exact hl', hpos⟩
  · intro j l' hl'
    rcases Ledger.getElem?_set_cases hl' with ⟨rfl, rfl⟩ | ⟨_, hold⟩
    · exact h.waiters id l hl
    · exact h.waiters j l' hold
  · intro c hc
    refine (h.callers c hc).mono (by rw [List.length_set]) rfl fun j hj => ?_
    have hne : id ≠ j := by
      rintro rfl
      rw [outcome_eq hl, ho] at hj
      cases hj
    unfold CpuWeightLoader.outcome at hj ⊢
    rw [List.getElem?_set_ne hne]
    exact hj
  · intro l' hl' ho hw
    rcases List.mem_or_eq_of_mem_set hl' with hold | rfl
    · simp [h.loaded l' hold ho hw]
    · cases ho
      simp
  · intro j l' hl'
    rcases Ledger.getElem?_set_cases hl' with ⟨rfl, rfl⟩ | ⟨_, hold⟩
    · exact h.creator id l hl
    · exact h.creator j l' hold
  · show ((s.loads.set id _).map Load.creator).Nodup
    rw [map_creator_set hl]
    · exact h.creators
    · rfl

theorem LoaderOk.evict {s : CpuWeightLoader} (h : LoaderOk s)
    (hfree : ∀ l ∈ s.loads, l.outcome = some .loaded → l.waiters = 0) :
    LoaderOk { s with cached := false } := by
  refine ⟨h.inflight, h.waiters, fun c hc => (h.callers c hc).mono le_rfl rfl fun _ => id, ?_,
    h.creator, h.creators⟩
  intro l hl ho hw
  rw [hfree l hl ho] at hw
  exact absurd hw (Nat.lt_irrefl 0)

/-- what a caller may do with the outcome: it goes round again only from a load it may leave last -/
theorem LoaderOk.resumed {s : CpuWeightLoader} (h : LoaderOk s) {i id : Nat} {c : Caller}
    {l : Load} {outcome : LoadOutcome} (hc : s.callers[i]? = some c) (hp : c.phase = .waiting id)
    (hl : s.loads[id]? = some l) (ho : l.outcome = some outcome)
    (hy : yields s (.resume i) = true) :
    LoaderOk (s.leave i c id l (s.afterOutcome c l outcome)) := by
  refine h.leave hc hp hl ?_ ?_
  · intro hretry
    cases outcome with
    | loaded => cases hretry
    | cancelled => cases hretry
    | raised => cases hretry
    | failed =>
      change (if l.policy = c.policy then After.finish (.failed c.policy) else .retry) = .retry
        at hretry
      split_ifs at hretry with hpol
      refine ⟨hpol, ?_⟩
      unfold yields at hy
      simpa [hc, hp, hl, ho, hpol] using hy
  · intro r hr
    cases outcome with
    | loaded =>
      have hcached := h.loaded l (List.mem_of_getElem? hl) ho (h.waiters_pos hc hp hl)
      change After.finish (if s.cached then _ else _) = .finish r at hr
      rw [hcached] at hr
      cases hr
      exact .inl (.inl rfl)
    | cancelled =>
      cases hr
      exact .inl (.inr (.inr rfl))
    | raised =>
      cases hr
      have hjoined := ((h.callers c (List.mem_of_getElem? hc)).waiting id hp).2
      exact .inr ⟨rfl, id, hjoined, (outcome_eq hl).trans ho⟩
    | failed =>
      change (if l.policy = c.policy then After.finish (.failed c.policy) else .retry) = .finish r
        at hr
      split_ifs at hr with hpol
      cases hr
      exact .inl (.inr (.inl rfl))

theorem LoaderOk.step {s s' : CpuWeightLoader} {l : Label} (h : LoaderOk s)
    (hy : yields s l = true) (hs : step s l = some s') : LoaderOk s' := by
  cases step_cases hs with
  | acquire policy => exact h.acquire policy
  | joined i id c l hc hp hf hl => exact h.joined hc hp hf hl
  | created i c hc hp hf => exact h.created hc hp hf
  | resumed i id c l outcome hc hp hl ho => exact h.resumed hc hp hl ho hy
  | left i id c l hc hp hl =>
    refine h.leave hc hp hl (fun hr => (by cases hr)) ?_
    intro r hr
    cases hr
    exact .inl (.inr (.inr rfl))
  | stopped i c hc hp =>
    refine h.setPhase hc ?_ (fun id hid => (by cases hid)) (fun id after hid => (by cases hid))
      (fun _ => ⟨_, rfl⟩) ?_ ?_
    · rintro id hid
      rcases hp with hp | ⟨_, _, hp⟩ <;> (rw [hp] at hid; cases hid)
    · rintro (hj | ⟨_, hj⟩) <;> cases hj
    · rintro r (hr | ⟨_, hr⟩)
      · cases hr
        exact .inl (.inr (.inr rfl))
      · cases hr
  | cleaned i id c after hc hp =>
    have hok := h.callers c (List.mem_of_getElem? hc)
    cases after with
    | retry =>
      refine h.setPhase hc ?_ (fun id' hid => (by cases hid)) (fun id' after hid => (by cases hid)) ?_
        (fun _ => .inr ⟨id, hp⟩) ?_
      · intro id' hid
        rw [hp] at hid
        cases hid
      · rintro (⟨_, _, hq⟩ | ⟨_, hq⟩) <;> (rw [hp] at hq; cases hq)
      · rintro r (hr | ⟨_, hr⟩) <;> cases hr
    | finish r =>
      refine h.setPhase hc ?_ (fun id' hid => (by cases hid)) (fun id' after hid => (by cases hid))
        (fun _ => ⟨r, rfl⟩) ?_ ?_
      · intro id' hid
        rw [hp] at hid
        cases hid
      · rintro (hj | ⟨_, hj⟩) <;> cases hj
      · rintro r' (hr | ⟨_, hr⟩)
        · cases hr
          exact hok.result r (.inr ⟨id, hp⟩)
        · cases hr
  | endLoad id l outcome hl ho => exact h.endLoad outcome hl ho
  | evict hfree => exact h.evict hfree

/-! ## every run -/

theorem loaderOk_of_reach {s : CpuWeightLoader}
    (h : Steps.Reach step (fun s l => yields s l = true) .new s) : LoaderOk s :=
  h.invariant loaderOk_new fun _ _ _ hok hy hs => hok.step hy hs

/-- the load whose end the caller waits for -/
def Caller.awaits (c : Caller) (id : Nat) : Prop :=
  c.phase = .waiting id ∨ ∃ after, c.phase = .cleaning id after

/-- a caller that has not ended can go on, or the load that it waits for can end -/
theorem caller_runs {s : CpuWeightLoader} (h : LoaderOk s) {i : Nat} {c : Caller}
    (hc : s.callers[i]? = some c) (hp : ∀ r, c.phase ≠ .ended r) :
    step s (.join i) ≠ none ∨ step s (.resume i) ≠ none ∨ step s (.cleaned i) ≠ none ∨
      ∃ id, c.awaits id ∧ step s (.endLoad id .failed) ≠ none := by
  have hok := h.callers c (List.mem_of_getElem? hc)
  have hload : ∀ id ∈ c.joined, ∃ l, s.loads[id]? = some l := fun id hid =>
    ⟨_, List.getElem?_eq_getElem (hok.bounded id hid)⟩
  have hend : ∀ (id : Nat) (l : Load), s.loads[id]? = some l → l.outcome = none →
      step s (.endLoad id .failed) ≠ none := by
    intro id l hl ho
    simp [step, CpuWeightLoader.endLoad, hl, ho]
  cases hphase : c.phase with
  | joining =>
    left
    cases hf : s.inflight with
    | none => simp [step, CpuWeightLoader.join, hc, hphase, hf]
    | some id =>
      obtain ⟨l, hl, _⟩ := h.inflight id hf
      simp [step, CpuWeightLoader.join, hc, hphase, hf, hl]
  | waiting id =>
    obtain ⟨l, hl⟩ := hload id (hok.waiting id hphase).2
    cases ho : l.outcome with
    | none => exact .inr (.inr (.inr ⟨id, .inl hphase, hend id l hl ho⟩))
    | some outcome =>
      refine .inr (.inl ?_)
      simp [step, CpuWeightLoader.resume, hc, hphase, hl, ho]
  | cleaning id after =>
    obtain ⟨l, hl⟩ := hload id (hok.cleaning id after hphase)
    cases ho : l.outcome with
    | none => exact .inr (.inr (.inr ⟨id, .inr ⟨after, hphase⟩, hend id l hl ho⟩))
    | some outcome =>
      refine .inr (.inr (.inl ?_))
      simp [step, CpuWeightLoader.cleaned, hc, hphase, hl, ho]
  | ended r => exact absurd hphase (hp r)

/-- a caller that runs on without being the last waiter joins its failed load once more -/
theorem rejoins {s s' : CpuWeightLoader} (h : LoaderOk s) {i : Nat}
    (hy : yields s (.resume i) = false) (hs : step s (.resume i) = some s') :
    ∃ s'' c, step s' (.join i) = some s'' ∧ s''.callers[i]? = some c ∧ ¬ c.joined.Nodup := by
  cases step_cases hs with
  | resumed i id c l outcome hc hp hl ho =>
    have hok := h.callers c (List.mem_of_getElem? hc)
    obtain ⟨hf, hmem⟩ := hok.waiting id hp
    have hpos := h.waiters_pos hc hp hl
    have hlt := (List.getElem?_eq_some_iff.mp hl).1
    have hi := (List.getElem?_eq_some_iff.mp hc).1
    unfold yields at hy
    simp only [hc, hp, hl, ho, Bool.or_eq_false_iff, decide_eq_false_iff_not, not_not,
      Option.some.injEq] at hy
    obtain ⟨⟨rfl, hpol⟩, hmore⟩ := hy
    have hleave : s.leave i c id l (s.afterOutcome c l .failed) = { s with
        loads := s.loads.set id { l with waiters := l.waiters - 1 }
        callers := s.callers.set i { c with phase := .joining } } := by
      unfold CpuWeightLoader.leave CpuWeightLoader.afterOutcome
      simp only
      rw [if_neg (by omega), if_neg (fun hc => hmore hc.1), if_neg hpol]
      rfl
    rw [hleave]
    refine ⟨{ s with
      loads := (s.loads.set id { l with waiters := l.waiters - 1 }).set id
        { l with waiters := l.waiters - 1 + 1 }
      callers := (s.callers.set i { c with phase := .joining }).set i
        { c with phase := .waiting id, joined := c.joined ++ [id] } },
      { c with phase := .waiting id, joined := c.joined ++ [id] }, ?_, ?_, ?_⟩
    · simp only [step, CpuWeightLoader.join]
      rw [List.getElem?_set_self hi]
      simp only [ne_eq, not_true_eq_false, if_false, hf]
      rw [List.getElem?_set_self hlt]
    · exact List.getElem?_set_self (by rw [List.length_set]; exact hi)
    · intro hnodup
      have hdis := (List.nodup_append.mp hnodup).2.2
      exact hdis id hmem id List.mem_cons_self rfl

/-- a caller that is the last waiter, or accepts the outcome, gives up the event loop or ends -/
theorem resume_yields {s s' : CpuWeightLoader} (h : LoaderOk s) {i : Nat}
    (hy : yields s (.resume i) = true) (hs : step s (.resume i) = some s') :
    ∃ c, s'.callers[i]? = some c ∧
      ((∃ r, c.phase = .ended r) ∨ ∃ id after, c.phase = .cleaning id after) := by
  cases step_cases hs with
  | resumed i id c l outcome hc hp hl ho =>
    have hi := (List.getElem?_eq_some_iff.mp hc).1
    have hpos := h.waiters_pos hc hp hl
    have hf := ((h.callers c (List.mem_of_getElem? hc)).waiting id hp).1
    unfold CpuWeightLoader.leave
    rw [if_neg (by omega)]
    split_ifs with hlast
    · exact ⟨_, List.getElem?_set_self hi, .inr ⟨id, _, rfl⟩⟩
    · refine ⟨_, List.getElem?_set_self hi, .inl ?_⟩
      have hmore : l.waiters ≠ 1 := fun hone => hlast ⟨hone, hf⟩
      cases outcome with
      | loaded => exact ⟨_, rfl⟩
      | cancelled => exact ⟨_, rfl⟩
      | raised => exact ⟨_, rfl⟩
      | failed =>
        have hpol : l.policy = c.policy := by
          unfold yields at hy
          simpa [hc, hp, hl, ho, hmore] using hy
        refine ⟨.failed c.policy, ?_⟩
        simp [CpuWeightLoader.afterOutcome, hpol, After.phase]

/-- in a run whose retrying callers are last waiters: no caller joins a load twice, so it goes round
at most once for each load, and there are no more loads than callers; a call ends with a lease, the
failure of its own policy or its cancellation, unless a load it has joined raised another exception;
and until then it can go on, or the load that it waits for can end -/
theorem retry_terminates {s : CpuWeightLoader}
    (h : Steps.Reach step (fun s l => yields s l = true) .new s) :
    (∀ c ∈ s.callers, c.joined.Nodup ∧ c.joined.length ≤ s.callers.length ∧
      ∀ r, c.phase = .ended r → (r = .lease ∨ r = .failed c.policy ∨ r = .cancelled) ∨
        (r = .raised ∧ ∃ id ∈ c.joined, s.outcome id = some .raised)) ∧
    ((∀ id, s.outcome id ≠ some .raised) → ∀ c ∈ s.callers, ∀ r, c.phase = .ended r →
      r = .lease ∨ r = .failed c.policy ∨ r = .cancelled) ∧
    (∀ i s', yields s (.resume i) = true → step s (.resume i) = some s' →
      ∃ c, s'.callers[i]? = some c ∧
        ((∃ r, c.phase = .ended r) ∨ ∃ id after, c.phase = .cleaning id after)) ∧
    (∀ i s', yields s (.resume i) = false → step s (.resume i) = some s' →
      ∃ s'' c, step s' (.join i) = some s'' ∧ s''.callers[i]? = some c ∧ ¬ c.joined.Nodup) ∧
    ∀ (i : Nat) (c : Caller), s.callers[i]? = some c → (∀ r, c.phase ≠ .ended r) →
      step s (.join i) ≠ none ∨ step s (.resume i) ≠ none ∨ step s (.cleaned i) ≠ none ∨
        ∃ id, c.awaits id ∧ step s (.endLoad id .failed) ≠ none := by
  have hok := loaderOk_of_reach h
  have hends : ∀ c ∈ s.callers, ∀ r, c.phase = .ended r → s.mayEnd c r :=
    fun c hc r hr => (hok.callers c hc).result r (.inl hr)
  refine ⟨fun c hc => ⟨(hok.callers c hc).nodup, ?_, hends c hc⟩, ?_,
    fun i s' hy hs => resume_yields hok hy hs, fun i s' hy hs => rejoins hok hy hs,
    fun i c hc hp => caller_runs hok hc hp⟩
  · have hsub : c.joined ⊆ List.range s.loads.length := by
      intro j hj
      rw [List.mem_range]
      exact (hok.callers c hc).bounded j hj
    have hlen := ((hok.callers c hc).nodup.subperm hsub).length_le
    rw [List.length_range] at hlen
    exact hlen.trans hok.loads_le
  · intro hplain c hc r hr
    refine (hends c hc r hr).resolve_right ?_
    rintro ⟨_, id, _, ho⟩
    exact hplain id ho

/-- a peer asks for the local copy while a placement load is under way -/
def placementPolicy : LoadPolicy := remotePolicy ["http://peer/"]

/-- the local call outlives the failed load of the placement and makes one of its own, which finds the
weight; a later call gets the exception of its load -/
theorem retry_terminates_second :
    ∃ s, Steps.Reach step (fun s l => yields s l = true) .new s ∧
      s.callers.map (fun c => (c.policy, c.phase, c.joined)) =
        [(placementPolicy, .ended (.failed placementPolicy), [0]),
          (localPolicy, .ended .lease, [0, 1]), (localPolicy, .ended .raised, [2])] ∧
      ∀ c ∈ s.callers, c.joined.Nodup ∧ c.joined.length ≤ s.callers.length ∧
        ∀ r, c.phase = .ended r → (r = .lease ∨ r = .failed c.policy ∨ r = .cancelled) ∨
          (r = .raised ∧ ∃ id ∈ c.joined, s.outcome id = some .raised) := by
  have hrun := (Option.any_eq_true
    (fun s : CpuWeightLoader => decide (s.callers.map (fun c => (c.policy, c.phase, c.joined)) =
      [(placementPolicy, .ended (.failed placementPolicy), [0]),
        (localPolicy, .ended .lease, [0, 1]), (localPolicy, .ended .raised, [2])]))
    (Steps.run step yields .new
      [.acquire placementPolicy, .acquire localPolicy, .join 0, .join 1, .endLoad 0 .failed,
        .resume 0, .resume 1, .cleaned 1, .join 1, .endLoad 1 .loaded, .resume 1, .cleaned 1, .evict,
        .acquire localPolicy, .join 2, .endLoad 2 .raised, .resume 2, .cleaned 2])).mp
    (by decide +kernel)
  obtain ⟨s, hs, hp⟩ := hrun
  have hreach := Steps.Reach.refl.of_run hs
  exact ⟨s, hreach, of_decide_eq_true hp, (retry_terminates hreach).1⟩

/-- the second of three callers, after it has joined the failed load `n + 1` times -/
def spinning (n : Nat) : CpuWeightLoader :=
  ⟨[⟨placementPolicy, 0, some .failed, false, 2⟩], some 0, false,
    [⟨placementPolicy, .ended (.failed placementPolicy), [0]⟩,
      ⟨localPolicy, .waiting 0, List.replicate (n + 1) 0⟩, ⟨localPolicy, .waiting 0, [0]⟩]⟩

theorem spinning_step (n : Nat) :
    Steps.run step (fun _ _ => true) (spinning n) [.resume 1, .join 1] = some (spinning (n + 1)) := by
  have hne : placementPolicy ≠ localPolicy := by decide
  have hrep : List.replicate (n + 1) 0 ++ [0] = List.replicate (n + 1 + 1) 0 :=
    List.replicate_succ'.symm
  simp [Steps.run, step, spinning, CpuWeightLoader.resume, CpuWeightLoader.leave,
    CpuWeightLoader.afterOutcome, CpuWeightLoader.join, After.phase, hne, hrep]

/-- three callers, the first with another policy: the second leaves the failed load while the third
still waits, finds it registered, and goes round for ever -/
theorem retry_spins :
    ∃ s, Steps.Reach step (fun _ _ => True) .new s ∧ ∀ n, ∃ s',
      Steps.run step (fun _ _ => true) s (List.replicate n [Label.resume 1, .join 1]).flatten
        = some s' ∧
      s'.callers[1]? = some ⟨localPolicy, .waiting 0, List.replicate (n + 1) 0⟩ := by
  have hrun : Steps.run step (fun _ _ => true) .new
      [.acquire placementPolicy, .acquire localPolicy, .acquire localPolicy, .join 0, .join 1,
        .join 2, .endLoad 0 .failed, .resume 0] = some (spinning 0) := by decide +kernel
  refine ⟨spinning 0, (Steps.Reach.refl.of_run hrun).mono fun _ _ _ => True.intro, ?_⟩
  have hspin : ∀ n k, Steps.run step (fun _ _ => true) (spinning k)
      (List.replicate n [Label.resume 1, .join 1]).flatten = some (spinning (k + n)) := by
    intro n
    induction n with
    | zero => intro k; rfl
    | succ n ih =>
      intro k
      rw [List.replicate_succ, List.flatten_cons, Steps.run_append, spinning_step, Option.bind_some,
        ih, Nat.add_right_comm, Nat.add_assoc]
  intro n
  refine ⟨spinning n, ?_, rfl⟩
  rw [hspin n 0, Nat.zero_add]

end ExpertKit.Worker.SharedLoads

import ExpertKit.Routing.Batches

/-!
# Transport: the shared-memory session of a Worker

`WorkerSharedMemorySession` of `transports/shm/session.py`, `decode_execute_request` of
`transports/shm/codec.py` and `validate_received_routing` of `transports/validation.py`.  A claim
reads the routing tensors of its slot as they stand in shared memory.  The mapped region itself is
left out; `history` records which generations were claimed and released.

* `decodeExecuteRequest`, `validateReceivedRouting`   the checks on untrusted input;
* `claim`, `release`, `close`   the operations of a session;
* `claim_cases`, `release_cases`   what they do;
* `Balanced`            the slots account for the history;
* `Balanced.claim`, `Balanced.release`   the operations keep the accounts.
-/

set_option linter.unusedSectionVars false

namespace ExpertKit.Transport
open Routing

/-! ## notifications -/

/-- the fields of `WorkerEndpointConfig` that bound a notification -/
structure WorkerEndpointConfig where
  numLayers : Nat
  expertsPerLayer : Nat
  maxBatchTokens : Nat

/-- the fields of an `ExecuteSharedMemoryRequest` and of the `ExecuteSlot` decoded from it -/
structure ExecuteSlot where
  sessionId : String
  slotIndex : Nat
  generation : Nat
  layerId : Nat
  topologyVersion : Nat
  tokenCount : Nat
  timeoutMicros : Nat
deriving DecidableEq, Repr

inductive ShmErrorKind where
  | runtimeError
  | slotBusy
  | transportProtocolError
deriving DecidableEq, Repr

structure ShmError where
  kind : ShmErrorKind
  message : String
deriving DecidableEq, Repr

def hexDigit (c : Char) : Bool := ('0' ≤ c && c ≤ '9') || ('a' ≤ c && c ≤ 'f')

def validateSessionId (value : String) : Bool :=
  value.toList.length == 32 && value.toList.all hexDigit

def protocolError (message : String) : ShmError := ⟨.transportProtocolError, message⟩

def decodeExecuteRequest (spec : WorkerEndpointConfig) (request : ExecuteSlot) :
    Except ShmError ExecuteSlot :=
  if validateSessionId request.sessionId = false then
    .error (protocolError "shared-memory session_id must contain 32 lowercase hex digits")
  else if request.generation = 0 then
    .error (protocolError "shared-memory generation must be positive")
  else if spec.numLayers ≤ request.layerId then
    .error (protocolError "shared-memory layer ID exceeds the configured range")
  else if ¬ (0 < request.tokenCount ∧ request.tokenCount ≤ spec.maxBatchTokens) then
    .error (protocolError
      "shared-memory token_count must be positive and within max_batch_tokens")
  else if request.timeoutMicros = 0 then
    .error (protocolError "shared-memory timeout_micros must be positive")
  else .ok request

theorem decodeExecuteRequest_ok {spec : WorkerEndpointConfig} {request r : ExecuteSlot}
    (h : decodeExecuteRequest spec request = .ok r) : r = request ∧ 0 < request.generation := by
  unfold decodeExecuteRequest at h
  split_ifs at h with _ hgen _ _ _
  cases h
  exact ⟨rfl, Nat.pos_of_ne_zero hgen⟩

/-! ## routing -/

section
variable {W : Type} [Zero W] [DecidableEq W]

/-- the routing tensors of the rows of one batch, flattened -/
structure SlotRouting (W : Type) where
  expertIds : List Int
  routingWeights : List W
deriving DecidableEq, Repr

/-- the distinct expert numbers in order; the tensors of a batch are not empty -/
def validateReceivedRouting (routing : SlotRouting W) (expertsPerLayer : Nat) :
    Except ShmError (List Nat) :=
  if routing.expertIds.any (fun id => decide (id < -1)) then
    .error (protocolError "expert IDs below -1 are invalid")
  else if routing.expertIds.any (fun id => decide ((expertsPerLayer : Int) ≤ id)) then
    .error (protocolError "expert ID exceeds the configured expert range")
  else if (routing.expertIds.zip routing.routingWeights).any
      (fun e => decide (e.1 = -1 ∧ e.2 ≠ 0)) then
    .error (protocolError "an invalid expert position must have zero routing weight")
  else .ok ((List.range expertsPerLayer).filter fun id => decide ((id : Int) ∈ routing.expertIds))

/-! ## sessions -/

/-- the entries of `_active_generations` and `_last_generations` for one slot -/
structure SlotState where
  active : Option Nat
  last : Nat
deriving DecidableEq, Repr

inductive SlotEvent where
  | claimed (slotIndex generation : Nat)
  | released (slotIndex generation : Nat)
deriving DecidableEq, Repr

structure WorkerSharedMemorySession where
  sessionId : String
  slots : List SlotState
  closed : Bool
  history : List SlotEvent
deriving DecidableEq, Repr

/-- one validated batch; its tensors are views of the slot -/
structure ClaimedSharedMemoryBatch where
  layerId : Nat
  topologyVersion : Nat
  tokenCount : Nat
  distinctExpertIds : List Nat
  slotIndex : Nat
  generation : Nat
deriving DecidableEq, Repr

namespace WorkerSharedMemorySession

def new (sessionId : String) (slotCount : Nat) : WorkerSharedMemorySession :=
  ⟨sessionId, List.replicate slotCount ⟨none, 0⟩, false, []⟩

def activeCount (s : WorkerSharedMemorySession) : Nat :=
  s.slots.countP fun slot => slot.active.isSome

def requireOpen (s : WorkerSharedMemorySession) : Except ShmError Unit :=
  if s.closed then .error ⟨.runtimeError, "shared-memory session is closed"⟩ else .ok ()

def release (s : WorkerSharedMemorySession) (slotIndex generation : Nat) :
    Except ShmError WorkerSharedMemorySession :=
  match s.requireOpen with
  | .error error => .error error
  | .ok () =>
    match s.slots[slotIndex]? with
    | none => .error ⟨.runtimeError, "shared-memory release names an unknown slot"⟩
    | some slot =>
      if slot.active ≠ some generation then
        .error ⟨.runtimeError, "shared-memory release does not own the active generation"⟩
      else .ok { s with
        slots := s.slots.set slotIndex { slot with active := none }
        history := s.history ++ [.released slotIndex generation] }

/-- the slot belongs to the generation -/
def own (s : WorkerSharedMemorySession) (slotIndex generation : Nat) : WorkerSharedMemorySession :=
  { s with
    slots := s.slots.set slotIndex ⟨some generation, generation⟩
    history := s.history ++ [.claimed slotIndex generation] }

/-- `claim` while the routing tensors of the slot hold `routing` -/
def claim (s : WorkerSharedMemorySession) (spec : WorkerEndpointConfig) (request : ExecuteSlot)
    (routing : SlotRouting W) :
    Except ShmError ClaimedSharedMemoryBatch × WorkerSharedMemorySession :=
  match s.requireOpen with
  | .error error => (.error error, s)
  | .ok () =>
    if request.sessionId ≠ s.sessionId then
      (.error (protocolError "shared-memory request names the wrong session"), s)
    else
      match s.slots[request.slotIndex]? with
      | none => (.error (protocolError "shared-memory slot index is outside the session"), s)
      | some slot =>
        if slot.active.isSome then
          (.error ⟨.slotBusy, "shared-memory slot is still active"⟩, s)
        else if request.generation ≤ slot.last then
          (.error (protocolError "shared-memory slot generation is stale"), s)
        else
          let owned := s.own request.slotIndex request.generation
          match validateReceivedRouting routing spec.expertsPerLayer with
          | .error error =>
            match owned.release request.slotIndex request.generation with
            | .error fault => (.error fault, owned)
            | .ok released => (.error error, released)
          | .ok distinct => (.ok ⟨request.layerId, request.topologyVersion, request.tokenCount,
              distinct, request.slotIndex, request.generation⟩, owned)

def close (s : WorkerSharedMemorySession) : Except ShmError WorkerSharedMemorySession :=
  if s.closed then .ok s
  else if s.activeCount ≠ 0 then
    .error ⟨.runtimeError, "cannot close a shared-memory session with active slots"⟩
  else .ok { s with closed := true }

/-! ## what the operations do -/

theorem release_cases {s s' : WorkerSharedMemorySession} {slotIndex generation : Nat}
    (h : s.release slotIndex generation = .ok s') :
    s.closed = false ∧ ∃ slot, s.slots[slotIndex]? = some slot ∧ slot.active = some generation ∧
      s' = { s with
        slots := s.slots.set slotIndex { slot with active := none }
        history := s.history ++ [.released slotIndex generation] } := by
  unfold release requireOpen at h
  cases hc : s.closed with
  | true => simp [hc] at h
  | false =>
    simp only [hc, Bool.false_eq_true, ↓reduceIte] at h
    split at h
    · cases h
    · rename_i slot hs
      split_ifs at h with ha
      cases h
      exact ⟨rfl, slot, hs, not_not.mp ha, rfl⟩

theorem release_ok {s : WorkerSharedMemorySession} {slotIndex generation : Nat} {slot : SlotState}
    (hc : s.closed = false) (hs : s.slots[slotIndex]? = some slot)
    (ha : slot.active = some generation) :
    s.release slotIndex generation = .ok { s with
      slots := s.slots.set slotIndex { slot with active := none }
      history := s.history ++ [.released slotIndex generation] } := by
  unfold release requireOpen
  simp [hc, hs, ha]

/-- the session after a claim whose routing was rejected -/
def withdrawn (s : WorkerSharedMemorySession) (slotIndex generation : Nat) :
    WorkerSharedMemorySession :=
  { s with
    slots := s.slots.set slotIndex ⟨none, generation⟩
    history := s.history ++ [.claimed slotIndex generation, .released slotIndex generation] }

theorem own_release {s : WorkerSharedMemorySession} {slotIndex generation : Nat} {slot : SlotState}
    (hc : s.closed = false) (hs : s.slots[slotIndex]? = some slot) :
    (s.own slotIndex generation).release slotIndex generation
      = .ok (s.withdrawn slotIndex generation) := by
  have hlt : slotIndex < s.slots.length := (List.getElem?_eq_some_iff.mp hs).1
  have hget : (s.own slotIndex generation).slots[slotIndex]?
      = some ⟨some generation, generation⟩ := by
    unfold own
    rw [List.getElem?_set_self hlt]
  rw [release_ok (s := s.own slotIndex generation) hc hget rfl]
  unfold own withdrawn
  simp

/-- the claim changed nothing, its routing was rejected, or the slot belongs to its generation -/
theorem claim_cases (s : WorkerSharedMemorySession) (spec : WorkerEndpointConfig)
    (request : ExecuteSlot) (routing : SlotRouting W) :
    (∃ error, s.claim spec request routing = (.error error, s) ∧
      (error.kind = .runtimeError → s.closed = true)) ∨
    ∃ slot, s.closed = false ∧ s.slots[request.slotIndex]? = some slot ∧ slot.active = none ∧
      slot.last < request.generation ∧
      ((∃ error, error.kind = .transportProtocolError ∧ s.claim spec request routing
        = (.error error, s.withdrawn request.slotIndex request.generation)) ∨
      ∃ distinct, validateReceivedRouting routing spec.expertsPerLayer = .ok distinct ∧
        s.claim spec request routing = (.ok ⟨request.layerId, request.topologyVersion,
          request.tokenCount, distinct, request.slotIndex, request.generation⟩,
          s.own request.slotIndex request.generation)) := by
  unfold claim requireOpen
  cases hc : s.closed with
  | true => exact .inl ⟨_, rfl, fun _ => rfl⟩
  | false =>
    simp only [Bool.false_eq_true, ↓reduceIte]
    split
    · exact .inl ⟨_, rfl, fun h => by cases h⟩
    · split
      · exact .inl ⟨_, rfl, fun h => by cases h⟩
      · rename_i slot hs
        by_cases ha : slot.active.isSome = true
        · rw [if_pos ha]
          exact .inl ⟨_, rfl, fun h => by cases h⟩
        · rw [if_neg ha]
          by_cases hg : request.generation ≤ slot.last
          · rw [if_pos hg]
            exact .inl ⟨_, rfl, fun h => by cases h⟩
          · rw [if_neg hg]
            refine .inr ⟨slot, trivial, hs, by simpa using ha, by omega, ?_⟩
            cases hv : validateReceivedRouting routing spec.expertsPerLayer with
            | error error =>
              refine .inl ⟨error, ?_, ?_⟩
              · unfold validateReceivedRouting at hv
                split_ifs at hv <;> cases hv <;> rfl
              · simp only
                rw [own_release hc hs]
            | ok distinct => exact .inr ⟨distinct, rfl, rfl⟩

/-! ## accounts -/

def activeAt (s : WorkerSharedMemorySession) (slotIndex : Nat) : Option Nat :=
  s.slots[slotIndex]?.bind SlotState.active

def lastAt (s : WorkerSharedMemorySession) (slotIndex : Nat) : Nat :=
  (s.slots[slotIndex]?.map SlotState.last).getD 0

end WorkerSharedMemorySession

def SlotEvent.claimedAt (slotIndex : Nat) : SlotEvent → Option Nat
  | .claimed index generation => if index = slotIndex then some generation else none
  | .released _ _ => none

def SlotEvent.releasedAt (slotIndex : Nat) : SlotEvent → Option Nat
  | .claimed _ _ => none
  | .released index generation => if index = slotIndex then some generation else none

/-- the generations of a slot that were claimed, and released, in order -/
def claims (history : List SlotEvent) (slotIndex : Nat) : List Nat :=
  history.filterMap (SlotEvent.claimedAt slotIndex)

def releases (history : List SlotEvent) (slotIndex : Nat) : List Nat :=
  history.filterMap (SlotEvent.releasedAt slotIndex)

/-- every slot accounts for the claims and releases of its generations -/
structure Balanced (s : WorkerSharedMemorySession) : Prop where
  increasing : ∀ i, (claims s.history i).Pairwise (· < ·)
  last : ∀ i, ∀ g ∈ claims s.history i, g ≤ s.lastAt i
  active : ∀ i g, s.activeAt i = some g → g = s.lastAt i
  once : ∀ i g, (claims s.history i).count g
    = (releases s.history i).count g + if s.activeAt i = some g then 1 else 0

namespace WorkerSharedMemorySession

theorem activeAt_set {s : WorkerSharedMemorySession} {i : Nat} {slot : SlotState}
    (hs : s.slots[i]? = some slot) (slot' : SlotState) (history : List SlotEvent) (j : Nat) :
    ({ s with slots := s.slots.set i slot', history } : WorkerSharedMemorySession).activeAt j
      = if i = j then slot'.active else s.activeAt j := by
  have hlt : i < s.slots.length := (List.getElem?_eq_some_iff.mp hs).1
  unfold activeAt
  by_cases hij : i = j
  · subst hij
    simp [hlt]
  · simp [hij]

theorem lastAt_set {s : WorkerSharedMemorySession} {i : Nat} {slot : SlotState}
    (hs : s.slots[i]? = some slot) (slot' : SlotState) (history : List SlotEvent) (j : Nat) :
    ({ s with slots := s.slots.set i slot', history } : WorkerSharedMemorySession).lastAt j
      = if i = j then slot'.last else s.lastAt j := by
  have hlt : i < s.slots.length := (List.getElem?_eq_some_iff.mp hs).1
  unfold lastAt
  by_cases hij : i = j
  · subst hij
    simp [hlt]
  · simp [hij]

theorem activeAt_of {s : WorkerSharedMemorySession} {i : Nat} {slot : SlotState}
    (hs : s.slots[i]? = some slot) : s.activeAt i = slot.active := by
  unfold activeAt
  rw [hs]
  rfl

theorem lastAt_of {s : WorkerSharedMemorySession} {i : Nat} {slot : SlotState}
    (hs : s.slots[i]? = some slot) : s.lastAt i = slot.last := by
  unfold lastAt
  rw [hs]
  rfl

end WorkerSharedMemorySession

theorem claims_append (history history' : List SlotEvent) (i : Nat) :
    claims (history ++ history') i = claims history i ++ claims history' i :=
  List.filterMap_append

theorem releases_append (history history' : List SlotEvent) (i : Nat) :
    releases (history ++ history') i = releases history i ++ releases history' i :=
  List.filterMap_append

theorem Balanced.new (sessionId : String) (slotCount : Nat) :
    Balanced (.new sessionId slotCount) := by
  have hactive : ∀ i, (WorkerSharedMemorySession.new sessionId slotCount).activeAt i = none := by
    intro i
    unfold WorkerSharedMemorySession.activeAt WorkerSharedMemorySession.new
    rw [List.getElem?_replicate]
    split_ifs <;> rfl
  refine ⟨fun i => List.Pairwise.nil, fun i g hg => (by cases hg),
    fun i g hg => ?_, fun i g => ?_⟩
  · rw [hactive] at hg
    cases hg
  · rw [hactive]
    rfl

theorem claims_claimed (history : List SlotEvent) (i g j : Nat) :
    claims (history ++ [.claimed i g]) j = claims history j ++ if i = j then [g] else [] := by
  rw [claims_append]
  by_cases hij : i = j <;> simp [claims, SlotEvent.claimedAt, hij]

theorem claims_released (history : List SlotEvent) (i g j : Nat) :
    claims (history ++ [.released i g]) j = claims history j := by
  simp [claims, SlotEvent.claimedAt]

theorem releases_claimed (history : List SlotEvent) (i g j : Nat) :
    releases (history ++ [.claimed i g]) j = releases history j := by
  simp [releases, SlotEvent.releasedAt]

theorem releases_released (history : List SlotEvent) (i g j : Nat) :
    releases (history ++ [.released i g]) j
      = releases history j ++ if i = j then [g] else [] := by
  rw [releases_append]
  by_cases hij : i = j <;> simp [releases, SlotEvent.releasedAt, hij]

/-- the new generation is above all that were claimed -/
theorem Balanced.own {s : WorkerSharedMemorySession} (h : Balanced s) {i g : Nat}
    {slot : SlotState} (hs : s.slots[i]? = some slot) (ha : slot.active = none)
    (hg : slot.last < g) : Balanced (s.own i g) := by
  have hactive : ∀ j, (s.own i g).activeAt j = if i = j then some g else s.activeAt j :=
    WorkerSharedMemorySession.activeAt_set hs ⟨some g, g⟩ _
  have hlast : ∀ j, (s.own i g).lastAt j = if i = j then g else s.lastAt j :=
    WorkerSharedMemorySession.lastAt_set hs ⟨some g, g⟩ _
  have hclaims : ∀ j, claims (s.own i g).history j
      = claims s.history j ++ if i = j then [g] else [] := claims_claimed s.history i g
  have hold : ∀ g' ∈ claims s.history i, g' < g := by
    intro g' hg'
    have hle := h.last i g' hg'
    rw [s.lastAt_of hs] at hle
    omega
  refine ⟨fun j => ?_, fun j g' hg' => ?_, fun j g' hg' => ?_, fun j g' => ?_⟩
  · rw [hclaims]
    by_cases hij : i = j
    · subst hij
      rw [if_pos rfl]
      refine List.pairwise_append.mpr ⟨h.increasing i, List.pairwise_singleton _ _, ?_⟩
      intro a ha b hb
      rw [List.mem_singleton.mp hb]
      exact hold a ha
    · rw [if_neg hij, List.append_nil]
      exact h.increasing j
  · rw [hclaims] at hg'
    rw [hlast]
    by_cases hij : i = j
    · subst hij
      rw [if_pos rfl] at hg' ⊢
      rcases List.mem_append.mp hg' with hg' | hg'
      · exact Nat.le_of_lt (hold g' hg')
      · exact (List.mem_singleton.mp hg').le
    · rw [if_neg hij, List.append_nil] at hg'
      rw [if_neg hij]
      exact h.last j g' hg'
  · rw [hactive] at hg'
    rw [hlast]
    by_cases hij : i = j
    · rw [if_pos hij] at hg' ⊢
      cases hg'
      rfl
    · rw [if_neg hij] at hg' ⊢
      exact h.active j g' hg'
  · have honce := h.once j g'
    have hreleases : releases (s.own i g).history j = releases s.history j :=
      releases_claimed s.history i g j
    rw [hclaims, hreleases, hactive, List.count_append, honce]
    by_cases hij : i = j
    · subst hij
      rw [s.activeAt_of hs, ha]
      by_cases hgg : g = g' <;> simp [hgg]
    · simp [hij]

theorem Balanced.release {s s' : WorkerSharedMemorySession} (h : Balanced s) {i g : Nat}
    (hr : s.release i g = .ok s') : Balanced s' := by
  obtain ⟨_, slot, hs, ha, rfl⟩ := WorkerSharedMemorySession.release_cases hr
  have hactive := WorkerSharedMemorySession.activeAt_set hs { slot with active := none }
    (s.history ++ [.released i g])
  have hlast := WorkerSharedMemorySession.lastAt_set hs { slot with active := none }
    (s.history ++ [.released i g])
  refine ⟨fun j => ?_, fun j g' hg' => ?_, fun j g' hg' => ?_, fun j g' => ?_⟩
  · simp only [claims_released]
    exact h.increasing j
  · simp only [claims_released] at hg'
    rw [hlast]
    by_cases hij : i = j
    · subst hij
      rw [if_pos rfl, ← s.lastAt_of hs]
      exact h.last i g' hg'
    · rw [if_neg hij]
      exact h.last j g' hg'
  · rw [hactive] at hg'
    rw [hlast]
    by_cases hij : i = j
    · rw [if_pos hij] at hg'
      cases hg'
    · rw [if_neg hij] at hg' ⊢
      exact h.active j g' hg'
  · have honce := h.once j g'
    simp only [claims_released, releases_released]
    rw [hactive, List.count_append, honce]
    by_cases hij : i = j
    · subst hij
      rw [s.activeAt_of hs, ha]
      by_cases hgg : g = g' <;> simp [hgg]
    · simp [hij]

theorem Balanced.claim {s : WorkerSharedMemorySession} (h : Balanced s)
    (spec : WorkerEndpointConfig) (request : ExecuteSlot) (routing : SlotRouting W) :
    Balanced (s.claim spec request routing).2 := by
  rcases s.claim_cases spec request routing with ⟨_, heq, _⟩ | ⟨slot, hc, hs, ha, hg, hend⟩
  · rw [heq]
    exact h
  · have howned := h.own hs ha hg
    rcases hend with ⟨_, _, heq⟩ | ⟨_, _, heq⟩
    · rw [heq]
      exact howned.release (WorkerSharedMemorySession.own_release hc hs)
    · rw [heq]
      exact howned

theorem Balanced.close {s s' : WorkerSharedMemorySession} (h : Balanced s)
    (hc : s.close = .ok s') : Balanced s' := by
  unfold WorkerSharedMemorySession.close at hc
  split_ifs at hc
  · cases hc
    exact h
  · cases hc
    exact ⟨h.increasing, h.last, h.active, h.once⟩

end

end ExpertKit.Transport

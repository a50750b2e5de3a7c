import ExpertKit.Worker.Manager

/-!
# Worker: expert state reports

`ExpertStateReporter` of `ek-worker/src/expertkit_worker/control/state_reporter.py`.  One pending
change is kept for each expert; reports carry changes of one placement generation and take the next
number of one sequence for the whole process.  The delay before a report is a matter of time and is
left out: a report may be taken whenever a change is pending.

* `encodeState`       a recorded state on the wire;
* `record`, `fullStateParts`, `takeUpdates`, `acknowledge`   the code;
* `emit_spec`, `takeUpdates_spec`, `fullStateParts_spec`   what the operations do.
-/

set_option linter.unusedSectionVars false

namespace ExpertKit.Worker
open Std

def maxWeightDiagnosticBytes : Nat := 1024

/-- the longest prefix of the characters that fits, as decoding the cut bytes leaves it -/
def boundedChars : Nat → List Char → List Char
  | _, [] => []
  | room, c :: rest => if c.utf8Size ≤ room then c :: boundedChars (room - c.utf8Size) rest else []

def boundedDiagnostic (value : String) : String :=
  if value.utf8ByteSize ≤ maxWeightDiagnosticBytes then value
  else String.ofList (boundedChars maxWeightDiagnosticBytes value.toList)

def LocalState.kind : LocalState → ExpertStateKind
  | .ready => .ready
  | .failed _ => .failed
  | .removed => .removed

def LocalState.failure : LocalState → Option LoadFailure
  | .failed failure => some failure
  | _ => none

def encodeState (key : ExpertKey) (state : LocalState) : ExpertState where
  layerId := key.layerId
  expertId := key.expertId
  state := state.kind.toInt
  failure := state.failure.map fun failure =>
    ⟨failure.stage.toInt, failure.code.toInt, failure.retryable,
      boundedDiagnostic failure.diagnostic⟩

structure PendingState where
  changeIndex : Nat
  change : ExpertStateChange
deriving DecidableEq

structure ExpertStateReporter where
  numLayers : Nat
  expertsPerLayer : Nat
  maxUpdates : Nat
  pending : ExtTreeMap ExpertKey PendingState
  changeIndex : Nat
  lastReportSequence : Nat
  lastAcknowledgedSequence : Nat
  maxUpdates_pos : 0 < maxUpdates
  maxUpdates_le : maxUpdates ≤ maxExpertsPerControlPart

def ExpertStateReporter.new (numLayers expertsPerLayer maxUpdates : Nat) (h : 0 < maxUpdates)
    (h' : maxUpdates ≤ maxExpertsPerControlPart) : ExpertStateReporter :=
  ⟨numLayers, expertsPerLayer, maxUpdates, ∅, 0, 0, 0, h, h'⟩

/-- eight updates in a report, in the runs of small Workers -/
theorem eight_pos : 0 < 8 := by decide

theorem eight_le : 8 ≤ maxExpertsPerControlPart := by decide

namespace ExpertStateReporter

def inShape (r : ExpertStateReporter) (key : ExpertKey) : Bool :=
  decide (key.layerId < r.numLayers) && decide (key.expertId < r.expertsPerLayer)

/-- `record`: a later change of the same expert replaces the pending one -/
def record (r : ExpertStateReporter) (change : ExpertStateChange) :
    Except ValueError ExpertStateReporter :=
  match validatePositiveUint64 "placement_generation" change.placementGeneration with
  | .error e => .error e
  | .ok () =>
    if !r.inShape change.key then .error ⟨"expert state exceeds the configured model shape"⟩
    else .ok { r with
      changeIndex := r.changeIndex + 1
      pending := r.pending.insert change.key ⟨r.changeIndex + 1, change⟩ }

/-- `WeightManager._emit`: a change that the reporter refuses is logged and dropped -/
def emit (r : ExpertStateReporter) (changes : List ExpertStateChange) : ExpertStateReporter :=
  changes.foldl (fun r change => match r.record change with
    | .ok r => r
    | .error _ => r) r

/-- the parts of one complete snapshot; pending changes up to the boundary are part of it -/
def fullStateParts (r : ExpertStateReporter) (placementGeneration : Nat)
    (states : List (ExpertKey × LocalState)) (discardPendingThrough : Nat) :
    Except ValueError (List FullExpertStatePart × ExpertStateReporter) :=
  match validatePositiveUint64 "placement_generation" placementGeneration with
  | .error e => .error e
  | .ok () =>
    if r.changeIndex < discardPendingThrough then
      .error ⟨"snapshot pending boundary is invalid"⟩
    else if !states.all fun state => r.inShape state.1 then
      .error ⟨"expert state exceeds the configured model shape"⟩
    else if ¬ (states.map Prod.fst).Nodup then .error ⟨"full state contains a duplicate expert"⟩
    else
      let sequence := r.lastReportSequence + 1
      .ok (Parts.multipart maxExpertsPerControlPart states fun partIndex partCount entries =>
          ⟨placementGeneration, sequence, partIndex, partCount,
            entries.map fun state => encodeState state.1 state.2⟩,
        { r with
          pending := r.pending.filter fun _ pending => discardPendingThrough < pending.changeIndex
          lastReportSequence := sequence })

/-- `_select_pending`: the oldest changes, as far as they share the generation of the first -/
def selectPending (r : ExpertStateReporter) : List PendingState :=
  let ordered := (Maps.values r.pending).insertionSort fun a b => a.changeIndex ≤ b.changeIndex
  match ordered with
  | [] => []
  | first :: _ => (ordered.filter fun pending =>
      pending.change.placementGeneration = first.change.placementGeneration).take r.maxUpdates

/-- `take_updates`, once size, delay or a flush allow it -/
def takeUpdates (r : ExpertStateReporter) : Option (ExpertStateUpdates × ExpertStateReporter) :=
  match r.selectPending with
  | [] => none
  | first :: rest =>
    let selected := first :: rest
    let sequence := r.lastReportSequence + 1
    some (⟨first.change.placementGeneration, sequence,
        selected.map fun pending => encodeState pending.change.key pending.change.state⟩,
      { r with
        pending := selected.foldl (fun m pending => m.erase pending.change.key) r.pending
        lastReportSequence := sequence })

def acknowledge (r : ExpertStateReporter) (reportSequence : Nat) :
    Except ValueError (Bool × ExpertStateReporter) :=
  if reportSequence = 0 ∨ r.lastReportSequence < reportSequence then
    .error ⟨"acknowledgement references an unsent report sequence"⟩
  else if reportSequence < r.lastAcknowledgedSequence then
    .error ⟨"acknowledgement sequence moved backwards"⟩
  else if reportSequence = r.lastAcknowledgedSequence then .ok (false, r)
  else .ok (true, { r with lastAcknowledgedSequence := reportSequence })

end ExpertStateReporter

/-! ## what the operations do -/

theorem encodeState_key (key : ExpertKey) (state : LocalState) : (encodeState key state).key = key :=
  rfl

theorem encodeState_isReady (key : ExpertKey) (state : LocalState) :
    (encodeState key state).isReady = true ↔ state = .ready := by
  cases state <;> simp [ExpertState.isReady, encodeState, LocalState.kind, ExpertStateKind.toInt]

namespace ExpertStateReporter
variable {r r' : ExpertStateReporter}

/-- a change that the reporter accepts -/
def Accepts (r : ExpertStateReporter) (change : ExpertStateChange) : Prop :=
  0 < change.placementGeneration ∧ change.placementGeneration ≤ uint64Max ∧
    r.inShape change.key = true

/-- everything but the pending changes is kept, and the changes are numbered on -/
structure Numbers (r r' : ExpertStateReporter) (changes : List ExpertStateChange) : Prop where
  layers : r'.numLayers = r.numLayers
  experts : r'.expertsPerLayer = r.expertsPerLayer
  limit : r'.maxUpdates = r.maxUpdates
  reported : r'.lastReportSequence = r.lastReportSequence
  changeIndex : r.changeIndex ≤ r'.changeIndex
  /-- the last change of an expert is pending, and what was pending for others stays -/
  pending : ∀ k : ExpertKey,
    (∃ p, r'.pending[k]? = some p ∧ p.change ∈ changes ∧ p.change.key = k ∧
      r.changeIndex < p.changeIndex ∧ p.changeIndex ≤ r'.changeIndex) ∨
    (∀ change ∈ changes, change.key ≠ k) ∧ r'.pending[k]? = r.pending[k]?

theorem Numbers.same (hl : r'.numLayers = r.numLayers)
    (he : r'.expertsPerLayer = r.expertsPerLayer) (hu : r'.maxUpdates = r.maxUpdates)
    (hs : r'.lastReportSequence = r.lastReportSequence) (hi : r'.changeIndex = r.changeIndex)
    (hp : r'.pending = r.pending) : Numbers r r' [] :=
  ⟨hl, he, hu, hs, hi.ge, fun k => .inr ⟨by simp, by rw [hp]⟩⟩

theorem record_spec {change : ExpertStateChange} (h : r.Accepts change) :
    r.record change = .ok { r with
      changeIndex := r.changeIndex + 1
      pending := r.pending.insert change.key ⟨r.changeIndex + 1, change⟩ } := by
  obtain ⟨hpos, hmax, hshape⟩ := h
  unfold record validatePositiveUint64
  rw [if_pos ⟨hpos, hmax⟩]
  simp only [hshape, Bool.not_true, Bool.false_eq_true, if_false]

theorem emit_spec (changes : List ExpertStateChange) (h : ∀ change ∈ changes, r.Accepts change) :
    Numbers r (r.emit changes) changes := by
  induction changes generalizing r with
  | nil => exact .same rfl rfl rfl rfl rfl rfl
  | cons change rest ih =>
    have hhead := record_spec (h change List.mem_cons_self)
    have hrest : r.emit (change :: rest) = emit { r with
        changeIndex := r.changeIndex + 1
        pending := r.pending.insert change.key ⟨r.changeIndex + 1, change⟩ } rest := by
      unfold emit
      rw [List.foldl_cons, hhead]
    rw [hrest]
    have hnext := ih (r := { r with
      changeIndex := r.changeIndex + 1
      pending := r.pending.insert change.key ⟨r.changeIndex + 1, change⟩ })
      fun c hc => h c (List.mem_cons_of_mem _ hc)
    have hle := hnext.changeIndex
    dsimp only at hle
    refine ⟨hnext.layers, hnext.experts, hnext.limit, hnext.reported, by omega, fun k => ?_⟩
    rcases hnext.pending k with ⟨p, hp, hmem, hk, hlow, hhigh⟩ | ⟨hnone, hsame⟩
    · dsimp only at hlow
      exact .inl ⟨p, hp, List.mem_cons_of_mem _ hmem, hk, by omega, hhigh⟩
    · have hsame : _ = (r.pending.insert change.key ⟨r.changeIndex + 1, change⟩)[k]? := hsame
      rw [Maps.getElem?_insert_eq] at hsame
      split_ifs at hsame with hk
      · exact .inl ⟨_, hsame, List.mem_cons_self, hk, Nat.lt_succ_self _, hle⟩
      · refine .inr ⟨fun c hc => ?_, hsame⟩
        rcases List.mem_cons.mp hc with rfl | hc
        · exact hk
        · exact hnone c hc

/-- one update: changes that were pending, of one generation, are reported and no longer pending -/
structure Takes (r r' : ExpertStateReporter) (updates : ExpertStateUpdates) : Prop where
  layers : r'.numLayers = r.numLayers
  experts : r'.expertsPerLayer = r.expertsPerLayer
  limit : r'.maxUpdates = r.maxUpdates
  changeIndex : r'.changeIndex = r.changeIndex
  sequence : updates.reportSequence = r.lastReportSequence + 1
  reported : r'.lastReportSequence = updates.reportSequence
  count : 0 < updates.experts.length ∧ updates.experts.length ≤ r.maxUpdates
  taken : ∀ state ∈ updates.experts, ∃ (k : ExpertKey) (p : PendingState), r.pending[k]? = some p ∧
    p.change.placementGeneration = updates.placementGeneration ∧
    state = encodeState p.change.key p.change.state
  pending : ∀ k : ExpertKey,
    (∃ state ∈ updates.experts, state.key = k) ∧ r'.pending[k]? = none ∨
    (∀ state ∈ updates.experts, state.key ≠ k) ∧ r'.pending[k]? = r.pending[k]?

theorem mem_selectPending {p : PendingState} (h : p ∈ r.selectPending) :
    (∃ k : ExpertKey, r.pending[k]? = some p) ∧
      ∀ q ∈ r.selectPending, p.change.placementGeneration = q.change.placementGeneration := by
  unfold selectPending at h ⊢
  simp only at h ⊢
  split at h
  · cases h
  · rename_i first rest hordered
    have htaken : ∀ q ∈ ((Maps.values r.pending).insertionSort
        fun a b => a.changeIndex ≤ b.changeIndex).filter (fun pending =>
          pending.change.placementGeneration = first.change.placementGeneration) |>.take r.maxUpdates,
        q ∈ Maps.values r.pending ∧
          q.change.placementGeneration = first.change.placementGeneration := by
      intro q hq
      obtain ⟨hmem, hgen⟩ := List.mem_filter.mp (List.mem_of_mem_take hq)
      exact ⟨(List.mem_insertionSort _).mp hmem, by simpa using hgen⟩
    obtain ⟨hmem, hgen⟩ := htaken p h
    exact ⟨Maps.mem_values.mp hmem, fun q hq => hgen.trans (htaken q hq).2.symm⟩

theorem length_selectPending : r.selectPending.length ≤ r.maxUpdates := by
  unfold selectPending
  simp only
  split
  · exact Nat.zero_le _
  · exact List.length_take_le _ _

theorem getElem?_foldl_erase (selected : List PendingState)
    (m : ExtTreeMap ExpertKey PendingState) (k : ExpertKey) :
    (selected.foldl (fun m pending => m.erase pending.change.key) m)[k]?
      = if k ∈ selected.map fun pending => pending.change.key then none else m[k]? := by
  induction selected generalizing m with
  | nil => simp
  | cons p rest ih =>
    rw [List.foldl_cons, ih, Maps.getElem?_erase_eq, List.map_cons]
    by_cases h1 : k ∈ rest.map fun pending => pending.change.key
    · rw [if_pos h1, if_pos (List.mem_cons_of_mem _ h1)]
    · rw [if_neg h1]
      by_cases h2 : p.change.key = k
      · rw [if_pos h2, if_pos (h2 ▸ List.mem_cons_self)]
      · rw [if_neg h2, if_neg]
        rw [List.mem_cons]
        rintro (rfl | h)
        · exact h2 rfl
        · exact h1 h

theorem takeUpdates_spec {updates : ExpertStateUpdates}
    (h : r.takeUpdates = some (updates, r')) : Takes r r' updates := by
  unfold takeUpdates at h
  split at h
  · cases h
  · rename_i first rest hselected
    simp only [Option.some.injEq, Prod.mk.injEq] at h
    obtain ⟨rfl, rfl⟩ := h
    have hpending : ∀ p ∈ first :: rest, (∃ k : ExpertKey, r.pending[k]? = some p) ∧
        p.change.placementGeneration = first.change.placementGeneration := by
      intro p hp
      rw [← hselected] at hp
      obtain ⟨hk, hgen⟩ := mem_selectPending hp
      exact ⟨hk, hgen first (hselected ▸ List.mem_cons_self)⟩
    refine ⟨rfl, rfl, rfl, rfl, rfl, rfl, ⟨by simp, ?_⟩, ?_, fun k => ?_⟩
    · have hlen := r.length_selectPending
      rw [hselected] at hlen
      simpa using hlen
    · intro state hstate
      obtain ⟨p, hp, rfl⟩ := List.mem_map.mp hstate
      obtain ⟨⟨k, hk⟩, hgen⟩ := hpending p hp
      exact ⟨k, p, hk, hgen, rfl⟩
    · have herase := getElem?_foldl_erase (first :: rest) r.pending k
      by_cases hk : k ∈ (first :: rest).map fun pending => pending.change.key
      · rw [if_pos hk] at herase
        obtain ⟨p, hp, rfl⟩ := List.mem_map.mp hk
        exact .inl ⟨⟨_, List.mem_map_of_mem hp, rfl⟩, herase⟩
      · rw [if_neg hk] at herase
        refine .inr ⟨fun state hstate => ?_, herase⟩
        obtain ⟨p, hp, rfl⟩ := List.mem_map.mp hstate
        rintro rfl
        exact hk (List.mem_map_of_mem hp)

/-- one snapshot: its parts are one report, and only later changes stay pending -/
structure Snapshots (r r' : ExpertStateReporter) (states : List (ExpertKey × LocalState))
    (boundary : Nat) (parts : List FullExpertStatePart) : Prop where
  layers : r'.numLayers = r.numLayers
  experts : r'.expertsPerLayer = r.expertsPerLayer
  limit : r'.maxUpdates = r.maxUpdates
  changeIndex : r'.changeIndex = r.changeIndex
  nodup : (states.map Prod.fst).Nodup
  sequence : ∀ part ∈ parts, part.reportSequence = r'.lastReportSequence
  reported : r'.lastReportSequence = r.lastReportSequence + 1
  states : parts.flatMap FullExpertStatePart.experts
    = states.map fun state => encodeState state.1 state.2
  pending : ∀ (k : ExpertKey) (p : PendingState),
    r'.pending[k]? = some p ↔ r.pending[k]? = some p ∧ boundary < p.changeIndex

theorem fullStateParts_spec {generation boundary : Nat} {states : List (ExpertKey × LocalState)}
    {parts : List FullExpertStatePart}
    (h : r.fullStateParts generation states boundary = .ok (parts, r')) :
    Snapshots r r' states boundary parts := by
  unfold fullStateParts at h
  split at h
  · cases h
  · split_ifs at h with h1 h2 h3
    simp only [Except.ok.injEq, Prod.mk.injEq] at h
    obtain ⟨rfl, rfl⟩ := h
    refine ⟨rfl, rfl, rfl, rfl, h3, ?_, rfl, ?_, fun k p => ?_⟩
    · intro part hpart
      unfold Parts.multipart at hpart
      obtain ⟨i, -, rfl⟩ := List.mem_map.mp hpart
      rfl
    · unfold Parts.multipart
      rw [List.flatMap_map]
      show (List.range (Parts.partCount maxExpertsPerControlPart states.length)).flatMap
        (fun i => (Parts.slice maxExpertsPerControlPart states i).map
          fun state => encodeState state.1 state.2) = _
      rw [← List.map_flatMap, Parts.flatMap_slice _ _ (by decide)]
    · show (r.pending.filter _)[k]? = some p ↔ _
      rw [ExtTreeMap.getElem?_filter', Option.filter_eq_some_iff, decide_eq_true_eq]

end ExpertStateReporter
end ExpertKit.Worker

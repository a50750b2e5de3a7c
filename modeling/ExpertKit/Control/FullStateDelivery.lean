import ExpertKit.Controller.FullState
import ExpertKit.Worker.Reporter

/-!
# Weight control: full state reports from the Worker to the Controller

`full_state_parts` of the Worker's reporter over the snapshot of its Weight Manager, against the
Controller's `FullStateAssembler`.  The Manager keeps an entry for every expert that was removed in
the past; the assembler takes as many parts as `max_experts` experts need.

* `fullStateParts_messages`     the reporter sends the snapshot in the parts of one report;
* `full_state_accepted_iff`     exactly when the Controller completes the snapshot;
* `removed_experts_rejected`    a history of two short target lists whose snapshot is refused.
-/

set_option linter.unusedSectionVars false

namespace ExpertKit.Control
open Std Controller Worker

/-- a recorded state on the wire -/
def encodeEntry (entry : ExpertKey × LocalState) : ExpertState := encodeState entry.1 entry.2

theorem multipart_map {α β : Type} (k : Nat) (l : List α) (f : α → β)
    {γ : Type} (mk : Nat → Nat → List β → γ) :
    Parts.multipart k l (fun i n entries => mk i n (entries.map f))
      = Parts.multipart k (l.map f) mk := by
  unfold Parts.multipart
  simp only [List.length_map, Parts.slice_eq, List.map_take, List.map_drop]

/-- the snapshot is sent in the parts of one report with the next sequence number -/
theorem fullStateParts_messages {r : ExpertStateReporter} {generation boundary : Nat}
    {states : List (ExpertKey × LocalState)}
    (hgen : 0 < generation ∧ generation ≤ uint64Max) (hboundary : boundary ≤ r.changeIndex)
    (hshape : ∀ entry ∈ states, r.inShape entry.1 = true) (hnodup : (states.map Prod.fst).Nodup) :
    ∃ r', r.fullStateParts generation states boundary
      = .ok (FullStateAssembler.messages generation (r.lastReportSequence + 1)
          (states.map encodeEntry), r') := by
  unfold ExpertStateReporter.fullStateParts
  rw [(validatePositiveUint64_iff _ _).mpr hgen]
  simp only
  rw [if_neg (by omega), if_neg (by simpa using hshape), if_neg (not_not.mpr hnodup)]
  have hparts := multipart_map maxExpertsPerControlPart states encodeEntry
    fun partIndex partCount entries =>
      (⟨generation, r.lastReportSequence + 1, partIndex, partCount, entries⟩ : FullExpertStatePart)
  exact ⟨_, congrArg (fun parts => Except.ok (parts, _)) hparts⟩

theorem map_key_encodeEntry (states : List (ExpertKey × LocalState)) :
    (states.map encodeEntry).map ExpertState.key = states.map Prod.fst := by
  rw [List.map_map]
  rfl

/-- over every history of the Manager: the full state report is produced, and a new assembler of the
Controller completes it to the snapshot exactly when the recorded experts fit its parts -/
theorem full_state_accepted_iff (config : ManagerConfig) (ops : List ManagerOp)
    {m : WeightManager} (hm : m = runManager (.new config) ops) {r : ExpertStateReporter}
    (hlayers : r.numLayers = config.numLayers) (hper : r.expertsPerLayer = config.expertsPerLayer)
    {boundary : Nat} (hboundary : boundary ≤ r.changeIndex)
    (hgen : 0 < m.placementGeneration ∧ m.placementGeneration ≤ uint64Max) :
    ∃ parts r', r.fullStateParts m.snapshot.1 m.snapshot.2 boundary = .ok (parts, r') ∧
      ((FullStateAssembler.new config.maxExperts).addAll parts
          = (.ok [⟨m.placementGeneration, r.lastReportSequence + 1, true,
              m.states.toList.map encodeEntry⟩], FullStateAssembler.new config.maxExperts) ↔
        m.states.size ≤ (FullStateAssembler.new config.maxExperts).maxParts
          * maxControlEntriesPerPart) := by
  obtain ⟨hok, hconfig⟩ := runManager_ok config ops
  rw [← hm] at hok hconfig
  have hshape : ∀ entry ∈ m.states.toList, r.inShape entry.1 = true := by
    rintro ⟨k, state⟩ he
    have hk := hok.states_shape k
      (mem_iff_getElem?.mpr ⟨state, ExtTreeMap.mem_toList_iff_getElem?_eq_some.mp he⟩)
    rw [hconfig] at hk
    unfold ManagerConfig.inShape at hk
    unfold ExpertStateReporter.inShape
    rw [hlayers, hper]
    exact hk
  have hnodup : (m.states.toList.map Prod.fst).Nodup := by
    rw [ExtTreeMap.map_fst_toList_eq_keys]
    exact ExtTreeMap.nodup_keys
  obtain ⟨r', hparts⟩ := fullStateParts_messages hgen hboundary hshape hnodup
  refine ⟨_, r', hparts, ?_⟩
  rw [FullStateAssembler.addAll_messages_iff rfl (Nat.succ_pos _)
    (by rw [map_key_encodeEntry]; exact hnodup)]
  unfold FullStateAssembler.count
  rw [List.length_map, ExtTreeMap.length_toList]
  exact Parts.partCount_le_iff _ _ _ (by decide) (by simp [FullStateAssembler.new])

/-! ## two histories of a Worker with room for 64 experts -/

def config64 : ManagerConfig := ⟨2, 64, "cuda:0", 64, 1, by decide⟩

def reporter64 : ExpertStateReporter := .new 2 64 8 eight_pos eight_le

def target (layerId expertId : Nat) : TargetExpert := ⟨layerId, expertId, "cuda:0", []⟩

/-- one expert is assigned and becomes ready -/
def oneExpert : List ManagerOp := [.applyTargets 1 [target 1 0], .finishReady ⟨1, 0⟩]

theorem full_state_accepted_oneExpert :
    ∃ parts r', reporter64.fullStateParts 1 [(⟨1, 0⟩, .ready)] 0 = .ok (parts, r') ∧
      (FullStateAssembler.new 64).addAll parts
        = (.ok [⟨1, 1, true, [encodeState ⟨1, 0⟩ .ready]⟩], FullStateAssembler.new 64) := by
  have hsnap : (runManager (.new config64) oneExpert).snapshot = (1, [(⟨1, 0⟩, .ready)]) := by
    decide +kernel
  obtain ⟨parts, r', hparts, hiff⟩ := full_state_accepted_iff config64 oneExpert rfl
    (r := reporter64) rfl rfl (Nat.zero_le _) ⟨by decide +kernel, by decide +kernel⟩
  rw [hsnap] at hparts
  refine ⟨parts, r', hparts, ?_⟩
  have hacc := hiff.mpr (by decide +kernel)
  have hgen : (runManager (.new config64) oneExpert).placementGeneration = 1 :=
    congrArg Prod.fst hsnap
  have hstates : (runManager (.new config64) oneExpert).states.toList = [(⟨1, 0⟩, .ready)] :=
    congrArg Prod.snd hsnap
  rw [hgen, hstates] at hacc
  exact hacc

/-- the 64 experts of layer 0 are assigned, then one expert of layer 1 replaces them -/
def replacedExperts : List ManagerOp :=
  [.applyTargets 1 ((List.range 64).map (target 0)), .applyTargets 2 [target 1 0],
    .finishReady ⟨1, 0⟩]

/-- what the Controller answers to the full state of the replaced experts -/
def replacedAnswer : Option (Except FullStateError (List CompleteStateReport)) :=
  let m := runManager (.new config64) replacedExperts
  match reporter64.fullStateParts m.snapshot.1 m.snapshot.2 0 with
  | .error _ => none
  | .ok (parts, _) => some ((FullStateAssembler.new config64.maxExperts).addAll parts).1

theorem removed_experts_rejected :
    (runManager (.new config64) replacedExperts).targets.size = 1 ∧
    (runManager (.new config64) replacedExperts).states.size = 65 ∧
    replacedAnswer = some (.error ⟨"full state part is not bounded"⟩) := by
  refine ⟨?_, ?_, ?_⟩ <;> decide +kernel

end ExpertKit.Control

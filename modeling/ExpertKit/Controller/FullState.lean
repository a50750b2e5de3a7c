import ExpertKit.Proto

/-!
# Controller: assembly of a full state report

`FullStateAssembler` of `ek-computation/src/controller/service/weight_control/mod.rs`.  One assembler
serves one weight stream; the number of parts is bounded by the registered `max_experts`.

* `FullStateAssembler.add`, `addAll`    one part, and a run over parts;
* `FullStateAssembler.messages`         the parts that one report is sent in;
* `addAll_messages_iff`                 exactly which reports are completed by their parts.
-/

set_option linter.unusedSectionVars false

namespace ExpertKit.Controller
open Std

structure CompleteStateReport where
  placementGeneration : Nat
  reportSequence : Nat
  full : Bool
  experts : List ExpertState
deriving DecidableEq, Repr

structure PartialStateReport where
  placementGeneration : Nat
  reportSequence : Nat
  partCount : Nat
  parts : ExtTreeMap Nat (List ExpertState)
deriving DecidableEq

structure FullStateError where
  message : String
deriving DecidableEq, Repr

structure FullStateAssembler where
  maxParts : Nat
  active : Option PartialStateReport
deriving DecidableEq

namespace FullStateAssembler

def new (maxExperts : Nat) : FullStateAssembler :=
  ⟨max ((maxExperts + maxControlEntriesPerPart - 1) / maxControlEntriesPerPart) 1, none⟩

/-- the report is complete: the parts in order, with every expert once -/
def finish (active : PartialStateReport) : Except FullStateError (Option CompleteStateReport) :=
  let experts := (Maps.values active.parts).flatten
  if ¬ (experts.map ExpertState.key).Nodup then .error ⟨"full state report repeats an expert"⟩
  else .ok (some ⟨active.placementGeneration, active.reportSequence, true, experts⟩)

def add (a : FullStateAssembler) (part : FullExpertStatePart) :
    Except FullStateError (Option CompleteStateReport) × FullStateAssembler :=
  if part.reportSequence = 0 ∨ part.partCount = 0 ∨ a.maxParts < part.partCount ∨
      part.partCount ≤ part.partIndex ∨ maxControlEntriesPerPart < part.experts.length then
    (.error ⟨"full state part is not bounded"⟩, a)
  else
    let active := a.active.getD
      ⟨part.placementGeneration, part.reportSequence, part.partCount, ∅⟩
    let a := { a with active := some active }
    if active.placementGeneration ≠ part.placementGeneration ∨
        active.reportSequence ≠ part.reportSequence ∨ active.partCount ≠ part.partCount then
      (.error ⟨"full state parts describe different reports"⟩, a)
    else
      match active.parts[part.partIndex]? with
      | some existing =>
        if existing = part.experts then (.ok none, a)
        else (.error ⟨"full state part was repeated with different data"⟩, a)
      | none =>
        let active := { active with parts := active.parts.insert part.partIndex part.experts }
        if active.parts.size ≠ active.partCount then (.ok none, { a with active := some active })
        else (finish active, { a with active := none })

/-- the reports completed by a run of parts; the stream ends at the first error -/
def addAll (a : FullStateAssembler) :
    List FullExpertStatePart → Except FullStateError (List CompleteStateReport) × FullStateAssembler
  | [] => (.ok [], a)
  | part :: rest =>
    match a.add part with
    | (.error e, a) => (.error e, a)
    | (.ok report, a) =>
      match a.addAll rest with
      | (.error e, a) => (.error e, a)
      | (.ok reports, a) => (.ok (report.toList ++ reports), a)

/-! ## the parts of one report -/

/-- the parts of a report -/
def messages (generation sequence : Nat) (experts : List ExpertState) : List FullExpertStatePart :=
  Parts.multipart maxControlEntriesPerPart experts fun partIndex partCount entries =>
    ⟨generation, sequence, partIndex, partCount, entries⟩

section
variable {generation sequence : Nat} {experts : List ExpertState}

def count (experts : List ExpertState) : Nat :=
  Parts.partCount maxControlEntriesPerPart experts.length

def slices (experts : List ExpertState) : List (List ExpertState) :=
  (List.range (count experts)).map (Parts.slice maxControlEntriesPerPart experts)

theorem length_slices : (slices experts).length = count experts := by
  simp [slices]

theorem length_messages : (messages generation sequence experts).length = count experts :=
  Parts.length_multipart _ _ _

theorem getElem?_messages (generation sequence : Nat) {j : Nat} (h : j < count experts) :
    (messages generation sequence experts)[j]? = some ⟨generation, sequence, j, count experts,
      Parts.slice maxControlEntriesPerPart experts j⟩ :=
  Parts.getElem?_multipart _ _ _ j h

/-- the assembler holds the first `j` parts -/
def Holds (a : FullStateAssembler) (generation sequence : Nat) (experts : List ExpertState)
    (j : Nat) : Prop :=
  ∃ t, a.active.getD ⟨generation, sequence, count experts, ∅⟩
      = ⟨generation, sequence, count experts, t⟩ ∧ Parts.Filled t (slices experts) j

/-- the remaining parts complete the report -/
theorem addAll_from {a : FullStateAssembler} {j : Nat} (h : Holds a generation sequence experts j)
    (hj : j < count experts) (hseq : 0 < sequence) (hcount : count experts ≤ a.maxParts)
    (hnodup : (experts.map ExpertState.key).Nodup) :
    a.addAll ((messages generation sequence experts).drop j)
      = (.ok [⟨generation, sequence, true, experts⟩], ⟨a.maxParts, none⟩) := by
  induction hd : count experts - j generalizing a j with
  | zero => omega
  | succ d ih =>
    obtain ⟨hlt, hget⟩ := List.getElem?_eq_some_iff.mp (getElem?_messages generation sequence hj)
    obtain ⟨t, hactive, hf⟩ := h
    have hmiss : t[j]? = none := (hf j).trans (if_neg (Nat.lt_irrefl j))
    have hslice : (slices experts)[j]? = some (Parts.slice maxControlEntriesPerPart experts j) := by
      unfold slices
      rw [List.getElem?_map, List.getElem?_range hj]
      rfl
    have hf' := hf.insert hslice
    have hsize := hf'.size (by rw [length_slices]; omega)
    have hlen : (Parts.slice maxControlEntriesPerPart experts j).length
        ≤ maxControlEntriesPerPart := Parts.length_slice_le _ _ _
    rw [List.drop_eq_getElem_cons hlt, hget]
    unfold addAll add
    simp only
    rw [if_neg (by omega)]
    simp only [hactive, hmiss]
    rw [if_neg (by simp)]
    by_cases hlast : j + 1 = count experts
    · -- the table is full
      have hexperts : (Maps.values
          (t.insert j (Parts.slice maxControlEntriesPerPart experts j))).flatten = experts := by
        have hfull : Parts.Filled (t.insert j (Parts.slice maxControlEntriesPerPart experts j))
            (slices experts) (slices experts).length := by
          rw [length_slices, ← hlast]
          exact hf'
        rw [hfull.values]
        exact Parts.flatMap_slice maxControlEntriesPerPart experts (by decide)
      have hdrop : (messages generation sequence experts).drop (j + 1) = [] :=
        List.drop_of_length_le (by rw [length_messages]; omega)
      rw [if_neg (by rw [hsize]; omega), hdrop]
      unfold finish
      simp only [hexperts, hnodup, not_true_eq_false, ↓reduceIte]
      rfl
    · rw [if_pos (by rw [hsize]; omega)]
      have hrest := ih (a := ⟨a.maxParts, some ⟨generation, sequence, count experts,
        t.insert j (Parts.slice maxControlEntriesPerPart experts j)⟩⟩)
        ⟨_, rfl, hf'⟩ (by omega) hcount (by omega)
      simp only [hrest, Option.toList_none, List.nil_append]

/-- the parts of a report that fits complete it; the parts of any other report are refused -/
theorem addAll_messages_iff {a : FullStateAssembler} (ha : a.active = none) (hseq : 0 < sequence)
    (hnodup : (experts.map ExpertState.key).Nodup) :
    a.addAll (messages generation sequence experts)
      = (.ok [⟨generation, sequence, true, experts⟩], a) ↔ count experts ≤ a.maxParts := by
  have hpos : 0 < count experts := Parts.partCount_pos _ _
  have hlast : a = ⟨a.maxParts, none⟩ := by
    cases a
    simp only at ha
    rw [ha]
  constructor
  · intro h
    by_contra hbig
    obtain ⟨hlt, hget⟩ := List.getElem?_eq_some_iff.mp
      (getElem?_messages generation sequence hpos)
    rw [← List.drop_zero (l := messages generation sequence experts),
      List.drop_eq_getElem_cons hlt, hget] at h
    unfold addAll add at h
    simp only at h
    rw [if_pos (by omega)] at h
    simp at h
  · intro hcount
    have hempty : Holds a generation sequence experts 0 :=
      ⟨∅, by rw [ha]; rfl, Parts.Filled.empty _⟩
    have hall := addAll_from hempty hpos hseq hcount hnodup
    rw [List.drop_zero] at hall
    rw [hall, ← hlast]

end

end FullStateAssembler

end ExpertKit.Controller

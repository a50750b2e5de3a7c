import ExpertKit.Worker.Parts

/-!
# Worker: assembly of multipart target lists

`TargetListAssembler` of `ek-worker/src/expertkit_worker/control/parts.py`: only a complete list of
the newest placement generation is returned, and it is returned again for every repeated part.  As
for drains, a part is kept as the message itself, and an error returns the state it leaves behind.

* `TargetListAssembler.add`   one part;
* `add_generation`            the generation never decreases, and a returned list has it.
-/

namespace ExpertKit.Worker
open Std

structure PlacementTargets where
  placementGeneration : Nat
  experts : List TargetExpert
deriving DecidableEq, Repr

structure TargetParts where
  partCount : Nat
  parts : ExtTreeMap Nat TargetExpertListPart
deriving DecidableEq

structure TargetListAssembler where
  maxExperts : Nat
  generation : Nat
  current : Option TargetParts
deriving DecidableEq

def TargetListAssembler.new (maxExperts : Nat) : TargetListAssembler := ⟨maxExperts, 0, none⟩

/-- a non-empty string field -/
def stringField (value : String) : Nat :=
  if value.isEmpty then 0 else Wire.lenField value.utf8ByteSize

/-- `ByteSize()` of a target part -/
def targetPartSize (part : TargetExpertListPart) : Nat :=
  Wire.uintField 64 part.placementGeneration + Wire.uintField 32 part.partIndex +
    Wire.uintField 32 part.partCount +
    (part.experts.map fun target => Wire.lenField (Wire.uintField 32 target.layerId +
      Wire.uintField 32 target.expertId + stringField target.targetDevice +
      (target.peerWeightEndpoints.map fun endpoint => Wire.lenField endpoint.utf8ByteSize).sum)).sum

/-- `TargetExpert.__post_init__` on the fields of the wire -/
def checkTarget (target : TargetExpert) : Except ValueError Unit :=
  if target.targetDevice.isEmpty then .error ⟨"target_device must not be empty"⟩
  else if target.peerWeightEndpoints.any String.isEmpty then
    .error ⟨"peer endpoints must not be empty"⟩
  else .ok ()

/-- the experts of a complete list, each once -/
def checkTargets : List TargetExpert → List ExpertKey → Except ValueError Unit
  | [], _ => .ok ()
  | target :: rest, seen =>
    match checkTarget target with
    | .error e => .error e
    | .ok () =>
      if target.key ∈ seen then .error ⟨"complete target list contains a duplicate expert"⟩
      else checkTargets rest (target.key :: seen)

namespace TargetListAssembler

/-- the checks of a complete list -/
def finishTargets (a : TargetListAssembler) (current : TargetParts) :
    Except ValueError (Option PlacementTargets) × TargetListAssembler :=
  if current.parts.size ≠ current.partCount then (.ok none, a)
  else
    let experts := ((List.range current.partCount).filterMap fun i => current.parts[i]?).flatMap
      TargetExpertListPart.experts
    match checkTargets experts [] with
    | .error e => (.error e, a)
    | .ok () =>
      if a.maxExperts < experts.length then
        (.error ⟨"complete target list exceeds max_experts"⟩, a)
      else (.ok (some ⟨a.generation, experts⟩), a)

/-- a part of a newer generation starts a new list -/
def advance (a : TargetListAssembler) (part : TargetExpertListPart) : TargetListAssembler :=
  if a.generation < part.placementGeneration then
    { a with generation := part.placementGeneration, current := some ⟨part.partCount, ∅⟩ }
  else { a with current := some (a.current.getD ⟨part.partCount, ∅⟩) }

def keep (a : TargetListAssembler) (current : TargetParts) : TargetListAssembler :=
  { a with current := some current }

def add (a : TargetListAssembler) (part : TargetExpertListPart) :
    Except ValueError (Option PlacementTargets) × TargetListAssembler :=
  match validatePositiveUint64 "placement_generation" part.placementGeneration with
  | .error e => (.error e, a)
  | .ok () =>
    if part.placementGeneration < a.generation then (.ok none, a)
    else
      match validatePart (targetPartSize part) part.partIndex part.partCount part.experts.length
          a.maxExperts with
      | .error e => (.error e, a)
      | .ok () =>
        let a := a.advance part
        let current := a.current.getD ⟨part.partCount, ∅⟩
        if current.partCount ≠ part.partCount then
          (.error ⟨"target parts disagree about part_count"⟩, a)
        else
          match current.parts[part.partIndex]? with
          | some previous =>
            if previous ≠ part then
              (.error ⟨"target stream repeated one part with different content"⟩, a)
            else a.finishTargets current
          | none =>
            let current := { current with parts := current.parts.insert part.partIndex part }
            (a.keep current).finishTargets current

/-! ## the generation -/

theorem finishTargets_generation (a : TargetListAssembler) (current : TargetParts) :
    (a.finishTargets current).2 = a ∧
    ∀ placement, (a.finishTargets current).1 = .ok (some placement) →
      placement.placementGeneration = a.generation := by
  unfold finishTargets
  by_cases hsize : current.parts.size ≠ current.partCount
  · rw [if_pos hsize]
    exact ⟨rfl, fun placement h => by cases h⟩
  · rw [if_neg hsize]
    simp only
    split
    · exact ⟨rfl, fun placement h => by cases h⟩
    · split_ifs
      · exact ⟨rfl, fun placement h => by cases h⟩
      · refine ⟨rfl, ?_⟩
        intro placement h
        cases h
        rfl

theorem advance_generation (a : TargetListAssembler) (part : TargetExpertListPart) :
    a.generation ≤ (a.advance part).generation := by
  unfold advance
  split_ifs with h
  · exact Nat.le_of_lt h
  · exact Nat.le_refl _

/-- the generation never decreases, and a complete list has it -/
theorem add_generation (a : TargetListAssembler) (part : TargetExpertListPart) :
    a.generation ≤ (a.add part).2.generation ∧
    ∀ placement, (a.add part).1 = .ok (some placement) →
      placement.placementGeneration = (a.add part).2.generation := by
  have hadvance := a.advance_generation part
  unfold add
  split
  · exact ⟨Nat.le_refl _, fun placement h => by cases h⟩
  · split_ifs
    · exact ⟨Nat.le_refl _, fun placement h => by cases h⟩
    · split
      · exact ⟨Nat.le_refl _, fun placement h => by cases h⟩
      · simp only
        split_ifs
        · exact ⟨hadvance, fun placement h => by cases h⟩
        · split
          · split_ifs
            · exact ⟨hadvance, fun placement h => by cases h⟩
            · obtain ⟨ha, hplacement⟩ := (a.advance part).finishTargets_generation
                ((a.advance part).current.getD ⟨part.partCount, ∅⟩)
              rw [ha]
              exact ⟨hadvance, hplacement⟩
          · obtain ⟨ha, hplacement⟩ := finishTargets_generation
              ((a.advance part).keep _) _
            rw [ha]
            exact ⟨hadvance, hplacement⟩

end TargetListAssembler

end ExpertKit.Worker

import ExpertKit.Lib.Gathering
import ExpertKit.Controller.State
import ExpertKit.Worker.Targets

/-!
# Weight control: target parts in any order

The parts that `target_parts` of the Controller cuts the targets of each placement generation into,
fed to `TargetListAssembler` of the Worker in any order, repeated, and with the parts of several
generations mixed.

* `newest`                  the newest generation of the parts consumed;
* `accepted`                what the assembler returns for a stream of parts;
* `HoldsTargets`            the assembler after the parts consumed;
* `add_targetPart`          one part more;
* `targets_any_order`       every stream of parts.
-/

namespace ExpertKit.Control
open Std Controller Parts
open Worker (TargetListAssembler PlacementTargets TargetParts ValueError validatePart uint64Max
  targetPartSize checkTargets)

/-! ## the parts -/

section
variable (targets : Nat → List TargetExpert)

def targetPartCount (generation : Nat) : Nat :=
  partCount maxControlEntriesPerPart (targets generation).length

/-- part `j` of the targets of a generation -/
def targetPart (part : Nat × Nat) : TargetExpertListPart :=
  ⟨part.1, part.2, targetPartCount targets part.1,
    slice maxControlEntriesPerPart (targets part.1) part.2⟩

def addTargetPart (a : TargetListAssembler) (part : Nat × Nat) :
    Except ValueError (Option PlacementTargets) × TargetListAssembler :=
  a.add (targetPart targets part)

/-- the newest generation of the parts, zero before the first -/
def newest : List (Nat × Nat) → Nat
  | [] => 0
  | part :: rest => max part.1 (newest rest)

/-- the targets that a part completes; the part of an older generation is ignored -/
def acceptedBy (history : List (Nat × Nat)) (part : Nat × Nat) : Option PlacementTargets :=
  if newest history ≤ part.1 ∧ Complete (targetPartCount targets) (history ++ [part]) part.1 then
    some ⟨part.1, targets part.1⟩
  else none

/-- what the stream completes, and completes again -/
def accepted (stream : List (Nat × Nat)) : List PlacementTargets :=
  collect (acceptedBy targets) [] stream

/-- targets that the Worker takes; each part keeps to the byte limit -/
structure Acceptable (maxExperts generation : Nat) : Prop where
  positive : 0 < generation
  bounded : generation ≤ uint64Max
  checked : checkTargets (targets generation) [] = .ok ()
  length : (targets generation).length ≤ maxExperts
  size : ∀ j < targetPartCount targets generation,
    targetPartSize (targetPart targets (generation, j)) ≤ Worker.maxControlPartBytes

end

section
variable {targets : Nat → List TargetExpert} {maxExperts generation : Nat}
  {a : TargetListAssembler} {history : List (Nat × Nat)} {t : ExtTreeMap Nat TargetExpertListPart}
  {seen : Nat → Prop}

theorem getElem?_targetParts {j : Nat} (h : j < targetPartCount targets generation) :
    (targetParts generation (targets generation))[j]? = some (targetPart targets (generation, j)) :=
  getElem?_multipart _ _ _ _ h

theorem length_targetParts : (targetParts generation (targets generation)).length =
    targetPartCount targets generation := length_multipart _ _ _

theorem flatMap_targetParts : (targetParts generation (targets generation)).flatMap
    TargetExpertListPart.experts = targets generation := by
  unfold targetParts multipart
  rw [List.flatMap_map]
  exact flatMap_slice maxControlEntriesPerPart _ (by decide)

theorem newest_append (history history' : List (Nat × Nat)) :
    newest (history ++ history') = max (newest history) (newest history') := by
  induction history with
  | nil => exact (Nat.zero_max _).symm
  | cons part rest ih => rw [List.cons_append, newest, newest, ih, Nat.max_assoc]

theorem newest_concat (history : List (Nat × Nat)) (part : Nat × Nat) :
    newest (history ++ [part]) = max (newest history) part.1 := by
  rw [newest_append, newest, newest, Nat.max_zero]

theorem le_newest {part : Nat × Nat} (h : part ∈ history) : part.1 ≤ newest history := by
  induction history with
  | nil => cases h
  | cons first rest ih =>
    rcases List.mem_cons.mp h with rfl | h
    · exact Nat.le_max_left _ _
    · exact (ih h).trans (Nat.le_max_right _ _)

/-! ## the assembler after the parts consumed -/

/-- the newest generation is current with the parts consumed -/
structure HoldsTargets (targets : Nat → List TargetExpert) (maxExperts : Nat)
    (a : TargetListAssembler) (history : List (Nat × Nat)) : Prop where
  maxExperts : a.maxExperts = maxExperts
  generation : a.generation = newest history
  held : 0 < newest history → ∃ t, a.current = some ⟨targetPartCount targets (newest history), t⟩ ∧
    Gathered t (targetParts (newest history) (targets (newest history)))
      fun j => (newest history, j) ∈ history

theorem targets_size (ht : Gathered t (targetParts generation (targets generation)) seen) :
    t.size = targetPartCount targets generation ↔ ∀ j < targetPartCount targets generation,
      seen j := by
  rw [← length_targetParts]
  exact ht.size_eq_iff

/-- the checks of a list whose parts are held -/
theorem finishTargets_gathered (hok : Acceptable targets a.maxExperts generation)
    (ht : Gathered t (targetParts generation (targets generation)) seen) :
    a.finishTargets ⟨targetPartCount targets generation, t⟩ =
      if t.size = targetPartCount targets generation then
        (.ok (some ⟨a.generation, targets generation⟩), a)
      else (.ok none, a) := by
  unfold TargetListAssembler.finishTargets
  by_cases hfull : t.size = targetPartCount targets generation
  · rw [if_neg (not_not.mpr hfull), if_pos hfull]
    have hfilled : Filled t (targetParts generation (targets generation))
        (targetParts generation (targets generation)).length :=
      ht.filled fun j hj => (targets_size ht).mp hfull j (length_targetParts ▸ hj)
    have hexperts : ((List.range (targetPartCount targets generation)).filterMap
        fun i => t[i]?).flatMap TargetExpertListPart.experts = targets generation := by
      rw [← length_targetParts, hfilled.ordered, flatMap_targetParts]
    simp only [hexperts, hok.checked]
    rw [if_neg (Nat.not_lt.mpr hok.length)]
  · rw [if_pos hfull, if_neg hfull]

theorem targetPart_validated (hok : Acceptable targets maxExperts generation)
    (hmax : 0 < maxExperts) {j : Nat} (hj : j < targetPartCount targets generation) :
    validatePart (targetPartSize (targetPart targets (generation, j))) j
      (targetPartCount targets generation) (targetPart targets (generation, j)).experts.length
      maxExperts = .ok () := by
  have hcount : targetPartCount targets generation ≤ maxExperts := by
    have hlength := hok.length
    unfold targetPartCount partCount maxControlEntriesPerPart
    omega
  have hlen : (targetPart targets (generation, j)).experts.length ≤
      Worker.maxExpertsPerControlPart := length_slice_le _ _ _
  have hsize := hok.size j hj
  unfold validatePart
  rw [if_neg (by omega), if_neg (by omega), if_neg (by omega), if_neg (by omega)]

/-- the list that a part which is not older belongs to -/
theorem advance_current (h : HoldsTargets targets maxExperts a history)
    (hpositive : 0 < generation) {j : Nat} (hnew : newest history ≤ generation) :
    ∃ t, a.advance (targetPart targets (generation, j)) =
        ⟨maxExperts, generation, some ⟨targetPartCount targets generation, t⟩⟩ ∧
      Gathered t (targetParts generation (targets generation))
        fun i => (generation, i) ∈ history := by
  have hgeneration := h.generation
  unfold TargetListAssembler.advance
  rcases Nat.lt_or_eq_of_le hnew with hlt | heq
  · refine ⟨∅, ?_, .empty _ fun i hi => absurd (le_newest hi) (Nat.not_le.mpr hlt)⟩
    rw [if_pos (show a.generation < (targetPart targets (generation, j)).placementGeneration from
      hgeneration ▸ hlt), h.maxExperts]
    rfl
  · obtain ⟨t, hcurrent, ht⟩ := h.held (heq ▸ hpositive)
    rw [heq] at hcurrent ht
    refine ⟨t, ?_, ht⟩
    rw [if_neg (show ¬a.generation < (targetPart targets (generation, j)).placementGeneration from
      (hgeneration.trans heq) ▸ Nat.lt_irrefl _), hcurrent]
    cases a
    simp only at hgeneration
    rw [hgeneration, heq, ← h.maxExperts]
    rfl

/-- the part of a list that is not older, with any targets within the bounds -/
theorem add_current (hpositive : 0 < generation ∧ generation ≤ uint64Max)
    (hnew : a.generation ≤ generation) {j : Nat} {experts : List TargetExpert}
    (hchecked : validatePart (targetPartSize { targetPart targets (generation, j) with
      experts := experts }) j (targetPartCount targets generation) experts.length a.maxExperts =
        .ok ())
    (hadvance : a.advance { targetPart targets (generation, j) with experts := experts } =
      ⟨a.maxExperts, generation, some ⟨targetPartCount targets generation, t⟩⟩) :
    (∀ previous, t[j]? = some previous →
      a.add { targetPart targets (generation, j) with experts := experts } =
        if previous ≠ { targetPart targets (generation, j) with experts := experts } then
          (.error ⟨"target stream repeated one part with different content"⟩,
            ⟨a.maxExperts, generation, some ⟨targetPartCount targets generation, t⟩⟩)
        else
          TargetListAssembler.finishTargets
            ⟨a.maxExperts, generation, some ⟨targetPartCount targets generation, t⟩⟩
            ⟨targetPartCount targets generation, t⟩) ∧
    (t[j]? = none → a.add { targetPart targets (generation, j) with experts := experts } =
      TargetListAssembler.finishTargets
        ⟨a.maxExperts, generation, some ⟨targetPartCount targets generation,
          t.insert j { targetPart targets (generation, j) with experts := experts }⟩⟩
        ⟨targetPartCount targets generation,
          t.insert j { targetPart targets (generation, j) with experts := experts }⟩) := by
  have hvalid : Worker.validatePositiveUint64 "placement_generation" generation = .ok () :=
    (Worker.validatePositiveUint64_iff _ _).mpr hpositive
  unfold TargetListAssembler.add
  simp only [targetPart] at hchecked hadvance ⊢
  rw [hvalid]
  simp only [Nat.not_lt.mpr hnew, if_false, hchecked, hadvance, Option.getD_some]
  constructor
  · intro previous hget
    simp only [ne_eq, not_true_eq_false, if_false, hget]
    rfl
  · intro hget
    simp only [ne_eq, not_true_eq_false, if_false, hget]
    rfl

theorem add_targetPart (h : HoldsTargets targets maxExperts a history) {part : Nat × Nat}
    (hmax : 0 < maxExperts) (hok : Acceptable targets maxExperts part.1)
    (hj : part.2 < targetPartCount targets part.1) :
    ∃ a', addTargetPart targets a part = (.ok (acceptedBy targets history part), a') ∧
      HoldsTargets targets maxExperts a' (history ++ [part]) := by
  obtain ⟨generation, j⟩ := part
  simp only at hok hj
  have hgeneration := h.generation
  unfold addTargetPart acceptedBy
  rcases Nat.lt_or_ge generation (newest history) with hold | hnew
  · -- an older generation
    have hsame : newest (history ++ [(generation, j)]) = newest history := by
      rw [newest_concat]
      exact Nat.max_eq_left (Nat.le_of_lt hold)
    refine ⟨a, ?_, h.maxExperts, h.generation.trans hsame.symm, ?_⟩
    · have hvalid : Worker.validatePositiveUint64 "placement_generation" generation = .ok () :=
        (Worker.validatePositiveUint64_iff _ _).mpr ⟨hok.positive, hok.bounded⟩
      rw [if_neg fun hle => absurd hle.1 (Nat.not_le.mpr hold)]
      unfold TargetListAssembler.add
      simp only [targetPart]
      rw [hvalid]
      exact if_pos (hgeneration.symm ▸ hold)
    · rw [hsame]
      intro hpos
      obtain ⟨t, hcurrent, ht⟩ := h.held hpos
      refine ⟨t, hcurrent, ht.congr fun i => ?_⟩
      rw [List.mem_append, List.mem_singleton]
      exact or_iff_left fun he => absurd (congrArg Prod.fst he) (Nat.ne_of_gt hold)
  · obtain ⟨t, hadvance, ht⟩ := advance_current h hok.positive (j := j) hnew
    have hm := h.maxExperts
    have hlast : newest (history ++ [(generation, j)]) = generation := by
      rw [newest_concat]
      exact Nat.max_eq_right hnew
    have hchecked : validatePart (targetPartSize { targetPart targets (generation, j) with
        experts := (targetPart targets (generation, j)).experts }) j
        (targetPartCount targets generation) (targetPart targets (generation, j)).experts.length
        a.maxExperts = .ok () := hm.symm ▸ targetPart_validated hok hmax hj
    obtain ⟨hrepeated, hfresh⟩ := add_current ⟨hok.positive, hok.bounded⟩ (hgeneration ▸ hnew)
      hchecked (hm ▸ hadvance)
    have hpart : (targetParts generation (targets generation))[j]? =
        some (targetPart targets (generation, j)) := getElem?_targetParts hj
    have hseen : ∀ i, ((generation, i) ∈ history ++ [(generation, j)]) ↔
        ((generation, i) ∈ history ∨ i = j) := fun i => by
      rw [List.mem_append, List.mem_singleton, Prod.mk.injEq, eq_self, true_and]
    -- either way the table holds what was consumed
    have hadded : ∃ t', a.add (targetPart targets (generation, j)) =
        TargetListAssembler.finishTargets
          ⟨a.maxExperts, generation, some ⟨targetPartCount targets generation, t'⟩⟩
          ⟨targetPartCount targets generation, t'⟩ ∧
        Gathered t' (targetParts generation (targets generation))
          fun i => (generation, i) ∈ history ++ [(generation, j)] := by
      by_cases hin : (generation, j) ∈ history
      · have hadd := hrepeated _ ((ht.held j hin).2.trans hpart)
        rw [if_neg (not_not.mpr rfl)] at hadd
        refine ⟨t, hadd, ht.congr fun i => ?_⟩
        rw [hseen]
        exact or_iff_left_of_imp fun hi => hi ▸ hin
      · exact ⟨_, hfresh (ht.absent j hin), (ht.insert hpart).congr hseen⟩
    obtain ⟨t', hadd, ht'⟩ := hadded
    rw [finishTargets_gathered (a := ⟨a.maxExperts, _, _⟩) (hm.symm ▸ hok) ht'] at hadd
    have hholds : HoldsTargets targets maxExperts
        ⟨a.maxExperts, generation, some ⟨targetPartCount targets generation, t'⟩⟩
        (history ++ [(generation, j)]) := by
      refine ⟨hm, hlast.symm, fun _ => ?_⟩
      rw [hlast]
      exact ⟨t', rfl, ht'⟩
    have hfull : t'.size = targetPartCount targets generation ↔
        Complete (targetPartCount targets) (history ++ [(generation, j)]) generation :=
      targets_size ht'
    by_cases hcomplete :
        Complete (targetPartCount targets) (history ++ [(generation, j)]) generation
    · rw [if_pos (hfull.mpr hcomplete)] at hadd
      rw [hadd, if_pos ⟨hnew, hcomplete⟩]
      exact ⟨_, rfl, hholds⟩
    · rw [if_neg fun hsize => hcomplete (hfull.mp hsize)] at hadd
      rw [hadd, if_neg fun hboth => hcomplete hboth.2]
      exact ⟨_, rfl, hholds⟩

/-- a repeated part of the newest generation with other targets is refused and changes nothing -/
theorem add_changedTargets (h : HoldsTargets targets maxExperts a history)
    (hok : Acceptable targets maxExperts generation) (hmax : 0 < maxExperts)
    (hnewest : newest history = generation) {j : Nat} (hseen : (generation, j) ∈ history)
    {experts : List TargetExpert} (hlen : experts.length ≤ Worker.maxExpertsPerControlPart)
    (hsize : targetPartSize { targetPart targets (generation, j) with experts := experts } ≤
      Worker.maxControlPartBytes) (hne : experts ≠ (targetPart targets (generation, j)).experts) :
    a.add { targetPart targets (generation, j) with experts := experts } =
      (.error ⟨"target stream repeated one part with different content"⟩, a) := by
  obtain ⟨t, hcurrent, ht⟩ := h.held (hnewest ▸ hok.positive)
  rw [hnewest] at hcurrent ht
  have hgeneration : a.generation = generation := h.generation.trans hnewest
  have hj : j < targetPartCount targets generation := length_targetParts ▸ (ht.held j hseen).1
  have hsame : a = ⟨a.maxExperts, generation, some ⟨targetPartCount targets generation, t⟩⟩ := by
    obtain ⟨m, g, c⟩ := a
    simp only at hgeneration hcurrent
    rw [hgeneration, hcurrent]
  have hadvance : a.advance { targetPart targets (generation, j) with experts := experts } =
      ⟨a.maxExperts, generation, some ⟨targetPartCount targets generation, t⟩⟩ := by
    unfold TargetListAssembler.advance
    simp only [targetPart, hgeneration, Nat.lt_irrefl, if_false, hcurrent, Option.getD_some]
  have hchecked : validatePart (targetPartSize { targetPart targets (generation, j) with
      experts := experts }) j (targetPartCount targets generation) experts.length a.maxExperts =
        .ok () := by
    have hbounds := targetPart_validated hok hmax hj
    unfold validatePart at hbounds ⊢
    rw [h.maxExperts]
    split_ifs at hbounds with h1 h2
    rw [if_neg h1, if_neg h2, if_neg (Nat.not_lt.mpr hlen), if_neg (Nat.not_lt.mpr hsize)]
  have hadd := (add_current ⟨hok.positive, hok.bounded⟩ (Nat.le_of_eq hgeneration) hchecked
    hadvance).1 _ ((ht.held j hseen).2.trans (getElem?_targetParts hj))
  rw [if_pos fun he => hne (congrArg TargetExpertListPart.experts he).symm] at hadd
  rw [hadd, ← hsame]

end

/-! ## every stream -/

/-- the parts of any generations in any order, repeated and mixed: no error; a list is returned,
as it was cut, by its last missing part and by each repeated part while its generation is the
newest, and a part of an older generation is ignored; a part of the newest generation repeated with
other targets is refused -/
theorem targets_any_order {targets : Nat → List TargetExpert} {maxExperts : Nat}
    (hmax : 0 < maxExperts) {stream : List (Nat × Nat)}
    (hstream : ∀ part ∈ stream, Acceptable targets maxExperts part.1 ∧
      part.2 < targetPartCount targets part.1) :
    ∃ a, feed (addTargetPart targets) (.new maxExperts) stream =
        (.ok (accepted targets stream), a) ∧
      a.generation = newest stream ∧
      ∀ part ∈ stream, part.1 = newest stream → ∀ experts : List TargetExpert,
        experts.length ≤ Worker.maxExpertsPerControlPart →
        targetPartSize { targetPart targets part with experts := experts } ≤
          Worker.maxControlPartBytes → experts ≠ (targetPart targets part).experts →
        a.add { targetPart targets part with experts := experts } =
          (.error ⟨"target stream repeated one part with different content"⟩, a) := by
  have hstart : HoldsTargets targets maxExperts (.new maxExperts) [] :=
    ⟨rfl, rfl, fun h => absurd h (Nat.lt_irrefl 0)⟩
  have hstep : ∀ a history (part : Nat × Nat), HoldsTargets targets maxExperts a history →
      (Acceptable targets maxExperts part.1 ∧ part.2 < targetPartCount targets part.1) →
      ∃ a', addTargetPart targets a part = (.ok (acceptedBy targets history part), a') ∧
        HoldsTargets targets maxExperts a' (history ++ [part]) :=
    fun _ _ _ ha hpart => add_targetPart ha hmax hpart.1 hpart.2
  obtain ⟨a, hfeed, ha⟩ := feed_spec hstep hstart (Allowed.of_forall hstream)
  rw [List.nil_append] at ha
  refine ⟨a, hfeed, ha.generation, ?_⟩
  rintro ⟨generation, j⟩ hpart hnewest experts hlen hsize hne
  exact add_changedTargets ha (hstream _ hpart).1 hmax hnewest.symm hpart hlen hsize hne

/-- a list of two parts, and after it empty lists -/
def longTargets (generation : Nat) : List TargetExpert :=
  if generation = 1 then (List.range 65).map fun n => ⟨0, n, "cpu", ["peer"]⟩ else []

/-- the last part first and twice, another repeated part, a newer list and a part too late -/
def mixedParts : List (Nat × Nat) := [(1, 1), (1, 1), (1, 0), (1, 1), (2, 0), (1, 0)]

theorem targets_any_order_mixed :
    (feed (addTargetPart longTargets) (.new 100) mixedParts).1 =
      .ok [⟨1, longTargets 1⟩, ⟨1, longTargets 1⟩, ⟨2, []⟩] := by
  have hlong : Acceptable longTargets 100 1 :=
    ⟨by decide, by decide, by decide +kernel, by decide +kernel, by decide +kernel⟩
  have hempty : Acceptable longTargets 100 2 :=
    ⟨by decide, by decide, by decide +kernel, by decide +kernel, by decide +kernel⟩
  have hstream : ∀ part ∈ mixedParts, Acceptable longTargets 100 part.1 ∧
      part.2 < targetPartCount longTargets part.1 := by
    have hlongCount : targetPartCount longTargets 1 = 2 := by decide +kernel
    have hemptyCount : targetPartCount longTargets 2 = 1 := by decide +kernel
    simp only [mixedParts, List.forall_mem_cons, hlongCount, hemptyCount]
    exact ⟨⟨hlong, by decide⟩, ⟨hlong, by decide⟩, ⟨hlong, by decide⟩, ⟨hlong, by decide⟩,
      ⟨hempty, by decide⟩, ⟨hlong, by decide⟩, fun _ h => absurd h List.not_mem_nil⟩
  obtain ⟨a, ha, -⟩ := targets_any_order (by decide : 0 < 100) hstream
  have haccepted : accepted longTargets mixedParts =
      [⟨1, longTargets 1⟩, ⟨1, longTargets 1⟩, ⟨2, []⟩] := by decide +kernel
  rw [ha, haccepted]

end ExpertKit.Control

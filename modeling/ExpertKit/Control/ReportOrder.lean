import ExpertKit.Lib.Gathering
import ExpertKit.Control.FullStateDelivery

/-!
# Weight control: full state parts in any order

The parts that the Worker's reporter cuts a full state report into, fed to `FullStateAssembler` of
the Controller in any order and repeated.  The assembler holds one report at a time, so the parts of
a later report follow the last missing part of the earlier one.

* `reportPart`              a part of a report;
* `HoldsReport`             the assembler after the parts consumed;
* `add_reportPart`          one part more;
* `reports_any_order`       every stream of parts that fits one pending report.
-/

namespace ExpertKit.Control
open Std Controller Parts FullStateAssembler

/-! ## the parts -/

def reportPartCount (report : CompleteStateReport) : Nat := count report.experts

/-- part `j` of the report -/
def reportPart (part : CompleteStateReport × Nat) : FullExpertStatePart :=
  ⟨part.1.placementGeneration, part.1.reportSequence, part.2, reportPartCount part.1,
    slice maxControlEntriesPerPart part.1.experts part.2⟩

theorem getElem?_slices {report : CompleteStateReport} {j : Nat} (h : j < reportPartCount report) :
    (slices report.experts)[j]? = some (reportPart (report, j)).experts := by
  unfold slices
  rw [List.getElem?_map, List.getElem?_range (show j < count report.experts from h)]
  rfl

def addReportPart (a : FullStateAssembler) (part : CompleteStateReport × Nat) :
    Except FullStateError (Option CompleteStateReport) × FullStateAssembler :=
  a.add (reportPart part)

theorem addAll_reportParts (a : FullStateAssembler) (stream : List (CompleteStateReport × Nat)) :
    a.addAll (stream.map reportPart) = feed addReportPart a stream := by
  induction stream generalizing a with
  | nil => rfl
  | cons part rest ih =>
    rw [List.map_cons, FullStateAssembler.addAll, feed]
    simp only [ih]
    rw [show addReportPart a part = a.add (reportPart part) from rfl]
    rcases a.add (reportPart part) with ⟨_ | _, a'⟩
    · rfl
    · dsimp only
      rcases feed addReportPart a' rest with ⟨_ | _, _⟩ <;> rfl

/-! ## the assembler after the parts consumed -/

/-- a report that the assembler of a Worker completes -/
structure Reportable (maxParts : Nat) (report : CompleteStateReport) : Prop where
  full : report.full = true
  sequence : 0 < report.reportSequence
  count : reportPartCount report ≤ maxParts
  distinct : (report.experts.map ExpertState.key).Nodup

/-- the entries of the report that are held -/
def reportTable (report : CompleteStateReport) (t : ExtTreeMap Nat (List ExpertState)) :
    PartialStateReport :=
  ⟨report.placementGeneration, report.reportSequence, reportPartCount report, t⟩

section
variable {maxParts : Nat} {a : FullStateAssembler} {report : CompleteStateReport}
  {history : List (CompleteStateReport × Nat)} {t : ExtTreeMap Nat (List ExpertState)}
  {seen : Nat → Prop}

/-- the open report is active with the parts consumed -/
structure HoldsReport (maxParts : Nat) (a : FullStateAssembler)
    (history : List (CompleteStateReport × Nat)) : Prop where
  maxParts : a.maxParts = maxParts
  one : (openKeys reportPartCount history).length ≤ 1
  held : ∀ report ∈ openKeys reportPartCount history, ∃ t, a.active = some (reportTable report t) ∧
    Gathered t (slices report.experts) fun j => (report, j) ∈ history
  absent : openKeys reportPartCount history = [] → a.active = none

theorem slices_size (ht : Gathered t (slices report.experts) seen) :
    t.size = reportPartCount report ↔ ∀ j < reportPartCount report, seen j := by
  have hlen : (slices report.experts).length = reportPartCount report := length_slices
  rw [← hlen]
  exact ht.size_eq_iff

/-- the checks of a report whose parts are held -/
theorem finish_gathered (hreport : Reportable maxParts report)
    (ht : Gathered t (slices report.experts) seen) (hfull : t.size = reportPartCount report) :
    finish (reportTable report t) = .ok (some report) := by
  have hlen : (slices report.experts).length = reportPartCount report := length_slices
  have hfilled : Filled t (slices report.experts) (slices report.experts).length :=
    ht.filled fun j hj => (slices_size ht).mp hfull j (hlen ▸ hj)
  have hexperts : (Maps.values t).flatten = report.experts := by
    rw [hfilled.values]
    exact flatMap_slice maxControlEntriesPerPart report.experts (by decide)
  unfold finish
  simp only [reportTable, hexperts, hreport.distinct, not_true_eq_false, if_false]
  rw [← hreport.full]

/-- the report that a sendable part belongs to, with the parts consumed -/
theorem active_sent (h : HoldsReport maxParts a history) {j : Nat}
    (hsend : Sendable reportPartCount 1 history (report, j)) :
    ∃ t, a.active.getD ⟨report.placementGeneration, report.reportSequence, reportPartCount report,
        ∅⟩ = reportTable report t ∧
      Gathered t (slices report.experts) fun j => (report, j) ∈ history := by
  by_cases hopen : report ∈ openKeys reportPartCount history
  · obtain ⟨t, hactive, ht⟩ := h.held report hopen
    exact ⟨t, by rw [hactive]; rfl, ht⟩
  · have hnone := h.absent (List.length_eq_zero_iff.mp (Nat.lt_one_iff.mp (hsend.room hopen)))
    exact ⟨∅, by rw [hnone]; rfl,
      .empty _ fun j => not_seen_of_not_open hopen hsend.incomplete j⟩

/-- only the report of the part can be open after it -/
theorem open_after (h : HoldsReport maxParts a history) {j : Nat}
    (hsend : Sendable reportPartCount 1 history (report, j)) {other : CompleteStateReport}
    (hother : other ∈ openKeys reportPartCount (history ++ [(report, j)])) : other = report := by
  by_contra hne
  have hbefore := (mem_openKeys_other hne).mp hother
  by_cases hopen : report ∈ openKeys reportPartCount history
  · have hpair : [other, report].Subperm (openKeys reportPartCount history) :=
      List.subperm_of_subset (by simp [hne]) (by simp [hbefore, hopen])
    have hle := hpair.length_le
    have hone := h.one
    rw [List.length_cons, List.length_singleton] at hle
    omega
  · have hroom := hsend.room hopen
    have hpos := List.length_pos_of_mem hbefore
    omega

/-- a part of the report with any entries, within the bounds -/
theorem add_bounded {j : Nat} {experts : List ExpertState} (hreport : Reportable a.maxParts report)
    (hj : j < reportPartCount report) (hlen : experts.length ≤ maxControlEntriesPerPart)
    (hactive : a.active.getD ⟨report.placementGeneration, report.reportSequence,
      reportPartCount report, ∅⟩ = reportTable report t) :
    (∀ existing, t[j]? = some existing → a.add { reportPart (report, j) with experts := experts } =
      if existing = experts then (.ok none, { a with active := some (reportTable report t) })
      else (.error ⟨"full state part was repeated with different data"⟩,
        { a with active := some (reportTable report t) })) ∧
    (t[j]? = none → a.add { reportPart (report, j) with experts := experts } =
      if (t.insert j experts).size ≠ reportPartCount report then
        (.ok none, { a with active := some (reportTable report (t.insert j experts)) })
      else (finish (reportTable report (t.insert j experts)), { a with active := none })) := by
  have hsequence := hreport.sequence
  have hcount := hreport.count
  have hbounds : ¬(report.reportSequence = 0 ∨ reportPartCount report = 0 ∨
      a.maxParts < reportPartCount report ∨ reportPartCount report ≤ j ∨
      maxControlEntriesPerPart < experts.length) := by omega
  unfold FullStateAssembler.add
  simp only [reportPart, hbounds, if_false, hactive]
  constructor
  · intro existing hget
    rw [if_neg (by simp only [reportTable, ne_eq, not_true_eq_false, or_self, not_false_eq_true])]
    simp only [reportTable, hget]
  · intro hget
    rw [if_neg (by simp only [reportTable, ne_eq, not_true_eq_false, or_self, not_false_eq_true])]
    simp only [reportTable, hget]
    rfl

theorem add_reportPart (h : HoldsReport maxParts a history)
    {part : CompleteStateReport × Nat} (hreport : Reportable maxParts part.1)
    (hsend : Sendable reportPartCount 1 history part) :
    ∃ a', addReportPart a part = (.ok (completed reportPartCount history part), a') ∧
      HoldsReport maxParts a' (history ++ [part]) := by
  obtain ⟨report, j⟩ := part
  obtain ⟨t, hactive, ht⟩ := active_sent h hsend
  have hj : j < reportPartCount report := hsend.lt
  have hlen : (reportPart (report, j)).experts.length ≤ maxControlEntriesPerPart :=
    length_slice_le _ _ _
  obtain ⟨hrepeated, hnew⟩ := add_bounded (h.maxParts ▸ hreport) hj hlen hactive
  have honly : ∀ {other}, other ∈ openKeys reportPartCount (history ++ [(report, j)]) →
      other = report := open_after h hsend
  have hsingle : (openKeys reportPartCount (history ++ [(report, j)])).length ≤ 1 :=
    (show (openKeys reportPartCount (history ++ [(report, j)])).Subperm [report] from
      List.subperm_of_subset nodup_openKeys fun other hother =>
        List.mem_singleton.mpr (honly hother)).length_le
  have hseen : ∀ i, ((report, i) ∈ history ++ [(report, j)]) ↔
      ((report, i) ∈ history ∨ i = j) := fun i => by
    rw [List.mem_append, List.mem_singleton, Prod.mk.injEq, eq_self, true_and]
  -- the assembler when the table is `t'` and the report not complete, or complete
  have hopened : ∀ t',
      Gathered t' (slices report.experts) (fun i => (report, i) ∈ history ∨ i = j) →
      ¬Complete reportPartCount (history ++ [(report, j)]) report →
      HoldsReport maxParts { a with active := some (reportTable report t') }
        (history ++ [(report, j)]) := by
    intro t' ht' hincomplete
    refine ⟨h.maxParts, hsingle, fun other hother => ?_, fun hnil => ?_⟩
    · rw [honly hother]
      exact ⟨t', rfl, ht'.congr hseen⟩
    · have hmem := (@mem_openKeys_self _ _ reportPartCount history (report, j)).mpr hincomplete
      rw [hnil] at hmem
      cases hmem
  have hclosed : Complete reportPartCount (history ++ [(report, j)]) report →
      HoldsReport maxParts { a with active := none } (history ++ [(report, j)]) := by
    intro hcomplete
    refine ⟨h.maxParts, hsingle, fun other hother => ?_, fun _ => rfl⟩
    have hopen := (mem_openKeys.mp hother).2
    exact absurd (honly hother ▸ hcomplete) hopen
  unfold addReportPart completed
  by_cases hin : (report, j) ∈ history
  · have hincomplete : ¬Complete reportPartCount (history ++ [(report, j)]) report := by
      intro hcomplete
      refine hsend.incomplete fun i hi => ?_
      rcases (hseen i).mp (hcomplete i hi) with hi' | rfl
      · exact hi'
      · exact hin
    have hadd := hrepeated _ ((ht.held j hin).2.trans (getElem?_slices hj))
    rw [if_pos rfl] at hadd
    rw [if_neg hincomplete]
    exact ⟨_, hadd, hopened t (ht.congr fun i => or_iff_left_of_imp fun hi => hi ▸ hin) hincomplete⟩
  · have hadd := hnew (ht.absent j hin)
    have ht' := ht.insert (getElem?_slices hj)
    have hfull : (t.insert j (reportPart (report, j)).experts).size = reportPartCount report ↔
        Complete reportPartCount (history ++ [(report, j)]) report :=
      (slices_size ht').trans (forall₂_congr fun i _ => (hseen i).symm)
    by_cases hcomplete : Complete reportPartCount (history ++ [(report, j)]) report
    · have hsize := hfull.mpr hcomplete
      rw [if_neg (not_not.mpr hsize), finish_gathered hreport ht' hsize] at hadd
      rw [if_pos hcomplete]
      exact ⟨_, hadd, hclosed hcomplete⟩
    · rw [if_pos fun hsize => hcomplete (hfull.mp hsize)] at hadd
      rw [if_neg hcomplete]
      exact ⟨_, hadd, hopened _ ht' hcomplete⟩

/-- a repeated part with other entries is refused and changes nothing -/
theorem add_changedReport (h : HoldsReport maxParts a history)
    (hreport : Reportable maxParts report) (hopen : report ∈ openKeys reportPartCount history)
    {j : Nat} (hseen : (report, j) ∈ history) {experts : List ExpertState}
    (hlen : experts.length ≤ maxControlEntriesPerPart)
    (hne : experts ≠ (reportPart (report, j)).experts) :
    a.add { reportPart (report, j) with experts := experts } =
      (.error ⟨"full state part was repeated with different data"⟩, a) := by
  obtain ⟨t, hactive, ht⟩ := h.held report hopen
  have hlength : (slices report.experts).length = reportPartCount report := length_slices
  have hj : j < reportPartCount report := hlength ▸ (ht.held j hseen).1
  have hadd := (add_bounded (h.maxParts ▸ hreport) hj hlen (by rw [hactive]; rfl)).1 _
    ((ht.held j hseen).2.trans (getElem?_slices hj))
  rw [if_neg fun he => hne he.symm] at hadd
  rw [hadd, ← hactive]

end

/-! ## every stream that fits -/

/-- the parts of reports, one report after the other, in any order and repeated before the last
missing part: no error, each report as it was cut with its last missing part, and nothing else; a
part repeated with other entries is refused -/
theorem reports_any_order {a : FullStateAssembler} (hidle : a.active = none)
    {stream : List (CompleteStateReport × Nat)}
    (hstream : ∀ part ∈ stream, Reportable a.maxParts part.1)
    (hfits : Fits reportPartCount 1 stream) :
    ∃ a', a.addAll (stream.map reportPart) = (.ok (completions reportPartCount stream), a') ∧
      (openKeys reportPartCount stream = [] → a' = a) ∧
      ∀ part ∈ stream, part.1 ∈ openKeys reportPartCount stream → ∀ experts : List ExpertState,
        experts.length ≤ maxControlEntriesPerPart → experts ≠ (reportPart part).experts →
        a'.add { reportPart part with experts := experts } =
          (.error ⟨"full state part was repeated with different data"⟩, a') := by
  have hstart : HoldsReport a.maxParts a [] :=
    ⟨rfl, Nat.zero_le _, fun d hd => absurd hd List.not_mem_nil, fun _ => hidle⟩
  have hstep : ∀ a' history (part : CompleteStateReport × Nat), HoldsReport a.maxParts a' history →
      (Reportable a.maxParts part.1 ∧ Sendable reportPartCount 1 history part) →
      ∃ a'', addReportPart a' part = (.ok (completed reportPartCount history part), a'') ∧
        HoldsReport a.maxParts a'' (history ++ [part]) :=
    fun _ _ _ ha hpart => add_reportPart ha hpart.1 hpart.2
  obtain ⟨a', hfeed, ha'⟩ := feed_spec hstep hstart (Allowed.and_forall hfits hstream)
  rw [List.nil_append] at ha'
  refine ⟨a', (addAll_reportParts _ _).trans hfeed, fun hnil => ?_, ?_⟩
  · have hactive := ha'.absent hnil
    have hparts := ha'.maxParts
    cases a
    cases a'
    simp only at hidle hactive hparts
    rw [hidle, hactive, hparts]
  · rintro ⟨report, j⟩ hpart hopen experts hlen hne
    exact add_changedReport ha' (hstream _ hpart) hopen hpart hlen hne

/-- a report of two parts -/
def longReport : CompleteStateReport :=
  ⟨3, 1, true, (List.range 65).map fun n => ⟨0, n, 2, none⟩⟩

/-- an empty report -/
def emptyReport : CompleteStateReport := ⟨3, 2, true, []⟩

/-- the last part first and twice, and then the empty report -/
def swappedReports : List (CompleteStateReport × Nat) :=
  [(longReport, 1), (longReport, 1), (longReport, 0), (emptyReport, 0)]

theorem reports_any_order_swapped : ∃ a,
    FullStateAssembler.addAll ⟨2, none⟩ (swappedReports.map reportPart) =
      (.ok [longReport, emptyReport], a) := by
  have hreports : ∀ part ∈ swappedReports, Reportable 2 part.1 := by
    have hlong : Reportable 2 longReport := ⟨rfl, by decide, by decide +kernel, by decide +kernel⟩
    have hempty : Reportable 2 emptyReport := ⟨rfl, by decide, by decide +kernel, by decide +kernel⟩
    simp only [swappedReports, List.forall_mem_cons]
    exact ⟨hlong, hlong, hlong, hempty, fun _ h => absurd h List.not_mem_nil⟩
  have hfits : Fits reportPartCount 1 swappedReports := by decide +kernel
  obtain ⟨a, ha, -⟩ := @reports_any_order ⟨2, none⟩ rfl _ hreports hfits
  have hcompletions : completions reportPartCount swappedReports = [longReport, emptyReport] := by
    decide +kernel
  rw [hcompletions] at ha
  exact ⟨a, ha⟩

end ExpertKit.Control

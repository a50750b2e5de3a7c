import ExpertKit.Lib.Gathering
import ExpertKit.Control.DrainDelivery

/-!
# Weight control: drain parts in any order

The parts that `drain_authorization` of the Controller cuts a drain into, fed to
`DrainAuthorizationAssembler` of the Worker in any order, repeated, and interleaved with the parts
of other drains.

* `sentPart`              a part of a drain record;
* `HoldsDrains`           the assembler after the parts consumed;
* `add_sentPart`          one part more;
* `drains_any_order`      every stream of parts that fits the bound of pending drains.
-/

namespace ExpertKit.Control
open Std Controller Parts

/-! ## the parts -/

def recordPartCount (d : DrainRecord) : Nat := Worker.drainPartCount (wireAuthorization d)

/-- part `j` of the record's authorization -/
def sentPart (part : DrainRecord × Nat) : DrainAuthorizationPart :=
  Worker.drainPartAt (wireAuthorization part.1) part.2

theorem getElem?_drainAuthorization {d : DrainRecord} {j : Nat} (h : j < recordPartCount d) :
    (drainAuthorization d).parts[j]? = some (sentPart (d, j)) :=
  Worker.getElem?_drainParts h

theorem length_sent (d : DrainRecord) :
    (Worker.drainParts (wireAuthorization d)).length = recordPartCount d := Worker.length_drainParts

/-- the assembler is fed a stream of parts -/
def addPart (a : Worker.DrainAuthorizationAssembler) (part : DrainRecord × Nat) :
    Except Worker.ValueError (Option Worker.DrainAuthorization) ×
      Worker.DrainAuthorizationAssembler :=
  a.add (sentPart part)

theorem addAll_sent (a : Worker.DrainAuthorizationAssembler) (stream : List (DrainRecord × Nat)) :
    a.addAll (stream.map sentPart) = feed addPart a stream := by
  induction stream generalizing a with
  | nil => rfl
  | cons part rest ih =>
    rw [List.map_cons, Worker.DrainAuthorizationAssembler.addAll, feed]
    simp only [ih]
    rw [show addPart a part = a.add (sentPart part) from rfl]
    rcases a.add (sentPart part) with ⟨_ | _, a'⟩
    · rfl
    · dsimp only
      rcases feed addPart a' rest with ⟨_ | _, _⟩ <;> rfl

/-! ## the assembler after the parts consumed -/

section
variable {maxExperts : Nat} {a : Worker.DrainAuthorizationAssembler} {d : DrainRecord}
  {history : List (DrainRecord × Nat)} {t : ExtTreeMap Nat DrainAuthorizationPart}
  {seen : Nat → Prop}

/-- the parts of the drain that are held -/
def drainTable (d : DrainRecord) (t : ExtTreeMap Nat DrainAuthorizationPart) : Worker.DrainParts :=
  ⟨d.placementGeneration, d.minTopologyVersion, d.stopAll, recordPartCount d, t⟩

/-- the open drains are pending with the parts consumed, and no other drain is -/
structure HoldsDrains (maxExperts : Nat) (a : Worker.DrainAuthorizationAssembler)
    (history : List (DrainRecord × Nat)) : Prop where
  maxExperts : a.maxExperts = maxExperts
  held : ∀ d ∈ openKeys recordPartCount history, ∃ t,
    a.pending[d.drainId]? = some (drainTable d t) ∧
    Gathered t (Worker.drainParts (wireAuthorization d)) fun j => (d, j) ∈ history
  absent : ∀ id, (∀ d ∈ openKeys recordPartCount history, d.drainId ≠ id) → a.pending[id]? = none

/-- drains with one number are the same record -/
def Numbered (history : List (DrainRecord × Nat)) : Prop :=
  ∀ p ∈ history, ∀ p' ∈ history, p.1.drainId = p'.1.drainId → p.1 = p'.1

theorem mem_of_open (h : d ∈ openKeys recordPartCount history) : ∃ j, (d, j) ∈ history :=
  (mem_openKeys.mp h).1

theorem HoldsDrains.size (h : HoldsDrains maxExperts a history) (hnumbered : Numbered history) :
    a.pending.size = (openKeys recordPartCount history).length := by
  have hnodup : ((openKeys recordPartCount history).map DrainRecord.drainId).Nodup := by
    refine List.Nodup.map_on (fun d hd d' hd' he => ?_) nodup_openKeys
    obtain ⟨j, hj⟩ := mem_of_open hd
    obtain ⟨j', hj'⟩ := mem_of_open hd'
    exact hnumbered _ hj _ hj' he
  have hperm :
      a.pending.keys.Perm ((openKeys recordPartCount history).map DrainRecord.drainId) := by
    refine (List.perm_ext_iff_of_nodup ExtTreeMap.nodup_keys hnodup).mpr fun id => ?_
    rw [ExtTreeMap.mem_keys, ← ExtTreeMap.isSome_getElem?_iff_mem, List.mem_map]
    constructor
    · intro hsome
      by_contra hnone
      rw [h.absent id fun d hd he => hnone ⟨d, hd, he⟩] at hsome
      cases hsome
    · rintro ⟨d, hd, rfl⟩
      obtain ⟨t, hget, -⟩ := h.held d hd
      rw [hget]
      rfl
  rw [← ExtTreeMap.length_keys, hperm.length_eq, List.length_map]

theorem sent_size (ht : Gathered t (Worker.drainParts (wireAuthorization d)) seen) :
    t.size = recordPartCount d ↔ ∀ j < recordPartCount d, seen j := by
  rw [← length_sent]
  exact ht.size_eq_iff

/-- the checks of a drain whose parts are held -/
theorem finishDrain_gathered (hok : DrainOk d) (hdeliverable : Deliverable d a.maxExperts)
    (ht : Gathered t (Worker.drainParts (wireAuthorization d)) seen) :
    Worker.finishDrain (a.keep d.drainId (drainTable d t)) d.drainId (drainTable d t) =
      if t.size = recordPartCount d then
        (.ok (some (wireAuthorization d)), { a with pending := a.pending.erase d.drainId })
      else (.ok none, a.keep d.drainId (drainTable d t)) := by
  unfold Worker.finishDrain
  change (if t.size ≠ recordPartCount d then _ else _) = _
  by_cases hfull : t.size = recordPartCount d
  · rw [if_neg (not_not.mpr hfull), if_pos hfull]
    have hfilled : Filled t (Worker.drainParts (wireAuthorization d))
        (Worker.drainParts (wireAuthorization d)).length :=
      ht.filled fun j hj => (sent_size ht).mp hfull j (length_sent d ▸ hj)
    have hexperts : ((List.range (recordPartCount d)).filterMap fun i => t[i]?).flatMap
        DrainAuthorizationPart.experts = d.experts.toList := by
      rw [← length_sent, hfilled.ordered, Worker.flatMap_drainParts]
      rfl
    have hnamed : ¬(d.experts.toList.isEmpty = true ∧ d.stopAll = false) := by
      rintro ⟨hempty, hstop⟩
      have hsome := hok.named hstop
      rw [ExtTreeSet.isEmpty_toList] at hempty
      rw [hempty] at hsome
      cases hsome
    have hlen : ¬a.maxExperts < d.experts.toList.length := by
      rw [ExtTreeSet.length_toList]
      exact Nat.not_lt.mpr hdeliverable.2.2
    simp only [drainTable, hexperts, toList_nodup, not_true_eq_false, if_false]
    rw [if_neg (show ¬(a.keep d.drainId _).maxExperts < _ from hlen), if_neg hnamed,
      Worker.keep_erase]
    rfl
  · rw [if_pos hfull, if_neg hfull]

theorem sentPart_checked (hok : DrainOk d) (hdeliverable : Deliverable d a.maxExperts) {j : Nat}
    (hj : j < recordPartCount d) (hmax : 0 < a.maxExperts) :
    Worker.checkDrainPart a.maxExperts (sentPart (d, j)) = .ok () := by
  have hcount : recordPartCount d ≤ a.maxExperts := by
    have hlen : (wireAuthorization d).experts.length = d.experts.size := ExtTreeSet.length_toList
    have hexperts := hdeliverable.2.2
    unfold recordPartCount Worker.drainPartCount Parts.partCount maxControlEntriesPerPart
    omega
  exact (Worker.checkDrainPart_iff _ _).mpr ⟨⟨hok.id_pos, hok.id_le⟩,
    ⟨hdeliverable.1, hok.generation_le⟩, ⟨hdeliverable.2.1, hok.version_le⟩,
    (Worker.validatePart_iff hj).mpr hcount⟩

/-- the drain that a sendable part belongs to, with the parts consumed -/
theorem currentDrain_sent (h : HoldsDrains maxExperts a history) {j : Nat}
    (hnumbered : Numbered (history ++ [(d, j)]))
    (hsend : Sendable recordPartCount Worker.maxPendingDrains history (d, j)) :
    ∃ t, Worker.currentDrain a (sentPart (d, j)) = .ok (drainTable d t) ∧
      Gathered t (Worker.drainParts (wireAuthorization d)) fun j => (d, j) ∈ history := by
  have hsub : Numbered history := fun p hp p' hp' =>
    hnumbered p (List.mem_append_left _ hp) p' (List.mem_append_left _ hp')
  unfold Worker.currentDrain
  rw [show (sentPart (d, j)).drainId = d.drainId from rfl]
  by_cases hopen : d ∈ openKeys recordPartCount history
  · obtain ⟨t, hget, ht⟩ := h.held d hopen
    exact ⟨t, by rw [hget], ht⟩
  · have hnone : a.pending[d.drainId]? = none := by
      refine h.absent _ fun d' hd' he => hopen ?_
      obtain ⟨j', hj'⟩ := mem_of_open hd'
      have hsame : d' = d := hnumbered _ (List.mem_append_left _ hj') (d, j)
        (List.mem_append_right _ (List.mem_singleton_self _)) he
      exact hsame ▸ hd'
    refine ⟨∅, ?_, .empty _ fun j => not_seen_of_not_open hopen hsend.incomplete j⟩
    have hroom := hsend.room hopen
    rw [← h.size hsub] at hroom
    rw [hnone]
    simp only [if_neg (Nat.not_le.mpr hroom)]
    rfl

/-- what the table holds after the part is what was consumed -/
theorem add_sent_table (hok : DrainOk d) (hdeliverable : Deliverable d a.maxExperts)
    (hmax : 0 < a.maxExperts) {j : Nat} (hj : j < recordPartCount d)
    (hcurrent : Worker.currentDrain a (sentPart (d, j)) = .ok (drainTable d t))
    (ht : Gathered t (Worker.drainParts (wireAuthorization d)) seen) :
    ∃ t', a.add (sentPart (d, j)) = Worker.finishDrain (a.keep d.drainId (drainTable d t'))
        d.drainId (drainTable d t') ∧
      Gathered t' (Worker.drainParts (wireAuthorization d)) fun i => seen i ∨ i = j := by
  have hpart : (Worker.drainParts (wireAuthorization d))[j]? = some (sentPart (d, j)) :=
    getElem?_drainAuthorization hj
  unfold Worker.DrainAuthorizationAssembler.add
  rw [sentPart_checked hok hdeliverable hj hmax, hcurrent]
  simp only
  rw [if_neg (by
    simp only [sentPart, Worker.drainPartAt, wireAuthorization, drainTable, recordPartCount, ne_eq,
      not_true_eq_false, or_self, not_false_eq_true])]
  by_cases hseen : seen j
  · have hget : (drainTable d t).parts[(sentPart (d, j)).partIndex]? = some (sentPart (d, j)) :=
      (ht.held j hseen).2.trans hpart
    refine ⟨t, ?_, ht.congr fun i => or_iff_left_of_imp fun hi => hi ▸ hseen⟩
    rw [hget]
    simp only [ne_eq, not_true_eq_false, if_false]
    rfl
  · have hget : (drainTable d t).parts[(sentPart (d, j)).partIndex]? = none := ht.absent j hseen
    refine ⟨t.insert j (sentPart (d, j)), ?_, ht.insert hpart⟩
    rw [hget]
    rfl

theorem add_sentPart (h : HoldsDrains maxExperts a history) {part : DrainRecord × Nat}
    (hok : DrainOk part.1) (hdeliverable : Deliverable part.1 maxExperts) (hmax : 0 < maxExperts)
    (hnumbered : Numbered (history ++ [part]))
    (hsend : Sendable recordPartCount Worker.maxPendingDrains history part) :
    ∃ a', addPart a part = (.ok ((completed recordPartCount history part).map wireAuthorization),
        a') ∧ HoldsDrains maxExperts a' (history ++ [part]) := by
  obtain ⟨d, j⟩ := part
  obtain ⟨t, hcurrent, ht⟩ := currentDrain_sent h hnumbered hsend
  have hm := h.maxExperts
  obtain ⟨t', hadd, ht'⟩ := add_sent_table hok (hm ▸ hdeliverable) (hm ▸ hmax) hsend.lt hcurrent ht
  rw [finishDrain_gathered hok (hm ▸ hdeliverable) ht'] at hadd
  have hseen : ∀ i, ((d, i) ∈ history ++ [(d, j)]) ↔ ((d, i) ∈ history ∨ i = j) := fun i => by
    rw [List.mem_append, List.mem_singleton, Prod.mk.injEq, eq_self, true_and]
  have hfull : t'.size = recordPartCount d ↔ Complete recordPartCount (history ++ [(d, j)]) d :=
    (sent_size ht').trans (forall₂_congr fun i _ => (hseen i).symm)
  -- another open drain keeps its number and its table
  have hother : ∀ d' ∈ openKeys recordPartCount (history ++ [(d, j)]), d' ≠ d →
      d' ∈ openKeys recordPartCount history ∧ d'.drainId ≠ d.drainId := by
    intro d' hd' hne
    obtain ⟨i, hi⟩ := mem_of_open hd'
    exact ⟨(mem_openKeys_other hne).mp hd', fun he => hne (hnumbered _ hi (d, j)
      (List.mem_append_right _ (List.mem_singleton_self _)) he)⟩
  have hkeep : ∀ d' : DrainRecord, d' ≠ d → ∀ i, ((d', i) ∈ history ++ [(d, j)]) ↔
      (d', i) ∈ history := fun d' hne i => by
    rw [List.mem_append, List.mem_singleton]
    exact or_iff_left fun he => hne (congrArg Prod.fst he)
  unfold addPart completed
  by_cases hcomplete : Complete recordPartCount (history ++ [(d, j)]) d
  · rw [if_pos (hfull.mpr hcomplete)] at hadd
    rw [if_pos hcomplete, hadd]
    refine ⟨_, rfl, hm, fun d' hd' => ?_, fun id hid => ?_⟩
    · have hne : d' ≠ d := by
        rintro rfl
        exact (mem_openKeys.mp hd').2 hcomplete
      obtain ⟨hopen, hid⟩ := hother d' hd' hne
      obtain ⟨t, hget, ht⟩ := h.held d' hopen
      refine ⟨t, ?_, ht.congr (hkeep d' hne)⟩
      change (a.pending.erase d.drainId)[d'.drainId]? = _
      rw [Maps.getElem?_erase_eq, if_neg fun he => hid he.symm]
      exact hget
    · change (a.pending.erase d.drainId)[id]? = none
      rw [Maps.getElem?_erase_eq]
      split_ifs with he
      · rfl
      · refine h.absent id fun d' hd' he' => ?_
        have hne : d' ≠ d := fun hd => he (hd ▸ he')
        exact hid d' ((mem_openKeys_other hne).mpr hd') he'
  · rw [if_neg fun hsize => hcomplete (hfull.mp hsize)] at hadd
    rw [if_neg hcomplete, hadd]
    have hopen : d ∈ openKeys recordPartCount (history ++ [(d, j)]) :=
      (@mem_openKeys_self _ _ recordPartCount history (d, j)).mpr hcomplete
    refine ⟨_, rfl, hm, fun d' hd' => ?_, fun id hid => ?_⟩
    · change ∃ t, (a.pending.insert d.drainId (drainTable d t'))[d'.drainId]? = _ ∧ _
      by_cases hne : d' = d
      · subst hne
        refine ⟨t', ?_, ht'.congr hseen⟩
        rw [Maps.getElem?_insert_eq, if_pos rfl]
      · obtain ⟨hopen', hid⟩ := hother d' hd' hne
        obtain ⟨t, hget, ht⟩ := h.held d' hopen'
        refine ⟨t, ?_, ht.congr (hkeep d' hne)⟩
        rw [Maps.getElem?_insert_eq, if_neg fun he => hid he.symm]
        exact hget
    · change (a.pending.insert d.drainId (drainTable d t'))[id]? = none
      rw [Maps.getElem?_insert_eq, if_neg (hid d hopen)]
      refine h.absent id fun d' hd' he' => ?_
      by_cases hne : d' = d
      · exact hid d hopen (hne ▸ he')
      · exact hid d' ((mem_openKeys_other hne).mpr hd') he'

/-- a repeated part with other experts is refused and changes nothing -/
theorem add_changed (h : HoldsDrains maxExperts a history) (hok : DrainOk d)
    (hdeliverable : Deliverable d maxExperts) (hmax : 0 < maxExperts)
    (hopen : d ∈ openKeys recordPartCount history) {j : Nat} (hseen : (d, j) ∈ history)
    {experts : List ExpertKey} (hlen : experts.length ≤ Worker.maxExpertsPerControlPart)
    (hne : experts ≠ (sentPart (d, j)).experts) :
    a.add { sentPart (d, j) with experts := experts } =
      (.error ⟨"drain stream repeated one part with different content"⟩, a) := by
  obtain ⟨t, hget, ht⟩ := h.held d hopen
  have hj : j < recordPartCount d := length_sent d ▸ (ht.held j hseen).1
  have hm := h.maxExperts
  have hchecked : Worker.checkDrainPart a.maxExperts { sentPart (d, j) with experts := experts } =
      .ok () := by
    obtain ⟨hid, hgeneration, hversion, hbounds⟩ := (Worker.checkDrainPart_iff _ _).mp
      (sentPart_checked hok (hm ▸ hdeliverable) hj (hm ▸ hmax))
    refine (Worker.checkDrainPart_iff _ _).mpr ⟨hid, hgeneration, hversion, ?_⟩
    have hcount := (Worker.validatePart_iff hj).mp hbounds
    have hsize := Worker.drainPartSize_le { sentPart (d, j) with experts := experts } hlen
    have hindex : j < recordPartCount d := hj
    change Worker.validatePart _ j (recordPartCount d) experts.length a.maxExperts = _
    unfold Worker.validatePart
    rw [if_neg (by
      change recordPartCount d ≤ a.maxExperts at hcount
      omega), if_neg (by omega), if_neg (by omega), if_neg (by omega)]
  have hcurrent : Worker.currentDrain a { sentPart (d, j) with experts := experts } =
      .ok (drainTable d t) := by
    unfold Worker.currentDrain
    rw [show a.pending[({ sentPart (d, j) with experts := experts } :
      DrainAuthorizationPart).drainId]? = some (drainTable d t) from hget]
  have hprevious : (drainTable d t).parts[j]? = some (sentPart (d, j)) :=
    (ht.held j hseen).2.trans (getElem?_drainAuthorization hj)
  have hkeep : a.keep d.drainId (drainTable d t) = a := by
    unfold Worker.DrainAuthorizationAssembler.keep
    rw [show a.pending.insert d.drainId (drainTable d t) = a.pending from ?_]
    refine ExtTreeMap.ext_getElem? fun id => ?_
    rw [Maps.getElem?_insert_eq]
    split_ifs with hid
    · rw [← hid, hget]
    · rfl
  unfold Worker.DrainAuthorizationAssembler.add
  rw [hchecked, hcurrent]
  simp only
  rw [if_neg (by
    simp only [sentPart, Worker.drainPartAt, wireAuthorization, drainTable, recordPartCount, ne_eq,
      not_true_eq_false, or_self, not_false_eq_true])]
  rw [show (drainTable d t).parts[({ sentPart (d, j) with experts := experts } :
    DrainAuthorizationPart).partIndex]? = some (sentPart (d, j)) from hprevious]
  simp only
  rw [if_pos fun he => hne (congrArg DrainAuthorizationPart.experts he).symm]
  exact congrArg _ hkeep

end

/-! ## every stream that fits -/

/-- the parts of any drains in any order, repeated before the last missing part and interleaved up
to the bound of pending drains: no error, each drain as it was recorded with its last missing part,
and nothing else; a part repeated with other experts is refused -/
theorem drains_any_order {maxExperts : Nat} (hmax : 0 < maxExperts) {records : List DrainRecord}
    (hrecords : ∀ d ∈ records, DrainOk d ∧ Deliverable d maxExperts)
    (hids : ∀ d ∈ records, ∀ d' ∈ records, d.drainId = d'.drainId → d = d')
    {stream : List (DrainRecord × Nat)} (hstream : ∀ part ∈ stream, part.1 ∈ records)
    (hfits : Fits recordPartCount Worker.maxPendingDrains stream) :
    ∃ a : Worker.DrainAuthorizationAssembler,
      (⟨maxExperts, ∅⟩ : Worker.DrainAuthorizationAssembler).addAll (stream.map sentPart) =
        (.ok ((completions recordPartCount stream).map wireAuthorization), a) ∧
      a.pending.size = (openKeys recordPartCount stream).length ∧
      ∀ part ∈ stream, part.1 ∈ openKeys recordPartCount stream → ∀ experts : List ExpertKey,
        experts.length ≤ Worker.maxExpertsPerControlPart → experts ≠ (sentPart part).experts →
        a.add { sentPart part with experts := experts } =
          (.error ⟨"drain stream repeated one part with different content"⟩, a) := by
  have hnumbered : ∀ history : List (DrainRecord × Nat), (∀ p ∈ history, p.1 ∈ records) →
      Numbered history := fun history hin p hp p' hp' => hids _ (hin p hp) _ (hin p' hp')
  have hstep : ∀ a history (part : DrainRecord × Nat),
      (HoldsDrains maxExperts a history ∧ ∀ p ∈ history, p.1 ∈ records) →
      (part.1 ∈ records ∧ Sendable recordPartCount Worker.maxPendingDrains history part) →
      ∃ a', addPart a part =
          (.ok ((completed recordPartCount history part).map wireAuthorization), a') ∧
        HoldsDrains maxExperts a' (history ++ [part]) ∧ ∀ p ∈ history ++ [part], p.1 ∈ records := by
    rintro a history part ⟨ha, hhistory⟩ ⟨hpart, hsend⟩
    have hin : ∀ p ∈ history ++ [part], p.1 ∈ records := fun p hp => by
      rcases List.mem_append.mp hp with hp | hp
      · exact hhistory p hp
      · exact List.mem_singleton.mp hp ▸ hpart
    obtain ⟨a', hadd, ha'⟩ := add_sentPart ha (hrecords _ hpart).1 (hrecords _ hpart).2 hmax
      (hnumbered _ hin) hsend
    exact ⟨a', hadd, ha', hin⟩
  have hstart : HoldsDrains maxExperts ⟨maxExperts, ∅⟩ [] :=
    ⟨rfl, fun d hd => absurd hd List.not_mem_nil, fun id _ => by simp⟩
  obtain ⟨a, hfeed, ha, -⟩ := feed_spec hstep ⟨hstart, fun _ hp => absurd hp List.not_mem_nil⟩
    (Allowed.and_forall hfits hstream)
  rw [List.nil_append] at ha
  rw [collect_map] at hfeed
  refine ⟨a, (addAll_sent _ _).trans hfeed, ha.size (hnumbered stream hstream), ?_⟩
  rintro ⟨d, j⟩ hpart hopen experts hlen hne
  exact add_changed ha (hrecords _ (hstream _ hpart)).1 (hrecords _ (hstream _ hpart)).2 hmax hopen
    hpart hlen hne

/-- a drain of two parts -/
def longDrain : DrainRecord :=
  ⟨1, 3, 9, false, ExtTreeSet.ofList ((List.range 65).map fun n => (⟨0, n⟩ : ExpertKey)), false⟩

/-- a shutdown of a Worker that serves nothing -/
def emptyShutdown : DrainRecord := ⟨2, 3, 9, true, ∅, false⟩

/-- the last part first and twice, and the shutdown between the parts -/
def swappedParts : List (DrainRecord × Nat) :=
  [(longDrain, 1), (emptyShutdown, 0), (longDrain, 1), (longDrain, 0)]

theorem drains_any_order_swapped : ∃ a : Worker.DrainAuthorizationAssembler,
    (⟨100, ∅⟩ : Worker.DrainAuthorizationAssembler).addAll (swappedParts.map sentPart) =
      (.ok ([emptyShutdown, longDrain].map wireAuthorization), a) := by
  have hlong : DrainOk longDrain ∧ Deliverable longDrain 100 :=
    ⟨⟨by decide, by decide, by decide, by decide, by decide +kernel⟩,
      by decide, by decide, by decide +kernel⟩
  have hempty : DrainOk emptyShutdown ∧ Deliverable emptyShutdown 100 :=
    ⟨⟨by decide, by decide, by decide, by decide, fun h => absurd h (by decide)⟩,
      by decide, by decide, by decide +kernel⟩
  have hrecords : ∀ d ∈ [longDrain, emptyShutdown], DrainOk d ∧ Deliverable d 100 := by
    simp only [List.forall_mem_cons]
    exact ⟨hlong, hempty, fun _ h => absurd h List.not_mem_nil⟩
  have hstream : ∀ part ∈ swappedParts, part.1 ∈ [longDrain, emptyShutdown] := by decide +kernel
  have hfits : Fits recordPartCount Worker.maxPendingDrains swappedParts := by decide +kernel
  obtain ⟨a, ha, -⟩ := drains_any_order (by decide : 0 < 100) hrecords (by decide +kernel) hstream
    hfits
  have hcompletions : completions recordPartCount swappedParts = [emptyShutdown, longDrain] := by
    decide +kernel
  rw [hcompletions] at ha
  exact ⟨a, ha⟩

end ExpertKit.Control

import ExpertKit.Frontend.Assembler

/-!
# Frontend: which messages the assembler accepts

* `ValidReplica`, `WireEntries`   what the entries of one message must satisfy;
* `decodeRoutes_ok`        such entries decode to their descriptions;
* `completeSnapshot_ok`, `completeUpdate_ok`   a complete message that joins the installed view;
* `feed_parts`             the parts of one message, fed in order, are one complete message.
-/

set_option linter.unusedSectionVars false

namespace ExpertKit.Frontend
open Std

/-! ## well-formed entries -/

structure ValidReplica (r : ExpertKit.WorkerRoute) : Prop where
  workerId : r.workerId ≠ ""
  startId : r.startId ≠ ""
  endpoint : r.computationEndpoint ≠ ""
  device : r.device ≠ ""
  active : 0 < r.maxActiveBatches
  waiting : 0 < r.maxPendingBatches
  tokens : 0 < r.maxBatchTokens
  transport : r.transportType = 1 ∨ r.transportType = 2

/-- the entries of one message: one entry per key, and one description per Worker -/
structure WireEntries (entries : List RouteEntry) : Prop where
  distinct : entries.Pairwise fun a b => a.key ≠ b.key
  valid : ∀ e ∈ entries, ∀ r ∈ e.replicas, ValidReplica r
  processes : ∀ e ∈ entries, e.replicas.Pairwise fun a b => a.workerId ≠ b.workerId
  consistent : ∀ e ∈ entries, ∀ f ∈ entries, ∀ a ∈ e.replicas, ∀ b ∈ f.replicas,
    a.workerId = b.workerId → a = b

def InModel (numLayers expertsPerLayer : Nat) (key : ExpertKey) : Prop :=
  key.layerId < numLayers ∧ key.expertId < expertsPerLayer

instance (numLayers expertsPerLayer : Nat) (key : ExpertKey) :
    Decidable (InModel numLayers expertsPerLayer key) :=
  inferInstanceAs (Decidable (key.layerId < numLayers ∧ key.expertId < expertsPerLayer))

theorem checkReplica_ok {r : ExpertKit.WorkerRoute} (h : ValidReplica r) :
    checkReplica r = .ok () := by
  have hpos : ∀ name n, 0 < n → validatePositive name n = .ok () := by
    intro name n hn
    unfold validatePositive
    rw [if_neg (by omega)]
  unfold checkReplica
  rw [hpos _ _ h.active, hpos _ _ h.waiting, hpos _ _ h.tokens]
  rcases h.transport with ht | ht <;>
    simp [h.workerId, h.startId, h.endpoint, h.device, ht, bind, Except.bind, pure, Except.pure]

/-! ## decoding -/

/-- the recorded descriptions all come from the replicas `rs` -/
def MetadataOf (rs : List ExpertKit.WorkerRoute) (metadata : WorkerMetadata) : Prop :=
  ∀ id d, metadata.lookup id = some d → ∃ r ∈ rs, d = describe r ∧ id = (describe r).identity

theorem MetadataOf.push {rs : List ExpertKit.WorkerRoute} {metadata : WorkerMetadata}
    (h : MetadataOf rs metadata) {r : ExpertKit.WorkerRoute} (hr : r ∈ rs) :
    MetadataOf rs (metadata ++ [((describe r).identity, describe r)]) := by
  intro id d hl
  rw [List.lookup_append] at hl
  cases hm : metadata.lookup id with
  | some d' =>
    rw [hm] at hl
    simp only [Option.some_or, Option.some.injEq] at hl
    exact hl ▸ h id d' hm
  | none =>
    rw [hm] at hl
    simp only [Option.none_or, List.lookup_cons, List.lookup_nil] at hl
    split at hl
    · rename_i heq
      simp only [Option.some.injEq] at hl
      exact ⟨r, hr, hl.symm, by simpa using heq⟩
    · cases hl

theorem decodeReplicas_ok {rs replicas : List ExpertKit.WorkerRoute}
    (hcons : ∀ a ∈ rs, ∀ b ∈ rs, a.workerId = b.workerId → a = b)
    (hsub : ∀ r ∈ replicas, r ∈ rs) (hvalid : ∀ r ∈ replicas, ValidReplica r)
    (hdist : replicas.Pairwise fun a b => a.workerId ≠ b.workerId)
    (identities : List WorkerIdentity)
    (hid : ∀ r ∈ replicas, ∀ id ∈ identities, id.workerId ≠ r.workerId)
    (metadata : WorkerMetadata) (hm : MetadataOf rs metadata) :
    ∃ metadata', MetadataOf rs metadata' ∧
      decodeReplicas metadata identities replicas = .ok (replicas.map describe, metadata') := by
  induction replicas generalizing identities metadata with
  | nil => exact ⟨metadata, hm, rfl⟩
  | cons r replicas ih =>
    rw [List.pairwise_cons] at hdist
    have hr : r ∈ rs := hsub r List.mem_cons_self
    have hnew : (describe r).identity ∉ identities := by
      intro h
      exact hid r List.mem_cons_self _ h rfl
    have hexisting : ((metadata.lookup (describe r).identity).getD (describe r)) = describe r := by
      cases hl : metadata.lookup (describe r).identity with
      | none => rfl
      | some d =>
        obtain ⟨r', hr', hd, hi⟩ := hm _ _ hl
        have hid' : r.workerId = r'.workerId := congrArg WorkerIdentity.workerId hi
        rw [hcons r hr r' hr' hid', hd]
        rfl
    obtain ⟨metadata', hm', hrest⟩ := ih
      (fun a ha => hsub a (List.mem_cons_of_mem _ ha))
      (fun a ha => hvalid a (List.mem_cons_of_mem _ ha)) hdist.2
      ((describe r).identity :: identities)
      (by
        intro a ha id hi
        rcases List.mem_cons.mp hi with rfl | hi
        · exact hdist.1 a ha
        · exact hid a (List.mem_cons_of_mem _ ha) id hi)
      (if (metadata.lookup (describe r).identity).isSome then metadata
        else metadata ++ [((describe r).identity, describe r)])
      (by split_ifs; exacts [hm, hm.push hr])
    refine ⟨metadata', hm', ?_⟩
    unfold decodeReplicas
    rw [checkReplica_ok (hvalid r List.mem_cons_self)]
    simp only [bind, Except.bind, hnew, ↓reduceIte, hexisting, ne_eq, not_true_eq_false, pure,
      Except.pure, hrest, List.map_cons]

/-- the decoded table of a list of entries -/
def decodedTable (decoded : RouteDescriptions) (entries : List RouteEntry) : RouteDescriptions :=
  Maps.insertAll RouteEntry.key (fun e => e.replicas.map describe) decoded entries

theorem decodeLoop_ok {numLayers expertsPerLayer : Nat} {allowEmpty : Bool}
    {entries : List RouteEntry} (rs : List ExpertKit.WorkerRoute)
    (hcons : ∀ a ∈ rs, ∀ b ∈ rs, a.workerId = b.workerId → a = b)
    (hsub : ∀ e ∈ entries, ∀ r ∈ e.replicas, r ∈ rs) (hw : WireEntries entries)
    (hb : ∀ e ∈ entries, InModel numLayers expertsPerLayer e.key)
    (he : ∀ e ∈ entries, allowEmpty = true ∨ e.replicas ≠ [])
    (decoded : RouteDescriptions) (hnew : ∀ e ∈ entries, decoded[e.key]? = none)
    (metadata : WorkerMetadata) (hm : MetadataOf rs metadata) :
    decodeLoop numLayers expertsPerLayer allowEmpty decoded metadata entries
      = .ok (decodedTable decoded entries) := by
  induction entries generalizing decoded metadata with
  | nil => rfl
  | cons e entries ih =>
    have hmem : e ∈ e :: entries := List.mem_cons_self
    have htail : ∀ a ∈ entries, a ∈ e :: entries := fun a ha => List.mem_cons_of_mem _ ha
    have hwt : WireEntries entries :=
      ⟨(List.pairwise_cons.mp hw.distinct).2, fun a ha => hw.valid a (htail a ha),
        fun a ha => hw.processes a (htail a ha),
        fun a ha b hb => hw.consistent a (htail a ha) b (htail b hb)⟩
    obtain ⟨metadata', hm', hrep⟩ := decodeReplicas_ok hcons (hsub e hmem) (hw.valid e hmem)
      (hw.processes e hmem) [] (by simp) metadata hm
    have hbound : (decide (e.layerId ≥ numLayers) || decide (e.expertId ≥ expertsPerLayer))
        = false := by
      have h := hb e hmem
      simp only [Bool.or_eq_false_iff, decide_eq_false_iff_not, ge_iff_le, Nat.not_le]
      exact h
    have hcontains : decoded.contains e.key = false := by
      rw [← ExtTreeMap.isSome_getElem?_eq_contains, hnew e hmem]
      rfl
    have hempty : ((e.replicas.map describe).isEmpty && !allowEmpty) = false := by
      rcases he e hmem with h | h
      · simp [h]
      · simp [h]
    have hrest := ih (fun a ha => hsub a (htail a ha)) hwt (fun a ha => hb a (htail a ha))
      (fun a ha => he a (htail a ha)) (decoded.insert e.key (e.replicas.map describe))
      (by
        intro a ha
        rw [Maps.getElem?_insert_eq, if_neg ((List.pairwise_cons.mp hw.distinct).1 a ha)]
        exact hnew a (htail a ha))
      metadata' hm'
    unfold decodeLoop
    simp only [hbound, hcontains, hrep, hempty, Bool.false_eq_true, ↓reduceIte, bind, Except.bind,
      hrest]
    rfl

theorem decodeRoutes_ok {a : TopologyMessageAssembler} {entries : List RouteEntry}
    {allowEmpty : Bool} (hw : WireEntries entries)
    (hb : ∀ e ∈ entries, InModel a.numLayers a.expertsPerLayer e.key)
    (he : ∀ e ∈ entries, allowEmpty = true ∨ e.replicas ≠ []) :
    decodeRoutes a entries allowEmpty = .ok (decodedTable ∅ entries) := by
  refine decodeLoop_ok (entries.flatMap RouteEntry.replicas) ?_ ?_ hw hb he ∅ (by simp) [] ?_
  · intro r hr r' hr'
    obtain ⟨e, hem, hre⟩ := List.mem_flatMap.mp hr
    obtain ⟨f, hfm, hrf⟩ := List.mem_flatMap.mp hr'
    exact hw.consistent e hem f hfm r hre r' hrf
  · intro e hem r hr
    exact List.mem_flatMap.mpr ⟨e, hem, hr⟩
  · intro id d h
    cases h

/-! ## complete messages -/

theorem completeSnapshot_ok {a : TopologyMessageAssembler} {version installedVersion : Nat}
    {entries : List RouteEntry} {installed : RouteDescriptions} (hw : WireEntries entries)
    (hb : ∀ e ∈ entries, InModel a.numLayers a.expertsPerLayer e.key)
    (he : ∀ e ∈ entries, e.replicas ≠ []) (hv : installedVersion ≤ version)
    (hzero : version = 0 → entries = [])
    (hsame : version = installedVersion → decodedTable ∅ entries = installed) :
    completeSnapshot a version entries installedVersion installed
      = .ok (version, decodedTable ∅ entries) := by
  have hpos : (!(decodedTable ∅ entries).isEmpty && version == 0) = false := by
    by_cases h : version = 0
    · rw [hzero h]
      rfl
    · simp [h]
  have hconf : ¬ (version = installedVersion ∧ decodedTable ∅ entries ≠ installed) :=
    fun h => h.2 (hsame h.1)
  unfold completeSnapshot
  rw [decodeRoutes_ok hw hb (fun e hm => .inr (he e hm))]
  simp only [bind, Except.bind, if_neg (Nat.not_lt.mpr hv), hpos, if_neg hconf, Bool.false_eq_true,
    ↓reduceIte, pure, Except.pure]

/-- what one change does to the described routes -/
def describeChange (descriptions : RouteDescriptions) (c : RouteEntry) : RouteDescriptions :=
  if c.replicas.isEmpty then descriptions.erase c.key
  else descriptions.insert c.key (c.replicas.map describe)

theorem applyChanges_ok {decoded : RouteDescriptions} {changes : List RouteEntry}
    (hd : changes.Pairwise fun a b => a.key ≠ b.key)
    (hdec : ∀ c ∈ changes, decoded[c.key]? = some (c.replicas.map describe))
    (descriptions : RouteDescriptions) (seen : List ExpertKey)
    (hs : ∀ c ∈ changes, c.key ∉ seen) :
    applyChanges decoded descriptions seen changes
      = .ok (changes.foldl describeChange descriptions) := by
  induction changes generalizing descriptions seen with
  | nil => rfl
  | cons c changes ih =>
    rw [List.pairwise_cons] at hd
    have hstep : applyDecoded decoded descriptions c.key = describeChange descriptions c := by
      unfold applyDecoded describeChange
      rw [hdec c List.mem_cons_self]
      cases c.replicas <;> rfl
    unfold applyChanges
    rw [if_neg (hs c List.mem_cons_self), hstep, List.foldl_cons]
    refine ih hd.2 (fun a ha => hdec a (List.mem_cons_of_mem _ ha)) _ _ ?_
    intro a ha hm
    rcases List.mem_cons.mp hm with e | hm
    · exact hd.1 a ha e.symm
    · exact hs a (List.mem_cons_of_mem _ ha) hm

theorem completeUpdate_ok {a : TopologyMessageAssembler} {version installedVersion : Nat}
    {changes : List RouteEntry} {installed : RouteDescriptions} (hw : WireEntries changes)
    (hb : ∀ e ∈ changes, InModel a.numLayers a.expertsPerLayer e.key) (hne : changes ≠ [])
    (hv : installedVersion < version) :
    completeUpdate a installedVersion version changes installedVersion installed
      = .ok (version, changes.foldl describeChange installed) := by
  have hjoin : ¬ (installedVersion ≠ installedVersion ∨ version ≤ installedVersion) := by omega
  have happly : applyChanges (decodedTable ∅ changes) installed [] changes
      = .ok (changes.foldl describeChange installed) := by
    refine applyChanges_ok hw.distinct ?_ installed [] (by simp)
    intro c hc
    exact Maps.getElem?_insertAll_of_mem RouteEntry.key (fun e => e.replicas.map describe) ∅
      changes hw.distinct c hc
  unfold completeUpdate
  rw [decodeRoutes_ok hw hb (fun _ _ => .inl rfl)]
  simp only [bind, Except.bind, if_neg hjoin, List.isEmpty_iff, if_neg hne, happly, pure,
    Except.pure]

/-! ## the parts of one message -/

/-- one part: of a snapshot without a previous version, of an update with one -/
def messagePart (instanceId : Nat) (previousVersion : Option Nat)
    (version partIndex partCount : Nat) (part : List RouteEntry) : TopologyMessage :=
  match previousVersion with
  | none => .snapshot ⟨instanceId, version, partIndex, partCount, part⟩
  | some previous => .update ⟨instanceId, previous, version, partIndex, partCount, part⟩

/-- one message of `entries`, cut into parts -/
def messageParts (instanceId : Nat) (previousVersion : Option Nat) (version : Nat)
    (entries : List RouteEntry) : List TopologyMessage :=
  Parts.multipart maxControlEntriesPerPart entries (messagePart instanceId previousVersion version)

def kindOf : Option Nat → MessageKind
  | none => .snapshot
  | some _ => .update

/-- what the last part of the message returns -/
def completeMessage (a : TopologyMessageAssembler) (previousVersion : Option Nat) (version : Nat)
    (entries : List RouteEntry) (installedVersion : Nat) (installedRoutes : RouteDescriptions) :
    Except TopologyProtocolError (Nat × RouteDescriptions) :=
  match previousVersion with
  | none => completeSnapshot a version entries installedVersion installedRoutes
  | some previous => completeUpdate a previous version entries installedVersion installedRoutes

/-- the entries of the parts, in part order -/
def slices (entries : List RouteEntry) : List (List RouteEntry) :=
  (List.range (Parts.partCount maxControlEntriesPerPart entries.length)).map
    (Parts.slice maxControlEntriesPerPart entries)

theorem length_slices (entries : List RouteEntry) :
    (slices entries).length = Parts.partCount maxControlEntriesPerPart entries.length := by
  simp [slices]

theorem flatten_slices (entries : List RouteEntry) : (slices entries).flatten = entries := by
  have h := Parts.flatMap_slice maxControlEntriesPerPart entries (by decide)
  rw [List.flatMap_def] at h
  exact h

section
variable {instanceId version : Nat} {previousVersion : Option Nat} {entries : List RouteEntry}

/-- the header of part `j` of the message -/
def headerAt (previousVersion : Option Nat) (version : Nat) (entries : List RouteEntry) (j : Nat) :
    PartHeader :=
  ⟨kindOf previousVersion, version, previousVersion, j,
    Parts.partCount maxControlEntriesPerPart entries.length⟩

/-- the assembler holds the first `j` parts of the message -/
def Holding (a : TopologyMessageAssembler) (previousVersion : Option Nat) (version : Nat)
    (entries : List RouteEntry) (j : Nat) : Prop :=
  ∃ m, pendingFor a (headerAt previousVersion version entries j) = .ok m ∧
    m.kind = kindOf previousVersion ∧ m.version = version ∧ m.previousVersion = previousVersion ∧
    m.partCount = Parts.partCount maxControlEntriesPerPart entries.length ∧
    Parts.Filled m.parts (slices entries) j

theorem holding_none {a : TopologyMessageAssembler} (h : a.pending = none) :
    Holding a previousVersion version entries 0 := by
  refine ⟨⟨_, _, _, _, ∅⟩, ?_, rfl, rfl, rfl, rfl, Parts.Filled.empty _⟩
  unfold pendingFor
  rw [h]
  rfl

theorem checkPart_ok {a : TopologyMessageAssembler} {j : Nat}
    (hj : j < Parts.partCount maxControlEntriesPerPart entries.length)
    (hc : Parts.partCount maxControlEntriesPerPart entries.length ≤ maxParts a) :
    checkPart a (headerAt previousVersion version entries j)
      (Parts.slice maxControlEntriesPerPart entries j) = .ok () := by
  have hlen : ¬ maxRoutesPerPart < (Parts.slice maxControlEntriesPerPart entries j).length :=
    Nat.not_lt.mpr (Parts.length_slice_le _ _ _)
  have hidx : ¬ (Parts.partCount maxControlEntriesPerPart entries.length ≤ 0 ∨
      Parts.partCount maxControlEntriesPerPart entries.length ≤ j) := by omega
  unfold checkPart headerAt
  simp only [if_neg hidx, if_neg hlen, if_neg (Nat.not_lt.mpr hc), bind, Except.bind, pure,
    Except.pure]

theorem consumePart_step {a : TopologyMessageAssembler} {j : Nat} (installedVersion : Nat)
    (installed : RouteDescriptions) (h : Holding a previousVersion version entries j)
    (hj : j < Parts.partCount maxControlEntriesPerPart entries.length)
    (hc : Parts.partCount maxControlEntriesPerPart entries.length ≤ maxParts a) :
    (j + 1 < Parts.partCount maxControlEntriesPerPart entries.length ∧
      ∃ m, Holding { a with pending := some m } previousVersion version entries (j + 1) ∧
        consumePart a (headerAt previousVersion version entries j)
          (Parts.slice maxControlEntriesPerPart entries j) installedVersion installed
          = .ok (none, { a with pending := some m })) ∨
    (j + 1 = Parts.partCount maxControlEntriesPerPart entries.length ∧
      consumePart a (headerAt previousVersion version entries j)
        (Parts.slice maxControlEntriesPerPart entries j) installedVersion installed
        = (completeMessage a previousVersion version entries installedVersion installed).map
          fun view => (some view, { a with pending := none })) := by
  obtain ⟨m, hm, hk, hv, hp, hn, hf⟩ := h
  have hslice : (slices entries)[j]? = some (Parts.slice maxControlEntriesPerPart entries j) := by
    simp [slices, hj]
  have hf' := hf.insert hslice
  have hsize := hf'.size (by rw [length_slices]; omega)
  have hfresh : m.parts.contains (headerAt previousVersion version entries j).partIndex = false :=
    hf.not_mem
  unfold consumePart
  rw [checkPart_ok hj hc, hm]
  simp only [bind, Except.bind, hfresh, Bool.false_eq_true, ↓reduceIte, pure, Except.pure]
  by_cases hlast : j + 1 < Parts.partCount maxControlEntriesPerPart entries.length
  · refine .inl ⟨hlast, ⟨m.kind, m.version, m.previousVersion, m.partCount,
      m.parts.insert j (Parts.slice maxControlEntriesPerPart entries j)⟩, ?_, if_pos ?_⟩
    · refine ⟨⟨m.kind, m.version, m.previousVersion, m.partCount,
        m.parts.insert j (Parts.slice maxControlEntriesPerPart entries j)⟩, ?_, hk, hv, hp, hn, hf'⟩
      unfold pendingFor
      simp only [hk, hv, hp, hn, headerAt, ne_eq, not_true_eq_false, or_self, ↓reduceIte]
    · show (m.parts.insert j _).size ≠ Parts.partCount maxControlEntriesPerPart entries.length
      rw [hsize]
      omega
  · have hend : j + 1 = Parts.partCount maxControlEntriesPerPart entries.length := by omega
    refine .inr ⟨hend, ?_⟩
    have hsize' : ¬ ((m.parts.insert (headerAt previousVersion version entries j).partIndex
        (Parts.slice maxControlEntriesPerPart entries j)).size
        ≠ (headerAt previousVersion version entries j).partCount) := by
      intro hne
      exact hne (hsize.trans hend)
    have hord : ((List.range (headerAt previousVersion version entries j).partCount).filterMap
        fun i => (m.parts.insert (headerAt previousVersion version entries j).partIndex
          (Parts.slice maxControlEntriesPerPart entries j))[i]?).flatten = entries := by
      have hfull : Parts.Filled (m.parts.insert j (Parts.slice maxControlEntriesPerPart entries j))
          (slices entries) (slices entries).length := by
        rw [length_slices, ← hend]
        exact hf'
      have hread := hfull.ordered
      rw [length_slices] at hread
      show ((List.range (Parts.partCount maxControlEntriesPerPart entries.length)).filterMap
        fun i => (m.parts.insert j _)[i]?).flatten = entries
      rw [hread, flatten_slices]
    rw [if_neg hsize', hord]
    cases previousVersion with
    | none =>
      simp only [headerAt, kindOf, completeMessage]
      cases completeSnapshot a version entries installedVersion installed <;> rfl
    | some previous =>
      simp only [headerAt, kindOf, completeMessage]
      cases completeUpdate a previous version entries installedVersion installed <;> rfl

theorem consume_messagePart (a : TopologyMessageAssembler) (previousVersion : Option Nat)
    (version j n installedVersion : Nat) (part : List RouteEntry) (installed : RouteDescriptions) :
    consume a (messagePart a.instanceId previousVersion version j n part) installedVersion installed
      = consumePart a ⟨kindOf previousVersion, version, previousVersion, j, n⟩ part
        installedVersion installed := by
  cases previousVersion <;> simp [consume, kindOf, messagePart]

/-- the remaining parts of a message complete it -/
theorem feed_from {view : View} {j : Nat} {result : Nat × RouteDescriptions}
    (h : Holding view.messages previousVersion version entries j)
    (hj : j < Parts.partCount maxControlEntriesPerPart entries.length)
    (hc : Parts.partCount maxControlEntriesPerPart entries.length ≤ maxParts view.messages)
    (hr : completeMessage view.messages previousVersion version entries view.version view.routes
      = .ok result) :
    view.feed ((messageParts view.messages.instanceId previousVersion version entries).drop j)
      = .ok ⟨{ view.messages with pending := none }, result.1, result.2⟩ := by
  have hlen : (messageParts view.messages.instanceId previousVersion version entries).length
      = Parts.partCount maxControlEntriesPerPart entries.length := Parts.length_multipart _ _ _
  induction hd : Parts.partCount maxControlEntriesPerPart entries.length - j generalizing view j with
  | zero => omega
  | succ d ih =>
    have hget : (messageParts view.messages.instanceId previousVersion version entries)[j]?
        = some (messagePart view.messages.instanceId previousVersion version j _ _) :=
      Parts.getElem?_multipart _ _ _ j hj
    obtain ⟨hlt, hget⟩ := List.getElem?_eq_some_iff.mp hget
    rw [List.drop_eq_getElem_cons hlt, hget, View.feed, View.consume, consume_messagePart]
    rcases consumePart_step view.version view.routes h hj hc with
      ⟨hnext, m, hm, hstep⟩ | ⟨hend, hstep⟩
    · rw [← headerAt, hstep]
      exact ih hm hnext hc hr hlen (by omega)
    · rw [← headerAt, hstep, hr, List.drop_of_length_le (by omega)]
      rfl

/-- all parts of one message, fed in order to an assembler that holds none -/
theorem feed_messageParts {view : View} {result : Nat × RouteDescriptions}
    (hp : view.messages.pending = none)
    (hc : Parts.partCount maxControlEntriesPerPart entries.length ≤ maxParts view.messages)
    (hr : completeMessage view.messages previousVersion version entries view.version view.routes
      = .ok result) :
    view.feed (messageParts view.messages.instanceId previousVersion version entries)
      = .ok ⟨view.messages, result.1, result.2⟩ := by
  have h := feed_from (holding_none hp) (Parts.partCount_pos _ _) hc hr
  rw [List.drop_zero] at h
  rw [h, ← hp]

/-- distinct keys of the model fit the part bound of the assembler -/
theorem partCount_le_maxParts {a : TopologyMessageAssembler}
    (hd : entries.Pairwise fun a b => a.key ≠ b.key)
    (hb : ∀ e ∈ entries, InModel a.numLayers a.expertsPerLayer e.key) :
    Parts.partCount maxControlEntriesPerPart entries.length ≤ maxParts a := by
  have hlen : entries.length ≤ a.numLayers * a.expertsPerLayer := by
    let box := Finset.range a.numLayers ×ˢ Finset.range a.expertsPerLayer
    have hnodup : (entries.map fun e => (e.layerId, e.expertId)).Nodup := by
      rw [List.nodup_iff_pairwise_ne, List.pairwise_map]
      refine hd.imp ?_
      intro e f hne h
      apply hne
      simp only [Prod.mk.injEq] at h
      simp [RouteEntry.key, h.1, h.2]
    have hsub : (entries.map fun e => (e.layerId, e.expertId)).toFinset ⊆ box := by
      intro x hx
      obtain ⟨e, he, rfl⟩ := List.mem_map.mp (List.mem_toFinset.mp hx)
      have h := hb e he
      exact Finset.mem_product.mpr ⟨Finset.mem_range.mpr h.1, Finset.mem_range.mpr h.2⟩
    have hcard := Finset.card_le_card hsub
    rw [List.toFinset_card_of_nodup hnodup, List.length_map, Finset.card_product,
      Finset.card_range, Finset.card_range] at hcard
    exact hcard
  unfold Parts.partCount maxParts maxRoutesPerPart maxControlEntriesPerPart
  omega

end

end ExpertKit.Frontend

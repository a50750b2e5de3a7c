import ExpertKit.Proto
import ExpertKit.Lib.Wire

/-!
# Worker: assembly of multipart drain authorizations

`DrainAuthorizationAssembler` of `ek-worker/src/expertkit_worker/control/parts.py`.  The assembler
lives as long as the Worker process, so an error returns the state it leaves behind.  A part is kept
as the message itself where the source keeps its deterministic encoding.

* `validatePart`                 the bounds every control part is checked against;
* `DrainAuthorizationAssembler.add`   one part;
* `DrainAuthorizationAssembler.addAll`   a run over parts, with the authorizations it completes;
* `drainParts`                   the parts of one authorization;
* `addAll_drainParts_iff`        exactly which authorizations the assembler accepts.
-/

namespace ExpertKit.Worker
open Std

structure ValueError where
  message : String
deriving DecidableEq, Repr

def maxExpertsPerControlPart : Nat := 64
def maxControlPartBytes : Nat := 1024 * 1024
def maxPendingDrains : Nat := 64
def uint64Max : Nat := 2 ^ 64 - 1

/-- one complete authorization, `experts` in wire order -/
structure DrainAuthorization where
  drainId : Nat
  placementGeneration : Nat
  minTopologyVersion : Nat
  stopAcceptingAllComputation : Bool
  experts : List ExpertKey
deriving DecidableEq, Repr

structure DrainParts where
  placementGeneration : Nat
  minTopologyVersion : Nat
  stopAll : Bool
  partCount : Nat
  parts : ExtTreeMap Nat DrainAuthorizationPart
deriving DecidableEq

structure DrainAuthorizationAssembler where
  maxExperts : Nat
  pending : ExtTreeMap Nat DrainParts
deriving DecidableEq

/-! ## one part -/

def validatePositiveUint64 (name : String) (value : Nat) : Except ValueError Unit :=
  if 0 < value ∧ value ≤ uint64Max then .ok () else .error ⟨name ++ " must be a positive uint64"⟩

/-- `_validate_part`, with the encoded size of the part -/
def validatePart (byteSize partIndex partCount expertCount maximumParts : Nat) :
    Except ValueError Unit :=
  if partCount ≤ 0 ∨ maximumParts < partCount then
    .error ⟨"control part_count is outside the configured expert bound"⟩
  else if partCount ≤ partIndex then
    .error ⟨"control part_index must be smaller than part_count"⟩
  else if maxExpertsPerControlPart < expertCount then
    .error ⟨"one control part contains more than 64 experts"⟩
  else if maxControlPartBytes < byteSize then
    .error ⟨"one control part exceeds the implementation byte limit"⟩
  else .ok ()

/-- `ByteSize()` of a drain part -/
def drainPartSize (part : DrainAuthorizationPart) : Nat :=
  Wire.uintField 64 part.drainId + Wire.uintField 64 part.placementGeneration +
    Wire.uintField 64 part.minTopologyVersion + Wire.boolField part.stopAcceptingAllComputation +
    Wire.uintField 32 part.partIndex + Wire.uintField 32 part.partCount +
    (part.experts.map fun key =>
      Wire.lenField (Wire.uintField 32 key.layerId + Wire.uintField 32 key.expertId)).sum

def checkDrainPart (maxExperts : Nat) (part : DrainAuthorizationPart) : Except ValueError Unit := do
  validatePositiveUint64 "drain_id" part.drainId
  validatePositiveUint64 "placement_generation" part.placementGeneration
  validatePositiveUint64 "min_topology_version" part.minTopologyVersion
  validatePart (drainPartSize part) part.partIndex part.partCount part.experts.length maxExperts

/-- the drain that the part belongs to, with no part yet when it is new -/
def currentDrain (a : DrainAuthorizationAssembler) (part : DrainAuthorizationPart) :
    Except ValueError DrainParts :=
  match a.pending[part.drainId]? with
  | some current => .ok current
  | none =>
    if maxPendingDrains ≤ a.pending.size then .error ⟨"too many incomplete drain authorizations"⟩
    else .ok ⟨part.placementGeneration, part.minTopologyVersion, part.stopAcceptingAllComputation,
      part.partCount, ∅⟩

/-- the checks of a complete drain -/
def finishDrain (a : DrainAuthorizationAssembler) (drainId : Nat) (current : DrainParts) :
    Except ValueError (Option DrainAuthorization) × DrainAuthorizationAssembler :=
  if current.parts.size ≠ current.partCount then (.ok none, a)
  else
    let experts := ((List.range current.partCount).filterMap fun i => current.parts[i]?).flatMap
      DrainAuthorizationPart.experts
    if ¬ experts.Nodup then
      (.error ⟨"complete drain authorization contains a duplicate expert"⟩, a)
    else if a.maxExperts < experts.length then
      (.error ⟨"complete drain authorization exceeds max_experts"⟩, a)
    else if experts.isEmpty ∧ current.stopAll = false then
      (.error ⟨"expert drain authorization must name at least one expert"⟩, a)
    else
      (.ok (some ⟨drainId, current.placementGeneration, current.minTopologyVersion, current.stopAll,
        experts⟩), { a with pending := a.pending.erase drainId })

def DrainAuthorizationAssembler.keep (a : DrainAuthorizationAssembler) (drainId : Nat)
    (current : DrainParts) : DrainAuthorizationAssembler :=
  { a with pending := a.pending.insert drainId current }

def DrainAuthorizationAssembler.add (a : DrainAuthorizationAssembler)
    (part : DrainAuthorizationPart) :
    Except ValueError (Option DrainAuthorization) × DrainAuthorizationAssembler :=
  match checkDrainPart a.maxExperts part with
  | .error e => (.error e, a)
  | .ok () =>
    match currentDrain a part with
    | .error e => (.error e, a)
    | .ok current =>
      if part.placementGeneration ≠ current.placementGeneration ∨
          part.minTopologyVersion ≠ current.minTopologyVersion ∨
          part.stopAcceptingAllComputation ≠ current.stopAll ∨
          part.partCount ≠ current.partCount then
        (.error ⟨"drain parts disagree about authorization metadata"⟩,
          a.keep part.drainId current)
      else
        match current.parts[part.partIndex]? with
        | some previous =>
          if previous ≠ part then
            (.error ⟨"drain stream repeated one part with different content"⟩,
              a.keep part.drainId current)
          else finishDrain (a.keep part.drainId current) part.drainId current
        | none =>
          let current := { current with parts := current.parts.insert part.partIndex part }
          finishDrain (a.keep part.drainId current) part.drainId current

/-- parts in stream order, with the authorizations they complete -/
def DrainAuthorizationAssembler.addAll (a : DrainAuthorizationAssembler) :
    List DrainAuthorizationPart →
      Except ValueError (List DrainAuthorization) × DrainAuthorizationAssembler
  | [] => (.ok [], a)
  | part :: rest =>
    match a.add part with
    | (.error e, a) => (.error e, a)
    | (.ok completed, a) =>
      match a.addAll rest with
      | (.error e, a) => (.error e, a)
      | (.ok others, a) => (.ok (completed.toList ++ others), a)

/-! ## sizes -/

theorem drainPartSize_le (part : DrainAuthorizationPart)
    (h : part.experts.length ≤ maxExpertsPerControlPart) :
    drainPartSize part ≤ maxControlPartBytes := by
  have hkey : ∀ key : ExpertKey,
      Wire.lenField (Wire.uintField 32 key.layerId + Wire.uintField 32 key.expertId) ≤ 15 := by
    intro key
    have h1 := Wire.uintField_le 32 key.layerId
    have h2 := Wire.uintField_le 32 key.expertId
    exact Wire.lenField_le 12 (by omega) (by decide)
  have hsum : ∀ keys : List ExpertKey, (keys.map fun key =>
      Wire.lenField (Wire.uintField 32 key.layerId + Wire.uintField 32 key.expertId)).sum
        ≤ 15 * keys.length := by
    intro keys
    induction keys with
    | nil => simp
    | cons key keys ih =>
      have hk := hkey key
      simp only [List.map_cons, List.sum_cons, List.length_cons]
      omega
  have h1 := Wire.uintField_le 64 part.drainId
  have h2 := Wire.uintField_le 64 part.placementGeneration
  have h3 := Wire.uintField_le 64 part.minTopologyVersion
  have h4 := Wire.boolField_le part.stopAcceptingAllComputation
  have h5 := Wire.uintField_le 32 part.partIndex
  have h6 := Wire.uintField_le 32 part.partCount
  have h7 := hsum part.experts
  unfold maxExpertsPerControlPart at h
  unfold drainPartSize maxControlPartBytes
  omega

/-! ## the parts of one authorization -/

def drainParts (auth : DrainAuthorization) : List DrainAuthorizationPart :=
  Parts.multipart maxControlEntriesPerPart auth.experts fun partIndex partCount experts =>
    ⟨auth.drainId, auth.placementGeneration, auth.minTopologyVersion,
      auth.stopAcceptingAllComputation, partIndex, partCount, experts⟩

def drainPartCount (auth : DrainAuthorization) : Nat :=
  Parts.partCount maxControlEntriesPerPart auth.experts.length

/-- part `j` of the authorization -/
def drainPartAt (auth : DrainAuthorization) (j : Nat) : DrainAuthorizationPart :=
  ⟨auth.drainId, auth.placementGeneration, auth.minTopologyVersion,
    auth.stopAcceptingAllComputation, j, drainPartCount auth,
    Parts.slice maxControlEntriesPerPart auth.experts j⟩

section
variable {auth : DrainAuthorization}

theorem length_drainParts : (drainParts auth).length = drainPartCount auth :=
  Parts.length_multipart _ _ _

theorem getElem?_drainParts {j : Nat} (h : j < drainPartCount auth) :
    (drainParts auth)[j]? = some (drainPartAt auth j) :=
  Parts.getElem?_multipart _ _ _ j h

theorem flatMap_drainParts : (drainParts auth).flatMap DrainAuthorizationPart.experts
    = auth.experts := by
  unfold drainParts Parts.multipart
  rw [List.flatMap_map]
  exact Parts.flatMap_slice maxControlEntriesPerPart auth.experts (by decide)

theorem validatePositiveUint64_iff (name : String) (value : Nat) :
    validatePositiveUint64 name value = .ok () ↔ 0 < value ∧ value ≤ uint64Max := by
  unfold validatePositiveUint64
  split_ifs with h
  · exact ⟨fun _ => h, fun _ => rfl⟩
  · exact ⟨fun e => (by cases e), fun h' => absurd h' h⟩

theorem checkDrainPart_iff (maxExperts : Nat) (part : DrainAuthorizationPart) :
    checkDrainPart maxExperts part = .ok () ↔
      (0 < part.drainId ∧ part.drainId ≤ uint64Max) ∧
      (0 < part.placementGeneration ∧ part.placementGeneration ≤ uint64Max) ∧
      (0 < part.minTopologyVersion ∧ part.minTopologyVersion ≤ uint64Max) ∧
      validatePart (drainPartSize part) part.partIndex part.partCount part.experts.length
        maxExperts = .ok () := by
  unfold checkDrainPart
  rw [← validatePositiveUint64_iff "drain_id", ← validatePositiveUint64_iff "placement_generation",
    ← validatePositiveUint64_iff "min_topology_version"]
  cases validatePositiveUint64 "drain_id" part.drainId with
  | error e => simp [bind, Except.bind]
  | ok u =>
    cases validatePositiveUint64 "placement_generation" part.placementGeneration with
    | error e => simp [bind, Except.bind]
    | ok u =>
      cases validatePositiveUint64 "min_topology_version" part.minTopologyVersion with
      | error e => simp [bind, Except.bind]
      | ok u => simp [bind, Except.bind]

/-- a part of the authorization passes the bounds exactly when the part count fits -/
theorem validatePart_iff {j maxExperts : Nat} (hj : j < drainPartCount auth) :
    validatePart (drainPartSize (drainPartAt auth j)) j (drainPartCount auth)
      (drainPartAt auth j).experts.length maxExperts = .ok () ↔
      drainPartCount auth ≤ maxExperts := by
  have hlen : (drainPartAt auth j).experts.length ≤ maxExpertsPerControlPart :=
    Parts.length_slice_le _ _ _
  have hsize := drainPartSize_le (drainPartAt auth j) hlen
  unfold validatePart
  constructor
  · intro h
    split_ifs at h with h1
    omega
  · intro h
    rw [if_neg (by omega), if_neg (by omega), if_neg (by omega), if_neg (by omega)]

/-- the assembler holds the first `j` parts of the authorization -/
def HoldsDrain (a : DrainAuthorizationAssembler) (auth : DrainAuthorization) (j : Nat) : Prop :=
  ∃ t, currentDrain a (drainPartAt auth j) = .ok ⟨auth.placementGeneration,
      auth.minTopologyVersion, auth.stopAcceptingAllComputation, drainPartCount auth, t⟩ ∧
    Parts.Filled t (drainParts auth) j

theorem holdsDrain_new {a : DrainAuthorizationAssembler} (hnew : a.pending[auth.drainId]? = none)
    (hroom : a.pending.size < maxPendingDrains) : HoldsDrain a auth 0 := by
  refine ⟨∅, ?_, Parts.Filled.empty _⟩
  unfold currentDrain
  have hnone : a.pending[(drainPartAt auth 0).drainId]? = none := hnew
  rw [hnone]
  simp only [if_neg (Nat.not_le.mpr hroom)]
  rfl

theorem keep_erase (a : DrainAuthorizationAssembler) (id : Nat) (current : DrainParts) :
    (a.keep id current).pending.erase id = a.pending.erase id := by
  apply ExtTreeMap.ext_getElem?
  intro k
  show ((a.pending.insert id current).erase id)[k]? = _
  rw [Maps.getElem?_erase_eq, Maps.getElem?_erase_eq, Maps.getElem?_insert_eq]
  split_ifs <;> rfl

/-- what the last part of the authorization returns -/
def drainOutcome (a : DrainAuthorizationAssembler) (auth : DrainAuthorization) :
    Except ValueError (List DrainAuthorization) :=
  if a.maxExperts < auth.experts.length then
    .error ⟨"complete drain authorization exceeds max_experts"⟩
  else .ok [auth]

theorem add_drainPart {a : DrainAuthorizationAssembler} {j : Nat} (h : HoldsDrain a auth j)
    (hj : j < drainPartCount auth)
    (hcheck : checkDrainPart a.maxExperts (drainPartAt auth j) = .ok ()) :
    ∃ t, Parts.Filled t (drainParts auth) (j + 1) ∧
      a.add (drainPartAt auth j) = finishDrain
        (a.keep auth.drainId ⟨auth.placementGeneration, auth.minTopologyVersion,
          auth.stopAcceptingAllComputation, drainPartCount auth, t⟩) auth.drainId
        ⟨auth.placementGeneration, auth.minTopologyVersion, auth.stopAcceptingAllComputation,
          drainPartCount auth, t⟩ := by
  obtain ⟨t, hcur, hf⟩ := h
  refine ⟨t.insert j (drainPartAt auth j), hf.insert (getElem?_drainParts hj), ?_⟩
  have hmiss : t[(drainPartAt auth j).partIndex]? = none :=
    (hf j).trans (if_neg (Nat.lt_irrefl j))
  unfold DrainAuthorizationAssembler.add
  rw [hcheck, hcur]
  simp only [hmiss]
  rw [if_neg (by simp [drainPartAt])]
  rfl

/-- the remaining parts of the authorization complete it -/
theorem addAll_from {a : DrainAuthorizationAssembler} {j : Nat} (h : HoldsDrain a auth j)
    (hj : j < drainPartCount auth)
    (hcheck : ∀ k < drainPartCount auth,
      checkDrainPart a.maxExperts (drainPartAt auth k) = .ok ())
    (hnodup : auth.experts.Nodup)
    (hne : auth.experts = [] → auth.stopAcceptingAllComputation = true) :
    (a.addAll ((drainParts auth).drop j)).1 = drainOutcome a auth ∧
    (auth.experts.length ≤ a.maxExperts →
      (a.addAll ((drainParts auth).drop j)).2
        = { a with pending := a.pending.erase auth.drainId }) := by
  induction hd : drainPartCount auth - j generalizing a j with
  | zero => omega
  | succ d ih =>
    obtain ⟨hlt, hget⟩ := List.getElem?_eq_some_iff.mp (getElem?_drainParts hj)
    obtain ⟨t, hf, hadd⟩ := add_drainPart h hj (hcheck j hj)
    rw [List.drop_eq_getElem_cons hlt, hget]
    unfold DrainAuthorizationAssembler.addAll
    rw [hadd]
    have hsize : t.size = j + 1 := hf.size (by rw [length_drainParts]; omega)
    by_cases hlast : j + 1 = drainPartCount auth
    · -- the table is full: the checks of the complete drain
      have hexperts : ((List.range (drainPartCount auth)).filterMap fun i => t[i]?).flatMap
          DrainAuthorizationPart.experts = auth.experts := by
        have hfull : Parts.Filled t (drainParts auth) (drainParts auth).length := by
          rw [length_drainParts, ← hlast]
          exact hf
        have hread := hfull.ordered
        rw [length_drainParts] at hread
        rw [hread, flatMap_drainParts]
      have hempty : ¬ (auth.experts.isEmpty = true ∧ auth.stopAcceptingAllComputation = false) := by
        rintro ⟨h1, h2⟩
        rw [hne (List.isEmpty_iff.mp h1)] at h2
        cases h2
      have hdrop : (drainParts auth).drop (j + 1) = [] :=
        List.drop_of_length_le (by rw [length_drainParts]; omega)
      unfold finishDrain drainOutcome
      rw [if_neg (by simp only [hsize, hlast, ne_eq, not_true_eq_false, not_false_eq_true]), hdrop]
      simp only [hexperts, hnodup, not_true_eq_false, ↓reduceIte, if_neg hempty]
      by_cases hmax : a.maxExperts < auth.experts.length
      · have hmax' : (a.keep auth.drainId ⟨auth.placementGeneration, auth.minTopologyVersion,
            auth.stopAcceptingAllComputation, drainPartCount auth, t⟩).maxExperts
            < auth.experts.length := hmax
        rw [if_pos hmax', if_pos hmax]
        exact ⟨rfl, fun hle => absurd hle (Nat.not_le.mpr hmax)⟩
      · have hmax' : ¬ (a.keep auth.drainId ⟨auth.placementGeneration, auth.minTopologyVersion,
            auth.stopAcceptingAllComputation, drainPartCount auth, t⟩).maxExperts
            < auth.experts.length := hmax
        rw [if_neg hmax', if_neg hmax]
        refine ⟨rfl, fun _ => ?_⟩
        show DrainAuthorizationAssembler.mk a.maxExperts ((a.keep auth.drainId _).pending.erase
          auth.drainId) = _
        rw [keep_erase]
    · -- more parts to come
      have hmore : finishDrain
          (a.keep auth.drainId ⟨auth.placementGeneration, auth.minTopologyVersion,
            auth.stopAcceptingAllComputation, drainPartCount auth, t⟩) auth.drainId
          ⟨auth.placementGeneration, auth.minTopologyVersion, auth.stopAcceptingAllComputation,
            drainPartCount auth, t⟩
          = (.ok none, a.keep auth.drainId ⟨auth.placementGeneration, auth.minTopologyVersion,
            auth.stopAcceptingAllComputation, drainPartCount auth, t⟩) := by
        unfold finishDrain
        rw [if_pos]
        show t.size ≠ drainPartCount auth
        omega
      have hhold : HoldsDrain (a.keep auth.drainId ⟨auth.placementGeneration,
          auth.minTopologyVersion, auth.stopAcceptingAllComputation, drainPartCount auth, t⟩) auth
          (j + 1) := by
        refine ⟨t, ?_, hf⟩
        unfold currentDrain
        show (match (a.pending.insert auth.drainId _)[auth.drainId]? with
          | some current => Except.ok current
          | none => _) = _
        rw [Maps.getElem?_insert_eq, if_pos rfl]
      obtain ⟨h1, h2⟩ := ih hhold (by omega) hcheck (by omega)
      rw [hmore]
      simp only
      cases hrest : (a.keep auth.drainId ⟨auth.placementGeneration, auth.minTopologyVersion,
          auth.stopAcceptingAllComputation, drainPartCount auth, t⟩).addAll
          ((drainParts auth).drop (j + 1)) with
      | mk r a' =>
        rw [hrest] at h1 h2
        have h1' : r = drainOutcome a auth := h1
        rw [keep_erase] at h2
        cases r with
        | error e => exact ⟨h1', h2⟩
        | ok others => exact ⟨h1', h2⟩

/-- an assembler without this drain accepts the authorization exactly when its generation and
minimum version are positive and it names at most `max_experts` experts -/
theorem addAll_drainParts_iff {a : DrainAuthorizationAssembler}
    (hnew : a.pending[auth.drainId]? = none) (hroom : a.pending.size < maxPendingDrains)
    (hmax : 0 < a.maxExperts) (hid : 0 < auth.drainId ∧ auth.drainId ≤ uint64Max)
    (hgen : auth.placementGeneration ≤ uint64Max) (hmin : auth.minTopologyVersion ≤ uint64Max)
    (hnodup : auth.experts.Nodup)
    (hne : auth.experts = [] → auth.stopAcceptingAllComputation = true) :
    a.addAll (drainParts auth) = (.ok [auth], a) ↔
      0 < auth.placementGeneration ∧ 0 < auth.minTopologyVersion ∧
        auth.experts.length ≤ a.maxExperts := by
  have hpos : 0 < drainPartCount auth := Parts.partCount_pos _ _
  constructor
  · intro h
    -- the first part passed its check
    have hfirst : checkDrainPart a.maxExperts (drainPartAt auth 0) = .ok () := by
      obtain ⟨hlt, hget⟩ := List.getElem?_eq_some_iff.mp (getElem?_drainParts hpos)
      have hcons : drainParts auth = drainPartAt auth 0 :: (drainParts auth).drop 1 := by
        conv_lhs => rw [← List.drop_zero (l := drainParts auth)]
        rw [List.drop_eq_getElem_cons hlt, hget]
      rw [hcons] at h
      unfold DrainAuthorizationAssembler.addAll DrainAuthorizationAssembler.add at h
      cases hc : checkDrainPart a.maxExperts (drainPartAt auth 0) with
      | error e =>
        rw [hc] at h
        simp at h
      | ok u => rfl
    obtain ⟨_, hg, hm, hv⟩ := (checkDrainPart_iff _ _).mp hfirst
    have hcount := (validatePart_iff hpos).mp hv
    have hcheck : ∀ k < drainPartCount auth,
        checkDrainPart a.maxExperts (drainPartAt auth k) = .ok () := by
      intro k hk
      exact (checkDrainPart_iff _ _).mpr ⟨hid, hg, hm, (validatePart_iff hk).mpr hcount⟩
    refine ⟨hg.1, hm.1, ?_⟩
    by_contra hbig
    have hout := (addAll_from (holdsDrain_new hnew hroom) hpos hcheck hnodup hne).1
    rw [List.drop_zero, h] at hout
    unfold drainOutcome at hout
    rw [if_pos (by omega)] at hout
    cases hout
  · rintro ⟨hg, hm, hlen⟩
    have hcount : drainPartCount auth ≤ a.maxExperts := by
      unfold drainPartCount Parts.partCount maxControlEntriesPerPart
      omega
    have hcheck : ∀ k < drainPartCount auth,
        checkDrainPart a.maxExperts (drainPartAt auth k) = .ok () := by
      intro k hk
      exact (checkDrainPart_iff _ _).mpr
        ⟨hid, ⟨hg, hgen⟩, ⟨hm, hmin⟩, (validatePart_iff hk).mpr hcount⟩
    obtain ⟨h1, h2⟩ := addAll_from (holdsDrain_new hnew hroom) hpos hcheck hnodup hne
    have h2' := h2 hlen
    rw [List.drop_zero] at h1 h2'
    have herase : a.pending.erase auth.drainId = a.pending := by
      apply ExtTreeMap.ext_getElem?
      intro k
      rw [Maps.getElem?_erase_eq]
      split_ifs with e
      · rw [← e, hnew]
      · rfl
    rw [herase] at h2'
    unfold drainOutcome at h1
    rw [if_neg (Nat.not_lt.mpr hlen)] at h1
    exact Prod.ext h1 h2'

end

end ExpertKit.Worker

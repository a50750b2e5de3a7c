import ExpertKit.Transport.GrpcRoundTrip
import ExpertKit.Transport.ShmErrors

/-!
# Transport: the layout of a shared-memory segment

`SharedMemoryLayout` and `SharedMemoryRegion.slot` of `transports/shm/memory.py`, and the open request
of `transports/shm/codec.py` that makes the Worker compute the layout again.  The page size is the one
of the host, which both processes share.

* `SharedMemoryLayout`      the five parameters with the checks of `__post_init__`;
* `SharedMemoryLayout.slot`   the byte range of a field of a slot;
* `Geometry`                what the ranges of a layout are;
* `encodeOpenRequest`, `decodeOpenRequest`   the request, over any protobuf library;
* `shm_layout_sound`        the geometry of every layout, and the agreement of the two processes.
-/

set_option linter.unusedSectionVars false

namespace ExpertKit.Transport
open Protobuf Bytes

/-! ## the layout -/

def cacheLineBytes : Nat := 64

def maxSegmentBytes : Nat := 8 * 1024 ^ 3

/-- `mmap.PAGESIZE`: a power of two, 4096 or more -/
structure PageSize where
  exponent : Nat
  least : 12 ≤ exponent

def PageSize.bytes (page : PageSize) : Nat := 2 ^ page.exponent

/-- `_align` -/
def align (value alignment : Nat) : Nat := (value + alignment - 1) / alignment * alignment

theorem le_align {alignment : Nat} (h : 0 < alignment) (value : Nat) : value ≤ align value alignment := by
  have hdiv := Nat.div_add_mod (value + alignment - 1) alignment
  have hmod := Nat.mod_lt (value + alignment - 1) h
  rw [align, Nat.mul_comm]
  omega

theorem dvd_align (value alignment : Nat) : alignment ∣ align value alignment :=
  Nat.dvd_mul_left _ _

theorem PageSize.positive (page : PageSize) : 0 < page.bytes := Nat.two_pow_pos page.exponent

theorem PageSize.lines (page : PageSize) : cacheLineBytes ∣ page.bytes :=
  Nat.pow_dvd_pow 2 ((by decide : 6 ≤ 12).trans page.least)

/-- the parameters, before they are checked -/
structure LayoutParameters where
  slotCount : Nat
  maxBatchTokens : Nat
  hiddenDim : Nat
  topK : Nat
  dtype : TensorDType
deriving DecidableEq, Repr

/-- the tensors of a slot, in their order -/
inductive SlotField where
  | hiddenStates
  | expertIds
  | routingWeights
  | partialOutput
deriving DecidableEq, Repr

namespace LayoutParameters

def hiddenBytes (p : LayoutParameters) : Nat := p.maxBatchTokens * p.hiddenDim * p.dtype.elementBytes

def routingBytes (p : LayoutParameters) : Nat := p.maxBatchTokens * p.topK * 4

def hiddenOffset (_ : LayoutParameters) : Nat := 0

def expertIdsOffset (p : LayoutParameters) : Nat := align p.hiddenBytes cacheLineBytes

def routingWeightsOffset (p : LayoutParameters) : Nat :=
  align (p.expertIdsOffset + p.routingBytes) cacheLineBytes

def outputOffset (p : LayoutParameters) : Nat :=
  align (p.routingWeightsOffset + p.routingBytes) cacheLineBytes

def slotStride (page : PageSize) (p : LayoutParameters) : Nat :=
  align (p.outputOffset + p.hiddenBytes) page.bytes

def segmentSize (page : PageSize) (p : LayoutParameters) : Nat := p.slotCount * p.slotStride page

def fieldOffset (p : LayoutParameters) : SlotField → Nat
  | .hiddenStates => p.hiddenOffset
  | .expertIds => p.expertIdsOffset
  | .routingWeights => p.routingWeightsOffset
  | .partialOutput => p.outputOffset

/-- rows and columns of the maximum-size tensor -/
def fieldShape (p : LayoutParameters) : SlotField → Nat × Nat
  | .hiddenStates => (p.maxBatchTokens, p.hiddenDim)
  | .expertIds => (p.maxBatchTokens, p.topK)
  | .routingWeights => (p.maxBatchTokens, p.topK)
  | .partialOutput => (p.maxBatchTokens, p.hiddenDim)

/-- the expert ids are int32 and the routing weights FP32 -/
def fieldElementBytes (p : LayoutParameters) : SlotField → Nat
  | .hiddenStates => p.dtype.elementBytes
  | .expertIds => 4
  | .routingWeights => 4
  | .partialOutput => p.dtype.elementBytes

end LayoutParameters

structure SharedMemoryLayout (page : PageSize) extends LayoutParameters where
  slots : 0 < slotCount
  tokens : 0 < maxBatchTokens
  hidden : 0 < hiddenDim
  experts : 0 < topK
  bounded : toLayoutParameters.segmentSize page ≤ maxSegmentBytes

/-- `__post_init__`, with the text of its `ValueError` -/
def SharedMemoryLayout.new (page : PageSize) (p : LayoutParameters) :
    Except String (SharedMemoryLayout page) :=
  if hslots : 0 < p.slotCount then
    if htokens : 0 < p.maxBatchTokens then
      if hhidden : 0 < p.hiddenDim then
        if hexperts : 0 < p.topK then
          if hbounded : p.segmentSize page ≤ maxSegmentBytes then
            .ok ⟨p, hslots, htokens, hhidden, hexperts, hbounded⟩
          else .error "shared-memory segment exceeds the 8 GiB safety bound"
        else .error "top_k must be a positive integer"
      else .error "hidden_dim must be a positive integer"
    else .error "max_batch_tokens must be a positive integer"
  else .error "slot_count must be a positive integer"

/-- the bytes of one `torch.frombuffer` -/
structure ByteRange where
  start : Nat
  length : Nat
deriving DecidableEq, Repr

def ByteRange.Contains (r : ByteRange) (byte : Nat) : Prop :=
  r.start ≤ byte ∧ byte < r.start + r.length

namespace SharedMemoryLayout
variable {page : PageSize}

/-- the slot must be one of the layout -/
def slotOffset (layout : SharedMemoryLayout page) (slotIndex : Nat) : Option Nat :=
  if slotIndex < layout.slotCount then some (slotIndex * layout.slotStride page) else none

/-- the view of one field: `count` elements at `offset` -/
def slot (layout : SharedMemoryLayout page) (slotIndex : Nat) (f : SlotField) : Option ByteRange :=
  (layout.slotOffset slotIndex).map fun base =>
    ⟨base + layout.fieldOffset f,
      (layout.fieldShape f).1 * (layout.fieldShape f).2 * layout.fieldElementBytes f⟩

theorem new_ok {p : LayoutParameters} {layout : SharedMemoryLayout page}
    (h : SharedMemoryLayout.new page p = .ok layout) : layout.toLayoutParameters = p := by
  unfold SharedMemoryLayout.new at h
  split_ifs at h
  cases h
  rfl

end SharedMemoryLayout

/-! ## the ranges -/

/-- the ranges lie in the segment, apart from each other, aligned and of the right size -/
structure Geometry {page : PageSize} (layout : SharedMemoryLayout page) : Prop where
  slots : ∀ i < layout.slotCount, ∃ base, layout.slotOffset i = some base ∧ page.bytes ∣ base ∧
    ∀ f, ∃ r, layout.slot i f = some r
  inside : ∀ i f r, layout.slot i f = some r → r.start + r.length ≤ layout.segmentSize page
  aligned : ∀ i f r, layout.slot i f = some r → cacheLineBytes ∣ r.start
  exact : ∀ i f r, layout.slot i f = some r →
    r.length = (layout.fieldShape f).1 * (layout.fieldShape f).2 * layout.fieldElementBytes f
  disjoint : ∀ i f j g r s, layout.slot i f = some r → layout.slot j g = some s →
    (i, f) ≠ (j, g) → ∀ byte, r.Contains byte → ¬ s.Contains byte

namespace LayoutParameters

/-- the bytes of the tensor of a field -/
def fieldBytes (p : LayoutParameters) (f : SlotField) : Nat :=
  (p.fieldShape f).1 * (p.fieldShape f).2 * p.fieldElementBytes f

theorem fieldOffset_aligned (p : LayoutParameters) (f : SlotField) :
    cacheLineBytes ∣ p.fieldOffset f := by
  cases f with
  | hiddenStates => exact Nat.dvd_zero _
  | expertIds => exact dvd_align _ _
  | routingWeights => exact dvd_align _ _
  | partialOutput => exact dvd_align _ _

/-- each field starts after the one before it ends, and the slot ends after the last -/
theorem field_order (page : PageSize) (p : LayoutParameters) :
    p.hiddenBytes ≤ p.expertIdsOffset ∧ p.expertIdsOffset + p.routingBytes ≤ p.routingWeightsOffset ∧
      p.routingWeightsOffset + p.routingBytes ≤ p.outputOffset ∧
      p.outputOffset + p.hiddenBytes ≤ p.slotStride page :=
  ⟨le_align (by decide) _, le_align (by decide) _, le_align (by decide) _,
    le_align page.positive _⟩

theorem field_le_stride (page : PageSize) (p : LayoutParameters) (f : SlotField) :
    p.fieldOffset f + p.fieldBytes f ≤ p.slotStride page := by
  obtain ⟨h1, h2, h3, h4⟩ := p.field_order page
  have hids : p.fieldBytes .expertIds = p.routingBytes := rfl
  have hweights : p.fieldBytes .routingWeights = p.routingBytes := rfl
  have hhidden : p.fieldBytes .hiddenStates = p.hiddenBytes := rfl
  have houtput : p.fieldBytes .partialOutput = p.hiddenBytes := rfl
  cases f with
  | hiddenStates =>
    rw [hhidden, fieldOffset, hiddenOffset]
    omega
  | expertIds =>
    rw [hids, fieldOffset]
    omega
  | routingWeights =>
    rw [hweights, fieldOffset]
    omega
  | partialOutput =>
    rw [houtput, fieldOffset]
    omega

theorem fields_apart (page : PageSize) (p : LayoutParameters) {f g : SlotField} (h : f ≠ g) :
    p.fieldOffset f + p.fieldBytes f ≤ p.fieldOffset g ∨
      p.fieldOffset g + p.fieldBytes g ≤ p.fieldOffset f := by
  obtain ⟨h1, h2, h3, h4⟩ := p.field_order page
  have hids : p.fieldBytes .expertIds = p.routingBytes := rfl
  have hweights : p.fieldBytes .routingWeights = p.routingBytes := rfl
  have hhidden : p.fieldBytes .hiddenStates = p.hiddenBytes := rfl
  have houtput : p.fieldBytes .partialOutput = p.hiddenBytes := rfl
  cases f <;> cases g <;>
    simp only [ne_eq, reduceCtorEq, not_true_eq_false, not_false_eq_true] at h <;>
    simp only [hids, hweights, hhidden, houtput, fieldOffset, hiddenOffset] <;> omega

end LayoutParameters

theorem geometry {page : PageSize} (layout : SharedMemoryLayout page) : Geometry layout := by
  have hslot : ∀ i f r, layout.slot i f = some r → i < layout.slotCount ∧
      r.start = i * layout.slotStride page + layout.fieldOffset f ∧
      r.length = layout.fieldBytes f := by
    intro i f r h
    unfold SharedMemoryLayout.slot SharedMemoryLayout.slotOffset at h
    split_ifs at h with hi
    · cases h
      exact ⟨hi, rfl, rfl⟩
    · cases h
  have hnext : ∀ i, i * layout.slotStride page + layout.slotStride page =
      (i + 1) * layout.slotStride page := fun i => (Nat.succ_mul ..).symm
  refine ⟨fun i hi => ?_, fun i f r h => ?_, fun i f r h => ?_, fun i f r h => ?_, ?_⟩
  · refine ⟨_, if_pos hi, (dvd_align _ _).mul_left i, fun f => ?_⟩
    rw [SharedMemoryLayout.slot, SharedMemoryLayout.slotOffset, if_pos hi, Option.map_some]
    exact ⟨_, rfl⟩
  · obtain ⟨hi, hstart, hlength⟩ := hslot i f r h
    have hfield := layout.field_le_stride page f
    have hlast : (i + 1) * layout.slotStride page ≤ layout.segmentSize page :=
      Nat.mul_le_mul_right _ hi
    have hi' := hnext i
    omega
  · obtain ⟨_, hstart, _⟩ := hslot i f r h
    rw [hstart]
    exact Nat.dvd_add ((page.lines.trans (dvd_align _ _)).mul_left i)
      (layout.fieldOffset_aligned f)
  · exact (hslot i f r h).2.2
  · intro i f j g r s hr hs hne byte hbyte hbyte'
    obtain ⟨_, hstart, hlength⟩ := hslot i f r hr
    obtain ⟨_, hstart', hlength'⟩ := hslot j g s hs
    obtain ⟨hlow, hhigh⟩ := hbyte
    obtain ⟨hlow', hhigh'⟩ := hbyte'
    have hfield := layout.field_le_stride page f
    have hfield' := layout.field_le_stride page g
    rcases Nat.lt_trichotomy i j with hlt | heq | hlt
    · have hnext' : (i + 1) * layout.slotStride page ≤ j * layout.slotStride page :=
        Nat.mul_le_mul_right _ hlt
      have hi := hnext i
      omega
    · subst heq
      have hfg : f ≠ g := fun hfg => hne (by rw [hfg])
      rcases layout.fields_apart page hfg with hbefore | hafter
      · omega
      · omega
    · have hnext' : (j + 1) * layout.slotStride page ≤ i * layout.slotStride page :=
        Nat.mul_le_mul_right _ hlt
      have hj := hnext j
      omega

/-! ## the open request -/

structure OpenSharedMemoryRequest where
  instanceId : Nat
  sessionId : String
  segmentName : String
  segmentSize : Nat
  slotCount : Nat
  maxBatchTokens : Nat
  hiddenDim : Nat
  topK : Nat
  dtype : Int
deriving DecidableEq, Repr

namespace OpenSharedMemoryRequest

/-- the ranges of the fields -/
structure Valid (m : OpenSharedMemoryRequest) : Prop where
  instanceId : m.instanceId < 2 ^ 64
  segmentSize : m.segmentSize < 2 ^ 64
  slotCount : m.slotCount < 2 ^ 32
  maxBatchTokens : m.maxBatchTokens < 2 ^ 32
  hiddenDim : m.hiddenDim < 2 ^ 32
  topK : m.topK < 2 ^ 32
  dtype : 0 ≤ m.dtype ∧ m.dtype < 2 ^ 31

instance (m : OpenSharedMemoryRequest) : Decidable m.Valid :=
  decidable_of_iff (m.instanceId < 2 ^ 64 ∧ m.segmentSize < 2 ^ 64 ∧ m.slotCount < 2 ^ 32 ∧
      m.maxBatchTokens < 2 ^ 32 ∧ m.hiddenDim < 2 ^ 32 ∧ m.topK < 2 ^ 32 ∧
      (0 ≤ m.dtype ∧ m.dtype < 2 ^ 31))
    ⟨fun ⟨h1, h2, h3, h4, h5, h6, h7⟩ => ⟨h1, h2, h3, h4, h5, h6, h7⟩,
      fun ⟨h1, h2, h3, h4, h5, h6, h7⟩ => ⟨h1, h2, h3, h4, h5, h6, h7⟩⟩

open ExecuteRequest (numberSize bytesSize)

def size (m : OpenSharedMemoryRequest) : Nat :=
  numberSize m.instanceId + bytesSize (textBytes m.sessionId) +
    bytesSize (textBytes m.segmentName) + numberSize m.segmentSize + numberSize m.slotCount +
    numberSize m.maxBatchTokens + numberSize m.hiddenDim + numberSize m.topK +
    numberSize m.dtype.toNat

end OpenSharedMemoryRequest

/-- the constructor of the message raises a `ValueError` for a number out of range -/
def encodeOpenRequest {page : PageSize} (codec : Codec OpenSharedMemoryRequest)
    (sessionId segmentName : String) (layout : SharedMemoryLayout page)
    (spec : CheckedEndpointConfig) : Except CodecRaised (List UInt8) :=
  if !validateSessionId sessionId then
    .error (.valueError "shared-memory session_id must contain 32 lowercase hex digits")
  else
    let request : OpenSharedMemoryRequest := {
      instanceId := spec.instanceId
      sessionId
      segmentName
      segmentSize := layout.segmentSize page
      slotCount := layout.slotCount
      maxBatchTokens := layout.maxBatchTokens
      hiddenDim := layout.hiddenDim
      topK := layout.topK
      dtype := spec.dtype.toProtobuf }
    if request.Valid then
      match codec.serialize request with
      | none => .error .encodeError
      | some payload => .ok payload
    else .error (.valueError "Value out of range")

structure OpenSession (page : PageSize) where
  sessionId : String
  segmentName : String
  layout : SharedMemoryLayout page

def decodeOpenRequest (page : PageSize) (codec : Codec OpenSharedMemoryRequest)
    (payload : List UInt8) (spec : CheckedEndpointConfig) (expectedSlotCount : Nat) :
    Except CodecRaised (OpenSession page) :=
  (parseShm codec payload).bind fun request =>
    if !validateSessionId request.sessionId then
      .error (.protocolError "shared-memory session_id must contain 32 lowercase hex digits")
    else
      match SharedMemoryLayout.new page ⟨request.slotCount, request.maxBatchTokens,
          request.hiddenDim, request.topK, spec.dtype⟩ with
      | .error message => .error (.protocolError message)
      | .ok layout =>
        if request.instanceId ≠ spec.instanceId then
          .error (.protocolError "shared-memory model instance does not match the Worker")
        else if request.slotCount ≠ expectedSlotCount then
          .error (.protocolError "shared-memory slot count does not match Worker admission")
        else if request.maxBatchTokens ≠ spec.maxBatchTokens ∨ request.hiddenDim ≠ spec.hiddenDim ∨
            request.topK ≠ spec.topK ∨ TensorDType.fromProtobuf request.dtype ≠ some spec.dtype then
          .error (.protocolError "shared-memory Tensor layout does not match the Worker")
        else if request.segmentSize ≠ layout.segmentSize page then
          .error (.protocolError "shared-memory segment size does not match its layout")
        else .ok ⟨request.sessionId, request.segmentName, layout⟩

/-- the layout that the client's buffers build from their endpoint -/
def clientLayout (page : PageSize) (capacity : Nat) (spec : CheckedEndpointConfig) :
    Except String (SharedMemoryLayout page) :=
  SharedMemoryLayout.new page ⟨capacity, spec.maxBatchTokens, spec.hiddenDim, spec.topK, spec.dtype⟩

theorem decodeOpenRequest_ok {page : PageSize} {codec : Codec OpenSharedMemoryRequest}
    {payload : List UInt8} {spec : CheckedEndpointConfig} {expectedSlotCount : Nat}
    {opened : OpenSession page}
    (h : decodeOpenRequest page codec payload spec expectedSlotCount = .ok opened) :
    ∃ request, codec.parse payload = some request ∧
      TensorDType.fromProtobuf request.dtype = some spec.dtype ∧
      opened.layout.toLayoutParameters = ⟨request.slotCount, request.maxBatchTokens,
        request.hiddenDim, request.topK, spec.dtype⟩ := by
  obtain ⟨request, hparse, hrest⟩ := Fallible.bind_ok h
  refine ⟨request, ?_, ?_⟩
  · unfold parseShm at hparse
    split_ifs at hparse
    split at hparse
    · cases hparse
    · rename_i message hmessage
      cases hparse
      exact hmessage
  · by_cases hsession : (!validateSessionId request.sessionId) = true
    · rw [if_pos hsession] at hrest
      cases hrest
    rw [if_neg hsession] at hrest
    split at hrest
    · cases hrest
    · rename_i layout hlayout
      split_ifs at hrest with _ _ hfields _
      cases hrest
      simp only [ne_eq, not_or, not_not] at hfields
      exact ⟨hfields.2.2.2, SharedMemoryLayout.new_ok hlayout⟩

theorem encodeOpenRequest_ok {page : PageSize} {codec : Codec OpenSharedMemoryRequest}
    {sessionId segmentName : String} {layout : SharedMemoryLayout page}
    {spec : CheckedEndpointConfig} {payload : List UInt8}
    (h : encodeOpenRequest codec sessionId segmentName layout spec = .ok payload) :
    ∃ request : OpenSharedMemoryRequest, request.Valid ∧ codec.serialize request = some payload ∧
      request.dtype = spec.dtype.toProtobuf ∧ layout.toLayoutParameters = ⟨request.slotCount,
        request.maxBatchTokens, request.hiddenDim, request.topK, layout.dtype⟩ := by
  unfold encodeOpenRequest at h
  by_cases hsession : (!validateSessionId sessionId) = true
  · rw [if_pos hsession] at h
    cases h
  rw [if_neg hsession] at h
  simp only at h
  split_ifs at h with hvalid
  split at h
  · cases h
  · rename_i bytes hserialize
    cases h
    exact ⟨_, hvalid, hserialize, rfl, rfl⟩

/-! ## the wire format -/

namespace OpenSharedMemoryRequest

open ExecuteRequest (optional optionalBytes optional_getD optionalBytes_getD optional_lt
  optionalBytes_lt fieldsSize_optional fieldsSize_optionalBytes dtype_lt lt64 bytesSize)

def write (m : OpenSharedMemoryRequest) : List Field :=
  numberField 1 (optional m.instanceId) ++ bytesField 2 (optionalBytes (textBytes m.sessionId)) ++
    bytesField 3 (optionalBytes (textBytes m.segmentName)) ++
    numberField 4 (optional m.segmentSize) ++ numberField 5 (optional m.slotCount) ++
    numberField 6 (optional m.maxBatchTokens) ++ numberField 7 (optional m.hiddenDim) ++
    numberField 8 (optional m.topK) ++ numberField 9 (optional (m.dtype % 2 ^ 64).toNat)

def read (fs : List Field) : Option OpenSharedMemoryRequest := do
  let sessionId ← readText ((bytesOf 2 fs).getD [])
  let segmentName ← readText ((bytesOf 3 fs).getD [])
  some {
    instanceId := (numberOf 1 fs).getD 0
    sessionId
    segmentName
    segmentSize := (numberOf 4 fs).getD 0
    slotCount := (numberOf 5 fs).getD 0 % 2 ^ 32
    maxBatchTokens := (numberOf 6 fs).getD 0 % 2 ^ 32
    hiddenDim := (numberOf 7 fs).getD 0 % 2 ^ 32
    topK := (numberOf 8 fs).getD 0 % 2 ^ 32
    dtype := (BitVec.ofNat 32 ((numberOf 9 fs).getD 0)).toInt }

theorem numberOf_write (m : OpenSharedMemoryRequest) :
    numberOf 1 m.write = optional m.instanceId ∧ numberOf 4 m.write = optional m.segmentSize ∧
    numberOf 5 m.write = optional m.slotCount ∧
    numberOf 6 m.write = optional m.maxBatchTokens ∧
    numberOf 7 m.write = optional m.hiddenDim ∧ numberOf 8 m.write = optional m.topK ∧
    numberOf 9 m.write = optional (m.dtype % 2 ^ 64).toNat := by
  refine ⟨?_, ?_, ?_, ?_, ?_, ?_, ?_⟩ <;>
    simp only [write, numberOf_append, numberOf_numberField, numberOf_bytesField] <;> simp

theorem bytesOf_write (m : OpenSharedMemoryRequest) :
    bytesOf 2 m.write = optionalBytes (textBytes m.sessionId) ∧
    bytesOf 3 m.write = optionalBytes (textBytes m.segmentName) := by
  refine ⟨?_, ?_⟩ <;>
    simp only [write, bytesOf_append, bytesOf_numberField, bytesOf_bytesField] <;> simp

theorem read_write {m : OpenSharedMemoryRequest} (h : m.Valid) : read m.write = some m := by
  obtain ⟨h1, h4, h5, h6, h7, h8, h9⟩ := m.numberOf_write
  obtain ⟨h2, h3⟩ := m.bytesOf_write
  have hdtype : (BitVec.ofNat 32 (m.dtype % 2 ^ 64).toNat).toInt = m.dtype := by
    obtain ⟨hlow, hhigh⟩ := h.dtype
    have hmod : m.dtype % 2 ^ 64 = m.dtype :=
      Int.emod_eq_of_lt hlow (hhigh.trans (by norm_num))
    rw [hmod, BitVec.toInt_eq_toNat_of_lt]
    · rw [BitVec.toNat_ofNat, Nat.mod_eq_of_lt (by omega)]
      omega
    · rw [BitVec.toNat_ofNat, Nat.mod_eq_of_lt (by omega)]
      omega
  unfold read
  rw [h1, h2, h3, h4, h5, h6, h7, h8, h9]
  simp only [optional_getD, optionalBytes_getD, readText_textBytes, hdtype,
    Nat.mod_eq_of_lt h.slotCount, Nat.mod_eq_of_lt h.maxBatchTokens, Nat.mod_eq_of_lt h.hiddenDim,
    Nat.mod_eq_of_lt h.topK, Option.bind_eq_bind, Option.bind_some]

theorem texts_le {m : OpenSharedMemoryRequest} (hmax : m.size ≤ maxMessageBytes) :
    bytesSize (textBytes m.sessionId) ≤ maxMessageBytes ∧
      bytesSize (textBytes m.segmentName) ≤ maxMessageBytes := by
  unfold size at hmax
  constructor <;> omega

theorem fits_write {m : OpenSharedMemoryRequest} (h : m.Valid) (hmax : m.size ≤ maxMessageBytes) :
    ∀ f ∈ m.write, f.Fits := by
  obtain ⟨hsession, hname⟩ := texts_le hmax
  intro f hf
  simp only [write, List.mem_append] at hf
  rcases hf with (((((((hf | hf) | hf) | hf) | hf) | hf) | hf) | hf) | hf
  · exact fits_numberField (by norm_num) (optional_lt h.instanceId) f hf
  · exact fits_bytesField (by norm_num) (optionalBytes_lt hsession) f hf
  · exact fits_bytesField (by norm_num) (optionalBytes_lt hname) f hf
  · exact fits_numberField (by norm_num) (optional_lt h.segmentSize) f hf
  · exact fits_numberField (by norm_num) (optional_lt (lt64 h.slotCount)) f hf
  · exact fits_numberField (by norm_num) (optional_lt (lt64 h.maxBatchTokens)) f hf
  · exact fits_numberField (by norm_num) (optional_lt (lt64 h.hiddenDim)) f hf
  · exact fits_numberField (by norm_num) (optional_lt (lt64 h.topK)) f hf
  · exact fits_numberField (by norm_num) (optional_lt (dtype_lt m.dtype)) f hf

theorem fieldsSize_write {m : OpenSharedMemoryRequest} (h : m.Valid)
    (hmax : m.size ≤ maxMessageBytes) : fieldsSize m.write = m.size := by
  obtain ⟨hsession, hname⟩ := texts_le hmax
  have hdtype : m.dtype % 2 ^ 64 = m.dtype :=
    Int.emod_eq_of_lt h.dtype.1 (h.dtype.2.trans (by norm_num))
  have hdtype64 := dtype_lt m.dtype
  rw [hdtype] at hdtype64
  simp only [write, hdtype, fieldsSize_append, size,
    fieldsSize_optional (show 1 < 16 by norm_num) h.instanceId,
    fieldsSize_optionalBytes (show 2 < 16 by norm_num) hsession,
    fieldsSize_optionalBytes (show 3 < 16 by norm_num) hname,
    fieldsSize_optional (show 4 < 16 by norm_num) h.segmentSize,
    fieldsSize_optional (show 5 < 16 by norm_num) (lt64 h.slotCount),
    fieldsSize_optional (show 6 < 16 by norm_num) (lt64 h.maxBatchTokens),
    fieldsSize_optional (show 7 < 16 by norm_num) (lt64 h.hiddenDim),
    fieldsSize_optional (show 8 < 16 by norm_num) (lt64 h.topK),
    fieldsSize_optional (show 9 < 16 by norm_num) hdtype64]

end OpenSharedMemoryRequest

/-- the open requests in the protobuf wire format -/
def openCodec : Codec OpenSharedMemoryRequest :=
  Codec.ofFields OpenSharedMemoryRequest.size OpenSharedMemoryRequest.write
    OpenSharedMemoryRequest.read

theorem openCodec_lawful :
    openCodec.Lawful OpenSharedMemoryRequest.Valid OpenSharedMemoryRequest.size :=
  Codec.ofFields_lawful (fun _ h hmax => OpenSharedMemoryRequest.fits_write h hmax)
    (fun _ h _ => OpenSharedMemoryRequest.read_write h)
    fun _ h hmax => OpenSharedMemoryRequest.fieldsSize_write h hmax

/-! ## the two processes -/

/-- **The layout.**  The ranges of every layout lie in its segment, apart from each other, aligned and
of the size of their tensors; and a Worker that accepts the request of a client places every field of
every slot where the client does. -/
theorem shm_layout_sound (page : PageSize) :
    (∀ layout : SharedMemoryLayout page, Geometry layout) ∧
    ∀ (codec : Codec OpenSharedMemoryRequest),
      codec.Lawful OpenSharedMemoryRequest.Valid OpenSharedMemoryRequest.size →
      ∀ (clientSpec workerSpec : CheckedEndpointConfig) (capacity : Nat)
        (client : SharedMemoryLayout page), clientLayout page capacity clientSpec = .ok client →
      ∀ (sessionId segmentName : String) (payload : List UInt8) (expectedSlotCount : Nat)
        (opened : OpenSession page),
        encodeOpenRequest codec sessionId segmentName client clientSpec = .ok payload →
        decodeOpenRequest page codec payload workerSpec expectedSlotCount = .ok opened →
          (∀ f, opened.layout.fieldOffset f = client.fieldOffset f) ∧
            ∀ i f, opened.layout.slot i f = client.slot i f := by
  refine ⟨geometry, ?_⟩
  intro codec lawful clientSpec workerSpec capacity client hclient sessionId segmentName payload
    expectedSlotCount opened hencode hdecode
  obtain ⟨request, hvalid, hserialize, hdtype, hsent⟩ := encodeOpenRequest_ok hencode
  obtain ⟨received, hparse, hreceived, hopened⟩ := decodeOpenRequest_ok hdecode
  rw [lawful.parse request payload hvalid hserialize] at hparse
  cases hparse
  rw [hdtype, TensorDType.fromProtobuf_toProtobuf] at hreceived
  have hbuilt : client.dtype = clientSpec.dtype :=
    congrArg LayoutParameters.dtype (SharedMemoryLayout.new_ok hclient)
  rw [hbuilt, Option.some.inj hreceived] at hsent
  have hsame : opened.layout.toLayoutParameters = client.toLayoutParameters := hopened.trans hsent.symm
  refine ⟨fun f => by rw [hsame], fun i f => ?_⟩
  unfold SharedMemoryLayout.slot SharedMemoryLayout.slotOffset
  rw [hsame]

def examplePage : PageSize := ⟨12, by decide⟩

/-- a client and a Worker of the same endpoint, with four slots -/
theorem shm_layout_sound_example :
    ∃ client payload opened, clientLayout examplePage 4 exampleEndpoint = .ok client ∧
      encodeOpenRequest openCodec "00112233445566778899aabbccddeeff" "expertkit-0" client
        exampleEndpoint = .ok payload ∧
      decodeOpenRequest examplePage openCodec payload exampleEndpoint 4 = .ok opened ∧
      ∀ i f, opened.layout.slot i f = client.slot i f := by
  have hrun : ((clientLayout examplePage 4 exampleEndpoint).toOption.any fun client =>
      (encodeOpenRequest openCodec "00112233445566778899aabbccddeeff" "expertkit-0" client
        exampleEndpoint).toOption.any fun payload =>
          (decodeOpenRequest examplePage openCodec payload exampleEndpoint 4).isOk) = true := by
    decide +kernel
  obtain ⟨client, hclient, hrest⟩ := (Option.any_eq_true _ _).mp hrun
  obtain ⟨payload, hpayload, hok⟩ := (Option.any_eq_true _ _).mp hrest
  obtain ⟨opened, hopened⟩ := Fallible.ok_of_isOk hok
  have hclient' := Fallible.ok_of_toOption hclient
  have hpayload' := Fallible.ok_of_toOption hpayload
  exact ⟨client, payload, opened, hclient', hpayload', hopened,
    ((shm_layout_sound examplePage).2 openCodec openCodec_lawful exampleEndpoint exampleEndpoint 4
      client hclient' _ _ payload 4 opened hpayload' hopened).2⟩

end ExpertKit.Transport

import ExpertKit.Lib.Bytes
import ExpertKit.Lib.Fallible
import ExpertKit.Lib.Protobuf
import ExpertKit.Transport.ShmSession

/-!
# Transport: computation errors on the wire

`encode_compute_error` and `decode_compute_error` of `transports/protobuf.py`, shared by the gRPC
responses and the shared-memory responses.  The protobuf library itself is a parameter of the codecs
over this module (`Protobuf.Codec`); here are the fields of the message and its encoded size.

* `CheckedEndpointConfig`    the endpoint configuration with the checks of `__post_init__`;
* `boundedDiagnostic`        a diagnostic cut at a character boundary;
* `encodeComputeError`, `decodeComputeError`   the two directions;
* `Accepted.decode`           an accepted error comes back with its diagnostic cut;
* `ComputeError.size`, `ComputeError.write`, `ComputeError.read`   the message as fields.
-/

set_option linter.unusedSectionVars false

namespace ExpertKit.Transport
open Routing Protobuf Bytes

/-! ## the endpoint -/

/-- the activation types of a tensor -/
inductive TensorDType where
  | fp16
  | bf16
  | fp32
deriving DecidableEq, Repr

/-- `element_size` -/
def TensorDType.elementBytes : TensorDType → Nat
  | .fp16 => 2
  | .bf16 => 2
  | .fp32 => 4

/-- `activation_dtype_to_protobuf` -/
def TensorDType.toProtobuf : TensorDType → Int
  | .fp16 => 1
  | .bf16 => 2
  | .fp32 => 3

/-- `activation_dtype_from_protobuf` -/
def TensorDType.fromProtobuf (value : Int) : Option TensorDType :=
  (ActivationDType.tryFrom value).bind fun
    | .unspecified => none
    | .fp16 => some .fp16
    | .bf16 => some .bf16
    | .fp32 => some .fp32

theorem TensorDType.fromProtobuf_toProtobuf (dtype : TensorDType) :
    fromProtobuf dtype.toProtobuf = some dtype := by
  cases dtype <;> rfl

/-- `WorkerEndpointConfig` with all its fields and the checks of its `__post_init__` -/
structure CheckedEndpointConfig extends WorkerEndpointConfig where
  instanceId : Nat
  hiddenDim : Nat
  topK : Nat
  dtype : TensorDType
  instanceId_range : 0 < instanceId ∧ instanceId < 2 ^ 64
  numLayers_range : 0 < numLayers ∧ numLayers < 2 ^ 32
  expertsPerLayer_range : 0 < expertsPerLayer ∧ expertsPerLayer < 2 ^ 32
  maxBatchTokens_range : 0 < maxBatchTokens ∧ maxBatchTokens < 2 ^ 32
  hiddenDim_range : 0 < hiddenDim ∧ hiddenDim < 2 ^ 32
  topK_range : 0 < topK ∧ topK < 2 ^ 32
  topK_le : topK ≤ expertsPerLayer

/-! ## diagnostics -/

def maxDiagnosticBytes : Nat := 1024

/-- the characters whose bytes lie within the budget -/
def utf8Prefix : Nat → List Char → List Char
  | _, [] => []
  | budget, c :: rest =>
    if c.utf8Size ≤ budget then c :: utf8Prefix (budget - c.utf8Size) rest else []

def utf8Bytes (text : List Char) : Nat := (text.map Char.utf8Size).sum

/-- `_bounded_diagnostic`: `errors="ignore"` drops the bytes of a character that was cut -/
def boundedDiagnostic (value : String) : String :=
  if value.utf8ByteSize ≤ maxDiagnosticBytes then value
  else String.ofList (utf8Prefix maxDiagnosticBytes value.toList)

theorem utf8ByteSize_ofList (text : List Char) :
    (String.ofList text).utf8ByteSize = utf8Bytes text := by
  induction text with
  | nil => rfl
  | cons c rest ih =>
    have hcons : String.ofList (c :: rest) = String.singleton c ++ String.ofList rest := by
      rw [← String.toList_inj]
      simp
    rw [hcons, String.utf8ByteSize_append, ih]
    simp [utf8Bytes]

theorem utf8Prefix_prefix (budget : Nat) (text : List Char) : utf8Prefix budget text <+: text := by
  induction text generalizing budget with
  | nil => exact List.nil_prefix
  | cons c rest ih =>
    rw [utf8Prefix]
    split_ifs
    · exact (List.prefix_cons_inj c).mpr (ih _)
    · exact List.nil_prefix

theorem utf8Bytes_utf8Prefix_le (budget : Nat) (text : List Char) :
    utf8Bytes (utf8Prefix budget text) ≤ budget := by
  induction text generalizing budget with
  | nil => exact Nat.zero_le _
  | cons c rest ih =>
    rw [utf8Prefix]
    split_ifs with hfits
    · have hrest := ih (budget - c.utf8Size)
      simp only [utf8Bytes, List.map_cons, List.sum_cons] at hrest ⊢
      omega
    · exact Nat.zero_le _

/-- the next character would not have fitted -/
theorem utf8Prefix_next {budget : Nat} {text rest : List Char} {c : Char}
    (h : text = utf8Prefix budget text ++ c :: rest) :
    budget < utf8Bytes (utf8Prefix budget text) + c.utf8Size := by
  induction text generalizing budget with
  | nil => cases h
  | cons d text ih =>
    rw [utf8Prefix] at h ⊢
    split_ifs at h ⊢ with hfits
    · have hrest := ih (List.cons.inj h).2
      simp only [utf8Bytes, List.map_cons, List.sum_cons] at hrest ⊢
      omega
    · obtain ⟨rfl, _⟩ := List.cons.inj h
      simp only [utf8Bytes, List.map_nil, List.sum_nil]
      omega

theorem boundedDiagnostic_le (value : String) :
    (boundedDiagnostic value).utf8ByteSize ≤ maxDiagnosticBytes := by
  unfold boundedDiagnostic
  split_ifs with hfits
  · exact hfits
  · rw [utf8ByteSize_ofList]
    exact utf8Bytes_utf8Prefix_le _ _

/-! ## the two directions -/

/-- what the codecs raise -/
inductive CodecRaised where
  | valueError (message : String)
  | runtimeError (message : String)
  | protocolError (message : String)
  | encodeError
  | transport (error : TransportError)
deriving DecidableEq, Repr

/-- a `ComputeError` message; its code is an open enumeration -/
structure ComputeError where
  code : Int
  retryable : Bool
  observedTopologyVersion : Option Nat
  minTopologyVersion : Option Nat
  unavailableExpertIds : List Nat
  diagnostic : String
deriving DecidableEq, Repr

/-- `_TRANSPORT_TO_PROTO_ERROR` -/
def transportToProtoError : TransportErrorCode → Option Int
  | .busy => some 1
  | .draining => some 2
  | .staleTopology => some 3
  | .expertNotReady => some 4
  | .invalidRequest => some 5
  | .unsupported => some 6
  | .unavailable | .deadlineExceeded | .cancelled | .protocol => none

/-- `_PROTO_TO_TRANSPORT_ERROR` -/
def protoToTransportError : Int → Option TransportErrorCode
  | 1 => some .busy
  | 2 => some .draining
  | 3 => some .staleTopology
  | 4 => some .expertNotReady
  | 5 => some .invalidRequest
  | 6 => some .unsupported
  | _ => none

theorem protoToTransportError_of_code {code : TransportErrorCode} {wire : Int}
    (h : transportToProtoError code = some wire) :
    protoToTransportError wire = some code ∧ 1 ≤ wire ∧ wire ≤ 6 := by
  cases code <;> cases h <;> decide

/-- the constructor of the message refuses a version outside its field -/
def versionFits (version : Option Nat) : Bool := version.all fun v => decide (v < 2 ^ 64)

def encodeComputeError (error : TransportError) (config : CheckedEndpointConfig) :
    Except CodecRaised ComputeError :=
  match transportToProtoError error.code with
  | none => .error (.valueError "this Transport error must use native RPC status")
  | some code =>
    if config.maxBatchTokens * config.topK < error.unavailableExpertIds.length then
      .error (.valueError "too many unavailable expert IDs for one Worker batch")
    else if error.unavailableExpertIds.any fun id => decide (config.expertsPerLayer ≤ id) then
      .error (.valueError "unavailable expert ID exceeds the configured expert range")
    else if !(versionFits error.observedTopologyVersion &&
        versionFits error.minTopologyVersion) then
      .error (.valueError "Value out of range")
    else
      .ok ⟨code, error.retryable, error.observedTopologyVersion, error.minTopologyVersion,
        error.unavailableExpertIds, boundedDiagnostic error.diagnostic⟩

def decodeComputeError (wireError : ComputeError) (config : CheckedEndpointConfig) :
    Except CodecRaised TransportError :=
  match protoToTransportError wireError.code with
  | none => .error (.protocolError "response contains an unknown computation error code")
  | some code =>
    if maxDiagnosticBytes < wireError.diagnostic.utf8ByteSize then
      .error (.protocolError "response diagnostic exceeds its configured bound")
    else if config.maxBatchTokens * config.topK < wireError.unavailableExpertIds.length then
      .error (.protocolError "response contains too many unavailable expert IDs")
    else if wireError.unavailableExpertIds.any fun id => decide (config.expertsPerLayer ≤ id) then
      .error (.protocolError "response unavailable expert ID exceeds the configured range")
    else
      .ok ⟨code, wireError.retryable, wireError.observedTopologyVersion,
        wireError.minTopologyVersion, wireError.unavailableExpertIds, wireError.diagnostic⟩

/-- what the checks of the encoder leave -/
structure Accepted (config : CheckedEndpointConfig) (error : TransportError)
    (message : ComputeError) : Prop where
  code : transportToProtoError error.code = some message.code
  count : error.unavailableExpertIds.length ≤ config.maxBatchTokens * config.topK
  ids : ∀ id ∈ error.unavailableExpertIds, id < config.expertsPerLayer
  observed : ∀ v, error.observedTopologyVersion = some v → v < 2 ^ 64
  minimum : ∀ v, error.minTopologyVersion = some v → v < 2 ^ 64
  message : message = ⟨message.code, error.retryable, error.observedTopologyVersion,
    error.minTopologyVersion, error.unavailableExpertIds, boundedDiagnostic error.diagnostic⟩

theorem versionFits_iff (version : Option Nat) :
    versionFits version = true ↔ ∀ v, version = some v → v < 2 ^ 64 := by
  cases version <;> simp [versionFits]

theorem encodeComputeError_ok {error : TransportError} {config : CheckedEndpointConfig}
    {message : ComputeError} (h : encodeComputeError error config = .ok message) :
    Accepted config error message := by
  unfold encodeComputeError at h
  cases hcode : transportToProtoError error.code with
  | none =>
    rw [hcode] at h
    cases h
  | some code =>
    rw [hcode] at h
    dsimp only at h
    split_ifs at h with hcount hids hversions
    cases h
    simp only [Bool.not_eq_true, Bool.not_eq_false', Bool.and_eq_true, versionFits_iff] at hversions
    refine ⟨hcode, Nat.le_of_not_lt hcount, fun id hid => ?_, hversions.1, hversions.2, rfl⟩
    by_contra hle
    exact hids (List.any_eq_true.mpr ⟨id, hid, decide_eq_true (Nat.le_of_not_lt hle)⟩)

/-- an accepted error comes back with its diagnostic cut -/
theorem Accepted.decode {config : CheckedEndpointConfig} {error : TransportError}
    {message : ComputeError} (h : Accepted config error message) :
    decodeComputeError message config =
      .ok { error with diagnostic := boundedDiagnostic error.diagnostic } := by
  have hids : ¬ error.unavailableExpertIds.any fun id => decide (config.expertsPerLayer ≤ id) := by
    simp only [List.any_eq_true, decide_eq_true_eq, not_exists, not_and, Nat.not_le]
    exact h.ids
  rw [h.message]
  unfold decodeComputeError
  dsimp only
  rw [(protoToTransportError_of_code h.code).1]
  dsimp only
  rw [if_neg (Nat.not_lt.mpr (boundedDiagnostic_le _)), if_neg (Nat.not_lt.mpr h.count),
    if_neg hids]

/-! ## the message -/

namespace ComputeError

/-- the fields hold what their types can -/
structure Valid (m : ComputeError) : Prop where
  code : 0 ≤ m.code ∧ m.code < 2 ^ 31
  observed : ∀ v, m.observedTopologyVersion = some v → v < 2 ^ 64
  minimum : ∀ v, m.minTopologyVersion = some v → v < 2 ^ 64
  ids : ∀ id ∈ m.unavailableExpertIds, id < 2 ^ 32

/-- a version is written even when it is 0 -/
def versionSize (version : Option Nat) : Nat :=
  (version.map fun v => 1 + Wire.varintSize v).getD 0

def idsSize (ids : List Nat) : Nat :=
  if ids = [] then 0 else Wire.lenField (packedSize ids)

def textSize (text : String) : Nat :=
  if text = "" then 0 else Wire.lenField text.utf8ByteSize

def codeSize (code : Int) : Nat := if code = 0 then 0 else 1 + Wire.varintSize code.toNat

def size (m : ComputeError) : Nat :=
  codeSize m.code + Wire.boolField m.retryable + versionSize m.observedTopologyVersion +
    versionSize m.minTopologyVersion + idsSize m.unavailableExpertIds + textSize m.diagnostic

def write (m : ComputeError) : List Field :=
  numberField 1 (if m.code = 0 then none else some (m.code % 2 ^ 64).toNat) ++
    numberField 2 (if m.retryable then some 1 else none) ++
    numberField 3 m.observedTopologyVersion ++ numberField 4 m.minTopologyVersion ++
    bytesField 5 (if m.unavailableExpertIds = [] then none
      else some (packed m.unavailableExpertIds)) ++
    bytesField 6 (if m.diagnostic = "" then none else some (textBytes m.diagnostic))

def read (fs : List Field) : Option ComputeError :=
  (numbersOf 5 fs).bind fun ids =>
    (readText ((bytesOf 6 fs).getD [])).map fun diagnostic =>
      { code := (BitVec.ofNat 32 ((numberOf 1 fs).getD 0)).toInt
        retryable := (numberOf 2 fs).getD 0 != 0
        observedTopologyVersion := numberOf 3 fs
        minTopologyVersion := numberOf 4 fs
        unavailableExpertIds := ids.map (· % 2 ^ 32)
        diagnostic }

theorem Valid.ids64 {m : ComputeError} (h : m.Valid) :
    ∀ id ∈ m.unavailableExpertIds, id < 2 ^ 64 :=
  fun id hid => (h.ids id hid).trans (by norm_num)

theorem numbersOf_write {m : ComputeError} (h : m.Valid) :
    numbersOf 5 m.write = some m.unavailableExpertIds := by
  simp [write, numbersOf_append, numbersOf_numberField, numbersOf_bytesField,
    numbersOf_packed h.ids64]

theorem read_write {m : ComputeError} (h : m.Valid) : read m.write = some m := by
  have hcode : (BitVec.ofNat 32 ((numberOf 1 m.write).getD 0)).toInt = m.code := by
    have hnumber : (numberOf 1 m.write).getD 0 = m.code.toNat := by
      have hmod : m.code % 18446744073709551616 = m.code :=
        Int.emod_eq_of_lt h.code.1 (h.code.2.trans (by norm_num))
      by_cases hzero : m.code = 0
      · simp [write, numberOf_append, numberOf_numberField, numberOf_bytesField, hzero]
      · simp [write, numberOf_append, numberOf_numberField, numberOf_bytesField, hzero, hmod]
    obtain ⟨hlow, hhigh⟩ := h.code
    rw [hnumber, BitVec.toInt_eq_toNat_of_lt]
    · rw [BitVec.toNat_ofNat, Nat.mod_eq_of_lt (by omega)]
      omega
    · rw [BitVec.toNat_ofNat, Nat.mod_eq_of_lt (by omega)]
      omega
  have hretry : ((numberOf 2 m.write).getD 0 != 0) = m.retryable := by
    cases hr : m.retryable <;>
      simp [write, numberOf_append, numberOf_numberField, numberOf_bytesField, hr]
  have hobserved : numberOf 3 m.write = m.observedTopologyVersion := by
    simp [write, numberOf_append, numberOf_numberField, numberOf_bytesField]
  have hminimum : numberOf 4 m.write = m.minTopologyVersion := by
    simp [write, numberOf_append, numberOf_numberField, numberOf_bytesField]
  have htext : readText ((bytesOf 6 m.write).getD []) = some m.diagnostic := by
    by_cases hempty : m.diagnostic = ""
    · simp only [write, bytesOf_append, bytesOf_numberField, bytesOf_bytesField, hempty]
      exact readText_textBytes ""
    · simp only [write, bytesOf_append, bytesOf_numberField, bytesOf_bytesField, hempty]
      exact readText_textBytes m.diagnostic
  have hids : m.unavailableExpertIds.map (· % 2 ^ 32) = m.unavailableExpertIds :=
    (List.map_congr_left fun id hid => Nat.mod_eq_of_lt (h.ids id hid)).trans (List.map_id _)
  rw [read, numbersOf_write h, Option.bind_some, htext, Option.map_some, hcode, hretry, hobserved,
    hminimum, hids]

theorem idsField {m : ComputeError} (h : m.Valid) (hmax : m.size ≤ maxMessageBytes) :
    ∀ c, (if m.unavailableExpertIds = [] then none else some (packed m.unavailableExpertIds)) =
      some c → c.length < 2 ^ 64 := by
  intro c hc
  split_ifs at hc with hempty
  cases hc
  have hsize : (packed m.unavailableExpertIds).length ≤ m.size := by
    simp only [length_packed h.ids64, size, idsSize, if_neg hempty, Wire.lenField]
    omega
  exact (hsize.trans hmax).trans_lt (by decide)

theorem textField {m : ComputeError} (hmax : m.size ≤ maxMessageBytes) :
    ∀ c, (if m.diagnostic = "" then none else some (textBytes m.diagnostic)) = some c →
      c.length < 2 ^ 64 := by
  intro c hc
  split_ifs at hc with hempty
  cases hc
  have hsize : (textBytes m.diagnostic).length ≤ m.size := by
    simp only [length_textBytes, size, textSize, if_neg hempty, Wire.lenField]
    omega
  exact (hsize.trans hmax).trans_lt (by decide)

theorem codeField (code : Int) :
    ∀ v, (if code = 0 then none else some (code % 2 ^ 64).toNat) = some v → v < 2 ^ 64 := by
  intro v hv
  split_ifs at hv
  cases hv
  have := Int.emod_lt_of_pos code (show (0 : Int) < 2 ^ 64 by norm_num)
  omega

theorem retryField (retryable : Bool) :
    ∀ v, (if retryable then some 1 else none) = some v → v < 2 ^ 64 := by
  intro v hv
  split_ifs at hv
  cases hv
  norm_num

theorem fits_write {m : ComputeError} (h : m.Valid) (hmax : m.size ≤ maxMessageBytes) :
    ∀ f ∈ m.write, f.Fits := by
  intro f hf
  simp only [write, List.mem_append] at hf
  rcases hf with ((((hf | hf) | hf) | hf) | hf) | hf
  · exact fits_numberField (by norm_num) (codeField m.code) f hf
  · exact fits_numberField (by norm_num) (retryField m.retryable) f hf
  · exact fits_numberField (by norm_num) h.observed f hf
  · exact fits_numberField (by norm_num) h.minimum f hf
  · exact fits_bytesField (by norm_num) (idsField h hmax) f hf
  · exact fits_bytesField (by norm_num) (textField hmax) f hf

theorem fieldsSize_write {m : ComputeError} (h : m.Valid) (hmax : m.size ≤ maxMessageBytes) :
    fieldsSize m.write = m.size := by
  have hcode : fieldsSize (numberField 1 (if m.code = 0 then none
      else some (m.code % 2 ^ 64).toNat)) = codeSize m.code := by
    have hmod : m.code % 2 ^ 64 = m.code :=
      Int.emod_eq_of_lt h.code.1 (h.code.2.trans (by norm_num))
    rw [fieldsSize_numberField (by norm_num) (codeField m.code), hmod, codeSize]
    split_ifs <;> rfl
  have hretry : fieldsSize (numberField 2 (if m.retryable then some 1 else none)) =
      Wire.boolField m.retryable := by
    rw [fieldsSize_numberField (by norm_num) (retryField m.retryable)]
    cases m.retryable <;> decide
  have hids : fieldsSize (bytesField 5 (if m.unavailableExpertIds = [] then none
      else some (packed m.unavailableExpertIds))) = idsSize m.unavailableExpertIds := by
    rw [fieldsSize_bytesField (by norm_num) (idsField h hmax), idsSize, ← length_packed h.ids64]
    split_ifs <;> rfl
  have htext : fieldsSize (bytesField 6 (if m.diagnostic = "" then none
      else some (textBytes m.diagnostic))) = textSize m.diagnostic := by
    rw [fieldsSize_bytesField (by norm_num) (textField hmax), textSize]
    split_ifs <;> rfl
  simp only [write, fieldsSize_append, size, hcode, hretry, hids, htext, versionSize,
    fieldsSize_numberField (show 3 < 16 by norm_num) h.observed,
    fieldsSize_numberField (show 4 < 16 by norm_num) h.minimum]

end ComputeError

theorem Accepted.valid {config : CheckedEndpointConfig} {error : TransportError}
    {message : ComputeError} (h : Accepted config error message) : message.Valid := by
  obtain ⟨_, hlow, hhigh⟩ := protoToTransportError_of_code h.code
  rw [h.message]
  exact ⟨⟨by dsimp only; omega, by dsimp only; omega⟩, h.observed, h.minimum,
    fun id hid => (h.ids id hid).trans config.expertsPerLayer_range.2⟩

/-! ## responses -/

/-- the oneof of a response: what a success carries, or the error -/
inductive ExecuteResult (A : Type) where
  | success (value : A)
  | error (error : ComputeError)

/-- a response while it is read: a later field replaces an earlier one, but two errors are merged -/
inductive PartialResult (A : Type) where
  | success (value : A)
  | error (content : List UInt8)

def PartialResult.add {A : Type} (ofField : Field → Option A) (result : Option (PartialResult A))
    (f : Field) : Option (PartialResult A) :=
  match ofField f with
  | some value => some (.success value)
  | none =>
    match f.bytesAt 2 with
    | none => result
    | some content =>
      match result with
      | some (.error earlier) => some (.error (earlier ++ content))
      | _ => some (.error content)

/-- reads a response; `none` when it is no message -/
def readResult {A : Type} (ofField : Field → Option A) (fs : List Field) :
    Option (Option (ExecuteResult A)) :=
  match fs.foldl (PartialResult.add ofField) none with
  | none => some none
  | some (.success value) => some (some (.success value))
  | some (.error content) =>
    ((readFields content).bind ComputeError.read).map fun error => some (.error error)

def writeResult {A : Type} (toField : A → Field) : Option (ExecuteResult A) → List Field
  | none => []
  | some (.success value) => [toField value]
  | some (.error error) => [⟨2, .bytes (fields error.write)⟩]

def resultSize {A : Type} (successSize : A → Nat) : Option (ExecuteResult A) → Nat
  | none => 0
  | some (.success value) => successSize value
  | some (.error error) => Wire.lenField error.size

def ValidResult {A : Type} (validSuccess : A → Prop) : Option (ExecuteResult A) → Prop
  | none => True
  | some (.success value) => validSuccess value
  | some (.error error) => error.Valid

theorem length_fields_error {error : ComputeError} (h : error.Valid)
    (hmax : error.size ≤ maxMessageBytes) : (fields error.write).length = error.size := by
  rw [← ComputeError.fieldsSize_write h hmax]
  simp [fields, fieldsSize, List.length_flatMap]

theorem size_le_lenField (size : Nat) : size ≤ Wire.lenField size := Nat.le_add_left _ _

/-- the codec of the responses whose successes are one field of their own -/
theorem result_lawful {A : Type} {ofField : Field → Option A} {toField : A → Field}
    {validSuccess : A → Prop} {successSize : A → Nat}
    (hread : ∀ value, validSuccess value → ofField (toField value) = some value)
    (hfits : ∀ value, validSuccess value → successSize value ≤ maxMessageBytes →
      (toField value).Fits)
    (hsize : ∀ value, validSuccess value → successSize value ≤ maxMessageBytes →
      (field (toField value)).length = successSize value)
    (herror : ∀ content, ofField ⟨2, .bytes content⟩ = none) :
    (Codec.ofFields (resultSize successSize) (writeResult toField) (readResult ofField)).Lawful
      (ValidResult validSuccess) (resultSize successSize) := by
  apply Codec.ofFields_lawful
  · rintro (_ | value | error) hm hmax f hf
    · cases hf
    · obtain rfl := List.mem_singleton.mp hf
      exact hfits value hm hmax
    · obtain rfl := List.mem_singleton.mp hf
      have herr := (size_le_lenField error.size).trans hmax
      refine ⟨by norm_num, fun n hn => (by cases hn), fun content hcontent => ?_⟩
      cases hcontent
      rw [length_fields_error hm herr]
      exact herr.trans_lt (by decide)
  · rintro (_ | value | error) hm hmax
    · rfl
    · simp [writeResult, readResult, PartialResult.add, hread value hm]
    · have herr := (size_le_lenField error.size).trans hmax
      simp [writeResult, readResult, PartialResult.add, herror, Field.bytesAt,
        readFields_fields (ComputeError.fits_write hm herr), ComputeError.read_write hm]
  · rintro (_ | value | error) hm hmax
    · rfl
    · simp [writeResult, fieldsSize, resultSize, hsize value hm hmax]
    · have herr := (size_le_lenField error.size).trans hmax
      have hlength : (fields error.write).length < 2 ^ 64 := by
        rw [length_fields_error hm herr]
        exact herr.trans_lt (by decide)
      simp only [writeResult, fieldsSize, resultSize, List.map_cons, List.map_nil, List.sum_cons,
        List.sum_nil, length_field_bytes (show 2 < 16 by norm_num) hlength,
        length_fields_error hm herr, Nat.add_zero]

end ExpertKit.Transport

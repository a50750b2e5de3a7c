import ExpertKit.Transport.ComputeErrors

/-!
# Transport: gRPC message limits

`calculate_message_limits` of `transports/grpc/spec.py`: the largest request and response of an
endpoint, counted field by field without building them.

* `checkedAdd`, `checkedMultiply`   arithmetic within the signed 32-bit limit of gRPC;
* `calculateMessageLimits`          the limits of an endpoint;
* `MessageLimits`                   the same limits in the sizes of the wire format;
* `Accepted.size_le`                every accepted error lies within the limit.
-/

set_option linter.unusedSectionVars false

namespace ExpertKit.Transport
open Routing Protobuf

/-! ## checked arithmetic -/

def grpcMaxMessageBytes : Nat := 2 ^ 31 - 1

def protobufSafetyMarginBytes : Nat := 256

def checkedAdd (values : List Nat) : Except CodecRaised Nat :=
  if grpcMaxMessageBytes < values.sum then
    .error (.valueError "configured gRPC message size exceeds the signed 32-bit limit")
  else .ok values.sum

def multiplyFrom (result : Nat) : List Nat → Except CodecRaised Nat
  | [] => .ok result
  | value :: values =>
    if grpcMaxMessageBytes < result * value then
      .error (.valueError "configured gRPC tensor size exceeds the signed 32-bit limit")
    else multiplyFrom (result * value) values

def checkedMultiply (values : List Nat) : Except CodecRaised Nat := multiplyFrom 1 values

/-- `int.bit_length` -/
def bitLength (n : Nat) : Nat := if n = 0 then 0 else Nat.log2 n + 1

/-- `_varint_size` -/
def varintLimit (value : Nat) : Nat := max 1 ((bitLength value + 6) / 7)

/-- `_tag_size` -/
def tagSize (fieldNumber wireType : Nat) : Nat := varintLimit (fieldNumber <<< 3 ||| wireType)

def bytesFieldSize (fieldNumber payloadBytes : Nat) : Except CodecRaised Nat :=
  checkedAdd [tagSize fieldNumber 2, varintLimit payloadBytes, payloadBytes]

/-- the hand-written size of a varint is the size of the wire format -/
theorem varintLimit_eq (value : Nat) : varintLimit value = Wire.varintSize value := by
  unfold varintLimit bitLength Wire.varintSize
  split_ifs with h
  · subst h
    decide
  · omega

theorem tagSize_small {fieldNumber wireType : Nat} (h : fieldNumber <<< 3 ||| wireType < 128) :
    tagSize fieldNumber wireType = 1 := by
  rw [tagSize, varintLimit_eq, varintSize_small h]

theorem checkedAdd_ok {values : List Nat} {total : Nat} (h : checkedAdd values = .ok total) :
    total = values.sum ∧ values.sum ≤ grpcMaxMessageBytes := by
  unfold checkedAdd at h
  split_ifs at h with hmax
  cases h
  exact ⟨rfl, Nat.le_of_not_lt hmax⟩

theorem multiplyFrom_ok {values : List Nat} {result total : Nat}
    (h : multiplyFrom result values = .ok total) : total = result * values.prod := by
  induction values generalizing result with
  | nil =>
    cases h
    simp
  | cons value values ih =>
    rw [multiplyFrom] at h
    split_ifs at h
    rw [ih h, List.prod_cons, Nat.mul_assoc]

theorem checkedMultiply_ok {values : List Nat} {total : Nat}
    (h : checkedMultiply values = .ok total) : total = values.prod := by
  rw [multiplyFrom_ok h, Nat.one_mul]

theorem bytesFieldSize_ok {fieldNumber payloadBytes size : Nat} (hnumber : fieldNumber < 16)
    (h : bytesFieldSize fieldNumber payloadBytes = .ok size) :
    size = Wire.lenField payloadBytes := by
  have htag : tagSize fieldNumber 2 = 1 := by
    apply tagSize_small
    interval_cases fieldNumber <;> decide
  obtain ⟨rfl, _⟩ := checkedAdd_ok h
  simp only [htag, varintLimit_eq, List.sum_cons, List.sum_nil, Wire.lenField]
  omega

/-! ## the limits -/

structure GrpcMessageLimits where
  requestBytes : Nat
  responseBytes : Nat
  retainedRequestTensorBytes : Nat
deriving DecidableEq, Repr

def calculateMessageLimits (spec : CheckedEndpointConfig) : Except CodecRaised GrpcMessageLimits :=
  let tokenCount := spec.maxBatchTokens
  (checkedMultiply [tokenCount, spec.hiddenDim, spec.dtype.elementBytes]).bind fun hiddenBytes =>
  (checkedMultiply [tokenCount, spec.topK, 4]).bind fun expertBytes =>
  (checkedMultiply [tokenCount, spec.topK, 4]).bind fun routingBytes =>
  (checkedAdd [hiddenBytes, expertBytes, routingBytes]).bind fun retained =>
  let scalarFields := [tagSize 1 0 + 10, tagSize 2 0 + 5, tagSize 3 0 + 10,
    tagSize 4 0 + varintLimit tokenCount, tagSize 5 0 + varintLimit spec.hiddenDim,
    tagSize 6 0 + varintLimit spec.topK, tagSize 7 0 + varintLimit spec.dtype.toProtobuf.toNat]
  (bytesFieldSize 8 hiddenBytes).bind fun hiddenField =>
  (bytesFieldSize 9 expertBytes).bind fun expertField =>
  (bytesFieldSize 10 routingBytes).bind fun routingField =>
  (checkedAdd (scalarFields ++
    [hiddenField, expertField, routingField, protobufSafetyMarginBytes])).bind fun requestBytes =>
  (bytesFieldSize 1 hiddenBytes).bind fun successBytes =>
  (checkedMultiply [tokenCount, spec.topK]).bind fun unavailableCount =>
  (checkedMultiply [unavailableCount, 5]).bind fun packedUnavailableBytes =>
  (bytesFieldSize 5 packedUnavailableBytes).bind fun unavailableField =>
  (bytesFieldSize 6 maxDiagnosticBytes).bind fun diagnosticField =>
  (checkedAdd [tagSize 1 0 + 1, tagSize 2 0 + 1, tagSize 3 0 + 10, tagSize 4 0 + 10,
    unavailableField, diagnosticField]).bind fun errorPayloadBytes =>
  (bytesFieldSize 2 errorPayloadBytes).bind fun errorBytes =>
  (checkedAdd [max successBytes errorBytes, protobufSafetyMarginBytes]).bind fun responseBytes =>
  .ok ⟨requestBytes, responseBytes, retained⟩

/-- the bytes of the largest activations and of the largest routing tensor -/
def CheckedEndpointConfig.hiddenBytes (spec : CheckedEndpointConfig) : Nat :=
  spec.maxBatchTokens * spec.hiddenDim * spec.dtype.elementBytes

def CheckedEndpointConfig.routingBytes (spec : CheckedEndpointConfig) : Nat :=
  spec.maxBatchTokens * spec.topK * 4

/-- the largest content of an error -/
def CheckedEndpointConfig.errorBytes (spec : CheckedEndpointConfig) : Nat :=
  26 + Wire.lenField (spec.maxBatchTokens * spec.topK * 5) + Wire.lenField maxDiagnosticBytes

structure MessageLimits (spec : CheckedEndpointConfig) (limits : GrpcMessageLimits) : Prop where
  request : limits.requestBytes = 33 + Wire.varintSize spec.maxBatchTokens +
    Wire.varintSize spec.hiddenDim + Wire.varintSize spec.topK + Wire.lenField spec.hiddenBytes +
    Wire.lenField spec.routingBytes + Wire.lenField spec.routingBytes + protobufSafetyMarginBytes
  response : limits.responseBytes =
    max (Wire.lenField spec.hiddenBytes) (Wire.lenField spec.errorBytes) +
      protobufSafetyMarginBytes
  request_le : limits.requestBytes ≤ grpcMaxMessageBytes
  response_le : limits.responseBytes ≤ grpcMaxMessageBytes

theorem calculateMessageLimits_ok {spec : CheckedEndpointConfig} {limits : GrpcMessageLimits}
    (h : calculateMessageLimits spec = .ok limits) : MessageLimits spec limits := by
  obtain ⟨hiddenBytes, hhidden, h⟩ := Fallible.bind_ok h
  obtain ⟨expertBytes, hexpert, h⟩ := Fallible.bind_ok h
  obtain ⟨routingBytes, hrouting, h⟩ := Fallible.bind_ok h
  obtain ⟨retained, _, h⟩ := Fallible.bind_ok h
  obtain ⟨hiddenField, hhiddenField, h⟩ := Fallible.bind_ok h
  obtain ⟨expertField, hexpertField, h⟩ := Fallible.bind_ok h
  obtain ⟨routingField, hroutingField, h⟩ := Fallible.bind_ok h
  obtain ⟨requestBytes, hrequest, h⟩ := Fallible.bind_ok h
  obtain ⟨successBytes, hsuccess, h⟩ := Fallible.bind_ok h
  obtain ⟨unavailableCount, hcount, h⟩ := Fallible.bind_ok h
  obtain ⟨packedUnavailableBytes, hpacked, h⟩ := Fallible.bind_ok h
  obtain ⟨unavailableField, hunavailable, h⟩ := Fallible.bind_ok h
  obtain ⟨diagnosticField, hdiagnostic, h⟩ := Fallible.bind_ok h
  obtain ⟨errorPayloadBytes, hpayload, h⟩ := Fallible.bind_ok h
  obtain ⟨errorBytes, herror, h⟩ := Fallible.bind_ok h
  obtain ⟨responseBytes, hresponse, h⟩ := Fallible.bind_ok h
  cases h
  have htag : ∀ n, n = 1 ∨ n = 2 ∨ n = 3 ∨ n = 4 ∨ n = 5 ∨ n = 6 ∨ n = 7 → tagSize n 0 = 1 := by
    rintro n (rfl | rfl | rfl | rfl | rfl | rfl | rfl) <;> exact tagSize_small (by decide)
  have hdtype : Wire.varintSize spec.dtype.toProtobuf.toNat = 1 := by
    cases spec.dtype <;> decide
  have hhidden : hiddenBytes = spec.hiddenBytes := by
    rw [checkedMultiply_ok hhidden, CheckedEndpointConfig.hiddenBytes]
    simp [Nat.mul_assoc]
  have hexpert : expertBytes = spec.routingBytes := by
    rw [checkedMultiply_ok hexpert, CheckedEndpointConfig.routingBytes]
    simp [Nat.mul_assoc]
  have hrouting : routingBytes = spec.routingBytes := by
    rw [checkedMultiply_ok hrouting, CheckedEndpointConfig.routingBytes]
    simp [Nat.mul_assoc]
  have hcount : unavailableCount = spec.maxBatchTokens * spec.topK := by
    rw [checkedMultiply_ok hcount]
    simp
  have hpacked : packedUnavailableBytes = spec.maxBatchTokens * spec.topK * 5 := by
    rw [checkedMultiply_ok hpacked, hcount]
    simp
  obtain ⟨hrequest, hrequest_le⟩ := checkedAdd_ok hrequest
  obtain ⟨hresponse, hresponse_le⟩ := checkedAdd_ok hresponse
  have hpayload := (checkedAdd_ok hpayload).1
  rw [bytesFieldSize_ok (by norm_num) hunavailable, bytesFieldSize_ok (by norm_num) hdiagnostic,
    hpacked] at hpayload
  have hpayload : errorPayloadBytes = spec.errorBytes := by
    rw [hpayload]
    simp only [htag, List.sum_cons, List.sum_nil, CheckedEndpointConfig.errorBytes, true_or,
      or_true]
    omega
  have hhiddenField := bytesFieldSize_ok (by norm_num) hhiddenField
  have hexpertField := bytesFieldSize_ok (by norm_num) hexpertField
  have hroutingField := bytesFieldSize_ok (by norm_num) hroutingField
  have hsuccess := bytesFieldSize_ok (by norm_num) hsuccess
  have herror := bytesFieldSize_ok (by norm_num) herror
  rw [hhidden] at hhiddenField hsuccess
  rw [hexpert] at hexpertField
  rw [hrouting] at hroutingField
  rw [hpayload] at herror
  refine ⟨?_, ?_, hrequest.trans_le hrequest_le, hresponse.trans_le hresponse_le⟩
  · rw [hrequest, hhiddenField, hexpertField, hroutingField]
    simp only [htag, varintLimit_eq, hdtype, List.sum_cons, List.sum_nil, List.cons_append,
      List.nil_append, true_or, or_true]
    omega
  · rw [hresponse, hsuccess, herror]
    simp

/-! ## every error lies within the limit -/

theorem varintSize_mono {m n : Nat} (h : m ≤ n) : Wire.varintSize m ≤ Wire.varintSize n := by
  unfold Wire.varintSize
  have hlog : Nat.log2 m ≤ Nat.log2 n := by
    rw [Nat.log2_eq_log_two, Nat.log2_eq_log_two]
    exact Nat.log_mono_right h
  omega

theorem lenField_mono {m n : Nat} (h : m ≤ n) : Wire.lenField m ≤ Wire.lenField n := by
  unfold Wire.lenField
  have hsize := varintSize_mono h
  omega

theorem versionSize_le {version : Option Nat} (h : ∀ v, version = some v → v < 2 ^ 64) :
    ComputeError.versionSize version ≤ 11 := by
  cases version with
  | none => exact Nat.zero_le _
  | some v =>
    have hsize := Wire.varintSize_le (h v rfl)
    simp only [ComputeError.versionSize, Option.map_some, Option.getD_some]
    omega

theorem idsSize_le {ids : List Nat} {count : Nat} (hids : ∀ id ∈ ids, id < 2 ^ 32)
    (hcount : ids.length ≤ count) : ComputeError.idsSize ids ≤ Wire.lenField (count * 5) := by
  unfold ComputeError.idsSize
  split_ifs
  · exact Nat.zero_le _
  · apply lenField_mono
    have hone : ∀ n ∈ ids.map Wire.varintSize, n ≤ 5 := by
      intro n hn
      obtain ⟨id, hid, rfl⟩ := List.mem_map.mp hn
      exact Wire.varintSize_le (hids id hid)
    have hsum := List.sum_le_card_nsmul _ _ hone
    rw [List.length_map, smul_eq_mul] at hsum
    exact hsum.trans (Nat.mul_le_mul_right 5 hcount)

theorem textSize_le {text : String} {bound : Nat} (h : text.utf8ByteSize ≤ bound) :
    ComputeError.textSize text ≤ Wire.lenField bound := by
  unfold ComputeError.textSize
  split_ifs
  · exact Nat.zero_le _
  · exact lenField_mono h

/-- the content of an accepted error is no larger than the limit counts -/
theorem Accepted.size_le {config : CheckedEndpointConfig} {error : TransportError}
    {message : ComputeError} (h : Accepted config error message) :
    message.size ≤ config.errorBytes := by
  obtain ⟨_, hlow, hhigh⟩ := protoToTransportError_of_code h.code
  have hcode : ComputeError.codeSize message.code = 2 := by
    rw [ComputeError.codeSize, if_neg (by omega), varintSize_small (by omega)]
  have hretry := Wire.boolField_le error.retryable
  have hobserved := versionSize_le h.observed
  have hminimum := versionSize_le h.minimum
  have hids : ComputeError.idsSize error.unavailableExpertIds ≤ _ :=
    idsSize_le (fun id hid => (h.ids id hid).trans config.expertsPerLayer_range.2) h.count
  have htext := textSize_le (boundedDiagnostic_le error.diagnostic)
  rw [h.message]
  simp only [ComputeError.size, hcode, CheckedEndpointConfig.errorBytes]
  omega

end ExpertKit.Transport

import ExpertKit.Transport.ComputeErrors

/-!
# Transport: shared-memory error responses

`encode_execute_error` and `decode_execute_response` of `transports/shm/codec.py`.  The encoder
bounds an error by the shape of the endpoint, the decoder by `SHM_CONTROL_MESSAGE_BYTES`.

* `encodeExecuteError`, `decodeExecuteResponse`   the two directions, over any protobuf library;
* `errorBytes`                the bytes that the fields of an error take;
* `shm_error_survives_iff`    an error comes back exactly when they are at most 4093;
* `shmCodec`                  the wire format.
-/

set_option linter.unusedSectionVars false

namespace ExpertKit.Transport
open Routing Protobuf

/-! ## the codec -/

def shmControlMessageBytes : Nat := 4096

/-- an `ExecuteSharedMemoryResponse`; a success carries the completed generation -/
abbrev ExecuteSharedMemoryResponse := Option (ExecuteResult Nat)

/-- `completed_generation` is written even when it is 0 -/
def generationSize (generation : Nat) : Nat := 1 + Wire.varintSize generation

namespace ExecuteSharedMemoryResponse

def size : ExecuteSharedMemoryResponse → Nat := resultSize generationSize

def Valid : ExecuteSharedMemoryResponse → Prop := ValidResult (· < 2 ^ 64)

end ExecuteSharedMemoryResponse

open ExecuteSharedMemoryResponse (Valid size)

def encodeExecuteError (codec : Codec ExecuteSharedMemoryResponse) (error : TransportError)
    (spec : CheckedEndpointConfig) : Except CodecRaised (List UInt8) :=
  (encodeComputeError error spec).bind fun message =>
    match codec.serialize (some (.error message)) with
    | none => .error .encodeError
    | some payload => .ok payload

/-- `_parse`, at any message type -/
def parseShm {M : Type} (codec : Codec M) (payload : List UInt8) : Except CodecRaised M :=
  if shmControlMessageBytes < payload.length then
    .error (.protocolError "shared-memory control message exceeds 4096 bytes")
  else
    match codec.parse payload with
    | none => .error (.protocolError "shared-memory control message is not valid protobuf")
    | some message => .ok message

def decodeExecuteResponse (codec : Codec ExecuteSharedMemoryResponse) (payload : List UInt8)
    (expectedGeneration : Nat) (spec : CheckedEndpointConfig) : Except CodecRaised Unit :=
  (parseShm codec payload).bind fun
    | some (.error message) =>
      (decodeComputeError message spec).bind fun error => .error (.transport error)
    | none => .error (.protocolError "shared-memory response does not contain a result")
    | some (.success generation) =>
      if generation ≠ expectedGeneration then
        .error (.protocolError "shared-memory response generation does not match the request")
      else .ok ()

/-! ## sizes -/

/-- the bytes of the fields of an error: its code, its retryability when set, the versions it has,
its experts when there are any and its diagnostic when there is one -/
def errorBytes (error : TransportError) : Nat :=
  2 + Wire.boolField error.retryable + ComputeError.versionSize error.observedTopologyVersion +
    ComputeError.versionSize error.minTopologyVersion +
    ComputeError.idsSize error.unavailableExpertIds +
    ComputeError.textSize (boundedDiagnostic error.diagnostic)

theorem Accepted.size {config : CheckedEndpointConfig} {error : TransportError}
    {message : ComputeError} (h : Accepted config error message) :
    message.size = errorBytes error := by
  obtain ⟨_, hlow, hhigh⟩ := protoToTransportError_of_code h.code
  have hcode : ComputeError.codeSize message.code = 2 := by
    rw [ComputeError.codeSize, if_neg (by omega), varintSize_small (by omega)]
  rw [h.message]
  simp only [ComputeError.size, hcode, errorBytes]

/-- a length of two bytes -/
theorem lenField_le_iff (size : Nat) :
    Wire.lenField size ≤ shmControlMessageBytes ↔ size ≤ 4093 := by
  unfold Wire.lenField shmControlMessageBytes
  constructor
  · intro h
    by_contra hlt
    have hsize : 2 ≤ Wire.varintSize size := by
      rw [varintSize_step (by omega)]
      exact Nat.succ_le_succ (Nat.succ_pos _)
    omega
  · intro h
    have hsize : Wire.varintSize size ≤ 12 / 7 + 1 := Wire.varintSize_le (by omega)
    omega

/-! ## the round trip -/

theorem encodeExecuteError_ok {codec : Codec ExecuteSharedMemoryResponse} {error : TransportError}
    {spec : CheckedEndpointConfig} {payload : List UInt8}
    (h : encodeExecuteError codec error spec = .ok payload) :
    ∃ message, Accepted spec error message ∧ Valid (some (.error message)) ∧
      codec.serialize (some (.error message)) = some payload := by
  unfold encodeExecuteError at h
  cases hmessage : encodeComputeError error spec with
  | error raised =>
    rw [hmessage] at h
    cases h
  | ok message =>
    rw [hmessage] at h
    have haccepted := encodeComputeError_ok hmessage
    refine ⟨message, haccepted, haccepted.valid, ?_⟩
    change (match codec.serialize (some (.error message)) with
      | none => Except.error CodecRaised.encodeError
      | some payload => Except.ok payload) = .ok payload at h
    split at h
    · cases h
    · next bytes hbytes =>
      cases h
      exact hbytes

section
variable {codec : Codec ExecuteSharedMemoryResponse} (lawful : codec.Lawful Valid size)
  {spec : CheckedEndpointConfig} {error : TransportError}
include lawful

theorem encodeExecuteError_total {message : ComputeError}
    (h : encodeComputeError error spec = .ok message)
    (hsize : Wire.lenField (errorBytes error) ≤ maxMessageBytes) :
    ∃ payload, encodeExecuteError codec error spec = .ok payload := by
  have haccepted := encodeComputeError_ok h
  have hvalid : Valid (some (.error message)) := haccepted.valid
  have hmax : size (some (.error message)) ≤ maxMessageBytes := by
    change Wire.lenField message.size ≤ maxMessageBytes
    rwa [haccepted.size]
  obtain ⟨payload, hpayload⟩ := Option.isSome_iff_exists.mp (lawful.total _ hvalid hmax)
  refine ⟨payload, ?_⟩
  rw [encodeExecuteError, h]
  change (match codec.serialize (some (.error message)) with
    | none => Except.error CodecRaised.encodeError
    | some payload => Except.ok payload) = .ok payload
  rw [hpayload]

theorem length_payload {payload : List UInt8}
    (h : encodeExecuteError codec error spec = .ok payload) :
    payload.length = Wire.lenField (errorBytes error) := by
  obtain ⟨message, haccepted, hvalid, hpayload⟩ := encodeExecuteError_ok h
  rw [lawful.length _ _ hvalid hpayload, ← haccepted.size]
  rfl

/-- a longer response is refused whatever its error says -/
theorem decode_too_long {payload : List UInt8}
    (h : encodeExecuteError codec error spec = .ok payload) (hlong : 4093 < errorBytes error)
    (generation : Nat) :
    decodeExecuteResponse codec payload generation spec =
      .error (.protocolError "shared-memory control message exceeds 4096 bytes") := by
  have hlt : shmControlMessageBytes < payload.length := by
    rw [length_payload lawful h, ← Nat.not_le, lenField_le_iff]
    omega
  unfold decodeExecuteResponse parseShm
  rw [if_pos hlt]
  rfl

theorem decode_short {payload : List UInt8}
    (h : encodeExecuteError codec error spec = .ok payload) (hshort : errorBytes error ≤ 4093)
    (generation : Nat) :
    decodeExecuteResponse codec payload generation spec =
      .error (.transport { error with diagnostic := boundedDiagnostic error.diagnostic }) := by
  have hle : payload.length ≤ shmControlMessageBytes := by
    rwa [length_payload lawful h, lenField_le_iff]
  obtain ⟨message, haccepted, hvalid, hpayload⟩ := encodeExecuteError_ok h
  unfold decodeExecuteResponse parseShm
  rw [if_neg (Nat.not_lt.mpr hle), lawful.parse _ _ hvalid hpayload]
  change (decodeComputeError message spec).bind (fun e => .error (.transport e)) = _
  rw [haccepted.decode]
  rfl

end

/-- the fields that a retry is decided by -/
structure SameError (decoded error : TransportError) : Prop where
  code : decoded.code = error.code
  retryable : decoded.retryable = error.retryable
  observed : decoded.observedTopologyVersion = error.observedTopologyVersion
  minimum : decoded.minTopologyVersion = error.minTopologyVersion
  ids : decoded.unavailableExpertIds = error.unavailableExpertIds

/-- an error that the encoder accepts has a payload when protobuf can write one, and any payload of
it raises it again in the decoder, the diagnostic aside, exactly when its fields take at most 4093
bytes -/
theorem shm_error_survives_iff {codec : Codec ExecuteSharedMemoryResponse}
    (lawful : codec.Lawful Valid size) {spec : CheckedEndpointConfig}
    {error : TransportError} {message : ComputeError}
    (h : encodeComputeError error spec = .ok message) (generation : Nat) :
    (Wire.lenField (errorBytes error) ≤ maxMessageBytes →
      ∃ payload, encodeExecuteError codec error spec = .ok payload) ∧
    ∀ payload, encodeExecuteError codec error spec = .ok payload →
      ((∃ decoded, decodeExecuteResponse codec payload generation spec =
        .error (.transport decoded) ∧ SameError decoded error) ↔ errorBytes error ≤ 4093) := by
  refine ⟨encodeExecuteError_total lawful h, fun payload hpayload => ?_⟩
  constructor
  · rintro ⟨decoded, hdecoded, -⟩
    by_contra hlong
    rw [decode_too_long lawful hpayload (by omega)] at hdecoded
    cases hdecoded
  · intro hshort
    exact ⟨_, decode_short lawful hpayload hshort generation, ⟨rfl, rfl, rfl, rfl, rfl⟩⟩

/-! ## the wire format -/

/-- the responses in the protobuf wire format -/
def shmCodec : Codec ExecuteSharedMemoryResponse :=
  Codec.ofFields size (writeResult fun generation => ⟨1, .number generation⟩)
    (readResult (Field.numberAt 1))

theorem shmCodec_lawful : shmCodec.Lawful Valid size :=
  result_lawful (fun _ _ => rfl)
    (fun generation hvalid _ => ⟨by norm_num, fun n hn => by cases hn; exact hvalid,
      fun content hcontent => by cases hcontent⟩)
    (fun _ hvalid _ => length_field_number (by norm_num) hvalid) fun _ => rfl

theorem one_range : 0 < 1 ∧ 1 < 2 ^ 64 := by decide

theorem eight_range : 0 < 8 ∧ 8 < 2 ^ 32 := by decide

def exampleEndpoint : CheckedEndpointConfig where
  numLayers := 48
  expertsPerLayer := 4096
  maxBatchTokens := 512
  instanceId := 1
  hiddenDim := 2048
  topK := 8
  dtype := .bf16
  instanceId_range := one_range
  numLayers_range := by decide
  expertsPerLayer_range := by decide
  maxBatchTokens_range := by decide
  hiddenDim_range := by decide
  topK_range := eight_range
  topK_le := by decide

/-- a batch whose experts are still loading -/
def notReadyError (ids : List Nat) : TransportError :=
  ⟨.expertNotReady, true, some 7, none, ids, "experts are not ready"⟩

theorem shm_error_survives_few :
    ∃ payload, encodeExecuteError shmCodec (notReadyError [3, 200]) exampleEndpoint =
        .ok payload ∧
      ∃ decoded, decodeExecuteResponse shmCodec payload 1 exampleEndpoint =
        .error (.transport decoded) ∧ SameError decoded (notReadyError [3, 200]) := by
  have hok : (encodeComputeError (notReadyError [3, 200]) exampleEndpoint).isOk := by
    decide +kernel
  obtain ⟨message, hmessage⟩ := Fallible.ok_of_isOk hok
  obtain ⟨htotal, hsurvives⟩ := shm_error_survives_iff shmCodec_lawful hmessage 1
  obtain ⟨payload, hpayload⟩ := htotal (by decide +kernel)
  exact ⟨payload, hpayload, (hsurvives payload hpayload).mpr (by decide +kernel)⟩

/-- a batch that needs 2200 experts while they load: its retryable rejection becomes a protocol
failure -/
theorem shm_error_lost :
    ∃ payload, encodeExecuteError shmCodec (notReadyError (List.range 2200)) exampleEndpoint =
        .ok payload ∧
      decodeExecuteResponse shmCodec payload 1 exampleEndpoint =
        .error (.protocolError "shared-memory control message exceeds 4096 bytes") := by
  have hok : (encodeComputeError (notReadyError (List.range 2200)) exampleEndpoint).isOk := by
    decide +kernel
  obtain ⟨message, hmessage⟩ := Fallible.ok_of_isOk hok
  obtain ⟨payload, hpayload⟩ :=
    encodeExecuteError_total shmCodec_lawful hmessage (by decide +kernel)
  exact ⟨payload, hpayload, decode_too_long shmCodec_lawful hpayload (by decide +kernel) 1⟩

end ExpertKit.Transport

import ExpertKit.Transport.GrpcCodec

/-!
# Transport: gRPC requests and responses come back

The round trips of `transports/grpc/codec.py` over a protobuf library that follows its wire format:
what a sender may encode fits the limits of the endpoint and is decoded to the same batch, error or
partial output.

* `GrpcBatch.request_size_le`   the hand-written limit dominates every request;
* `RoundTrip`                   what a decoded batch keeps;
* `encodeErrorResponse`, `encodeSuccessResponse`, `decodeResponse`   the responses;
* `grpc_codec_round_trip`       all of it, and that nothing inconsistent is accepted.
-/

set_option linter.unusedSectionVars false

namespace ExpertKit.Transport
open Routing Protobuf

/-! ## requests -/

section
variable {b : GrpcBatch} {spec : CheckedEndpointConfig}

theorem GrpcBatch.request_valid (hb : b.WellFormed) (hm : Matches spec b)
    (hi : b.IndicesInRange) : (b.request spec hi).Valid where
  instanceId := hb.instanceId
  layerId := hb.layerId
  topologyVersion := hb.topologyVersion
  tokenCount := hm.tokens.trans_lt spec.maxBatchTokens_range.2
  hiddenDim := hm.hiddenDim.trans_lt spec.hiddenDim_range.2
  topK := hm.topK.trans_lt spec.topK_range.2
  dtype := by
    change 0 ≤ spec.dtype.toProtobuf ∧ spec.dtype.toProtobuf < 2 ^ 31
    cases spec.dtype <;> decide

theorem GrpcBatch.length_hidden (hm : Matches spec b) (hi : b.IndicesInRange) :
    (b.gatheredTensor hi).rawBytes.length =
      b.tokenCount * spec.hiddenDim * spec.dtype.elementBytes := by
  rw [PatternTensor.length_rawBytes, ← hm.hiddenDim, ← hm.dtype]
  change b.gathered.length * b.hiddenStates.cols * b.dtype.elementBytes = _
  rw [b.length_gathered]

theorem GrpcBatch.length_ids (hb : b.WellFormed) (hm : Matches spec b) :
    b.expertIds.rawBytes.length = b.tokenCount * spec.topK * 4 := by
  rw [Int32Tensor.length_rawBytes, hb.ids_rows, hm.topK]

theorem GrpcBatch.length_weights (hb : b.WellFormed) (hm : Matches spec b) :
    b.routingWeights.rawBytes.length = b.tokenCount * spec.topK * 4 := by
  rw [PatternTensor.length_rawBytes, hb.weights_rows, hb.ids_rows, hb.weights_cols, hm.topK]

theorem mul_tokens_le {tokens bound m n : Nat} (h : tokens ≤ bound) :
    tokens * m * n ≤ bound * m * n :=
  Nat.mul_le_mul_right _ (Nat.mul_le_mul_right _ h)

/-- the limit of the endpoint dominates every request -/
theorem GrpcBatch.request_size_le (hb : b.WellFormed) (hm : Matches spec b)
    (hi : b.IndicesInRange) {limits : GrpcMessageLimits} (hlimits : MessageLimits spec limits) :
    (b.request spec hi).size ≤ limits.requestBytes := by
  have hinstance := ExecuteRequest.numberSize_le_width hb.instanceId
  have hlayer := ExecuteRequest.numberSize_le_width hb.layerId
  have htopology := ExecuteRequest.numberSize_le_width hb.topologyVersion
  have htokens := (ExecuteRequest.numberSize_le b.tokenCount).trans
    (Nat.add_le_add_left (varintSize_mono hm.tokens) 1)
  have hcols := ExecuteRequest.numberSize_le b.hiddenStates.cols
  have htopK := ExecuteRequest.numberSize_le b.expertIds.cols
  rw [hm.hiddenDim] at hcols
  rw [hm.topK] at htopK
  have hdtype : ExecuteRequest.numberSize spec.dtype.toProtobuf.toNat = 2 := by
    cases spec.dtype <;> decide
  have hhidden : ExecuteRequest.bytesSize (b.gatheredTensor hi).rawBytes ≤ _ :=
    ExecuteRequest.bytesSize_le ((b.length_hidden hm hi).trans_le (mul_tokens_le hm.tokens))
  have hids : ExecuteRequest.bytesSize b.expertIds.rawBytes ≤ _ :=
    ExecuteRequest.bytesSize_le ((b.length_ids hb hm).trans_le (mul_tokens_le hm.tokens))
  have hweights : ExecuteRequest.bytesSize b.routingWeights.rawBytes ≤ _ :=
    ExecuteRequest.bytesSize_le ((b.length_weights hb hm).trans_le (mul_tokens_le hm.tokens))
  rw [hlimits.request]
  simp only [ExecuteRequest.size, GrpcBatch.request, hdtype, CheckedEndpointConfig.hiddenBytes,
    CheckedEndpointConfig.routingBytes, hm.hiddenDim, hm.topK]
  omega

/-- what a decoded batch keeps: the selected rows in order and the routing, bit by bit -/
structure RoundTrip (b : GrpcBatch) (decoded : GrpcBatch) : Prop where
  instanceId : decoded.instanceId = b.instanceId
  layerId : decoded.layerId = b.layerId
  topologyVersion : decoded.topologyVersion = b.topologyVersion
  dtype : decoded.dtype = b.dtype
  tokenIndices : decoded.tokenIndices = none
  hiddenStates : decoded.hiddenStates.rows = b.gathered
  hiddenDim : decoded.hiddenStates.cols = b.hiddenStates.cols
  expertIds : decoded.expertIds.rows = b.expertIds.rows
  routingWeights : decoded.routingWeights.rows = b.routingWeights.rows
  topK : decoded.expertIds.cols = b.expertIds.cols ∧
    decoded.routingWeights.cols = b.routingWeights.cols
  distinct : DistinctOf b.expertIds decoded.distinctExpertIds

theorem RoutingOk.congr {ids ids' : Int32Tensor} {weights weights' : PatternTensor 4} {n : Nat}
    (hids : ids'.rows = ids.rows) (hweights : weights'.rows = weights.rows)
    (h : RoutingOk ids weights n) : RoutingOk ids' weights' n := by
  refine ⟨?_, ?_⟩
  · rw [hids]
    exact h.range
  · rw [hids, hweights]
    exact h.zero

theorem decodeTensors_request (hb : b.WellFormed) (hm : Matches spec b) (hi : b.IndicesInRange)
    (hrouting : RoutingOk b.expertIds b.routingWeights spec.expertsPerLayer) :
    ∃ decoded, decodeTensors (b.request spec hi) spec = .ok decoded ∧
      RoundTrip b decoded.batch := by
  have hhidden := b.length_hidden hm hi
  have hids := b.length_ids hb hm
  have hweights := b.length_weights hb hm
  have hhiddenRows : (PatternTensor.fromBytes spec.dtype.elementBytes
      (b.gatheredTensor hi).rawBytes b.tokenCount spec.hiddenDim hhidden).rows = b.gathered :=
    (b.gatheredTensor hi).fromBytes_of_width (by rw [hm.dtype]) b.length_gathered.symm
      hm.hiddenDim.symm hhidden
  have hidsRows : (Int32Tensor.fromBytes b.expertIds.rawBytes b.tokenCount spec.topK hids).rows =
      b.expertIds.rows :=
    b.expertIds.fromBytes_rawBytes hb.ids_rows.symm hm.topK.symm hids
  have hweightsRows : (PatternTensor.fromBytes 4 b.routingWeights.rawBytes b.tokenCount spec.topK
      hweights).rows = b.routingWeights.rows :=
    b.routingWeights.fromBytes_rawBytes (hb.weights_rows.trans hb.ids_rows).symm
      (hb.weights_cols.trans hm.topK).symm hweights
  obtain ⟨distinct, hdistinct⟩ := (validateGrpcRouting_iff _ _ _).mpr
    (hrouting.congr hidsRows hweightsRows)
  have hascending := (validateGrpcRouting_ok hdistinct).1
  refine ⟨_, decodeTensors_eq hhidden hids hweights hdistinct, {
    instanceId := rfl
    layerId := rfl
    topologyVersion := rfl
    dtype := hm.dtype.symm
    tokenIndices := rfl
    hiddenStates := hhiddenRows
    hiddenDim := hm.hiddenDim.symm
    expertIds := hidsRows
    routingWeights := hweightsRows
    topK := ⟨hm.topK.symm, (hb.weights_cols.trans hm.topK).symm⟩
    distinct := ⟨hascending.ascending, fun id => ?_⟩ }⟩
  rw [hascending.mem, hidsRows]

/-- the decoded batch passes the checks of its constructor -/
theorem RoundTrip.wellFormed {decoded : GrpcBatch} (h : RoundTrip b decoded) (hb : b.WellFormed)
    (hrouting : RoutingOk b.expertIds b.routingWeights spec.expertsPerLayer) :
    decoded.WellFormed := by
  have hrows : decoded.hiddenStates.rows.length = b.tokenCount := by
    rw [h.hiddenStates, b.length_gathered]
  have htokens : decoded.tokenCount = b.tokenCount := by
    rw [GrpcBatch.tokenCount, h.tokenIndices]
    exact hrows
  refine {
    instanceId := h.instanceId.trans_lt hb.instanceId
    layerId := h.layerId.trans_lt hb.layerId
    topologyVersion := h.topologyVersion.trans_lt hb.topologyVersion
    hidden_rows := hb.tokens.trans_eq hrows.symm
    hidden_cols := hb.hidden_cols.trans_eq h.hiddenDim.symm
    tokens := hb.tokens.trans_eq htokens.symm
    ids_rows := ?_
    ids_cols := hb.ids_cols.trans_eq h.topK.1.symm
    weights_rows := ?_
    weights_cols := ?_
    distinct := ⟨h.distinct.ascending, fun id hid => ?_⟩ }
  · rw [h.expertIds, hb.ids_rows, htokens]
  · rw [h.routingWeights, h.expertIds, hb.weights_rows]
  · rw [h.topK.1, h.topK.2, hb.weights_cols]
  · have hlt := (hrouting.range _ ((h.distinct.mem id).mp hid)).2
    have hexperts := spec.expertsPerLayer_range.2
    unfold uint32Max
    omega

/-- a request is encoded within its limit and comes back -/
theorem request_round_trip {codec : Codec ExecuteRequest}
    (lawful : codec.Lawful ExecuteRequest.Valid ExecuteRequest.size) {limits : GrpcMessageLimits}
    (hlimits : calculateMessageLimits spec = .ok limits) (hb : b.WellFormed)
    (hvalidate : validateGrpcBatch b spec = .ok ()) (hi : b.IndicesInRange)
    (hrouting : RoutingOk b.expertIds b.routingWeights spec.expertsPerLayer) :
    ∃ payload decoded, encodeRequest codec b spec = .ok payload ∧
      payload.length ≤ limits.requestBytes ∧
      decodeRequest codec payload spec = .ok decoded ∧ RoundTrip b decoded.batch := by
  have hm := validateGrpcBatch_ok hvalidate
  have hbounds := calculateMessageLimits_ok hlimits
  have hvalid := b.request_valid hb hm hi
  have hsize := b.request_size_le hb hm hi hbounds
  obtain ⟨payload, hpayload⟩ :=
    Option.isSome_iff_exists.mp (lawful.total _ hvalid (hsize.trans hbounds.request_le))
  have hlength : payload.length ≤ limits.requestBytes :=
    (lawful.length _ _ hvalid hpayload).trans_le hsize
  obtain ⟨decoded, hdecoded, htrip⟩ := decodeTensors_request hb hm hi hrouting
  refine ⟨payload, decoded, encodeRequest_eq hvalidate hi hlimits hpayload hlength, hlength, ?_,
    htrip⟩
  unfold decodeRequest
  rw [hlimits]
  change (if limits.requestBytes < payload.length then _ else _) = _
  rw [if_neg (Nat.not_lt.mpr hlength), lawful.parse _ _ hvalid hpayload]
  have hinstance : ¬ (b.request spec hi).instanceId ≠ spec.instanceId := not_not.mpr hm.instanceId
  have hlayer : ¬ spec.numLayers ≤ (b.request spec hi).layerId := Nat.not_le.mpr hm.layerId
  have htokens : ¬ ¬ (0 < (b.request spec hi).tokenCount ∧
      (b.request spec hi).tokenCount ≤ spec.maxBatchTokens) := not_not.mpr ⟨hb.tokens, hm.tokens⟩
  have hhidden : ¬ (b.request spec hi).hiddenDim ≠ spec.hiddenDim := not_not.mpr hm.hiddenDim
  have htopK : ¬ (b.request spec hi).topK ≠ spec.topK := not_not.mpr hm.topK
  have hdtype : ¬ TensorDType.fromProtobuf (b.request spec hi).dtype ≠ some spec.dtype :=
    not_not.mpr (TensorDType.fromProtobuf_toProtobuf spec.dtype)
  dsimp only
  rw [if_neg hinstance, if_neg hlayer, if_neg htokens, if_neg hhidden, if_neg htopK,
    if_neg hdtype, hdecoded]

end

/-! ## responses -/

/-- an `ExecuteResponse`; a success carries the raw bytes of the partial output -/
abbrev ExecuteResponse := Option (ExecuteResult (List UInt8))

namespace ExecuteResponse

/-- `partial_output` is written even when it is empty -/
def outputSize (raw : List UInt8) : Nat := Wire.lenField raw.length

def size : ExecuteResponse → Nat := resultSize outputSize

def Valid : ExecuteResponse → Prop := ValidResult fun _ => True

end ExecuteResponse

/-- the end of both encoders -/
def finishResponse (codec : Codec ExecuteResponse) (response : ExecuteResponse)
    (spec : CheckedEndpointConfig) (tooLarge : String) : Except CodecRaised (List UInt8) :=
  match codec.serialize response with
  | none => .error .encodeError
  | some payload =>
    (calculateMessageLimits spec).bind fun limits =>
      if limits.responseBytes < payload.length then .error (.runtimeError tooLarge)
      else .ok payload

def encodeErrorResponse (codec : Codec ExecuteResponse) (error : TransportError)
    (spec : CheckedEndpointConfig) : Except CodecRaised (List UInt8) :=
  (encodeComputeError error spec).bind fun message =>
    finishResponse codec (some (.error message)) spec
      "encoded error exceeds its calculated gRPC limit"

def encodeSuccessResponse (codec : Codec ExecuteResponse) (dtype : TensorDType)
    (partialOutput : PatternTensor dtype.elementBytes) (spec : CheckedEndpointConfig) :
    Except CodecRaised (List UInt8) :=
  if partialOutput.cols ≠ spec.hiddenDim then
    .error (.valueError "partial output must have shape [token_count, hidden_dim]")
  else if ¬ (0 < partialOutput.rows.length ∧ partialOutput.rows.length ≤ spec.maxBatchTokens) then
    .error (.valueError "partial output token count exceeds the configured limit")
  else if dtype ≠ spec.dtype then
    .error (.valueError "partial output dtype does not match the configured model")
  else
    finishResponse codec (some (.success partialOutput.rawBytes)) spec
      "encoded response exceeds its calculated gRPC limit"

def decodeResponse (codec : Codec ExecuteResponse) (payload : List UInt8) (tokenCount : Nat)
    (spec : CheckedEndpointConfig) : Except CodecRaised (PatternTensor spec.dtype.elementBytes) :=
  if ¬ (0 < tokenCount ∧ tokenCount ≤ spec.maxBatchTokens) then
    .error (.valueError "token_count must be positive and within max_batch_tokens")
  else
    (calculateMessageLimits spec).bind fun limits =>
    if limits.responseBytes < payload.length then
      protocolFailure "response exceeds the configured gRPC message limit"
    else
      match codec.parse payload with
      | none => protocolFailure "response is not valid protobuf"
      | some (some (.error message)) =>
        (decodeComputeError message spec).bind fun error => .error (.transport error)
      | some none => protocolFailure "response does not contain a result"
      | some (some (.success raw)) =>
        if h : raw.length = tokenCount * spec.hiddenDim * spec.dtype.elementBytes then
          .ok (PatternTensor.fromBytes spec.dtype.elementBytes raw tokenCount spec.hiddenDim h)
        else protocolFailure "partial_output has an inconsistent encoded length"

section
variable {codec : Codec ExecuteResponse}
  (lawful : codec.Lawful ExecuteResponse.Valid ExecuteResponse.size)
  {spec : CheckedEndpointConfig} {limits : GrpcMessageLimits}
  (hlimits : calculateMessageLimits spec = .ok limits)
include lawful hlimits

/-- a response within the limit is serialized and parsed -/
theorem finishResponse_ok {response : ExecuteResponse} (hvalid : response.Valid)
    (hsize : response.size ≤ limits.responseBytes) (tooLarge : String) :
    ∃ payload, finishResponse codec response spec tooLarge = .ok payload ∧
      payload.length ≤ limits.responseBytes ∧ codec.parse payload = some response := by
  have hbounds := calculateMessageLimits_ok hlimits
  obtain ⟨payload, hpayload⟩ :=
    Option.isSome_iff_exists.mp (lawful.total _ hvalid (hsize.trans hbounds.response_le))
  have hlength : payload.length ≤ limits.responseBytes :=
    (lawful.length _ _ hvalid hpayload).trans_le hsize
  refine ⟨payload, ?_, hlength, lawful.parse _ _ hvalid hpayload⟩
  unfold finishResponse
  rw [hpayload, hlimits]
  exact if_neg (Nat.not_lt.mpr hlength)

/-- an accepted error is encoded within the limit and comes back with its diagnostic cut -/
theorem error_round_trip {error : TransportError} {message : ComputeError}
    (h : encodeComputeError error spec = .ok message) :
    ∃ payload, encodeErrorResponse codec error spec = .ok payload ∧
      payload.length ≤ limits.responseBytes ∧
      ∀ tokenCount, 0 < tokenCount → tokenCount ≤ spec.maxBatchTokens →
        decodeResponse codec payload tokenCount spec =
          .error (.transport { error with diagnostic := boundedDiagnostic error.diagnostic }) := by
  have haccepted := encodeComputeError_ok h
  have hbounds := calculateMessageLimits_ok hlimits
  have hsize : ExecuteResponse.size (some (.error message)) ≤ limits.responseBytes := by
    have hle := lenField_mono haccepted.size_le
    change Wire.lenField message.size ≤ _
    rw [hbounds.response]
    omega
  have hvalid : ExecuteResponse.Valid (some (.error message)) := haccepted.valid
  obtain ⟨payload, hpayload, hlength, hparse⟩ := finishResponse_ok lawful hlimits hvalid hsize
    "encoded error exceeds its calculated gRPC limit"
  refine ⟨payload, ?_, hlength, fun tokenCount hpos hmax => ?_⟩
  · rw [encodeErrorResponse, h]
    exact hpayload
  · unfold decodeResponse
    rw [if_neg (not_not.mpr ⟨hpos, hmax⟩), hlimits]
    change (if limits.responseBytes < payload.length then _ else _) = _
    rw [if_neg (Nat.not_lt.mpr hlength), hparse]
    dsimp only
    rw [haccepted.decode]
    rfl

/-- a partial output is encoded within the limit and comes back bit by bit -/
theorem output_round_trip (partialOutput : PatternTensor spec.dtype.elementBytes)
    (hcols : partialOutput.cols = spec.hiddenDim) (hpos : 0 < partialOutput.rows.length)
    (hmax : partialOutput.rows.length ≤ spec.maxBatchTokens) :
    ∃ payload output, encodeSuccessResponse codec spec.dtype partialOutput spec = .ok payload ∧
      payload.length ≤ limits.responseBytes ∧
      decodeResponse codec payload partialOutput.rows.length spec = .ok output ∧
      output.rows = partialOutput.rows ∧ output.cols = partialOutput.cols := by
  have hbounds := calculateMessageLimits_ok hlimits
  have hraw : partialOutput.rawBytes.length =
      partialOutput.rows.length * spec.hiddenDim * spec.dtype.elementBytes := by
    rw [partialOutput.length_rawBytes, hcols]
  have hsize : ExecuteResponse.size (some (.success partialOutput.rawBytes)) ≤
      limits.responseBytes := by
    have hle := lenField_mono (hraw.trans_le (mul_tokens_le hmax))
    change Wire.lenField partialOutput.rawBytes.length ≤ _
    rw [hbounds.response]
    unfold CheckedEndpointConfig.hiddenBytes
    omega
  have hvalid : ExecuteResponse.Valid (some (.success partialOutput.rawBytes)) := trivial
  obtain ⟨payload, hpayload, hlength, hparse⟩ := finishResponse_ok lawful hlimits hvalid hsize
    "encoded response exceeds its calculated gRPC limit"
  refine ⟨payload, _, ?_, hlength, ?_, partialOutput.fromBytes_rawBytes rfl hcols.symm hraw,
    hcols.symm⟩
  · unfold encodeSuccessResponse
    rw [if_neg (not_not.mpr hcols), if_neg (not_not.mpr ⟨hpos, hmax⟩), if_neg (not_not.mpr rfl)]
    exact hpayload
  · unfold decodeResponse
    rw [if_neg (not_not.mpr ⟨hpos, hmax⟩), hlimits]
    change (if limits.responseBytes < payload.length then _ else _) = _
    rw [if_neg (Nat.not_lt.mpr hlength), hparse]
    exact dif_pos hraw

end

/-! ## the codec -/

/-- the diagnostic cut at a character boundary, as late as the bound allows -/
structure CutDiagnostic (value cut : String) : Prop where
  isPrefix : cut.toList <+: value.toList
  bound : cut.utf8ByteSize ≤ maxDiagnosticBytes
  latest : ∀ c rest, value.toList = cut.toList ++ c :: rest →
    maxDiagnosticBytes < cut.utf8ByteSize + c.utf8Size

theorem boundedDiagnostic_cut (value : String) : CutDiagnostic value (boundedDiagnostic value) := by
  refine ⟨?_, boundedDiagnostic_le value, fun c rest h => ?_⟩
  · unfold boundedDiagnostic
    split_ifs
    · exact List.prefix_refl _
    · rw [String.toList_ofList]
      exact utf8Prefix_prefix _ _
  · unfold boundedDiagnostic at h ⊢
    split_ifs at h ⊢
    · exact absurd (congrArg List.length h) (by simp)
    · rw [String.toList_ofList] at h
      rw [utf8ByteSize_ofList]
      exact utf8Prefix_next h

/-- over every endpoint that has limits: batches, errors and partial outputs are encoded within them
and come back, and a payload that does not agree with the endpoint and with itself is refused -/
theorem grpc_codec_round_trip {requests : Codec ExecuteRequest} {responses : Codec ExecuteResponse}
    (hrequests : requests.Lawful ExecuteRequest.Valid ExecuteRequest.size)
    (hresponses : responses.Lawful ExecuteResponse.Valid ExecuteResponse.size)
    {spec : CheckedEndpointConfig} {limits : GrpcMessageLimits}
    (hlimits : calculateMessageLimits spec = .ok limits) :
    (∀ b : GrpcBatch, b.WellFormed → validateGrpcBatch b spec = .ok () → b.IndicesInRange →
      RoutingOk b.expertIds b.routingWeights spec.expertsPerLayer →
      ∃ payload decoded, encodeRequest requests b spec = .ok payload ∧
        payload.length ≤ limits.requestBytes ∧
        decodeRequest requests payload spec = .ok decoded ∧ RoundTrip b decoded.batch ∧
        decoded.batch.WellFormed) ∧
    (∀ error message, encodeComputeError error spec = .ok message →
      ∃ payload cut, encodeErrorResponse responses error spec = .ok payload ∧
        payload.length ≤ limits.responseBytes ∧ CutDiagnostic error.diagnostic cut ∧
        ∀ tokenCount, 0 < tokenCount → tokenCount ≤ spec.maxBatchTokens →
          decodeResponse responses payload tokenCount spec =
            .error (.transport { error with diagnostic := cut })) ∧
    (∀ partialOutput : PatternTensor spec.dtype.elementBytes,
      partialOutput.cols = spec.hiddenDim → 0 < partialOutput.rows.length →
      partialOutput.rows.length ≤ spec.maxBatchTokens →
      ∃ payload output, encodeSuccessResponse responses spec.dtype partialOutput spec =
          .ok payload ∧ payload.length ≤ limits.responseBytes ∧
        decodeResponse responses payload partialOutput.rows.length spec = .ok output ∧
        output.rows = partialOutput.rows ∧ output.cols = partialOutput.cols) ∧
    ∀ payload decoded, decodeRequest requests payload spec = .ok decoded →
      ∃ request, requests.parse payload = some request ∧ Consistent spec request decoded := by
  refine ⟨fun b hb hvalidate hi hrouting => ?_, fun error message h => ?_, ?_, ?_⟩
  · obtain ⟨payload, decoded, hencode, hlength, hdecode, htrip⟩ :=
      request_round_trip hrequests hlimits hb hvalidate hi hrouting
    exact ⟨payload, decoded, hencode, hlength, hdecode, htrip, htrip.wellFormed hb hrouting⟩
  · obtain ⟨payload, hencode, hlength, hdecode⟩ := error_round_trip hresponses hlimits h
    exact ⟨payload, _, hencode, hlength, boundedDiagnostic_cut error.diagnostic, hdecode⟩
  · exact output_round_trip hresponses hlimits
  · exact fun payload decoded h => decodeRequest_ok h

/-! ## the wire format -/

namespace ExecuteRequest

def optional (n : Nat) : Option Nat := if n = 0 then none else some n

def optionalBytes (content : List UInt8) : Option (List UInt8) :=
  if content = [] then none else some content

def write (m : ExecuteRequest) : List Field :=
  numberField 1 (optional m.instanceId) ++ numberField 2 (optional m.layerId) ++
    numberField 3 (optional m.topologyVersion) ++ numberField 4 (optional m.tokenCount) ++
    numberField 5 (optional m.hiddenDim) ++ numberField 6 (optional m.topK) ++
    numberField 7 (optional (m.dtype % 2 ^ 64).toNat) ++
    bytesField 8 (optionalBytes m.hiddenStates) ++ bytesField 9 (optionalBytes m.expertIds) ++
    bytesField 10 (optionalBytes m.routingWeights)

def read (fs : List Field) : Option ExecuteRequest :=
  some {
    instanceId := (numberOf 1 fs).getD 0
    layerId := (numberOf 2 fs).getD 0 % 2 ^ 32
    topologyVersion := (numberOf 3 fs).getD 0
    tokenCount := (numberOf 4 fs).getD 0 % 2 ^ 32
    hiddenDim := (numberOf 5 fs).getD 0 % 2 ^ 32
    topK := (numberOf 6 fs).getD 0 % 2 ^ 32
    dtype := (BitVec.ofNat 32 ((numberOf 7 fs).getD 0)).toInt
    hiddenStates := (bytesOf 8 fs).getD []
    expertIds := (bytesOf 9 fs).getD []
    routingWeights := (bytesOf 10 fs).getD [] }

theorem optional_getD (n : Nat) : (optional n).getD 0 = n := by
  unfold optional
  split_ifs with h
  · exact h.symm
  · rfl

theorem optionalBytes_getD (content : List UInt8) : (optionalBytes content).getD [] = content := by
  unfold optionalBytes
  split_ifs with h
  · exact h.symm
  · rfl

theorem numberOf_write (m : ExecuteRequest) :
    numberOf 1 m.write = optional m.instanceId ∧ numberOf 2 m.write = optional m.layerId ∧
    numberOf 3 m.write = optional m.topologyVersion ∧
    numberOf 4 m.write = optional m.tokenCount ∧ numberOf 5 m.write = optional m.hiddenDim ∧
    numberOf 6 m.write = optional m.topK ∧
    numberOf 7 m.write = optional (m.dtype % 2 ^ 64).toNat := by
  refine ⟨?_, ?_, ?_, ?_, ?_, ?_, ?_⟩ <;>
    simp only [write, numberOf_append, numberOf_numberField, numberOf_bytesField] <;> simp

theorem bytesOf_write (m : ExecuteRequest) :
    bytesOf 8 m.write = optionalBytes m.hiddenStates ∧
    bytesOf 9 m.write = optionalBytes m.expertIds ∧
    bytesOf 10 m.write = optionalBytes m.routingWeights := by
  refine ⟨?_, ?_, ?_⟩ <;>
    simp only [write, bytesOf_append, bytesOf_numberField, bytesOf_bytesField] <;> simp

theorem read_write {m : ExecuteRequest} (h : m.Valid) : read m.write = some m := by
  obtain ⟨h1, h2, h3, h4, h5, h6, h7⟩ := m.numberOf_write
  obtain ⟨h8, h9, h10⟩ := m.bytesOf_write
  have hdtype : (BitVec.ofNat 32 (m.dtype % 2 ^ 64).toNat).toInt = m.dtype := by
    obtain ⟨hlow, hhigh⟩ := h.dtype
    have hmod : m.dtype % 2 ^ 64 = m.dtype :=
      Int.emod_eq_of_lt hlow (hhigh.trans (by norm_num))
    rw [hmod, BitVec.toInt_eq_toNat_of_lt]
    · rw [BitVec.toNat_ofNat, Nat.mod_eq_of_lt (by omega)]
      omega
    · rw [BitVec.toNat_ofNat, Nat.mod_eq_of_lt (by omega)]
      omega
  unfold read
  rw [h1, h2, h3, h4, h5, h6, h7, h8, h9, h10]
  simp only [optional_getD, optionalBytes_getD, hdtype, Nat.mod_eq_of_lt h.layerId,
    Nat.mod_eq_of_lt h.tokenCount, Nat.mod_eq_of_lt h.hiddenDim, Nat.mod_eq_of_lt h.topK]

theorem optional_lt {n : Nat} (h : n < 2 ^ 64) : ∀ v, optional n = some v → v < 2 ^ 64 := by
  intro v hv
  unfold optional at hv
  split_ifs at hv
  cases hv
  exact h

theorem optionalBytes_lt {content : List UInt8} (h : bytesSize content ≤ maxMessageBytes) :
    ∀ c, optionalBytes content = some c → c.length < 2 ^ 64 := by
  intro c hc
  unfold optionalBytes at hc
  split_ifs at hc with hempty
  cases hc
  rw [bytesSize, if_neg hempty] at h
  exact ((size_le_lenField _).trans h).trans_lt (by decide)

theorem fieldsSize_optional {number n : Nat} (hnumber : number < 16) (h : n < 2 ^ 64) :
    fieldsSize (numberField number (optional n)) = numberSize n := by
  rw [fieldsSize_numberField hnumber (optional_lt h)]
  unfold optional numberSize
  split_ifs <;> rfl

theorem fieldsSize_optionalBytes {number : Nat} {content : List UInt8} (hnumber : number < 16)
    (h : bytesSize content ≤ maxMessageBytes) :
    fieldsSize (bytesField number (optionalBytes content)) = bytesSize content := by
  rw [fieldsSize_bytesField hnumber (optionalBytes_lt h)]
  unfold optionalBytes bytesSize
  split_ifs <;> rfl

theorem dtype_lt (dtype : Int) : (dtype % 2 ^ 64).toNat < 2 ^ 64 := by
  have hlt := Int.emod_lt_of_pos dtype (show (0 : Int) < 2 ^ 64 by norm_num)
  omega

/-- a `uint32` is written as a `uint64` -/
theorem lt64 {n : Nat} (h : n < 2 ^ 32) : n < 2 ^ 64 := h.trans (by norm_num)

theorem bytes_le {m : ExecuteRequest} (hmax : m.size ≤ maxMessageBytes) :
    bytesSize m.hiddenStates ≤ maxMessageBytes ∧ bytesSize m.expertIds ≤ maxMessageBytes ∧
      bytesSize m.routingWeights ≤ maxMessageBytes := by
  unfold size at hmax
  refine ⟨?_, ?_, ?_⟩ <;> omega

theorem fits_write {m : ExecuteRequest} (h : m.Valid) (hmax : m.size ≤ maxMessageBytes) :
    ∀ f ∈ m.write, f.Fits := by
  obtain ⟨hhidden, hids, hweights⟩ := bytes_le hmax
  intro f hf
  simp only [write, List.mem_append] at hf
  rcases hf with ((((((((hf | hf) | hf) | hf) | hf) | hf) | hf) | hf) | hf) | hf
  · exact fits_numberField (by norm_num) (optional_lt h.instanceId) f hf
  · exact fits_numberField (by norm_num) (optional_lt (lt64 h.layerId)) f hf
  · exact fits_numberField (by norm_num) (optional_lt h.topologyVersion) f hf
  · exact fits_numberField (by norm_num) (optional_lt (lt64 h.tokenCount)) f hf
  · exact fits_numberField (by norm_num) (optional_lt (lt64 h.hiddenDim)) f hf
  · exact fits_numberField (by norm_num) (optional_lt (lt64 h.topK)) f hf
  · exact fits_numberField (by norm_num) (optional_lt (dtype_lt m.dtype)) f hf
  · exact fits_bytesField (by norm_num) (optionalBytes_lt hhidden) f hf
  · exact fits_bytesField (by norm_num) (optionalBytes_lt hids) f hf
  · exact fits_bytesField (by norm_num) (optionalBytes_lt hweights) f hf

theorem fieldsSize_write {m : ExecuteRequest} (h : m.Valid) (hmax : m.size ≤ maxMessageBytes) :
    fieldsSize m.write = m.size := by
  obtain ⟨hhidden, hids, hweights⟩ := bytes_le hmax
  have hdtype : m.dtype % 2 ^ 64 = m.dtype :=
    Int.emod_eq_of_lt h.dtype.1 (h.dtype.2.trans (by norm_num))
  have hdtype64 := dtype_lt m.dtype
  rw [hdtype] at hdtype64
  simp only [write, hdtype, fieldsSize_append, size,
    fieldsSize_optional (show 1 < 16 by norm_num) h.instanceId,
    fieldsSize_optional (show 2 < 16 by norm_num) (lt64 h.layerId),
    fieldsSize_optional (show 3 < 16 by norm_num) h.topologyVersion,
    fieldsSize_optional (show 4 < 16 by norm_num) (lt64 h.tokenCount),
    fieldsSize_optional (show 5 < 16 by norm_num) (lt64 h.hiddenDim),
    fieldsSize_optional (show 6 < 16 by norm_num) (lt64 h.topK),
    fieldsSize_optional (show 7 < 16 by norm_num) hdtype64,
    fieldsSize_optionalBytes (show 8 < 16 by norm_num) hhidden,
    fieldsSize_optionalBytes (show 9 < 16 by norm_num) hids,
    fieldsSize_optionalBytes (show 10 < 16 by norm_num) hweights]

end ExecuteRequest

/-- the requests in the protobuf wire format -/
def requestCodec : Codec ExecuteRequest :=
  Codec.ofFields ExecuteRequest.size ExecuteRequest.write ExecuteRequest.read

theorem requestCodec_lawful :
    requestCodec.Lawful ExecuteRequest.Valid ExecuteRequest.size :=
  Codec.ofFields_lawful (fun _ h hmax => ExecuteRequest.fits_write h hmax)
    (fun _ h _ => ExecuteRequest.read_write h)
    fun _ h hmax => ExecuteRequest.fieldsSize_write h hmax

/-- the responses in the protobuf wire format -/
def responseCodec : Codec ExecuteResponse :=
  Codec.ofFields ExecuteResponse.size (writeResult fun raw => ⟨1, .bytes raw⟩)
    (readResult (Field.bytesAt 1))

theorem responseCodec_lawful :
    responseCodec.Lawful ExecuteResponse.Valid ExecuteResponse.size := by
  have hlength : ∀ raw, ExecuteResponse.outputSize raw ≤ maxMessageBytes → raw.length < 2 ^ 64 :=
    fun raw hmax => ((size_le_lenField _).trans hmax).trans_lt (by decide)
  refine result_lawful (fun _ _ => rfl) (fun raw _ hmax => ?_)
    (fun raw _ hmax => length_field_bytes (by norm_num) (hlength raw hmax)) fun _ => rfl
  refine ⟨by norm_num, fun n hn => (by cases hn), fun content hcontent => ?_⟩
  cases hcontent
  exact hlength raw hmax

/-- one token, routed to one of two slots -/
def exampleBatch : GrpcBatch where
  instanceId := 1
  layerId := 3
  topologyVersion := 7
  dtype := .bf16
  hiddenStates := ⟨2, [[1, 2], [3, 65535]], by decide, by decide⟩
  tokenIndices := some [1]
  expertIds := ⟨2, [[5, -1]], by decide, by unfold Int32; decide⟩
  routingWeights := ⟨2, [[1065353216, 0]], by decide, by decide⟩
  distinctExpertIds := [5]

def exampleShape : CheckedEndpointConfig where
  numLayers := 4
  expertsPerLayer := 8
  maxBatchTokens := 16
  instanceId := 1
  hiddenDim := 2
  topK := 2
  dtype := .bf16
  instanceId_range := by decide
  numLayers_range := by decide
  expertsPerLayer_range := by decide
  maxBatchTokens_range := by decide
  hiddenDim_range := by decide
  topK_range := by decide
  topK_le := by decide

/-- the example batch is encoded and decoded: its second row, and the expert 5 -/
theorem grpc_codec_round_trip_example :
    ∃ payload decoded, encodeRequest requestCodec exampleBatch exampleShape = .ok payload ∧
      decodeRequest requestCodec payload exampleShape = .ok decoded ∧
      decoded.batch.hiddenStates.rows = [[3, 65535]] ∧
      decoded.batch.distinctExpertIds.Pairwise (· < ·) := by
  obtain ⟨limits, hlimits⟩ :=
    Fallible.ok_of_isOk (show (calculateMessageLimits exampleShape).isOk = true by decide +kernel)
  have hindices : exampleBatch.IndicesInRange := by
    intro indices hindices index hindex
    cases hindices
    obtain rfl := List.mem_singleton.mp hindex
    decide
  have hwell : exampleBatch.WellFormed := by
    have hdistinct : DistinctOk exampleBatch.distinctExpertIds :=
      ⟨by decide, by simp [exampleBatch, uint32Max]⟩
    exact ⟨by decide, by decide, by decide, by decide, by decide, by decide, rfl, by decide, rfl,
      rfl, hdistinct⟩
  have hrouting : RoutingOk exampleBatch.expertIds exampleBatch.routingWeights
      exampleShape.expertsPerLayer := ⟨by decide, by decide⟩
  obtain ⟨payload, decoded, hencode, -, hdecode, htrip, -⟩ :=
    (grpc_codec_round_trip requestCodec_lawful responseCodec_lawful hlimits).1 exampleBatch hwell
      rfl hindices hrouting
  exact ⟨payload, decoded, hencode, hdecode, htrip.hiddenStates, htrip.distinct.ascending⟩

end ExpertKit.Transport

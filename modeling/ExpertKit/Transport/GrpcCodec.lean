import ExpertKit.Lib.Bytes
import ExpertKit.Transport.GrpcLimits

/-!
# Transport: the gRPC computation codec

`transports/grpc/codec.py` with `transports/validation.py`.  A tensor on the Host is a table of bit
patterns of fixed width, so nothing is assumed about its arithmetic.  Devices, contiguity and the
byte order of the Host are left out; the protobuf library is a parameter.

* `HostTensor`, `GrpcBatch`      a Worker batch with the bit patterns of its tensors;
* `encodeRequest`, `decodeRequest`   a request;
* `encodeErrorResponse`, `encodeSuccessResponse`, `decodeResponse`   a response;
* `Consistent`                   what the receiver accepts;
* `grpc_codec_round_trip`        the round trips, the bounds, and that nothing else is accepted.
-/

set_option linter.unusedSectionVars false

namespace ExpertKit.Transport
open Routing Protobuf

/-! ## tensors -/

/-- a two-dimensional tensor whose elements are within the range of their type -/
structure HostTensor (α : Type) (inRange : α → Prop) where
  cols : Nat
  rows : List (List α)
  width : ∀ row ∈ rows, row.length = cols
  range : ∀ row ∈ rows, ∀ value ∈ row, inRange value

/-- the bit patterns of elements of so many bytes -/
abbrev PatternTensor (elementBytes : Nat) := HostTensor Nat (· < 256 ^ elementBytes)

def Int32 (value : Int) : Prop := -2 ^ 31 ≤ value ∧ value < 2 ^ 31

abbrev Int32Tensor := HostTensor Int Int32

def int32Pattern (value : Int) : Nat := (value % 2 ^ 32).toNat

def ofInt32Pattern (n : Nat) : Int := if n < 2 ^ 31 then n else n - 2 ^ 32

/-- `routing_values != 0` is false: the bits of zero and of negative zero -/
def fp32IsZero (pattern : Nat) : Bool := pattern == 0 || pattern == 2 ^ 31

theorem int32Pattern_lt (value : Int) : int32Pattern value < 2 ^ 32 := by
  have hlt := Int.emod_lt_of_pos value (show (0 : Int) < 2 ^ 32 by norm_num)
  have hnonneg := Int.emod_nonneg value (show (2 : Int) ^ 32 ≠ 0 by norm_num)
  unfold int32Pattern
  omega

theorem ofInt32Pattern_int32Pattern {value : Int} (h : Int32 value) :
    ofInt32Pattern (int32Pattern value) = value := by
  obtain ⟨hlow, hhigh⟩ := h
  unfold ofInt32Pattern int32Pattern
  split_ifs <;> omega

theorem int32_ofInt32Pattern {n : Nat} (h : n < 2 ^ 32) : Int32 (ofInt32Pattern n) := by
  unfold Int32 ofInt32Pattern
  split_ifs <;> omega

/-- `_raw_bytes` -/
def PatternTensor.rawBytes {w : Nat} (t : PatternTensor w) : List UInt8 :=
  Bytes.numberBytes w t.rows.flatten

def Int32Tensor.rawBytes (t : Int32Tensor) : List UInt8 :=
  Bytes.numberBytes 4 (t.rows.flatten.map int32Pattern)

/-- `_tensor_from_bytes`; the length of the bytes was checked against the shape -/
def PatternTensor.fromBytes (w : Nat) (raw : List UInt8) (rows cols : Nat)
    (h : raw.length = rows * cols * w) : PatternTensor w where
  cols
  rows := Bytes.reshape rows cols (Bytes.ofNumberBytes w (rows * cols) raw)
  width _ hrow := Bytes.length_of_mem_reshape (Bytes.length_ofNumberBytes _ _ _) hrow
  range _ hrow value hvalue :=
    Bytes.ofNumberBytes_lt h value (Bytes.mem_of_mem_reshape hrow hvalue)

def Int32Tensor.fromBytes (raw : List UInt8) (rows cols : Nat)
    (h : raw.length = rows * cols * 4) : Int32Tensor where
  cols
  rows := (PatternTensor.fromBytes 4 raw rows cols h).rows.map fun row => row.map ofInt32Pattern
  width row hrow := by
    obtain ⟨patterns, hpatterns, rfl⟩ := List.mem_map.mp hrow
    rw [List.length_map]
    exact (PatternTensor.fromBytes 4 raw rows cols h).width patterns hpatterns
  range row hrow value hvalue := by
    obtain ⟨patterns, hpatterns, rfl⟩ := List.mem_map.mp hrow
    obtain ⟨n, hn, rfl⟩ := List.mem_map.mp hvalue
    exact int32_ofInt32Pattern
      ((PatternTensor.fromBytes 4 raw rows cols h).range patterns hpatterns n hn)

theorem HostTensor.length_flatten {α : Type} {inRange : α → Prop} (t : HostTensor α inRange) :
    t.rows.flatten.length = t.rows.length * t.cols :=
  Bytes.length_flatten_of t.width

theorem PatternTensor.length_rawBytes {w : Nat} (t : PatternTensor w) :
    t.rawBytes.length = t.rows.length * t.cols * w := by
  rw [rawBytes, Bytes.length_numberBytes, t.length_flatten]

theorem Int32Tensor.length_rawBytes (t : Int32Tensor) :
    t.rawBytes.length = t.rows.length * t.cols * 4 := by
  rw [rawBytes, Bytes.length_numberBytes, List.length_map, t.length_flatten]

theorem PatternTensor.fromBytes_rawBytes {w : Nat} (t : PatternTensor w) {rows cols : Nat}
    (hrows : rows = t.rows.length) (hcols : cols = t.cols)
    (h : t.rawBytes.length = rows * cols * w) :
    (fromBytes w t.rawBytes rows cols h).rows = t.rows := by
  subst hrows hcols
  have hrange : ∀ n ∈ t.rows.flatten, n < 256 ^ w := by
    intro n hn
    obtain ⟨row, hrow, hvalue⟩ := List.mem_flatten.mp hn
    exact t.range row hrow n hvalue
  have hnumbers := Bytes.ofNumberBytes_numberBytes hrange
  rw [t.length_flatten] at hnumbers
  change Bytes.reshape _ _ (Bytes.ofNumberBytes w _ (Bytes.numberBytes w t.rows.flatten)) = t.rows
  rw [hnumbers, Bytes.reshape_flatten t.width]

theorem PatternTensor.fromBytes_of_width {w w' : Nat} (hw : w' = w) (t : PatternTensor w)
    {rows cols : Nat} (hrows : rows = t.rows.length) (hcols : cols = t.cols)
    (h : t.rawBytes.length = rows * cols * w') :
    (fromBytes w' t.rawBytes rows cols h).rows = t.rows := by
  subst hw
  exact t.fromBytes_rawBytes hrows hcols h

theorem Int32Tensor.fromBytes_rawBytes (t : Int32Tensor) {rows cols : Nat}
    (hrows : rows = t.rows.length) (hcols : cols = t.cols)
    (h : t.rawBytes.length = rows * cols * 4) :
    (fromBytes t.rawBytes rows cols h).rows = t.rows := by
  -- the patterns of the values are a tensor of their own
  have hrange : ∀ row ∈ t.rows.map (List.map int32Pattern), ∀ n ∈ row, n < 256 ^ 4 := by
    intro row hrow n hn
    obtain ⟨values, _, rfl⟩ := List.mem_map.mp hrow
    obtain ⟨value, _, rfl⟩ := List.mem_map.mp hn
    exact int32Pattern_lt value
  have hwidth : ∀ row ∈ t.rows.map (List.map int32Pattern), row.length = t.cols := by
    intro row hrow
    obtain ⟨values, hvalues, rfl⟩ := List.mem_map.mp hrow
    rw [List.length_map]
    exact t.width values hvalues
  let patterns : PatternTensor 4 := ⟨t.cols, t.rows.map (List.map int32Pattern), hwidth, hrange⟩
  have hraw : t.rawBytes = patterns.rawBytes := by
    simp only [rawBytes, PatternTensor.rawBytes, patterns, List.map_flatten]
  have hback : (PatternTensor.fromBytes 4 t.rawBytes rows cols h).rows = patterns.rows := by
    have hpatterns := h
    rw [hraw] at hpatterns
    have hrows' : rows = patterns.rows.length := by simpa [patterns] using hrows
    have heq := patterns.fromBytes_rawBytes hrows' hcols hpatterns
    simpa only [hraw] using heq
  change (PatternTensor.fromBytes 4 t.rawBytes rows cols h).rows.map (List.map ofInt32Pattern) =
    t.rows
  rw [hback]
  change (t.rows.map (List.map int32Pattern)).map (List.map ofInt32Pattern) = t.rows
  rw [List.map_map]
  refine (List.map_congr_left fun row hrow => ?_).trans (List.map_id _)
  rw [Function.comp_apply, List.map_map]
  exact (List.map_congr_left fun value hvalue =>
    ofInt32Pattern_int32Pattern (t.range row hrow value hvalue)).trans (List.map_id _)

/-! ## batches -/

/-- a `WorkerBatch` with the bit patterns of its tensors -/
structure GrpcBatch where
  instanceId : Nat
  layerId : Nat
  topologyVersion : Nat
  dtype : TensorDType
  hiddenStates : PatternTensor dtype.elementBytes
  tokenIndices : Option (List Int)
  expertIds : Int32Tensor
  routingWeights : PatternTensor 4
  distinctExpertIds : List Nat

def GrpcBatch.tokenCount (b : GrpcBatch) : Nat :=
  match b.tokenIndices with
  | none => b.hiddenStates.rows.length
  | some indices => indices.length

/-- the checks of `__post_init__` -/
structure GrpcBatch.WellFormed (b : GrpcBatch) : Prop where
  instanceId : b.instanceId < 2 ^ 64
  layerId : b.layerId < 2 ^ 32
  topologyVersion : b.topologyVersion < 2 ^ 64
  hidden_rows : 0 < b.hiddenStates.rows.length
  hidden_cols : 0 < b.hiddenStates.cols
  tokens : 0 < b.tokenCount
  ids_rows : b.expertIds.rows.length = b.tokenCount
  ids_cols : 0 < b.expertIds.cols
  weights_rows : b.routingWeights.rows.length = b.expertIds.rows.length
  weights_cols : b.routingWeights.cols = b.expertIds.cols
  distinct : DistinctOk b.distinctExpertIds

def protocolFailure {α : Type} (message : String) : Except CodecRaised α :=
  .error (.protocolError message)

/-- `validate_worker_batch` -/
def validateGrpcBatch (b : GrpcBatch) (config : CheckedEndpointConfig) : Except CodecRaised Unit :=
  if b.instanceId ≠ config.instanceId then
    protocolFailure "Worker batch instance ID does not match the endpoint"
  else if config.numLayers ≤ b.layerId then
    protocolFailure "Worker batch layer ID exceeds the configured layer range"
  else if config.maxBatchTokens < b.tokenCount then
    protocolFailure "Worker batch exceeds max_batch_tokens"
  else if b.hiddenStates.cols ≠ config.hiddenDim then
    protocolFailure "Worker batch hidden dimension does not match the endpoint"
  else if b.expertIds.cols ≠ config.topK then
    protocolFailure "Worker batch top-k does not match the endpoint"
  else if b.dtype ≠ config.dtype then
    protocolFailure "Worker batch activation dtype does not match the endpoint"
  else .ok ()

/-- the routing tensors flattened; the tensors of a batch are not empty -/
def validateGrpcRouting (expertIds : Int32Tensor) (routingWeights : PatternTensor 4)
    (expertsPerLayer : Nat) : Except CodecRaised (List Nat) :=
  let ids := expertIds.rows.flatten
  if ids.any fun id => decide (id < -1) then protocolFailure "expert IDs below -1 are invalid"
  else if ids.any fun id => decide ((expertsPerLayer : Int) ≤ id) then
    protocolFailure "expert ID exceeds the configured expert range"
  else if (ids.zip routingWeights.rows.flatten).any fun e => e.1 == -1 && !fp32IsZero e.2 then
    protocolFailure "an invalid expert position must have zero routing weight"
  else .ok ((List.range expertsPerLayer).filter fun id => decide ((id : Int) ∈ ids))

/-- `index_select` along the rows -/
def selectRows {α : Type} (rows : List α) (indices : List Int) : Option (List α) :=
  indices.mapM fun index => if index < 0 then none else rows[index.toNat]?

def GrpcBatch.selectedRows (b : GrpcBatch) : Option (List (List Nat)) :=
  match b.tokenIndices with
  | none => some b.hiddenStates.rows
  | some indices => selectRows b.hiddenStates.rows indices

/-! ## requests -/

/-- an `ExecuteRequest` message; its dtype is an open enumeration -/
structure ExecuteRequest where
  instanceId : Nat
  layerId : Nat
  topologyVersion : Nat
  tokenCount : Nat
  hiddenDim : Nat
  topK : Nat
  dtype : Int
  hiddenStates : List UInt8
  expertIds : List UInt8
  routingWeights : List UInt8

structure DecodedRequest where
  batch : GrpcBatch
  retainedTensorBytes : Nat

def encodeRequest (codec : Codec ExecuteRequest) (b : GrpcBatch) (spec : CheckedEndpointConfig) :
    Except CodecRaised (List UInt8) :=
  (validateGrpcBatch b spec).bind fun _ =>
  match b.selectedRows with
  | none => protocolFailure "Worker batch token indices are invalid"
  | some rows =>
    match codec.serialize {
        instanceId := b.instanceId
        layerId := b.layerId
        topologyVersion := b.topologyVersion
        tokenCount := b.tokenCount
        hiddenDim := b.hiddenStates.cols
        topK := b.expertIds.cols
        dtype := spec.dtype.toProtobuf
        hiddenStates := Bytes.numberBytes b.dtype.elementBytes rows.flatten
        expertIds := b.expertIds.rawBytes
        routingWeights := b.routingWeights.rawBytes } with
    | none => .error .encodeError
    | some payload =>
      (calculateMessageLimits spec).bind fun limits =>
        if limits.requestBytes < payload.length then
          .error (.runtimeError "encoded request exceeds its calculated gRPC limit")
        else .ok payload

/-- the tensors of a message whose fields passed the checks of the metadata -/
def decodeTensors (request : ExecuteRequest) (spec : CheckedEndpointConfig) :
    Except CodecRaised DecodedRequest :=
  if hhidden : request.hiddenStates.length =
      request.tokenCount * spec.hiddenDim * spec.dtype.elementBytes then
    if hids : request.expertIds.length = request.tokenCount * spec.topK * 4 then
      if hweights : request.routingWeights.length = request.tokenCount * spec.topK * 4 then
        let hiddenStates := PatternTensor.fromBytes spec.dtype.elementBytes request.hiddenStates
          request.tokenCount spec.hiddenDim hhidden
        let expertIds := Int32Tensor.fromBytes request.expertIds request.tokenCount spec.topK hids
        let routingWeights := PatternTensor.fromBytes 4 request.routingWeights request.tokenCount
          spec.topK hweights
        (validateGrpcRouting expertIds routingWeights spec.expertsPerLayer).bind fun distinct =>
          .ok {
            batch := {
              instanceId := request.instanceId
              layerId := request.layerId
              topologyVersion := request.topologyVersion
              dtype := spec.dtype
              hiddenStates
              tokenIndices := none
              expertIds
              routingWeights
              distinctExpertIds := distinct }
            retainedTensorBytes :=
              request.tokenCount * spec.hiddenDim * spec.dtype.elementBytes +
                request.tokenCount * spec.topK * 4 + request.tokenCount * spec.topK * 4 }
      else protocolFailure "routing_weights has an inconsistent encoded length"
    else protocolFailure "expert_ids has an inconsistent encoded length"
  else protocolFailure "hidden_states has an inconsistent encoded length"

/-- `decode_request_with_size` -/
def decodeRequest (codec : Codec ExecuteRequest) (payload : List UInt8)
    (spec : CheckedEndpointConfig) : Except CodecRaised DecodedRequest :=
  (calculateMessageLimits spec).bind fun limits =>
  if limits.requestBytes < payload.length then
    protocolFailure "request exceeds the configured gRPC message limit"
  else
    match codec.parse payload with
    | none => protocolFailure "request is not valid protobuf"
    | some request =>
      if request.instanceId ≠ spec.instanceId then protocolFailure "unknown model instance"
      else if spec.numLayers ≤ request.layerId then
        protocolFailure "layer ID exceeds the configured layer range"
      else if ¬ (0 < request.tokenCount ∧ request.tokenCount ≤ spec.maxBatchTokens) then
        protocolFailure "token_count must be positive and within max_batch_tokens"
      else if request.hiddenDim ≠ spec.hiddenDim then
        protocolFailure "hidden_dim does not match the configured model"
      else if request.topK ≠ spec.topK then
        protocolFailure "top_k does not match the configured model"
      else if TensorDType.fromProtobuf request.dtype ≠ some spec.dtype then
        protocolFailure "dtype is unknown or does not match the configured model"
      else decodeTensors request spec

/-! ## what the receiver accepts -/

/-- every expert number is -1 or in range, and every -1 has zero weight -/
structure RoutingOk (expertIds : Int32Tensor) (routingWeights : PatternTensor 4)
    (expertsPerLayer : Nat) : Prop where
  range : ∀ id ∈ expertIds.rows.flatten, -1 ≤ id ∧ id < expertsPerLayer
  zero : ∀ e ∈ expertIds.rows.flatten.zip routingWeights.rows.flatten,
    e.1 = -1 → fp32IsZero e.2 = true

/-- the valid expert numbers of the tensor, ascending -/
structure DistinctOf (expertIds : Int32Tensor) (distinct : List Nat) : Prop where
  ascending : distinct.Pairwise (· < ·)
  mem : ∀ id : Nat, id ∈ distinct ↔ (id : Int) ∈ expertIds.rows.flatten

theorem validateGrpcRouting_iff (expertIds : Int32Tensor) (routingWeights : PatternTensor 4)
    (expertsPerLayer : Nat) :
    (∃ distinct, validateGrpcRouting expertIds routingWeights expertsPerLayer = .ok distinct) ↔
      RoutingOk expertIds routingWeights expertsPerLayer := by
  unfold validateGrpcRouting protocolFailure
  dsimp only
  split_ifs with hlow hhigh hzero
  · simp only [exists_false, false_iff]
    obtain ⟨id, hid, hlt⟩ := List.any_eq_true.mp hlow
    exact fun h => absurd (h.range id hid).1 (by have := of_decide_eq_true hlt; omega)
  · simp only [exists_false, false_iff]
    obtain ⟨id, hid, hle⟩ := List.any_eq_true.mp hhigh
    exact fun h => absurd (h.range id hid).2 (by have := of_decide_eq_true hle; omega)
  · simp only [exists_false, false_iff]
    obtain ⟨e, he, hbad⟩ := List.any_eq_true.mp hzero
    simp only [Bool.and_eq_true, beq_iff_eq, Bool.not_eq_true'] at hbad
    exact fun h => absurd (h.zero e he hbad.1) (by rw [hbad.2]; decide)
  · refine ⟨fun _ => ⟨fun id hid => ⟨?_, ?_⟩, fun e he hid => ?_⟩, fun _ => ⟨_, rfl⟩⟩
    · by_contra hlt
      exact hlow (List.any_eq_true.mpr ⟨id, hid, decide_eq_true (by omega)⟩)
    · by_contra hle
      exact hhigh (List.any_eq_true.mpr ⟨id, hid, decide_eq_true (by omega)⟩)
    · by_contra hnonzero
      exact hzero (List.any_eq_true.mpr ⟨e, he, by simp [hid, hnonzero]⟩)

theorem validateGrpcRouting_ok {expertIds : Int32Tensor} {routingWeights : PatternTensor 4}
    {expertsPerLayer : Nat} {distinct : List Nat}
    (h : validateGrpcRouting expertIds routingWeights expertsPerLayer = .ok distinct) :
    DistinctOf expertIds distinct ∧ ∀ id ∈ distinct, id < expertsPerLayer := by
  have hrouting := (validateGrpcRouting_iff _ _ _).mp ⟨distinct, h⟩
  unfold validateGrpcRouting protocolFailure at h
  dsimp only at h
  split_ifs at h
  cases h
  refine ⟨⟨List.pairwise_lt_range.filter _, fun id => ?_⟩, fun id hid => ?_⟩
  · simp only [List.mem_filter, List.mem_range, decide_eq_true_eq, and_iff_right_iff_imp]
    exact fun hid => by exact_mod_cast (hrouting.range _ hid).2
  · exact List.mem_range.mp (List.mem_filter.mp hid).1

/-- the fields of a message agree with the endpoint and with each other, and the batch holds its
bytes -/
structure Consistent (spec : CheckedEndpointConfig) (request : ExecuteRequest)
    (decoded : DecodedRequest) : Prop where
  instanceId : request.instanceId = spec.instanceId
  layerId : request.layerId < spec.numLayers
  tokens : 0 < request.tokenCount ∧ request.tokenCount ≤ spec.maxBatchTokens
  hiddenDim : request.hiddenDim = spec.hiddenDim
  topK : request.topK = spec.topK
  dtype : TensorDType.fromProtobuf request.dtype = some spec.dtype
  hiddenStates : ∃ h : request.hiddenStates.length =
      request.tokenCount * spec.hiddenDim * spec.dtype.elementBytes,
    ∃ hdtype : decoded.batch.dtype = spec.dtype,
      hdtype ▸ decoded.batch.hiddenStates = PatternTensor.fromBytes spec.dtype.elementBytes
        request.hiddenStates request.tokenCount spec.hiddenDim h
  expertIds : ∃ h : request.expertIds.length = request.tokenCount * spec.topK * 4,
    decoded.batch.expertIds =
      Int32Tensor.fromBytes request.expertIds request.tokenCount spec.topK h
  routingWeights : ∃ h : request.routingWeights.length = request.tokenCount * spec.topK * 4,
    decoded.batch.routingWeights =
      PatternTensor.fromBytes 4 request.routingWeights request.tokenCount spec.topK h
  routing : RoutingOk decoded.batch.expertIds decoded.batch.routingWeights spec.expertsPerLayer
  distinct : DistinctOf decoded.batch.expertIds decoded.batch.distinctExpertIds

theorem decodeTensors_ok {request : ExecuteRequest} {spec : CheckedEndpointConfig}
    {decoded : DecodedRequest} (h : decodeTensors request spec = .ok decoded) :
    ∃ (hhidden : request.hiddenStates.length =
        request.tokenCount * spec.hiddenDim * spec.dtype.elementBytes)
      (hids : request.expertIds.length = request.tokenCount * spec.topK * 4)
      (hweights : request.routingWeights.length = request.tokenCount * spec.topK * 4)
      (distinct : List Nat),
      validateGrpcRouting
          (Int32Tensor.fromBytes request.expertIds request.tokenCount spec.topK hids)
          (PatternTensor.fromBytes 4 request.routingWeights request.tokenCount spec.topK hweights)
          spec.expertsPerLayer = .ok distinct ∧
        decoded = {
          batch := {
            instanceId := request.instanceId
            layerId := request.layerId
            topologyVersion := request.topologyVersion
            dtype := spec.dtype
            hiddenStates := PatternTensor.fromBytes spec.dtype.elementBytes request.hiddenStates
              request.tokenCount spec.hiddenDim hhidden
            tokenIndices := none
            expertIds := Int32Tensor.fromBytes request.expertIds request.tokenCount spec.topK hids
            routingWeights := PatternTensor.fromBytes 4 request.routingWeights request.tokenCount
              spec.topK hweights
            distinctExpertIds := distinct }
          retainedTensorBytes :=
            request.tokenCount * spec.hiddenDim * spec.dtype.elementBytes +
              request.tokenCount * spec.topK * 4 + request.tokenCount * spec.topK * 4 } := by
  unfold decodeTensors protocolFailure at h
  split_ifs at h with hhidden hids hweights
  obtain ⟨distinct, hdistinct, heq⟩ := Fallible.bind_ok h
  cases heq
  exact ⟨hhidden, hids, hweights, distinct, hdistinct, rfl⟩

theorem decodeTensors_eq {request : ExecuteRequest} {spec : CheckedEndpointConfig}
    (hhidden : request.hiddenStates.length =
      request.tokenCount * spec.hiddenDim * spec.dtype.elementBytes)
    (hids : request.expertIds.length = request.tokenCount * spec.topK * 4)
    (hweights : request.routingWeights.length = request.tokenCount * spec.topK * 4)
    {distinct : List Nat}
    (hdistinct : validateGrpcRouting
      (Int32Tensor.fromBytes request.expertIds request.tokenCount spec.topK hids)
      (PatternTensor.fromBytes 4 request.routingWeights request.tokenCount spec.topK hweights)
      spec.expertsPerLayer = .ok distinct) :
    decodeTensors request spec = .ok {
      batch := {
        instanceId := request.instanceId
        layerId := request.layerId
        topologyVersion := request.topologyVersion
        dtype := spec.dtype
        hiddenStates := PatternTensor.fromBytes spec.dtype.elementBytes request.hiddenStates
          request.tokenCount spec.hiddenDim hhidden
        tokenIndices := none
        expertIds := Int32Tensor.fromBytes request.expertIds request.tokenCount spec.topK hids
        routingWeights := PatternTensor.fromBytes 4 request.routingWeights request.tokenCount
          spec.topK hweights
        distinctExpertIds := distinct }
      retainedTensorBytes :=
        request.tokenCount * spec.hiddenDim * spec.dtype.elementBytes +
          request.tokenCount * spec.topK * 4 + request.tokenCount * spec.topK * 4 } := by
  unfold decodeTensors
  rw [dif_pos hhidden, dif_pos hids, dif_pos hweights]
  dsimp only
  rw [hdistinct]
  rfl

theorem decodeRequest_ok {codec : Codec ExecuteRequest} {payload : List UInt8}
    {spec : CheckedEndpointConfig} {decoded : DecodedRequest}
    (h : decodeRequest codec payload spec = .ok decoded) :
    ∃ request, codec.parse payload = some request ∧ Consistent spec request decoded := by
  obtain ⟨limits, _, h⟩ := Fallible.bind_ok h
  unfold protocolFailure at h
  split_ifs at h
  cases hparse : codec.parse payload with
  | none =>
    rw [hparse] at h
    cases h
  | some request =>
    rw [hparse] at h
    dsimp only at h
    split_ifs at h with hinstance hlayer htokens hhidden htopK hdtype
    obtain ⟨hhiddenLength, hids, hweights, distinct, hdistinct, rfl⟩ := decodeTensors_ok h
    exact ⟨request, rfl, {
      instanceId := not_not.mp hinstance
      layerId := Nat.lt_of_not_le hlayer
      tokens := htokens
      hiddenDim := not_not.mp hhidden
      topK := not_not.mp htopK
      dtype := not_not.mp hdtype
      hiddenStates := ⟨hhiddenLength, rfl, rfl⟩
      expertIds := ⟨hids, rfl⟩
      routingWeights := ⟨hweights, rfl⟩
      routing := (validateGrpcRouting_iff _ _ _).mp ⟨distinct, hdistinct⟩
      distinct := (validateGrpcRouting_ok hdistinct).1 }⟩

/-! ## the size of a request -/

namespace ExecuteRequest

/-- the fields hold what their types can -/
structure Valid (m : ExecuteRequest) : Prop where
  instanceId : m.instanceId < 2 ^ 64
  layerId : m.layerId < 2 ^ 32
  topologyVersion : m.topologyVersion < 2 ^ 64
  tokenCount : m.tokenCount < 2 ^ 32
  hiddenDim : m.hiddenDim < 2 ^ 32
  topK : m.topK < 2 ^ 32
  dtype : 0 ≤ m.dtype ∧ m.dtype < 2 ^ 31

/-- a number that is left out when it is 0 -/
def numberSize (n : Nat) : Nat := if n = 0 then 0 else 1 + Wire.varintSize n

def bytesSize (content : List UInt8) : Nat :=
  if content = [] then 0 else Wire.lenField content.length

def size (m : ExecuteRequest) : Nat :=
  numberSize m.instanceId + numberSize m.layerId + numberSize m.topologyVersion +
    numberSize m.tokenCount + numberSize m.hiddenDim + numberSize m.topK +
    numberSize m.dtype.toNat + bytesSize m.hiddenStates + bytesSize m.expertIds +
    bytesSize m.routingWeights

theorem numberSize_le (n : Nat) : numberSize n ≤ 1 + Wire.varintSize n := by
  unfold numberSize
  split_ifs <;> omega

theorem numberSize_le_width {n width : Nat} (h : n < 2 ^ width) :
    numberSize n ≤ width / 7 + 2 := by
  have hsize := Wire.varintSize_le h
  have hle := numberSize_le n
  omega

theorem bytesSize_le {content : List UInt8} {bound : Nat} (h : content.length ≤ bound) :
    bytesSize content ≤ Wire.lenField bound := by
  unfold bytesSize
  split_ifs
  · exact Nat.zero_le _
  · exact lenField_mono h

end ExecuteRequest

/-! ## encoding -/

/-- the source rows that the batch selects, in order -/
def GrpcBatch.gathered (b : GrpcBatch) : List (List Nat) :=
  match b.tokenIndices with
  | none => b.hiddenStates.rows
  | some indices => indices.map fun index => b.hiddenStates.rows.getD index.toNat []

/-- the token indices name source rows -/
def GrpcBatch.IndicesInRange (b : GrpcBatch) : Prop :=
  ∀ indices, b.tokenIndices = some indices → ∀ index ∈ indices,
    0 ≤ index ∧ index < b.hiddenStates.rows.length

theorem selectRows_eq {α : Type} {rows : List α} {indices : List Int} (fallback : α)
    (h : ∀ index ∈ indices, 0 ≤ index ∧ index < rows.length) :
    selectRows rows indices = some (indices.map fun index => rows.getD index.toNat fallback) := by
  induction indices with
  | nil => rfl
  | cons index indices ih =>
    obtain ⟨hlow, hhigh⟩ := h index List.mem_cons_self
    have hrest := ih fun other hother => h other (List.mem_cons_of_mem _ hother)
    have hlt : index.toNat < rows.length := by omega
    unfold selectRows at hrest ⊢
    rw [List.mapM_cons, hrest, if_neg (by omega), List.getElem?_eq_getElem hlt, List.map_cons,
      List.getD_eq_getElem rows fallback hlt]
    rfl

theorem GrpcBatch.selectedRows_eq {b : GrpcBatch} (h : b.IndicesInRange) :
    b.selectedRows = some b.gathered := by
  unfold selectedRows gathered
  cases hindices : b.tokenIndices with
  | none => rfl
  | some indices => exact selectRows_eq [] (h indices hindices)

theorem GrpcBatch.length_gathered (b : GrpcBatch) : b.gathered.length = b.tokenCount := by
  unfold gathered tokenCount
  cases b.tokenIndices <;> simp

theorem GrpcBatch.mem_gathered {b : GrpcBatch} (h : b.IndicesInRange) {row : List Nat}
    (hrow : row ∈ b.gathered) : row ∈ b.hiddenStates.rows := by
  unfold gathered at hrow
  cases hindices : b.tokenIndices with
  | none => rwa [hindices] at hrow
  | some indices =>
    rw [hindices] at hrow
    obtain ⟨index, hindex, rfl⟩ := List.mem_map.mp hrow
    obtain ⟨hlow, hhigh⟩ := h indices hindices index hindex
    have hlt : index.toNat < b.hiddenStates.rows.length := by omega
    rw [List.getD_eq_getElem _ _ hlt]
    exact List.getElem_mem hlt

/-- the selected rows as a tensor -/
def GrpcBatch.gatheredTensor (b : GrpcBatch) (h : b.IndicesInRange) :
    PatternTensor b.dtype.elementBytes where
  cols := b.hiddenStates.cols
  rows := b.gathered
  width row hrow := b.hiddenStates.width row (b.mem_gathered h hrow)
  range row hrow := b.hiddenStates.range row (b.mem_gathered h hrow)

/-- the message of a batch -/
def GrpcBatch.request (b : GrpcBatch) (spec : CheckedEndpointConfig) (h : b.IndicesInRange) :
    ExecuteRequest where
  instanceId := b.instanceId
  layerId := b.layerId
  topologyVersion := b.topologyVersion
  tokenCount := b.tokenCount
  hiddenDim := b.hiddenStates.cols
  topK := b.expertIds.cols
  dtype := spec.dtype.toProtobuf
  hiddenStates := (b.gatheredTensor h).rawBytes
  expertIds := b.expertIds.rawBytes
  routingWeights := b.routingWeights.rawBytes

/-- what `validate_worker_batch` checks -/
structure Matches (spec : CheckedEndpointConfig) (b : GrpcBatch) : Prop where
  instanceId : b.instanceId = spec.instanceId
  layerId : b.layerId < spec.numLayers
  tokens : b.tokenCount ≤ spec.maxBatchTokens
  hiddenDim : b.hiddenStates.cols = spec.hiddenDim
  topK : b.expertIds.cols = spec.topK
  dtype : b.dtype = spec.dtype

theorem validateGrpcBatch_ok {b : GrpcBatch} {spec : CheckedEndpointConfig}
    (h : validateGrpcBatch b spec = .ok ()) : Matches spec b := by
  unfold validateGrpcBatch protocolFailure at h
  split_ifs at h with hinstance hlayer htokens hhidden htopK hdtype
  exact ⟨not_not.mp hinstance, Nat.lt_of_not_le hlayer, Nat.le_of_not_lt htokens,
    not_not.mp hhidden, not_not.mp htopK, not_not.mp hdtype⟩

theorem encodeRequest_eq {codec : Codec ExecuteRequest} {b : GrpcBatch}
    {spec : CheckedEndpointConfig} {limits : GrpcMessageLimits}
    (hvalidate : validateGrpcBatch b spec = .ok ()) (hindices : b.IndicesInRange)
    (hlimits : calculateMessageLimits spec = .ok limits) {payload : List UInt8}
    (hpayload : codec.serialize (b.request spec hindices) = some payload)
    (hsize : payload.length ≤ limits.requestBytes) :
    encodeRequest codec b spec = .ok payload := by
  unfold encodeRequest
  rw [hvalidate, b.selectedRows_eq hindices, hlimits]
  change (match codec.serialize (b.request spec hindices) with
    | none => Except.error CodecRaised.encodeError
    | some payload =>
      if limits.requestBytes < payload.length then
        .error (.runtimeError "encoded request exceeds its calculated gRPC limit")
      else .ok payload) = .ok payload
  rw [hpayload]
  exact if_neg (Nat.not_lt.mpr hsize)

end ExpertKit.Transport

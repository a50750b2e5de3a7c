import ExpertKit.Proto

/-!
# Controller: errors and the validation of a registration

`ControllerStateError`, `validate_registration` and `validate_host_port` of
`ek-computation/src/controller/runtime_state.rs`.  The two URI parsers (`http::Uri`, `url::Url`) are
libraries: they enter as the fields of `EndpointParsers`.

* `ValidRegistration p`   a request together with the proof that it passed the validation; every
                          worker record of the Controller holds one;
* `ValidRegistration.device`   the `expect("registration validation requires a device")` of the
                          source, which therefore cannot fail;
* `ValidRegistration.spec`     what a validated request guarantees to the Frontend.
-/

namespace ExpertKit.Controller
open Std

inductive ControllerStateError where
  | invalidRegistration (message : String)
  | unknownWorker
  | replacedWorker
  | staleHeartbeatStream
  | invalidHeartbeatState
  | heartbeatSequenceRollback (last received : Nat)
  | placementTooLarge (maximum received : Nat)
  | placementGenerationMismatch (expected received : Nat)
  | reportSequenceRollback (last received : Nat)
  | conflictingReportSequence (sequence : Nat)
  | invalidExpertState
  | unknownDrain (drainId : Nat)
  | futureTopologyVersion (current requested : Nat)
  | persistence (message : String)
deriving DecidableEq, Repr

/-! ## text -/

/-- `char::is_whitespace`: the Unicode `White_Space` property -/
def isWhitespace (c : Char) : Bool :=
  let n := c.toNat
  (9 ≤ n && n ≤ 13) || n == 0x20 || n == 0x85 || n == 0xA0 || n == 0x1680 ||
    (0x2000 ≤ n && n ≤ 0x200A) || n == 0x2028 || n == 0x2029 || n == 0x202F || n == 0x205F ||
    n == 0x3000

def trim (s : String) : String :=
  String.ofList ((s.toList.dropWhile isWhitespace).reverse.dropWhile isWhitespace).reverse

/-- `str::contains` for a literal pattern -/
def containsText (pattern s : String) : Bool :=
  s.toList.tails.any fun l => pattern.toList.isPrefixOf l

/-! ## endpoints -/

structure UriParts where
  host : Option String
  port : Option Nat
deriving DecidableEq, Repr

structure UrlParts where
  scheme : String
  host : Option String
  port : Option Nat
deriving DecidableEq, Repr

/-- the URI parsers the Controller links against -/
structure EndpointParsers where
  httpUri : String → Option UriParts
  url : String → Option UrlParts

def validateHostPort (p : EndpointParsers) (value : String) : Except ControllerStateError Unit :=
  if trim value ≠ value ∨ containsText "://" value then
    .error (.invalidRegistration "computation endpoint must use host:port without a scheme")
  else
    match p.httpUri ("http://" ++ value) with
    | none => .error (.invalidRegistration "computation endpoint is invalid")
    | some uri =>
      if uri.host.isNone || uri.port.all (· == 0) then
        .error (.invalidRegistration "computation endpoint must include a host and port")
      else .ok ()

def validatePeer (p : EndpointParsers) (value : String) : Except ControllerStateError Unit :=
  match p.url value with
  | none => .error (.invalidRegistration "peer weight endpoint must be an HTTP URL")
  | some peer =>
    if !(peer.scheme == "http" || peer.scheme == "https") || peer.host.isNone ||
        peer.port.isNone then
      .error (.invalidRegistration "peer weight endpoint must include an HTTP host and port")
    else .ok ()

def validateRegistration (p : EndpointParsers) (r : RegisterWorkerRequest) :
    Except ControllerStateError Unit :=
  if (trim r.workerId).isEmpty || (trim r.startId).isEmpty || r.instanceId == 0 ||
      (trim r.backend).isEmpty then
    .error (.invalidRegistration "identity, instance, and backend are required")
  else if !(r.backend == "torch" || r.backend == "ggml" || r.backend == "fused") then
    .error (.invalidRegistration "backend is not supported")
  else if ((ActivationDType.tryFrom r.activationDtype).filter (· ≠ .unspecified)).isNone then
    .error (.invalidRegistration "activation dtype is invalid")
  else if ((WorkerTransportType.tryFrom r.transportType).filter (· ≠ .unspecified)).isNone then
    .error (.invalidRegistration "worker Transport type is invalid")
  else
    match r.device with
    | none => .error (.invalidRegistration "one device is required")
    | some device =>
      if (trim device.device).isEmpty || device.maxExperts == 0 || r.maxBatchTokens == 0 ||
          r.maxActiveBatchesPerDevice == 0 || r.maxPendingBatchesPerDevice == 0 then
        .error (.invalidRegistration "device and capacity limits must be positive")
      else
        match validateHostPort p r.computationEndpoint with
        | .error e => .error e
        | .ok () => validatePeer p r.peerWeightEndpoint

/-! ## validated registrations -/

/-- a registration that passed `validate_registration` -/
structure ValidRegistration (p : EndpointParsers) where
  request : RegisterWorkerRequest
  valid : validateRegistration p request = .ok ()

instance (p : EndpointParsers) : DecidableEq (ValidRegistration p) := fun a b =>
  decidable_of_iff (a.request = b.request) (by cases a; cases b; simp)

section
variable {p : EndpointParsers}

theorem device_isSome_of_valid {r : RegisterWorkerRequest}
    (h : validateRegistration p r = .ok ()) : r.device.isSome := by
  unfold validateRegistration at h
  split_ifs at h
  cases hd : r.device with
  | none => rw [hd] at h; exact absurd h (by simp)
  | some d => rfl

def ValidRegistration.device (r : ValidRegistration p) : WorkerDevice :=
  r.request.device.get (device_isSome_of_valid r.valid)

theorem trim_empty : trim "" = "" := by decide

/-- `http://` alone is no URI with an authority, as the `http` crate parses it -/
def EndpointParsers.NeedsHost (p : EndpointParsers) : Prop :=
  ∀ uri, p.httpUri "http://" = some uri → uri.host = none

theorem ValidRegistration.device_eq (r : ValidRegistration p) :
    r.request.device = some r.device := by
  unfold ValidRegistration.device
  simp

theorem validateHostPort_empty (hp : p.NeedsHost) : validateHostPort p "" ≠ .ok () := by
  unfold validateHostPort
  rw [if_neg (by decide)]
  cases hu : p.httpUri ("http://" ++ "") with
  | none => simp
  | some uri =>
    have hn : uri.host = none := hp uri hu
    simp [hn]

theorem ValidRegistration.spec (r : ValidRegistration p) (hp : p.NeedsHost) :
    r.request.workerId ≠ "" ∧ r.request.startId ≠ "" ∧ r.request.computationEndpoint ≠ "" ∧
      r.device.device ≠ "" ∧ 0 < r.device.maxExperts ∧ 0 < r.request.maxActiveBatchesPerDevice ∧
      0 < r.request.maxPendingBatchesPerDevice ∧ 0 < r.request.maxBatchTokens ∧
      (r.request.transportType = 1 ∨ r.request.transportType = 2) := by
  have hv := r.valid
  unfold validateRegistration at hv
  rw [r.device_eq] at hv
  have nonempty : ∀ s : String, (trim s).isEmpty = false → s ≠ "" := by
    intro s hs e
    rw [e, trim_empty] at hs
    exact absurd hs (by decide)
  split_ifs at hv with h1 h2 h3 h4
  simp only at hv
  split_ifs at hv with h5
  simp only [Bool.or_eq_true, not_or, Bool.not_eq_true, beq_eq_false_iff_ne] at h1 h5
  obtain ⟨⟨⟨hw, hs⟩, _⟩, _⟩ := h1
  obtain ⟨⟨⟨⟨hd, hm⟩, hb⟩, ha⟩, hq⟩ := h5
  have he : r.request.computationEndpoint ≠ "" := by
    intro e
    rw [e] at hv
    cases hc : validateHostPort p "" with
    | error err => rw [hc] at hv; exact absurd hv (by simp)
    | ok u => exact validateHostPort_empty hp hc
  have ht : r.request.transportType = 1 ∨ r.request.transportType = 2 := by
    unfold WorkerTransportType.tryFrom at h4
    split at h4 <;> simp_all
  exact ⟨nonempty _ hw, nonempty _ hs, he, nonempty _ hd, by omega, by omega, by omega, by omega,
    ht⟩

end

end ExpertKit.Controller

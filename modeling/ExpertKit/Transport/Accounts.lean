import ExpertKit.Transport.Queue

/-!
# Transport: runs of the receiver queue

Any number of receivers, takers, cancellations and drains share one `ReceiverQueue`.  Each operation
is one section of its condition, so every interleaving is a list of operations.

* `QueueRequest`, `QueueRun.step`   the operations, with a history of the items that come and go;
* `Accounted`                 the accounts of the queue and of its history;
* `Accounted.step`            every operation keeps them;
* `gate_step`                 behind a closed gate the count of an expert does not grow;
* `closed_step`               in a closing queue nothing waits;
* `receiver_queue_accounting`   all three, for all runs.
-/

set_option linter.unusedSectionVars false

namespace ExpertKit.Transport
open Std Routing

/-! ## requests -/

/-- a received batch as the queue reads it -/
structure QueuedBatch where
  item : Nat
  layerId : Nat
  distinctExpertIds : List Nat
  retainedBytes : Nat
  distinct : DistinctOk distinctExpertIds

inductive QueueRequest where
  | admitBatch (batch : QueuedBatch)
  | take
  | cancelWaiting (item : Nat)
  | finish (item : Nat)
  | beginDrain (experts : List ExpertKey) (minTopologyVersion : Nat) (stopAll : Bool)
  | clearExpertDrains (experts : List ExpertKey)
  | beginClose

inductive QueueEvent where
  | admitted (item : Nat)
  | taken (item : Nat)
  | left (item : Nat)
deriving DecidableEq, Repr

structure QueueRun where
  queue : ReceiverQueue
  history : List QueueEvent

namespace QueueRun

def new (maxPendingBatches maxRetainedBytes : Nat) (h : 0 < maxPendingBatches) : QueueRun :=
  ⟨.new maxPendingBatches maxRetainedBytes h, []⟩

/-- an error or a rejection changes nothing, and `take` waits for a batch -/
def step (r : QueueRun) : QueueRequest → QueueRun
  | .admitBatch b =>
    match r.queue.admitBatch b.item b.layerId b.distinctExpertIds b.retainedBytes with
    | .error _ => r
    | .ok (some _, q) => ⟨q, r.history⟩
    | .ok (none, q) => ⟨q, r.history ++ [.admitted b.item]⟩
  | .take =>
    match r.queue.take with
    | none => r
    | some (item, q) => ⟨q, r.history ++ [.taken item]⟩
  | .cancelWaiting item =>
    match r.queue.cancelWaiting item with
    | (false, q) => ⟨q, r.history⟩
    | (true, q) => ⟨q, r.history ++ [.left item]⟩
  | .finish item =>
    match r.queue.finish item with
    | .error _ => r
    | .ok q => ⟨q, r.history ++ [.left item]⟩
  | .beginDrain experts minTopologyVersion stopAll =>
    match r.queue.beginDrain experts minTopologyVersion stopAll with
    | .error _ => r
    | .ok q => ⟨q, r.history⟩
  | .clearExpertDrains experts =>
    if experts.Nodup then ⟨r.queue.clearExpertDrains experts, r.history⟩ else r
  | .beginClose => ⟨r.queue.beginClose.2, r.history ++ r.queue.beginClose.1.map .left⟩

def run (r : QueueRun) (requests : List QueueRequest) : QueueRun := requests.foldl step r

end QueueRun

/-! ## accounts -/

def QueueEvent.admittedItem : QueueEvent → Option Nat
  | .admitted item => some item
  | _ => none

def QueueEvent.takenItem : QueueEvent → Option Nat
  | .taken item => some item
  | _ => none

def QueueEvent.leftItem : QueueEvent → Option Nat
  | .left item => some item
  | _ => none

/-- the items admitted, taken and gone so far, in order -/
def admitted (history : List QueueEvent) : List Nat := history.filterMap QueueEvent.admittedItem
def taken (history : List QueueEvent) : List Nat := history.filterMap QueueEvent.takenItem
def gone (history : List QueueEvent) : List Nat := history.filterMap QueueEvent.leftItem

structure Accounted (r : QueueRun) (active : List Entry) : Prop where
  tracked : Tracked r.queue active
  distinct : ∀ entry ∈ r.queue.waiting ++ active, entry.keys.Nodup
  bytes : r.queue.retainedBytes ≤ r.queue.maxRetainedBytes
  pending : r.queue.waiting.length ≤ r.queue.maxPendingBatches
  order : (taken r.history ++ r.queue.waiting.map Entry.item).Sublist (admitted r.history)
  once : ∀ item, (admitted r.history).count item
    = (gone r.history).count item + ((r.queue.waiting ++ active).map Entry.item).count item

theorem Accounted.new (maxPendingBatches maxRetainedBytes : Nat) (h : 0 < maxPendingBatches) :
    Accounted (.new maxPendingBatches maxRetainedBytes h) [] :=
  ⟨tracked_new maxPendingBatches maxRetainedBytes h, by simp [QueueRun.new, ReceiverQueue.new],
    Nat.zero_le _, Nat.zero_le _, by simp [QueueRun.new, ReceiverQueue.new, taken, admitted],
    by simp [QueueRun.new, ReceiverQueue.new, admitted, gone]⟩

theorem keys_nodup {entry : Entry} (h : DistinctOk entry.expertIds) : entry.keys.Nodup := by
  unfold Entry.keys
  refine List.Nodup.map ?_ (h.sorted.imp Nat.ne_of_lt)
  intro a b hab
  cases hab
  rfl

/-- every expert counts the tracked entries that name it -/
theorem Accounted.count_named {r : QueueRun} {active : List Entry} (h : Accounted r active)
    (k : ExpertKey) : Counter.count r.queue.admittedExperts k
      = (r.queue.waiting ++ active).countP fun entry => decide (k ∈ entry.keys) := by
  rw [h.tracked.admitted]
  have hdistinct := h.distinct
  generalize r.queue.waiting ++ active = entries at hdistinct
  unfold named
  induction entries with
  | nil => rfl
  | cons entry entries ih =>
    have hrest := ih fun e he => hdistinct e (List.mem_cons_of_mem _ he)
    rw [List.map_cons, List.sum_cons, List.countP_cons, hrest,
      (hdistinct entry List.mem_cons_self).count]
    by_cases hk : k ∈ entry.keys <;> simp [hk, Nat.add_comm]

theorem Accounted.admitBatch {r : QueueRun} {active : List Entry} (h : Accounted r active)
    (b : QueuedBatch) : Accounted (r.step (.admitBatch b)) active := by
  unfold QueueRun.step
  simp only
  split
  · exact h
  · rename_i error q heq
    rcases ReceiverQueue.admitBatch_cases heq with ⟨_, rfl⟩ | ⟨_, _, hnone, _⟩
    · exact h
    · cases hnone
  · rename_i q heq
    rcases ReceiverQueue.admitBatch_cases heq with ⟨hsome, _⟩ |
      ⟨entry, hentry, _, hnew, _, _, hpending, hbytes, rfl⟩
    · cases hsome
    subst hentry
    refine ⟨h.tracked.admitBatch hnew rfl, ?_, hbytes, ?_, ?_, ?_⟩
    · intro e he
      simp only [List.append_assoc, List.mem_append, List.singleton_append, List.mem_cons] at he
      rcases he with he | rfl | he
      · exact h.distinct e (List.mem_append_left _ he)
      · exact keys_nodup b.distinct
      · exact h.distinct e (List.mem_append_right _ he)
    · rw [List.length_append, List.length_singleton]
      exact hpending
    · have htaken : taken (r.history ++ [.admitted b.item]) = taken r.history := by
        simp [taken, QueueEvent.takenItem]
      have hadmitted : admitted (r.history ++ [.admitted b.item])
          = admitted r.history ++ [b.item] := by
        simp [admitted, QueueEvent.admittedItem]
      simp only
      rw [htaken, hadmitted, List.map_append, ← List.append_assoc]
      exact h.order.append (List.Sublist.refl _)
    · intro item
      have honce := h.once item
      have hgone : gone (r.history ++ [.admitted b.item]) = gone r.history := by
        simp [gone, QueueEvent.leftItem]
      have hadmitted : admitted (r.history ++ [.admitted b.item])
          = admitted r.history ++ [b.item] := by
        simp [admitted, QueueEvent.admittedItem]
      simp only
      rw [hgone, hadmitted]
      simp only [List.map_append, List.count_append, List.map_singleton] at honce ⊢
      omega

theorem Accounted.take {r : QueueRun} {active : List Entry} (h : Accounted r active) :
    ∃ active', Accounted (r.step .take) active' := by
  unfold QueueRun.step ReceiverQueue.take
  simp only
  cases hw : r.queue.waiting with
  | nil => exact ⟨active, h⟩
  | cons entry rest =>
    refine ⟨_, h.tracked.take hw, ?_, ?_, ?_, ?_, ?_⟩
    · intro e he
      have hdistinct := h.distinct
      rw [hw] at hdistinct
      rcases List.mem_append.mp he with he | he
      · exact hdistinct e (List.mem_append_left _ (List.mem_cons_of_mem _ he))
      · rcases List.mem_cons.mp he with rfl | he
        · exact hdistinct entry List.mem_cons_self
        · exact hdistinct e (List.mem_append_right _ he)
    · exact (Nat.sub_le _ _).trans h.bytes
    · have hpending := h.pending
      rw [hw, List.length_cons] at hpending
      exact Nat.le_of_succ_le hpending
    · have htaken : taken (r.history ++ [.taken entry.item]) = taken r.history ++ [entry.item] := by
        simp [taken, QueueEvent.takenItem]
      have hadmitted : admitted (r.history ++ [.taken entry.item]) = admitted r.history := by
        simp [admitted, QueueEvent.admittedItem]
      have horder := h.order
      rw [hw, List.map_cons] at horder
      simp only
      rw [htaken, hadmitted, List.append_assoc]
      exact horder
    · intro item
      have honce := h.once item
      have hgone : gone (r.history ++ [.taken entry.item]) = gone r.history := by
        simp [gone, QueueEvent.leftItem]
      have hadmitted : admitted (r.history ++ [.taken entry.item]) = admitted r.history := by
        simp [admitted, QueueEvent.admittedItem]
      simp only
      rw [hgone, hadmitted, honce, hw]
      simp only [List.map_append, List.map_cons, List.count_append, List.count_cons]
      omega

theorem gone_left (history : List QueueEvent) (item : Nat) :
    gone (history ++ [.left item]) = gone history ++ [item] ∧
      taken (history ++ [.left item]) = taken history ∧
      admitted (history ++ [.left item]) = admitted history := by
  simp [gone, taken, admitted, QueueEvent.leftItem, QueueEvent.takenItem, QueueEvent.admittedItem]

theorem Accounted.cancelWaiting {r : QueueRun} {active : List Entry} (h : Accounted r active)
    (item : Nat) : Accounted (r.step (.cancelWaiting item)) active := by
  have htracked := h.tracked.cancelWaiting item
  unfold QueueRun.step
  simp only
  rcases r.queue.cancelWaiting_cases item with hsame | ⟨entry, he, hs, hleft⟩
  · rw [hsame]
    exact h
  · rw [hleft] at htracked ⊢
    obtain ⟨hgone, htaken, hadmitted⟩ := gone_left r.history item
    obtain ⟨hmem, hitem⟩ := (h.tracked.entries item entry).mp he
    have hw : entry ∈ r.queue.waiting := by
      rcases List.mem_append.mp hmem with hw | ha
      · exact hw
      · rw [h.tracked.active_state entry ha] at hs
        cases hs
    have hperm := List.perm_cons_erase hw
    refine ⟨htracked, ?_, (Nat.sub_le _ _).trans h.bytes, ?_, ?_, ?_⟩
    · intro e he
      refine h.distinct e ?_
      rcases List.mem_append.mp he with he | he
      · exact List.mem_append_left _ (List.mem_of_mem_erase he)
      · exact List.mem_append_right _ he
    · exact List.length_erase_le.trans h.pending
    · simp only
      rw [htaken, hadmitted]
      refine List.Sublist.trans ?_ h.order
      exact (List.Sublist.refl _).append (List.erase_sublist.map _)
    · intro i
      have honce := h.once i
      have hcount := (hperm.map Entry.item).count_eq i
      simp only
      rw [hgone, hadmitted, honce]
      simp only [List.map_append, List.count_append, List.map_cons, List.count_cons,
        List.count_nil, hitem] at hcount ⊢
      omega

theorem Accounted.finish {r : QueueRun} {active : List Entry} (h : Accounted r active)
    (item : Nat) : ∃ active', Accounted (r.step (.finish item)) active' := by
  unfold QueueRun.step
  simp only
  split
  · exact ⟨active, h⟩
  · rename_i q hf
    obtain ⟨entry, he, hs, rfl⟩ := ReceiverQueue.finish_cases hf
    obtain ⟨ha, htracked⟩ := h.tracked.finished he hs
    obtain ⟨hgone, htaken, hadmitted⟩ := gone_left r.history item
    have hitem := ((h.tracked.entries item entry).mp he).2
    have hperm := List.perm_cons_erase ha
    refine ⟨_, htracked, ?_, h.bytes, h.pending, ?_, ?_⟩
    · intro e he
      refine h.distinct e ?_
      rcases List.mem_append.mp he with he | he
      · exact List.mem_append_left _ he
      · exact List.mem_append_right _ (List.mem_of_mem_erase he)
    · simp only
      rw [htaken, hadmitted]
      exact h.order
    · intro i
      have honce := h.once i
      have hcount := (hperm.map Entry.item).count_eq i
      simp only
      rw [hgone, hadmitted, honce]
      simp only [List.map_append, List.count_append, List.map_cons, List.count_cons,
        List.count_nil, hitem] at hcount ⊢
      omega

theorem discarded (history : List QueueEvent) (items : List Nat) :
    gone (history ++ items.map .left) = gone history ++ items ∧
      taken (history ++ items.map .left) = taken history ∧
      admitted (history ++ items.map .left) = admitted history := by
  unfold gone taken admitted
  have hleft : QueueEvent.leftItem ∘ QueueEvent.left = some := rfl
  have htaken : QueueEvent.takenItem ∘ QueueEvent.left = fun _ => none := rfl
  have hadmitted : QueueEvent.admittedItem ∘ QueueEvent.left = fun _ => none := rfl
  rw [List.filterMap_append, List.filterMap_append, List.filterMap_append, List.filterMap_map,
    List.filterMap_map, List.filterMap_map, hleft, htaken, hadmitted]
  simp

theorem Accounted.beginClose {r : QueueRun} {active : List Entry} (h : Accounted r active) :
    Accounted (r.step .beginClose) active := by
  unfold QueueRun.step ReceiverQueue.beginClose
  simp only
  split_ifs
  · rw [List.map_nil, List.append_nil]
    exact h
  · obtain ⟨h1, h2, h3, h4, h5, h6, h7⟩ := h.tracked.discard
    obtain ⟨hgone, htaken, hadmitted⟩ :=
      discarded r.history (r.queue.waiting.map Entry.item)
    refine ⟨⟨h1, h2, h3, h4, h5, h6, h7⟩, ?_, Nat.zero_le _, Nat.zero_le _, ?_, ?_⟩
    · intro e he
      exact h.distinct e (List.mem_append_right _ he)
    · simp only
      rw [htaken, hadmitted, List.map_nil, List.append_nil]
      exact (List.sublist_append_left _ _).trans h.order
    · intro i
      have honce := h.once i
      simp only
      rw [hgone, hadmitted, honce]
      simp only [List.map_append, List.count_append, List.nil_append]
      omega

theorem Accounted.step {r : QueueRun} {active : List Entry} (h : Accounted r active)
    (request : QueueRequest) : ∃ active', Accounted (r.step request) active' := by
  cases request with
  | admitBatch b => exact ⟨active, h.admitBatch b⟩
  | take => exact h.take
  | cancelWaiting item => exact ⟨active, h.cancelWaiting item⟩
  | finish item => exact h.finish item
  | beginDrain experts version stopAll =>
    unfold QueueRun.step
    simp only
    split
    · exact ⟨active, h⟩
    · rename_i q heq
      obtain ⟨draining, stop, rfl, _⟩ := ReceiverQueue.beginDrain_cases heq
      exact ⟨active, h.tracked.gates draining stop, h.distinct, h.bytes, h.pending, h.order, h.once⟩
  | clearExpertDrains experts =>
    unfold QueueRun.step
    simp only
    split_ifs
    · exact ⟨active, h.tracked.gates _ _, h.distinct, h.bytes, h.pending, h.order, h.once⟩
    · exact ⟨active, h⟩
  | beginClose => exact ⟨active, h.beginClose⟩

theorem Accounted.run {r : QueueRun} {active : List Entry} (h : Accounted r active)
    (requests : List QueueRequest) : ∃ active', Accounted (r.run requests) active' := by
  induction requests generalizing r active with
  | nil => exact ⟨active, h⟩
  | cons request requests ih =>
    obtain ⟨active', h'⟩ := h.step request
    exact ih h'

theorem QueueRun.step_limits (r : QueueRun) (request : QueueRequest) :
    (r.step request).queue.maxPendingBatches = r.queue.maxPendingBatches ∧
      (r.step request).queue.maxRetainedBytes = r.queue.maxRetainedBytes := by
  unfold QueueRun.step
  cases request with
  | admitBatch b =>
    simp only
    split
    · exact ⟨rfl, rfl⟩
    · rename_i heq
      rcases ReceiverQueue.admitBatch_cases heq with ⟨_, rfl⟩ | ⟨_, _, _, _, _, _, _, _, rfl⟩
      · exact ⟨rfl, rfl⟩
      · exact ⟨rfl, rfl⟩
    · rename_i heq
      rcases ReceiverQueue.admitBatch_cases heq with ⟨_, rfl⟩ | ⟨_, _, _, _, _, _, _, _, rfl⟩
      · exact ⟨rfl, rfl⟩
      · exact ⟨rfl, rfl⟩
  | take =>
    unfold ReceiverQueue.take
    cases r.queue.waiting with
    | nil => exact ⟨rfl, rfl⟩
    | cons entry rest => exact ⟨rfl, rfl⟩
  | cancelWaiting item =>
    simp only
    rcases r.queue.cancelWaiting_cases item with hsame | ⟨_, _, _, hleft⟩
    · rw [hsame]
      exact ⟨rfl, rfl⟩
    · rw [hleft]
      exact ⟨rfl, rfl⟩
  | finish item =>
    simp only
    split
    · exact ⟨rfl, rfl⟩
    · rename_i heq
      obtain ⟨_, _, _, rfl⟩ := ReceiverQueue.finish_cases heq
      exact ⟨rfl, rfl⟩
  | beginDrain experts version stopAll =>
    simp only
    split
    · exact ⟨rfl, rfl⟩
    · rename_i heq
      obtain ⟨_, _, rfl, _⟩ := ReceiverQueue.beginDrain_cases heq
      exact ⟨rfl, rfl⟩
  | clearExpertDrains experts =>
    simp only
    split_ifs
    · exact ⟨rfl, rfl⟩
    · exact ⟨rfl, rfl⟩
  | beginClose =>
    unfold ReceiverQueue.beginClose
    split_ifs
    · exact ⟨rfl, rfl⟩
    · exact ⟨rfl, rfl⟩

theorem QueueRun.run_limits (r : QueueRun) (requests : List QueueRequest) :
    (r.run requests).queue.maxPendingBatches = r.queue.maxPendingBatches ∧
      (r.run requests).queue.maxRetainedBytes = r.queue.maxRetainedBytes := by
  induction requests generalizing r with
  | nil => exact ⟨rfl, rfl⟩
  | cons request requests ih =>
    obtain ⟨h1, h2⟩ := r.step_limits request
    obtain ⟨h3, h4⟩ := ih (r.step request)
    exact ⟨h3.trans h1, h4.trans h2⟩

/-! ## gates -/

/-- the request clears the gate of the expert -/
def QueueRequest.clears (key : ExpertKey) : QueueRequest → Prop
  | .clearExpertDrains experts => key ∈ experts
  | _ => False

theorem count_discard (entries : List Entry) (counts : ExtTreeMap ExpertKey Nat) (key : ExpertKey) :
    Counter.count (entries.foldl (fun c entry => Counter.dropAll c entry.keys) counts) key
      ≤ Counter.count counts key := by
  induction entries generalizing counts with
  | nil => exact Nat.le_refl _
  | cons entry entries ih =>
    rw [List.foldl_cons]
    refine (ih _).trans ?_
    rw [Counter.count_dropAll]
    exact Nat.sub_le _ _

/-- behind a closed gate no batch is admitted that names the expert -/
theorem gate_step {r : QueueRun} {key : ExpertKey} (h : Gated r.queue key) {request : QueueRequest}
    (hclear : ¬ request.clears key) : Gated (r.step request).queue key ∧
      Counter.count (r.step request).queue.admittedExperts key
        ≤ Counter.count r.queue.admittedExperts key := by
  unfold QueueRun.step
  cases request with
  | admitBatch b =>
    simp only
    split
    · exact ⟨h, Nat.le_refl _⟩
    · rename_i error q heq
      rcases ReceiverQueue.admitBatch_cases heq with ⟨_, rfl⟩ | ⟨_, _, hnone, _⟩
      · exact ⟨h, Nat.le_refl _⟩
      · cases hnone
    · rename_i q heq
      rcases ReceiverQueue.admitBatch_cases heq with ⟨hsome, _⟩ |
        ⟨entry, _, _, _, _, hopen, _, _, rfl⟩
      · cases hsome
      refine ⟨h, ?_⟩
      have hnot : key ∉ entry.keys := by
        intro hmem
        unfold Gated at h
        rw [hopen key hmem] at h
        cases h
      simp only
      rw [Counter.count_addAll, List.count_eq_zero.mpr hnot]
      exact Nat.le_refl _
  | take =>
    unfold ReceiverQueue.take
    cases r.queue.waiting with
    | nil => exact ⟨h, Nat.le_refl _⟩
    | cons entry rest => exact ⟨h, Nat.le_refl _⟩
  | cancelWaiting item =>
    rcases r.queue.cancelWaiting_cases item with hsame | ⟨entry, _, _, hleft⟩
    · simp only
      rw [hsame]
      exact ⟨h, Nat.le_refl _⟩
    · simp only
      rw [hleft]
      refine ⟨h, ?_⟩
      simp only
      rw [Counter.count_dropAll]
      exact Nat.sub_le _ _
  | finish item =>
    simp only
    split
    · exact ⟨h, Nat.le_refl _⟩
    · rename_i q hf
      obtain ⟨entry, _, _, rfl⟩ := ReceiverQueue.finish_cases hf
      refine ⟨h, ?_⟩
      simp only
      rw [Counter.count_dropAll]
      exact Nat.sub_le _ _
  | beginDrain experts version stopAll =>
    simp only
    split
    · exact ⟨h, Nat.le_refl _⟩
    · rename_i q heq
      obtain ⟨draining, stop, rfl, hdraining, _⟩ := ReceiverQueue.beginDrain_cases heq
      exact ⟨(hdraining key).mpr (.inr h), Nat.le_refl _⟩
  | clearExpertDrains experts =>
    simp only
    split_ifs
    · refine ⟨?_, Nat.le_refl _⟩
      unfold Gated at h ⊢
      rw [ReceiverQueue.getElem?_clearExpertDrains, if_neg (show key ∉ experts from hclear)]
      exact h
    · exact ⟨h, Nat.le_refl _⟩
  | beginClose =>
    unfold ReceiverQueue.beginClose
    split_ifs
    · exact ⟨h, Nat.le_refl _⟩
    · exact ⟨h, count_discard _ _ _⟩

theorem gate_run {r : QueueRun} {key : ExpertKey} (h : Gated r.queue key)
    {requests : List QueueRequest} (hclear : ∀ request ∈ requests, ¬ request.clears key) :
    Gated (r.run requests).queue key ∧
      Counter.count (r.run requests).queue.admittedExperts key
        ≤ Counter.count r.queue.admittedExperts key := by
  induction requests generalizing r with
  | nil => exact ⟨h, Nat.le_refl _⟩
  | cons request requests ih =>
    obtain ⟨hgate, hle⟩ := gate_step h (hclear request List.mem_cons_self)
    obtain ⟨hend, hrest⟩ := ih hgate fun q hq => hclear q (List.mem_cons_of_mem _ hq)
    exact ⟨hend, hrest.trans hle⟩

/-! ## closing -/

/-- in a closing queue nothing waits -/
def Closed (q : ReceiverQueue) : Prop := q.closing = true → q.waiting = []

theorem admitBatch_closing {q : ReceiverQueue} (h : q.closing = true) (item layerId : Nat)
    (expertIds : List Nat) (retainedBytes : Nat) :
    ∃ rejection, q.admitBatch item layerId expertIds retainedBytes = .ok (some rejection, q) :=
  ⟨_, if_pos h⟩

/-- and it stays closing -/
theorem closed_step {r : QueueRun} (h : Closed r.queue) (request : QueueRequest) :
    Closed (r.step request).queue ∧
      (r.queue.closing = true → (r.step request).queue.closing = true) := by
  unfold QueueRun.step
  cases request with
  | admitBatch b =>
    by_cases hclosing : r.queue.closing = true
    · obtain ⟨rejection, hrejected⟩ := admitBatch_closing hclosing b.item b.layerId
        b.distinctExpertIds b.retainedBytes
      simp only [hrejected]
      exact ⟨h, id⟩
    simp only
    split
    · exact ⟨h, id⟩
    · rename_i heq
      rcases ReceiverQueue.admitBatch_cases heq with ⟨_, rfl⟩ | ⟨_, _, hnone, _⟩
      · exact ⟨h, id⟩
      · cases hnone
    · rename_i heq
      rcases ReceiverQueue.admitBatch_cases heq with ⟨hsome, _⟩ | ⟨_, _, _, _, _, _, _, _, rfl⟩
      · cases hsome
      · exact ⟨fun hclosed => absurd hclosed hclosing, id⟩
  | take =>
    unfold ReceiverQueue.take
    cases hw : r.queue.waiting with
    | nil => exact ⟨h, id⟩
    | cons entry rest =>
      refine ⟨fun hclosing => ?_, id⟩
      rw [h hclosing] at hw
      cases hw
  | cancelWaiting item =>
    simp only
    rcases r.queue.cancelWaiting_cases item with hsame | ⟨entry, _, _, hleft⟩
    · rw [hsame]
      exact ⟨h, id⟩
    · rw [hleft]
      refine ⟨fun hclosing => ?_, id⟩
      simp only
      rw [h hclosing]
      rfl
  | finish item =>
    simp only
    split
    · exact ⟨h, id⟩
    · rename_i heq
      obtain ⟨_, _, _, rfl⟩ := ReceiverQueue.finish_cases heq
      exact ⟨h, id⟩
  | beginDrain experts version stopAll =>
    simp only
    split
    · exact ⟨h, id⟩
    · rename_i heq
      obtain ⟨_, _, rfl, _⟩ := ReceiverQueue.beginDrain_cases heq
      exact ⟨h, id⟩
  | clearExpertDrains experts =>
    simp only
    split_ifs
    · exact ⟨h, id⟩
    · exact ⟨h, id⟩
  | beginClose =>
    unfold ReceiverQueue.beginClose
    split_ifs
    · exact ⟨h, id⟩
    · exact ⟨fun _ => rfl, fun _ => rfl⟩

theorem beginClose_closing (r : QueueRun) : (r.step .beginClose).queue.closing = true := by
  unfold QueueRun.step ReceiverQueue.beginClose
  split_ifs with hclosing
  · exact hclosing
  · rfl

theorem closed_run {r : QueueRun} (h : Closed r.queue) (requests : List QueueRequest) :
    Closed (r.run requests).queue ∧
      (r.queue.closing = true ∨ .beginClose ∈ requests →
        (r.run requests).queue.closing = true) := by
  induction requests generalizing r with
  | nil =>
    refine ⟨h, ?_⟩
    rintro (hclosing | hmem)
    · exact hclosing
    · cases hmem
  | cons request requests ih =>
    obtain ⟨hstep, hkeeps⟩ := closed_step h request
    obtain ⟨hrest, hclosing⟩ := ih hstep
    refine ⟨hrest, ?_⟩
    rintro (hstart | hmem)
    · exact hclosing (.inl (hkeeps hstart))
    · rcases List.mem_cons.mp hmem with rfl | hmem
      · exact hclosing (.inl (beginClose_closing r))
      · exact hclosing (.inr hmem)

/-- after every list of requests the fields of the queue account for the waiting and the active
entries within the limits, batches were taken in the order of their admission, every item that was
admitted has left once or is tracked, every count that a release lowers is positive, from a drain of
an expert until it is cleared its count does not grow, and once the queue closes nothing waits -/
theorem receiver_queue_accounting (maxPendingBatches maxRetainedBytes : Nat)
    (hpos : 0 < maxPendingBatches) (requests : List QueueRequest) :
    let r := (QueueRun.new maxPendingBatches maxRetainedBytes hpos).run requests
    (∃ active, Tracked r.queue active ∧
      r.queue.retainedBytes ≤ maxRetainedBytes ∧ r.queue.waiting.length ≤ maxPendingBatches ∧
      (∀ k, Counter.count r.queue.admittedExperts k
        = (r.queue.waiting ++ active).countP fun entry => decide (k ∈ entry.keys)) ∧
      (∀ entry ∈ r.queue.waiting ++ active, ∀ k ∈ entry.keys,
        0 < Counter.count r.queue.admittedExperts k) ∧
      (taken r.history ++ r.queue.waiting.map Entry.item).Sublist (admitted r.history) ∧
      ∀ item, (admitted r.history).count item = (gone r.history).count item
        + ((r.queue.waiting ++ active).map Entry.item).count item) ∧
    (∀ experts minTopologyVersion stopAll q,
      r.queue.beginDrain experts minTopologyVersion stopAll = .ok q →
        ∀ key ∈ experts, ∀ before after, (∀ request ∈ before ++ after, ¬ request.clears key) →
          Counter.count (QueueRun.run ⟨q, r.history⟩ (before ++ after)).queue.admittedExperts key
            ≤ Counter.count (QueueRun.run ⟨q, r.history⟩ before).queue.admittedExperts key) ∧
    (.beginClose ∈ requests → r.queue.waiting = []) := by
  intro r
  obtain ⟨active, h⟩ := (Accounted.new maxPendingBatches maxRetainedBytes hpos).run requests
  obtain ⟨hpending, hbytes⟩ :=
    (QueueRun.new maxPendingBatches maxRetainedBytes hpos).run_limits requests
  refine ⟨⟨active, h.tracked, h.bytes.trans_eq hbytes, h.pending.trans_eq hpending, h.count_named,
    ?_, h.order, h.once⟩, ?_, ?_⟩
  · intro entry he k hk
    rw [h.count_named]
    exact List.countP_pos_iff.mpr ⟨entry, he, decide_eq_true hk⟩
  · intro experts version stopAll q hq key hkey before after hclear
    obtain ⟨draining, stop, rfl, hdraining, _⟩ := ReceiverQueue.beginDrain_cases hq
    have hclosed : Gated { r.queue with
        drainingExperts := draining, stopAllMinTopologyVersion := stop } key :=
      (hdraining key).mpr (.inl hkey)
    obtain ⟨hgate, _⟩ := gate_run (r := ⟨_, r.history⟩) hclosed
      fun q hq => hclear q (List.mem_append_left after hq)
    unfold QueueRun.run
    rw [List.foldl_append]
    exact (gate_run hgate fun q hq => hclear q (List.mem_append_right before hq)).2
  · intro hclose
    have hnew : Closed (QueueRun.new maxPendingBatches maxRetainedBytes hpos).queue :=
      fun hclosing => absurd hclosing Bool.false_ne_true
    obtain ⟨hclosed, hclosing⟩ := closed_run hnew requests
    exact hclosed (hclosing (.inr hclose))

/-- two batches of one expert, a drain of it that turns a third batch away, a fourth one after the
gate is cleared, which is taken, a fifth one that the close discards and a sixth one after it -/
def drainRequests : List QueueRequest :=
  [.admitBatch ⟨1, 0, [2, 5], 10, ⟨by decide, by decide⟩⟩,
    .admitBatch ⟨2, 0, [5], 10, ⟨by decide, by decide⟩⟩, .take, .beginDrain [⟨0, 5⟩] 3 false,
    .admitBatch ⟨3, 0, [5], 10, ⟨by decide, by decide⟩⟩, .cancelWaiting 2, .finish 1,
    .clearExpertDrains [⟨0, 5⟩], .admitBatch ⟨4, 0, [5], 10, ⟨by decide, by decide⟩⟩, .take,
    .admitBatch ⟨5, 0, [5], 10, ⟨by decide, by decide⟩⟩, .beginClose,
    .admitBatch ⟨6, 0, [5], 10, ⟨by decide, by decide⟩⟩, .finish 4]

theorem receiver_queue_accounting_drain :
    let r := (QueueRun.new 2 100 (by decide)).run drainRequests
    r.history = [.admitted 1, .admitted 2, .taken 1, .left 2, .left 1, .admitted 4, .taken 4,
        .admitted 5, .left 5, .left 4] ∧
      r.queue.waiting = [] ∧ ∀ k, Counter.count r.queue.admittedExperts k = 0 := by
  have hend : ((QueueRun.new 2 100 (by decide)).run drainRequests).history
        = [.admitted 1, .admitted 2, .taken 1, .left 2, .left 1, .admitted 4, .taken 4,
          .admitted 5, .left 5, .left 4] ∧
      ((QueueRun.new 2 100 (by decide)).run drainRequests).queue.activeCount = 0 := by
    decide +kernel
  obtain ⟨⟨active, htracked, _, _, hcount, _⟩, _, hclosed⟩ :=
    receiver_queue_accounting 2 100 (by decide) drainRequests
  have hwaiting := hclosed (by simp [drainRequests])
  intro r
  refine ⟨hend.1, hwaiting, fun k => ?_⟩
  have hactive : active = [] :=
    List.length_eq_zero_iff.mp (htracked.active_count.symm.trans hend.2)
  rw [hcount, hwaiting, hactive]
  rfl

end ExpertKit.Transport

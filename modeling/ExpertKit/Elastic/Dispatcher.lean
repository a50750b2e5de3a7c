import ExpertKit.Controller.State
import ExpertKit.Elastic.Database
import ExpertKit.Lib.Maps

/-!
# Elasticity: the dispatcher

`DispatcherImpl` of `ek-computation/src/controller/dispatcher.rs`: one channel per worker, and the
fingerprint of the list that the last `update` meant for it.  `trigger_worker` sends on the same
channel without recording what it sent.  A send waits for room in the channel while the receiver
is alive, so a subscription is its lease with the lists sent to it.

* `DispatcherImpl.apply`, `dispatched`   the operations and their runs;
* `Notice`, `notices`         what the operations of a run mean for one worker;
* `dispatched_tracks`         the entries of one worker stand for what it heard;
* `dispatched_lease`          a channel keeps the number of the subscription that made it;
* `no_change_lost_iff`        every update reaches its worker exactly when no trigger with another
                              set is followed only by repetitions of the list before it.
-/

set_option linter.unusedSectionVars false

namespace ExpertKit.Elastic
open Std Controller

/-! ## operations -/

structure NodeWithExperts where
  node : Node
  experts : List Expert
deriving DecidableEq

structure Subscription where
  id : Nat
  /-- the lists sent on the channel, the oldest first -/
  sent : List (List Expert)
deriving DecidableEq

structure DispatcherImpl where
  chStore : ExtTreeMap String Subscription
  nextSubscriptionId : Nat
  lastFingerprint : ExtTreeMap String UInt64

/-- the sorted expert ids of a list -/
def sortedIds (experts : List Expert) : List String :=
  (experts.map (·.expertId)).mergeSort fun a b => decide (a ≤ b)

def fingerprint (hash : List String → UInt64) (experts : List Expert) : UInt64 :=
  hash (sortedIds experts)

/-- the experts that are not waiting for their stripe -/
def dispatchable (experts : List Expert) : List Expert :=
  experts.filter fun expert => expert.state ≠ .scheduled

namespace DispatcherImpl

def new : DispatcherImpl := ⟨∅, 0, ∅⟩

/-- `ch.send(experts)` on the channel of the worker, if there is one -/
def send (d : DispatcherImpl) (hostname : String) (experts : List Expert) : DispatcherImpl :=
  match d.chStore[hostname]? with
  | some ch =>
    { d with chStore := d.chStore.insert hostname { ch with sent := ch.sent ++ [experts] } }
  | none => d

/-- one round of the loop of `update` -/
def updateNode (hash : List String → UInt64) (d : DispatcherImpl) (data : NodeWithExperts) :
    DispatcherImpl :=
  let hostname := data.node.hostname
  let experts := (dispatchable data.experts).mergeSort fun a b => decide (a.expertId ≤ b.expertId)
  let fp := fingerprint hash experts
  if d.lastFingerprint[hostname]? = some fp then d
  else { d with lastFingerprint := d.lastFingerprint.insert hostname fp }.send hostname experts

def update (hash : List String → UInt64) (d : DispatcherImpl) (state : List NodeWithExperts) :
    DispatcherImpl :=
  state.foldl (updateNode hash) d

def subscribeWithLease (d : DispatcherImpl) (hostname : String) : Nat × DispatcherImpl :=
  let subscriptionId := wrappingNext d.nextSubscriptionId
  (subscriptionId,
    { chStore := d.chStore.insert hostname ⟨subscriptionId, []⟩
      nextSubscriptionId := subscriptionId
      lastFingerprint := d.lastFingerprint.erase hostname })

def unsubscribeWithLease (d : DispatcherImpl) (hostname : String) (subscriptionId : Nat) :
    Bool × DispatcherImpl :=
  let isCurrent := (d.chStore[hostname]?).any fun ch => ch.id = subscriptionId
  (isCurrent, if isCurrent then { d with chStore := d.chStore.erase hostname } else d)

def triggerWorker (d : DispatcherImpl) (hostname : String) (experts : List Expert) :
    DispatcherImpl :=
  d.send hostname experts

end DispatcherImpl

inductive DispatcherOp where
  | update (state : List NodeWithExperts)
  | triggerWorker (hostname : String) (experts : List Expert)
  | subscribeWithLease (hostname : String)
  | unsubscribeWithLease (hostname : String) (subscriptionId : Nat)
deriving DecidableEq

def DispatcherImpl.apply (hash : List String → UInt64) (d : DispatcherImpl) :
    DispatcherOp → DispatcherImpl
  | .update state => d.update hash state
  | .triggerWorker hostname experts => d.triggerWorker hostname experts
  | .subscribeWithLease hostname => (d.subscribeWithLease hostname).2
  | .unsubscribeWithLease hostname id => (d.unsubscribeWithLease hostname id).2

/-- the dispatcher after a run -/
def dispatched (hash : List String → UInt64) (ops : List DispatcherOp) : DispatcherImpl :=
  ops.foldl (DispatcherImpl.apply hash) .new

theorem dispatched_concat (hash : List String → UInt64) (ops : List DispatcherOp)
    (op : DispatcherOp) :
    dispatched hash (ops ++ [op]) = (dispatched hash ops).apply hash op := by
  unfold dispatched
  rw [List.foldl_append]
  rfl

/-! ## what a run means for one worker -/

inductive Notice where
  /-- an `update` lists these ids -/
  | listed (ids : List String)
  /-- a `trigger_worker` sends these ids -/
  | triggered (ids : List String)
  | subscribed
deriving DecidableEq, Repr

def nodeNotices (h : String) (data : NodeWithExperts) : List Notice :=
  if data.node.hostname = h then [.listed (sortedIds (dispatchable data.experts))] else []

def DispatcherOp.notices (h : String) : DispatcherOp → List Notice
  | .update state => state.flatMap (nodeNotices h)
  | .triggerWorker hostname experts => if hostname = h then [.triggered (sortedIds experts)] else []
  | .subscribeWithLease hostname => if hostname = h then [.subscribed] else []
  | .unsubscribeWithLease _ _ => []

def notices (h : String) (ops : List DispatcherOp) : List Notice := ops.flatMap (·.notices h)

/-- the list of the last update since the subscription, and the ids sent last -/
structure Heard where
  listed : Option (List String)
  sent : Option (List String)
deriving DecidableEq, Repr

/-- an update that repeats the list of the one before it sends nothing -/
def Heard.apply (heard : Heard) : Notice → Heard
  | .listed ids => if heard.listed = some ids then heard else ⟨some ids, some ids⟩
  | .triggered ids => { heard with sent := some ids }
  | .subscribed => ⟨none, none⟩

def heard (ns : List Notice) : Heard := ns.foldl Heard.apply ⟨none, none⟩

theorem heard_append (ns ms : List Notice) : heard (ns ++ ms) = ms.foldl Heard.apply (heard ns) :=
  List.foldl_append

theorem notices_concat (h : String) (ops : List DispatcherOp) (op : DispatcherOp) :
    notices h (ops ++ [op]) = notices h ops ++ op.notices h := by
  unfold notices
  rw [List.flatMap_append, List.flatMap_singleton]

theorem Heard.apply_listed (x : Heard) (ids : List String) :
    (x.apply (.listed ids)).listed = some ids := by
  show (if x.listed = some ids then x else ⟨some ids, some ids⟩ : Heard).listed = some ids
  split_ifs with h
  · exact h
  · rfl

/-! ## the dispatcher of one worker -/

theorem sortedIds_congr {a b : List Expert} (h : a.Perm b) : sortedIds a = sortedIds b := by
  unfold sortedIds
  have hperm := (List.mergeSort_perm (a.map (·.expertId)) fun a b => decide (a ≤ b)).trans
    ((h.map _).trans (List.mergeSort_perm (b.map (·.expertId)) fun a b => decide (a ≤ b)).symm)
  have hsorted : ∀ l : List String,
      (l.mergeSort fun a b => decide (a ≤ b)).Pairwise fun a b => a ≤ b := by
    intro l
    have htrans : ∀ a b c : String, decide (a ≤ b) = true → decide (b ≤ c) = true →
        decide (a ≤ c) = true := by
      intro a b c hab hbc
      have habc : a ≤ c := (of_decide_eq_true hab : a ≤ b).trans (of_decide_eq_true hbc)
      exact decide_eq_true habc
    have htotal : ∀ a b : String, (decide (a ≤ b) || decide (b ≤ a)) = true := by
      intro a b
      rcases String.le_total a b with hab | hab <;> simp [hab]
    exact (List.pairwise_mergeSort htrans htotal l).imp fun h => of_decide_eq_true h
  exact hperm.eq_of_pairwise (fun a b _ _ hab hba => String.le_antisymm hab hba)
    (hsorted _) (hsorted _)

theorem mem_sortedIds {experts : List Expert} {id : String} :
    id ∈ sortedIds experts ↔ id ∈ experts.map (·.expertId) :=
  (List.mergeSort_perm _ _).mem_iff

theorem send_lastFingerprint (d : DispatcherImpl) (hostname : String) (experts : List Expert) :
    (d.send hostname experts).lastFingerprint = d.lastFingerprint := by
  unfold DispatcherImpl.send
  cases d.chStore[hostname]? <;> rfl

theorem send_nextSubscriptionId (d : DispatcherImpl) (hostname : String) (experts : List Expert) :
    (d.send hostname experts).nextSubscriptionId = d.nextSubscriptionId := by
  unfold DispatcherImpl.send
  cases d.chStore[hostname]? <;> rfl

theorem send_chStore (d : DispatcherImpl) (hostname h : String) (experts : List Expert) :
    (d.send hostname experts).chStore[h]? =
      (d.chStore[h]?).map fun ch =>
        if hostname = h then { ch with sent := ch.sent ++ [experts] } else ch := by
  unfold DispatcherImpl.send
  by_cases hh : hostname = h
  · subst hh
    cases hc : d.chStore[hostname]? with
    | none => simp [hc]
    | some ch => simp
  · cases hc : d.chStore[hostname]? with
    | none => simp [hh]
    | some ch => simp [Maps.getElem?_insert_eq, hh]

/-- the entries of `d` for `h` stand for what the worker heard; `S` are the lists of the updates -/
structure Tracks (hash : List String → UInt64) (S : Set (List String)) (h : String)
    (d : DispatcherImpl) (x : Heard) : Prop where
  listed_mem : ∀ ids, x.listed = some ids → ids ∈ S
  fingerprint : d.lastFingerprint[h]? = x.listed.map hash
  last : ∀ ch, d.chStore[h]? = some ch → ch.sent.getLast?.map sortedIds = x.sent

section
variable {hash : List String → UInt64} {S : Set (List String)} {h : String} {d : DispatcherImpl}
  {x : Heard}

/-- a send to `h` is what it heard last -/
theorem Tracks.send (t : Tracks hash S h d x) (experts : List Expert) :
    Tracks hash S h (d.send h experts) { x with sent := some (sortedIds experts) } := by
  refine ⟨t.listed_mem, ?_, ?_⟩
  · rw [send_lastFingerprint]
    exact t.fingerprint
  · intro ch hch
    rw [send_chStore, Option.map_eq_some_iff] at hch
    obtain ⟨ch0, -, rfl⟩ := hch
    simp

theorem Tracks.send_other (t : Tracks hash S h d x) {hostname : String} (hh : hostname ≠ h)
    (experts : List Expert) : Tracks hash S h (d.send hostname experts) x := by
  refine ⟨t.listed_mem, ?_, ?_⟩
  · rw [send_lastFingerprint]
    exact t.fingerprint
  · intro ch hch
    rw [send_chStore, Option.map_eq_some_iff] at hch
    obtain ⟨ch0, hch0, rfl⟩ := hch
    rw [if_neg hh]
    exact t.last ch0 hch0

/-- recording a fingerprint for another worker changes nothing for `h` -/
theorem Tracks.record_other (t : Tracks hash S h d x) {hostname : String} (hh : hostname ≠ h)
    (fp : UInt64) :
    Tracks hash S h { d with lastFingerprint := d.lastFingerprint.insert hostname fp } x := by
  refine ⟨t.listed_mem, ?_, t.last⟩
  show (d.lastFingerprint.insert hostname fp)[h]? = _
  rw [Maps.getElem?_insert_eq, if_neg hh]
  exact t.fingerprint

theorem sortedIds_mergeSort (experts : List Expert) :
    sortedIds (experts.mergeSort fun a b => decide (a.expertId ≤ b.expertId)) =
      sortedIds experts :=
  sortedIds_congr (List.mergeSort_perm _ _)

theorem updateNode_eq (hash : List String → UInt64) (d : DispatcherImpl) (data : NodeWithExperts) :
    d.updateNode hash data =
      let fp := hash (sortedIds (dispatchable data.experts))
      if d.lastFingerprint[data.node.hostname]? = some fp then d
      else DispatcherImpl.send
        { d with lastFingerprint := d.lastFingerprint.insert data.node.hostname fp }
        data.node.hostname
        ((dispatchable data.experts).mergeSort fun a b => decide (a.expertId ≤ b.expertId)) := by
  rw [← sortedIds_mergeSort]
  rfl

theorem Tracks.updateNode (t : Tracks hash S h d x) (hS : Set.InjOn hash S)
    (data : NodeWithExperts)
    (hd : data.node.hostname = h → sortedIds (dispatchable data.experts) ∈ S) :
    Tracks hash S h (d.updateNode hash data) ((nodeNotices h data).foldl Heard.apply x) := by
  rw [updateNode_eq, nodeNotices]
  by_cases hh : data.node.hostname = h
  · specialize hd hh
    subst hh
    set ids := sortedIds (dispatchable data.experts) with hids
    -- the fingerprints agree exactly when the lists do
    have hsame : d.lastFingerprint[data.node.hostname]? = some (hash ids) ↔
        x.listed = some ids := by
      rw [t.fingerprint, Option.map_eq_some_iff]
      constructor
      · rintro ⟨a, ha, heq⟩
        rw [ha, hS (t.listed_mem a ha) hd heq]
      · intro hl
        exact ⟨ids, hl, rfl⟩
    rw [if_pos rfl]
    show Tracks hash S _ _ (if x.listed = some ids then x else ⟨some ids, some ids⟩)
    by_cases hl : x.listed = some ids
    · rw [if_pos (hsame.mpr hl), if_pos hl]
      exact t
    · rw [if_neg (fun hf => hl (hsame.mp hf)), if_neg hl]
      have hrec : Tracks hash S data.node.hostname
          { d with lastFingerprint := d.lastFingerprint.insert data.node.hostname (hash ids) }
          { x with listed := some ids } := by
        refine ⟨?_, ?_, t.last⟩
        · intro a ha
          cases ha
          exact hd
        · show (d.lastFingerprint.insert data.node.hostname (hash ids))[data.node.hostname]? = _
          rw [Maps.getElem?_insert_eq, if_pos rfl]
          rfl
      have hsent := hrec.send
        ((dispatchable data.experts).mergeSort fun a b => decide (a.expertId ≤ b.expertId))
      rw [sortedIds_mergeSort] at hsent
      exact hsent
  · rw [if_neg hh]
    show Tracks hash S h _ x
    dsimp only
    split_ifs with hf
    · exact t
    · exact (t.record_other hh _).send_other hh _

theorem Tracks.update (t : Tracks hash S h d x) (hS : Set.InjOn hash S)
    (state : List NodeWithExperts)
    (hd : ∀ ids, .listed ids ∈ state.flatMap (nodeNotices h) → ids ∈ S) :
    Tracks hash S h (d.update hash state) ((state.flatMap (nodeNotices h)).foldl Heard.apply x) := by
  induction state generalizing d x with
  | nil => exact t
  | cons data state ih =>
    rw [List.flatMap_cons, List.foldl_append]
    show Tracks hash S h ((d.updateNode hash data).update hash state) _
    refine ih (t.updateNode hS data ?_) ?_
    · intro hh
      refine hd _ ?_
      rw [List.flatMap_cons, nodeNotices, if_pos hh]
      exact List.mem_append_left _ List.mem_cons_self
    · intro ids hids
      refine hd ids ?_
      rw [List.flatMap_cons]
      exact List.mem_append_right _ hids

theorem Tracks.unsubscribe (t : Tracks hash S h d x) (hostname : String) (id : Nat) :
    Tracks hash S h (d.unsubscribeWithLease hostname id).2 x := by
  show Tracks hash S h
    (if (d.chStore[hostname]?).any (fun ch => ch.id = id) then
      { d with chStore := d.chStore.erase hostname } else d) x
  split_ifs with hc
  · refine ⟨t.listed_mem, t.fingerprint, ?_⟩
    intro ch hch
    change (d.chStore.erase hostname)[h]? = some ch at hch
    rw [Maps.getElem?_erase_eq] at hch
    split_ifs at hch
    exact t.last ch hch
  · exact t

theorem Tracks.subscribe (t : Tracks hash S h d x) (hostname : String) :
    Tracks hash S h (d.subscribeWithLease hostname).2
      (if hostname = h then ⟨none, none⟩ else x) := by
  have hch : (d.subscribeWithLease hostname).2.chStore[h]? =
      if hostname = h then some ⟨wrappingNext d.nextSubscriptionId, []⟩ else d.chStore[h]? :=
    Maps.getElem?_insert_eq _ _ _ _
  have hfp : (d.subscribeWithLease hostname).2.lastFingerprint[h]? =
      if hostname = h then none else d.lastFingerprint[h]? :=
    Maps.getElem?_erase_eq _ _ _
  by_cases hh : hostname = h
  · rw [if_pos hh] at hch hfp ⊢
    refine ⟨?_, hfp, ?_⟩
    · intro ids hids
      cases hids
    · intro ch hc
      rw [hch] at hc
      cases hc
      rfl
  · rw [if_neg hh] at hch hfp ⊢
    refine ⟨t.listed_mem, hfp.trans t.fingerprint, ?_⟩
    intro ch hc
    rw [hch] at hc
    exact t.last ch hc

theorem Tracks.apply (t : Tracks hash S h d x) (hS : Set.InjOn hash S) (op : DispatcherOp)
    (hd : ∀ ids, .listed ids ∈ op.notices h → ids ∈ S) :
    Tracks hash S h (d.apply hash op) ((op.notices h).foldl Heard.apply x) := by
  cases op with
  | update state => exact t.update hS state hd
  | triggerWorker hostname experts =>
    show Tracks hash S h (d.send hostname experts)
      ((if hostname = h then [.triggered (sortedIds experts)] else []).foldl Heard.apply x)
    by_cases hh : hostname = h
    · subst hh
      rw [if_pos rfl]
      exact t.send experts
    · rw [if_neg hh]
      exact t.send_other hh experts
  | subscribeWithLease hostname =>
    have ht := t.subscribe hostname
    show Tracks hash S h _ ((if hostname = h then [.subscribed] else []).foldl Heard.apply x)
    by_cases hh : hostname = h
    · rw [if_pos hh] at ht ⊢
      exact ht
    · rw [if_neg hh] at ht ⊢
      exact ht
  | unsubscribeWithLease hostname id => exact t.unsubscribe hostname id

end

/-- no two different lists of the updates have one fingerprint -/
def CollisionFree (hash : List String → UInt64) (ops : List DispatcherOp) : Prop :=
  ∀ h, Set.InjOn hash { ids | .listed ids ∈ notices h ops }

theorem dispatched_tracks {hash : List String → UInt64} {ops : List DispatcherOp}
    (hfree : CollisionFree hash ops) (h : String) :
    Tracks hash { ids | .listed ids ∈ notices h ops } h (dispatched hash ops)
      (heard (notices h ops)) := by
  have hprefix : ∀ pre, pre <+: ops →
      Tracks hash { ids | .listed ids ∈ notices h ops } h (dispatched hash pre)
        (heard (notices h pre)) := by
    intro pre
    induction pre using List.reverseRecOn with
    | nil =>
      intro _
      refine ⟨fun ids hids => (by cases hids), ?_, ?_⟩
      · show (∅ : ExtTreeMap String UInt64)[h]? = none
        simp
      · intro ch hch
        have hnone : (∅ : ExtTreeMap String Subscription)[h]? = none := by simp
        rw [show (dispatched hash []).chStore = ∅ from rfl, hnone] at hch
        cases hch
    | append_singleton pre op ih =>
      intro hpre
      rw [dispatched_concat, notices_concat, heard_append]
      refine (ih ((List.prefix_append _ _).trans hpre)).apply (hfree h) op ?_
      intro ids hids
      obtain ⟨rest, rfl⟩ := hpre
      show Notice.listed ids ∈ notices h (pre ++ [op] ++ rest)
      unfold notices
      rw [List.flatMap_append, List.flatMap_append, List.flatMap_singleton]
      exact List.mem_append_left _ (List.mem_append_right _ hids)
  exact hprefix ops List.prefix_rfl

/-! ## the last list of a worker -/

def lastListed (ns : List Notice) : Option (List String) :=
  ns.foldl (fun last notice =>
    match notice with
    | .listed ids => some ids
    | .triggered _ => last
    | .subscribed => none) none

theorem lastListed_concat_listed (ns : List Notice) (ids : List String) :
    lastListed (ns ++ [.listed ids]) = some ids := by
  unfold lastListed
  rw [List.foldl_append]
  rfl

theorem heard_listed (ns : List Notice) : (heard ns).listed = lastListed ns := by
  induction ns using List.reverseRecOn with
  | nil => rfl
  | append_singleton ns n ih =>
    rw [heard_append]
    cases n with
    | listed ids =>
      rw [lastListed_concat_listed]
      exact Heard.apply_listed _ ids
    | triggered ids =>
      unfold lastListed at ih ⊢
      rw [List.foldl_append]
      exact ih
    | subscribed =>
      unfold lastListed
      rw [List.foldl_append]
      rfl

/-- after a trigger, repetitions of the list recorded before it are not sent -/
theorem heard_sent_of_repeated {pre : List Notice} {ids : List String}
    (hl : lastListed pre = some ids) (sent : List String) (n : Nat) :
    heard (pre ++ .triggered sent :: List.replicate n (.listed ids)) = ⟨some ids, some sent⟩ := by
  induction n with
  | zero =>
    rw [List.replicate_zero, heard_append]
    show (⟨(heard pre).listed, some sent⟩ : Heard) = _
    rw [heard_listed, hl]
  | succ n ih =>
    have hsplit : pre ++ .triggered sent :: List.replicate (n + 1) (.listed ids) =
        (pre ++ .triggered sent :: List.replicate n (.listed ids)) ++ [.listed ids] := by
      rw [List.replicate_succ']
      simp
    rw [hsplit, heard_append, ih]
    show (if some ids = some ids then _ else _) = _
    rw [if_pos rfl]

/-- what was sent last is the recorded list, or a trigger followed only by its repetitions -/
theorem heard_sent_cases {ns : List Notice} {ids : List String} (hl : lastListed ns = some ids) :
    ∃ sent, (heard ns).sent = some sent ∧ (sent = ids ∨ ∃ pre n, lastListed pre = some ids ∧
      ns = pre ++ .triggered sent :: List.replicate n (.listed ids)) := by
  induction ns using List.reverseRecOn generalizing ids with
  | nil => cases hl
  | append_singleton ns notice ih =>
    rw [heard_append]
    cases notice with
    | listed new =>
      rw [lastListed_concat_listed] at hl
      cases hl
      show ∃ sent, (if (heard ns).listed = some ids then heard ns else ⟨some ids, some ids⟩).sent =
        some sent ∧ _
      by_cases hsame : (heard ns).listed = some ids
      · rw [if_pos hsame]
        rw [heard_listed] at hsame
        obtain ⟨sent, hsent, hcase⟩ := ih hsame
        refine ⟨sent, hsent, hcase.imp id ?_⟩
        rintro ⟨pre, n, hpre, hns⟩
        refine ⟨pre, n + 1, hpre, ?_⟩
        rw [hns, List.replicate_succ']
        simp
      · rw [if_neg hsame]
        exact ⟨ids, rfl, .inl rfl⟩
    | triggered sent =>
      refine ⟨sent, rfl, .inr ⟨ns, 0, ?_, rfl⟩⟩
      rw [← hl]
      unfold lastListed
      rw [List.foldl_append]
      rfl
    | subscribed =>
      unfold lastListed at hl
      rw [List.foldl_append] at hl
      cases hl

/-- a trigger sent another set, and every update since repeats the list from before it -/
def Stale (ns : List Notice) : Prop :=
  ∃ pre sent ids n, lastListed pre = some ids ∧
    ns = pre ++ .triggered sent :: List.replicate (n + 1) (.listed ids) ∧
    ¬ ∀ id, id ∈ sent ↔ id ∈ ids

/-- with the updates listed last, the sent set is the listed one exactly when it is not stale -/
theorem heard_sent_iff (ns : List Notice) (ids : List String) :
    ∃ sent, (heard (ns ++ [.listed ids])).sent = some sent ∧
      ((∀ id, id ∈ sent ↔ id ∈ ids) ↔ ¬ Stale (ns ++ [.listed ids])) := by
  have hl := lastListed_concat_listed ns ids
  obtain ⟨sent, hsent, hcase⟩ := heard_sent_cases hl
  refine ⟨sent, hsent, ?_⟩
  constructor
  · rintro hsame ⟨pre, sent', ids', n, hpre, hns, hdiff⟩
    rw [hns, heard_sent_of_repeated hpre] at hsent
    have hids : ids' = ids := by
      have hlast := heard_listed (ns ++ [.listed ids])
      rw [hl, hns, heard_sent_of_repeated hpre] at hlast
      exact Option.some.inj hlast
    rw [Option.some.inj hsent, hids] at hdiff
    exact hdiff hsame
  · intro hstale
    rcases hcase with rfl | ⟨pre, n, hpre, hns⟩
    · exact fun id => Iff.rfl
    · by_contra hdiff
      cases n with
      | zero =>
        -- the last notice of the run is an update
        have hlast := congrArg List.getLast? hns
        simp at hlast
      | succ n => exact hstale ⟨pre, sent, ids, n, hpre, hns, hdiff⟩

/-! ## leases -/

def DispatcherOp.subscribes : DispatcherOp → Bool
  | .subscribeWithLease _ => true
  | _ => false

/-- the subscriptions of a run, of all workers -/
def subscriptions (ops : List DispatcherOp) : Nat := ops.countP (·.subscribes)

/-- the number of the newest subscription of `h`, counted over all workers -/
def newestSubscription (h : String) (ops : List DispatcherOp) : Nat :=
  subscriptions (ops.rdropWhile fun op => op ≠ .subscribeWithLease h)

theorem subscriptions_concat (ops : List DispatcherOp) (op : DispatcherOp) :
    subscriptions (ops ++ [op]) = subscriptions ops + if op.subscribes then 1 else 0 := by
  unfold subscriptions
  rw [List.countP_append]
  simp [List.countP_cons]

theorem newestSubscription_concat (h : String) (ops : List DispatcherOp) (op : DispatcherOp) :
    newestSubscription h (ops ++ [op]) =
      if op = .subscribeWithLease h then subscriptions ops + 1 else newestSubscription h ops := by
  unfold newestSubscription
  rw [List.rdropWhile_concat]
  by_cases hop : op = .subscribeWithLease h
  · subst hop
    rw [if_pos rfl]
    simp [subscriptions_concat, DispatcherOp.subscribes]
  · simp [hop]

section
variable (hash : List String → UInt64)

theorem updateNode_chStore_id (d : DispatcherImpl) (data : NodeWithExperts) (h : String) :
    ((d.updateNode hash data).chStore[h]?).map (·.id) = (d.chStore[h]?).map (·.id) := by
  rw [updateNode_eq]
  dsimp only
  split_ifs with hf
  · rfl
  · rw [send_chStore, Option.map_map]
    congr 1
    funext ch
    show (if _ then _ else ch : Subscription).id = ch.id
    split_ifs <;> rfl

theorem updateNode_nextSubscriptionId (d : DispatcherImpl) (data : NodeWithExperts) :
    (d.updateNode hash data).nextSubscriptionId = d.nextSubscriptionId := by
  rw [updateNode_eq]
  dsimp only
  split_ifs with hf
  · rfl
  · exact send_nextSubscriptionId _ _ _

theorem update_chStore_id (d : DispatcherImpl) (state : List NodeWithExperts) (h : String) :
    ((d.update hash state).chStore[h]?).map (·.id) = (d.chStore[h]?).map (·.id) := by
  induction state generalizing d with
  | nil => rfl
  | cons data state ih => exact (ih (d.updateNode hash data)).trans (updateNode_chStore_id hash d data h)

theorem update_nextSubscriptionId (d : DispatcherImpl) (state : List NodeWithExperts) :
    (d.update hash state).nextSubscriptionId = d.nextSubscriptionId := by
  induction state generalizing d with
  | nil => rfl
  | cons data state ih =>
    exact (ih (d.updateNode hash data)).trans (updateNode_nextSubscriptionId hash d data)

theorem dispatched_nextSubscriptionId (ops : List DispatcherOp) :
    (dispatched hash ops).nextSubscriptionId = Lease.number (2 ^ 64) (subscriptions ops) := by
  induction ops using List.reverseRecOn with
  | nil => rfl
  | append_singleton ops op ih =>
    rw [dispatched_concat, subscriptions_concat]
    cases op with
    | update state => exact (update_nextSubscriptionId hash _ state).trans ih
    | triggerWorker hostname experts => exact (send_nextSubscriptionId _ hostname experts).trans ih
    | subscribeWithLease hostname =>
      show wrappingNext (dispatched hash ops).nextSubscriptionId = _
      rw [ih]
      exact wrappingNext_number _
    | unsubscribeWithLease hostname id =>
      refine Eq.trans ?_ ih
      show (if _ then _ else _ : DispatcherImpl).nextSubscriptionId = _
      split_ifs <;> rfl

/-- a channel keeps the number of the subscription that made it -/
theorem dispatched_lease (ops : List DispatcherOp) (h : String) {ch : Subscription}
    (hch : (dispatched hash ops).chStore[h]? = some ch) :
    0 < newestSubscription h ops ∧ ch.id = Lease.number (2 ^ 64) (newestSubscription h ops) := by
  induction ops using List.reverseRecOn generalizing ch with
  | nil =>
    have hnone : (∅ : ExtTreeMap String Subscription)[h]? = none := by simp
    rw [show (dispatched hash []).chStore = ∅ from rfl, hnone] at hch
    cases hch
  | append_singleton ops op ih =>
    -- every operation but a subscription of `h` keeps the lease of a channel that stays
    have hkeep : ((dispatched hash ops).chStore[h]?).map (·.id) = some ch.id →
        op ≠ .subscribeWithLease h → 0 < newestSubscription h (ops ++ [op]) ∧
          ch.id = Lease.number (2 ^ 64) (newestSubscription h (ops ++ [op])) := by
      intro hid hop
      obtain ⟨ch0, hch0, hid0⟩ := Option.map_eq_some_iff.mp hid
      rw [newestSubscription_concat, if_neg hop, ← hid0]
      exact ih hch0
    rw [dispatched_concat] at hch
    cases op with
    | update state =>
      refine hkeep ?_ (by simp)
      rw [← update_chStore_id hash _ state]
      exact congrArg _ hch
    | triggerWorker hostname experts =>
      refine hkeep ?_ (by simp)
      change ((dispatched hash ops).send hostname experts).chStore[h]? = some ch at hch
      rw [send_chStore, Option.map_eq_some_iff] at hch
      obtain ⟨ch0, hch0, rfl⟩ := hch
      rw [hch0]
      show some ch0.id = some (if _ then _ else ch0 : Subscription).id
      split_ifs <;> rfl
    | subscribeWithLease hostname =>
      change ((dispatched hash ops).chStore.insert hostname
        ⟨wrappingNext (dispatched hash ops).nextSubscriptionId, []⟩)[h]? = some ch at hch
      rw [Maps.getElem?_insert_eq] at hch
      by_cases hh : hostname = h
      · subst hh
        rw [if_pos rfl] at hch
        cases hch
        rw [newestSubscription_concat, if_pos rfl, dispatched_nextSubscriptionId]
        exact ⟨Nat.succ_pos _, wrappingNext_number _⟩
      · rw [if_neg hh] at hch
        refine hkeep (congrArg _ hch) ?_
        rintro ⟨⟩
        exact hh rfl
    | unsubscribeWithLease hostname id =>
      refine hkeep ?_ (by simp)
      change (if _ then _ else _ : DispatcherImpl).chStore[h]? = some ch at hch
      split_ifs at hch with hc
      · change ((dispatched hash ops).chStore.erase hostname)[h]? = some ch at hch
        rw [Maps.getElem?_erase_eq] at hch
        split_ifs at hch
        exact congrArg _ hch
      · exact congrArg _ hch

end

/-! ## no placement change is lost -/

/-- the ids of the experts that the update lists for the worker and that are not scheduled -/
def listedIds (state : List NodeWithExperts) (h : String) : List String :=
  (state.filter fun data => data.node.hostname = h).flatMap fun data =>
    (dispatchable data.experts).map (·.expertId)

/-- the last list sent to the worker has exactly the ids that the update listed for it -/
def LastListExact (d : DispatcherImpl) (state : List NodeWithExperts) (h : String) : Prop :=
  ∃ ch experts, d.chStore[h]? = some ch ∧ ch.sent.getLast? = some experts ∧
    ∀ id, id ∈ experts.map (·.expertId) ↔ id ∈ listedIds state h

/-- a worker that is listed twice has all its ids in the last entry; the hostnames of the table
are unique, so there an update has one entry -/
def LastEntryComplete (state : List NodeWithExperts) (h : String) : Prop :=
  ∀ ids, lastListed ((DispatcherOp.update state).notices h) = some ids →
    ∀ id ∈ listedIds state h, id ∈ ids

theorem mem_listedIds {state : List NodeWithExperts} {h id : String} :
    id ∈ listedIds state h ↔
      ∃ ids, .listed ids ∈ (DispatcherOp.update state).notices h ∧ id ∈ ids := by
  unfold listedIds
  rw [List.mem_flatMap]
  constructor
  · rintro ⟨data, hdata, hid⟩
    rw [List.mem_filter, decide_eq_true_eq] at hdata
    refine ⟨sortedIds (dispatchable data.experts), ?_, mem_sortedIds.mpr hid⟩
    refine List.mem_flatMap.mpr ⟨data, hdata.1, ?_⟩
    rw [nodeNotices, if_pos hdata.2]
    exact List.mem_cons_self
  · rintro ⟨ids, hids, hid⟩
    obtain ⟨data, hdata, hnotice⟩ := List.mem_flatMap.mp hids
    unfold nodeNotices at hnotice
    split_ifs at hnotice with hh
    · cases List.mem_singleton.mp hnotice
      refine ⟨data, ?_, mem_sortedIds.mp hid⟩
      rw [List.mem_filter, decide_eq_true_eq]
      exact ⟨hdata, hh⟩
    · cases hnotice

/-- every notice of an update is a list -/
theorem update_notices_listed {state : List NodeWithExperts} {h : String} {notice : Notice}
    (hn : notice ∈ (DispatcherOp.update state).notices h) : ∃ ids, notice = .listed ids := by
  obtain ⟨data, -, hdata⟩ := List.mem_flatMap.mp hn
  unfold nodeNotices at hdata
  split_ifs at hdata with hh
  · exact ⟨_, List.mem_singleton.mp hdata⟩
  · cases hdata

/-- an update after which the worker is stale repeats one list -/
theorem Stale.repeats {ns us : List Notice} (hus : ∀ n ∈ us, ∃ ids, n = .listed ids)
    (hs : Stale (ns ++ us)) {ids : List String} (hl : lastListed (ns ++ us) = some ids) :
    ∀ n ∈ us, n = .listed ids := by
  obtain ⟨pre, sent, ids', n, hpre, hns, -⟩ := hs
  have hids : ids' = ids := by
    rw [← heard_listed, hns, heard_sent_of_repeated hpre] at hl
    exact Option.some.inj hl
  subst hids
  rcases List.append_eq_append_iff.mp hns with ⟨as, rfl, hus'⟩ | ⟨cs, rfl, hcs⟩
  · obtain ⟨ids, hbad⟩ := hus (.triggered sent) (by rw [hus']; simp)
    cases hbad
  · cases cs with
    | nil =>
      obtain ⟨ids, hbad⟩ := hus (.triggered sent) (by rw [← List.nil_append us, ← hcs]; simp)
      cases hbad
    | cons c cs =>
      intro m hm
      have hmem : m ∈ List.replicate (n + 1) (Notice.listed ids') := by
        rw [(List.cons.inj hcs).2]
        exact List.mem_append_right _ hm
      exact List.eq_of_mem_replicate hmem

theorem lastListed_append_of_mem (ns : List Notice) {us : List Notice}
    (hus : ∀ n ∈ us, ∃ ids, n = .listed ids) (hne : us ≠ []) : ∃ ids us', us = us' ++ [.listed ids] ∧ lastListed us = some ids ∧
      lastListed (ns ++ us) = some ids := by
  obtain ⟨us', n, rfl⟩ := (List.eq_nil_or_concat' us).resolve_left hne
  obtain ⟨ids, rfl⟩ := hus n (by simp)
  refine ⟨ids, us', rfl, lastListed_concat_listed _ _, ?_⟩
  rw [← List.append_assoc, lastListed_concat_listed]

/-- one update: its list reaches the worker exactly when the worker is not stale after it -/
theorem lastListExact_iff {hash : List String → UInt64} {ops : List DispatcherOp}
    {state : List NodeWithExperts} (hfree : CollisionFree hash (ops ++ [.update state]))
    {h : String} (hlisted : ∃ data ∈ state, data.node.hostname = h)
    (hsub : h ∈ (dispatched hash ops).chStore) :
    LastListExact (dispatched hash (ops ++ [.update state])) state h ↔
      LastEntryComplete state h ∧ ¬ Stale (notices h (ops ++ [.update state])) := by
  set us := (DispatcherOp.update state).notices h with husdef
  have hall : ∀ n ∈ us, ∃ ids, n = .listed ids := fun n hn => update_notices_listed hn
  have hne : us ≠ [] := by
    obtain ⟨data, hdata, hh⟩ := hlisted
    refine List.ne_nil_of_mem (a := .listed (sortedIds (dispatchable data.experts))) ?_
    refine List.mem_flatMap.mpr ⟨data, hdata, ?_⟩
    rw [nodeNotices, if_pos hh]
    exact List.mem_cons_self
  have hns : notices h (ops ++ [.update state]) = notices h ops ++ us := notices_concat _ _ _
  obtain ⟨ids, us', hus, hlast, hlast'⟩ := lastListed_append_of_mem (notices h ops) hall hne
  obtain ⟨sent, hsent, hiff⟩ := heard_sent_iff (notices h ops ++ us') ids
  rw [List.append_assoc, ← hus, ← hns] at hsent hiff
  -- the channel is still there, and its last list has the ids `sent`
  obtain ⟨ch, hch, experts, hexperts, hids⟩ : ∃ ch,
      (dispatched hash (ops ++ [.update state])).chStore[h]? = some ch ∧
      ∃ experts, ch.sent.getLast? = some experts ∧ sortedIds experts = sent := by
    obtain ⟨ch0, hch0⟩ := Maps.exists_getElem? hsub
    have hid := update_chStore_id hash (dispatched hash ops) state h
    rw [hch0] at hid
    obtain ⟨ch, hch, -⟩ := Option.map_eq_some_iff.mp hid
    have hch' : (dispatched hash (ops ++ [.update state])).chStore[h]? = some ch := by
      rw [dispatched_concat]
      exact hch
    have ht := (dispatched_tracks hfree h).last ch hch'
    rw [hsent] at ht
    obtain ⟨experts, hexperts, heq⟩ := Option.map_eq_some_iff.mp ht
    exact ⟨ch, hch', experts, hexperts, heq⟩
  have hexact : LastListExact (dispatched hash (ops ++ [.update state])) state h ↔
      ∀ id, id ∈ sent ↔ id ∈ listedIds state h := by
    constructor
    · rintro ⟨ch', experts', hch', hexperts', hall'⟩ id
      rw [hch] at hch'
      cases hch'
      rw [hexperts] at hexperts'
      cases hexperts'
      rw [← hids, mem_sortedIds]
      exact hall' id
    · intro hall'
      refine ⟨ch, experts, hch, hexperts, ?_⟩
      intro id
      rw [← mem_sortedIds, hids]
      exact hall' id
  have hsubset : ∀ id ∈ ids, id ∈ listedIds state h := by
    intro id hid
    refine mem_listedIds.mpr ⟨ids, ?_, hid⟩
    show Notice.listed ids ∈ us
    rw [hus]
    simp
  rw [hexact]
  by_cases hstale : Stale (notices h (ops ++ [.update state]))
  · -- then every entry is the same list, which was not sent
    have hrep := Stale.repeats hall (hns ▸ hstale) hlast'
    have hids' : ∀ id, id ∈ listedIds state h ↔ id ∈ ids := by
      intro id
      refine ⟨?_, hsubset id⟩
      intro hid
      obtain ⟨a, ha, hida⟩ := mem_listedIds.mp hid
      cases hrep _ ha
      exact hida
    constructor
    · intro hsame
      exact absurd (fun id => (hsame id).trans (hids' id)) (fun h' => hiff.mp h' hstale)
    · intro hr
      exact absurd hstale hr.2
  · have hsame := hiff.mpr hstale
    constructor
    · intro hall'
      refine ⟨?_, hstale⟩
      intro a ha id hid
      rw [hlast] at ha
      cases ha
      exact (hsame id).mp ((hall' id).mpr hid)
    · rintro ⟨hcomplete, -⟩ id
      rw [hsame]
      exact ⟨hsubset id, hcomplete ids hlast id⟩

/-- in a run, every update of a subscribed worker leaves it with the list of that update, and no
lease removes a newer subscription than its own -/
def NoChangeLost (hash : List String → UInt64) (ops : List DispatcherOp) : Prop :=
  (∀ pre state rest h, ops = pre ++ .update state :: rest →
    (∃ data ∈ state, data.node.hostname = h) → h ∈ (dispatched hash pre).chStore →
    LastListExact (dispatched hash (pre ++ [.update state])) state h) ∧
  ∀ pre mid rest h, .subscribeWithLease h ∈ mid →
    ops = pre ++ .subscribeWithLease h :: mid ++ .unsubscribeWithLease h
      ((dispatched hash pre).subscribeWithLease h).1 :: rest →
    h ∈ (dispatched hash (pre ++ .subscribeWithLease h :: mid)).chStore →
    h ∈ (dispatched hash (pre ++ .subscribeWithLease h :: mid ++ [.unsubscribeWithLease h
      ((dispatched hash pre).subscribeWithLease h).1])).chStore

/-- no update leaves its worker stale, and no lease number comes back -/
def ChangesKept (hash : List String → UInt64) (ops : List DispatcherOp) : Prop :=
  (∀ pre state rest h, ops = pre ++ .update state :: rest →
    (∃ data ∈ state, data.node.hostname = h) → h ∈ (dispatched hash pre).chStore →
    LastEntryComplete state h ∧ ¬ Stale (notices h (pre ++ [.update state]))) ∧
  ∀ pre mid rest h, .subscribeWithLease h ∈ mid →
    ops = pre ++ .subscribeWithLease h :: mid ++ .unsubscribeWithLease h
      ((dispatched hash pre).subscribeWithLease h).1 :: rest →
    h ∈ (dispatched hash (pre ++ .subscribeWithLease h :: mid)).chStore →
    (subscriptions pre + 1) % (2 ^ 64 - 1) ≠
      newestSubscription h (pre ++ .subscribeWithLease h :: mid) % (2 ^ 64 - 1)

/-- an older lease removes the current channel exactly when the numbers of the two subscriptions
agree in the counter -/
theorem mem_unsubscribe_older_iff (hash : List String → UInt64) (pre ops : List DispatcherOp)
    {h : String} (hsub : h ∈ (dispatched hash ops).chStore) :
    h ∈ (dispatched hash (ops ++ [.unsubscribeWithLease h
        ((dispatched hash pre).subscribeWithLease h).1])).chStore ↔
      (subscriptions pre + 1) % (2 ^ 64 - 1) ≠ newestSubscription h ops % (2 ^ 64 - 1) := by
  obtain ⟨ch, hch⟩ := Maps.exists_getElem? hsub
  obtain ⟨hpos, hid⟩ := dispatched_lease hash ops h hch
  set old := Lease.number (2 ^ 64) (subscriptions pre + 1) with hold
  have holder : ((dispatched hash pre).subscribeWithLease h).1 = old := by
    show wrappingNext (dispatched hash pre).nextSubscriptionId = _
    rw [dispatched_nextSubscriptionId, wrappingNext_number]
  have hlease : ch.id = old ↔
      (subscriptions pre + 1) % (2 ^ 64 - 1) = newestSubscription h ops % (2 ^ 64 - 1) := by
    rw [hid, hold, eq_comm]
    exact Lease.number_eq_iff (Nat.succ_pos (subscriptions pre)) hpos
  rw [holder, dispatched_concat, Ne, ← hlease]
  show h ∈ (if ((dispatched hash ops).chStore[h]?).any (fun ch => ch.id = old) then _ else _ :
    DispatcherImpl).chStore ↔ _
  rw [hch, Option.any_some]
  by_cases heq : ch.id = old
  · rw [if_pos (decide_eq_true heq)]
    show h ∈ (dispatched hash ops).chStore.erase h ↔ _
    simp [heq]
  · rw [if_neg (by simpa using heq)]
    exact iff_of_true hsub heq

theorem CollisionFree.of_append {hash : List String → UInt64} {ops rest : List DispatcherOp}
    (h : CollisionFree hash (ops ++ rest)) : CollisionFree hash ops := by
  intro host
  refine (h host).mono ?_
  intro ids hids
  show Notice.listed ids ∈ notices host (ops ++ rest)
  unfold notices
  rw [List.flatMap_append]
  exact List.mem_append_left _ hids

/-- the dispatcher loses no placement change exactly when no trigger with another set is followed
only by updates that repeat the list from before it -/
theorem no_change_lost_iff (hash : List String → UInt64) (ops : List DispatcherOp)
    (hfree : CollisionFree hash ops) : NoChangeLost hash ops ↔ ChangesKept hash ops := by
  unfold NoChangeLost ChangesKept
  refine and_congr ?_ ?_
  · refine forall_congr' fun pre => forall_congr' fun state => forall_congr' fun rest =>
      forall_congr' fun h => forall_congr' fun hops => forall_congr' fun hlisted =>
      forall_congr' fun hsub => ?_
    have hsplit : ops = (pre ++ [.update state]) ++ rest := by
      rw [hops]
      simp
    exact lastListExact_iff (CollisionFree.of_append (hsplit ▸ hfree)) hlisted hsub
  · refine forall_congr' fun pre => forall_congr' fun mid => forall_congr' fun rest =>
      forall_congr' fun h => forall_congr' fun _ => forall_congr' fun _ =>
      forall_congr' fun hsub => ?_
    exact mem_unsubscribe_older_iff hash pre _ hsub

def lostNode : Node := ⟨1, "worker-0", "cuda", ∅, some 5⟩

/-- the poller lists no expert, recovery places one and triggers, the row is gone at the next poll -/
def lostOps : List DispatcherOp :=
  [.subscribeWithLease "worker-0", .update [⟨lostNode, []⟩],
    .triggerWorker "worker-0" [⟨1, 1, "m/l0-e0", 0, .pending⟩], .update [⟨lostNode, []⟩]]

theorem lostOps_collisionFree (hash : List String → UInt64) : CollisionFree hash lostOps := by
  intro h a ha b hb _
  -- both updates list nothing
  have hempty : ∀ ids, .listed ids ∈ notices h lostOps → ids = [] := by
    intro ids hids
    by_cases hh : "worker-0" = h
    · simpa [notices, lostOps, DispatcherOp.notices, nodeNotices, lostNode, hh, sortedIds,
        dispatchable] using hids
    · simp [notices, lostOps, DispatcherOp.notices, nodeNotices, lostNode, hh] at hids
  rw [hempty a ha, hempty b hb]

/-- recovery triggers the row of an expert, the worker subscribes again, its older lease is given
back, and the next poll lists the row -/
def keptOps : List DispatcherOp :=
  [.subscribeWithLease "worker-0", .update [⟨lostNode, []⟩],
    .triggerWorker "worker-0" [⟨1, 1, "m/l0-e0", 0, .pending⟩], .subscribeWithLease "worker-0",
    .unsubscribeWithLease "worker-0" 1, .update [⟨lostNode, [⟨1, 1, "m/l0-e0", 0, .pending⟩]⟩]]

/-- the number of its ids tells the two lists apart -/
theorem keptOps_collisionFree : CollisionFree (fun ids => UInt64.ofNat ids.length) keptOps := by
  have hlists : ∀ h ids, .listed ids ∈ notices h keptOps → ids = [] ∨ ids = ["m/l0-e0"] := by
    intro h ids hids
    by_cases hh : "worker-0" = h
    · simpa [notices, keptOps, DispatcherOp.notices, nodeNotices, lostNode, hh, sortedIds,
        dispatchable] using hids
    · simp [notices, keptOps, DispatcherOp.notices, nodeNotices, lostNode, hh] at hids
  intro h a ha b hb heq
  rcases hlists h a ha with rfl | rfl <;> rcases hlists h b hb with rfl | rfl
  · rfl
  · exact absurd heq (by decide)
  · exact absurd heq (by decide)
  · rfl

/-- a split of a list at one of its elements -/
theorem split_at {ops pre rest : List DispatcherOp} {op : DispatcherOp}
    (h : ops = pre ++ op :: rest) :
    pre = ops.take pre.length ∧ ops[pre.length]? = some op := by
  subst h
  simp

/-- the only entry of an update has all ids that the update lists -/
theorem lastEntryComplete_singleton (data : NodeWithExperts) (h : String) :
    LastEntryComplete [data] h := by
  intro ids hlast id hid
  obtain ⟨ids', hids', hmem⟩ := mem_listedIds.mp hid
  have hnotices : (DispatcherOp.update [data]).notices h = nodeNotices h data :=
    List.flatMap_singleton _ _
  rw [hnotices] at hids' hlast
  unfold nodeNotices at hids' hlast
  split_ifs at hids' hlast
  · cases List.mem_singleton.mp hids'
    cases hlast
    exact hmem
  · cases hids'

theorem not_stale_of_sent {ns : List Notice} {ids : List String}
    (h : (heard (ns ++ [.listed ids])).sent = some ids) : ¬ Stale (ns ++ [.listed ids]) := by
  obtain ⟨sent, hsent, hsame⟩ := heard_sent_iff ns ids
  rw [h] at hsent
  cases hsent
  exact hsame.mp fun _ => Iff.rfl

theorem keptOps_kept (hash : List String → UInt64) : ChangesKept hash keptOps := by
  have hfirst : ¬ Stale (notices "worker-0" (keptOps.take 2)) := by
    have hnotices : notices "worker-0" (keptOps.take 2) = [.subscribed] ++ [.listed []] := by
      decide +kernel
    rw [hnotices]
    exact not_stale_of_sent rfl
  have hlast : ¬ Stale (notices "worker-0" (keptOps.take 6)) := by
    have hnotices : notices "worker-0" (keptOps.take 6) = [.subscribed, .listed [],
        .triggered ["m/l0-e0"], .subscribed] ++ [.listed ["m/l0-e0"]] := by
      decide +kernel
    rw [hnotices]
    exact not_stale_of_sent rfl
  constructor
  · intro pre state rest h hops hlisted _
    obtain ⟨hpre, hop⟩ := split_at hops
    have hlt : pre.length < 6 := (List.getElem?_eq_some_iff.mp hop).1
    obtain ⟨data, hdata, hhost⟩ := hlisted
    -- the updates are the second and the last operation
    interval_cases hlength : pre.length <;> simp [keptOps] at hop
    · subst hop
      cases List.mem_singleton.mp hdata
      subst hhost
      rw [hpre]
      exact ⟨lastEntryComplete_singleton _ _, hfirst⟩
    · subst hop
      cases List.mem_singleton.mp hdata
      subst hhost
      rw [hpre]
      exact ⟨lastEntryComplete_singleton _ _, hlast⟩
  · intro pre mid rest h hmid hops _
    obtain ⟨hpre, hop⟩ := split_at hops
    have hlt : (pre ++ .subscribeWithLease h :: mid).length < 6 :=
      (List.getElem?_eq_some_iff.mp hop).1
    -- only the fifth operation gives a lease back
    have hlength : (pre ++ .subscribeWithLease h :: mid).length = 4 := by
      interval_cases hlength : (pre ++ .subscribeWithLease h :: mid).length <;>
        simp [keptOps] at hop
      rfl
    rw [hlength] at hpre
    obtain ⟨hpre', hop'⟩ := split_at hpre.symm
    have hsum : pre.length + mid.length = 3 := by
      rw [List.length_append, List.length_cons] at hlength
      omega
    have hpos := List.length_pos_of_mem hmid
    have hlt' : pre.length < 3 := by omega
    -- and before it only the first one subscribes with a later subscription behind it
    interval_cases hzero : pre.length <;> simp [keptOps] at hop'
    subst hop'
    rw [hpre, hpre']
    decide +kernel

theorem no_change_lost_iff_lostOps :
    CollisionFree (fun ids => UInt64.ofNat ids.length) lostOps ∧
      (NoChangeLost (fun ids => UInt64.ofNat ids.length) lostOps ↔
        ChangesKept (fun ids => UInt64.ofNat ids.length) lostOps) ∧
    CollisionFree (fun ids => UInt64.ofNat ids.length) keptOps ∧
      NoChangeLost (fun ids => UInt64.ofNat ids.length) keptOps :=
  ⟨lostOps_collisionFree _, no_change_lost_iff _ _ (lostOps_collisionFree _), keptOps_collisionFree,
    (no_change_lost_iff _ _ keptOps_collisionFree).mpr (keptOps_kept _)⟩

/-- the second update is not sent, and the worker keeps the list of the trigger -/
theorem placement_change_lost :
    CollisionFree (fun ids => UInt64.ofNat ids.length) lostOps ∧
      ¬ NoChangeLost (fun ids => UInt64.ofNat ids.length) lostOps := by
  refine ⟨lostOps_collisionFree _, ?_⟩
  intro h
  have hlast := h.1 (lostOps.take 3) [⟨lostNode, []⟩] [] "worker-0" rfl
    ⟨⟨lostNode, []⟩, List.mem_cons_self, rfl⟩ (by decide +kernel)
  obtain ⟨ch, experts, hch, hexperts, hids⟩ := hlast
  have hch' : (dispatched (fun ids => UInt64.ofNat ids.length)
      (lostOps.take 3 ++ [.update [⟨lostNode, []⟩]])).chStore["worker-0"]? =
        some ⟨1, [[], [⟨1, 1, "m/l0-e0", 0, .pending⟩]]⟩ := by
    decide +kernel
  rw [hch'] at hch
  cases hch
  cases hexperts
  have hbad : "m/l0-e0" ∈ listedIds [⟨lostNode, []⟩] "worker-0" := (hids "m/l0-e0").mp (by simp)
  exact absurd hbad (by decide +kernel)

end ExpertKit.Elastic

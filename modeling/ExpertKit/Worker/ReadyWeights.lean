import ExpertKit.Lib.Steps
import ExpertKit.Lib.Ledger

/-!
# Worker: the ready-weight table

`ek-worker/src/expertkit_worker/weights/ready.py`.  Threads share one table; every method runs in
one section of the table's condition, a blocking `finish_withdrawal` waits for the users of the
entry it has found, and a lease is released under its own close lock.  Entries are objects with an
identity: a table position holds the number of its entry.

* `ReadyWeightTable`, `publish`, `acquireMany`, `beginWithdrawal`, `withdrawn`, `close`   the code;
* `adjust`, `adjust_getElem?`   one pass over the entries of a lease;
* `Inv`, `Inv.step`             counts, leases and positions agree, and every step keeps it;
* `unavailable_step`            a withdrawing position stays unavailable until it is published;
* `ready_weight_leases`         the leases of all runs.
-/

set_option linter.unusedSectionVars false

namespace ExpertKit.Worker.ReadyWeights

structure Position where
  layerId : Int
  expertId : Int
deriving DecidableEq, Repr

inductive ReadyError where
  | value (diagnostic : String)
  | runtime (diagnostic : String)
  | notReady (expertIds : List Int)
  | timeout
deriving DecidableEq, Repr

structure ReadyEntry (T : Type) where
  value : T
  accepting : Bool
  useCount : Int

structure ReadyWeightLease (T : Type) where
  layerId : Int
  expertIds : List Int
  objects : List T
  entries : List Nat
  closed : Bool
deriving DecidableEq

/-- a call of `finish_withdrawal` that waits for the users of its entry -/
structure Withdrawal where
  position : Position
  entry : Nat
  ended : Bool
deriving DecidableEq, Repr

/-- `heap` holds every entry ever made, `table` the current entry of each position -/
structure ReadyWeightTable (T : Type) where
  numLayers : Int
  expertsPerLayer : Int
  heap : List (ReadyEntry T)
  table : Position → Option Nat
  leases : List (ReadyWeightLease T)
  withdrawals : List Withdrawal

section
variable {T : Type}

namespace ReadyWeightTable

def new (numLayers expertsPerLayer : Int) : ReadyWeightTable T :=
  ⟨numLayers, expertsPerLayer, [], fun _ => none, [], []⟩

/-! ## validation -/

def validateLayer (s : ReadyWeightTable T) (layerId : Int) : Except ReadyError Unit :=
  if 0 ≤ layerId ∧ layerId < s.numLayers then .ok ()
  else .error (.value "layer_id exceeds the ready weight table")

def validateExpert (s : ReadyWeightTable T) (expertId : Int) : Except ReadyError Unit :=
  if 0 ≤ expertId ∧ expertId < s.expertsPerLayer then .ok ()
  else .error (.value "expert_id exceeds the ready weight table")

def validatePosition (s : ReadyWeightTable T) (p : Position) : Except ReadyError Unit :=
  match s.validateLayer p.layerId with
  | .error e => .error e
  | .ok _ => s.validateExpert p.expertId

/-- the loop of `_validate_expert_list` -/
def validateExperts (s : ReadyWeightTable T) (previous : Int) : List Int → Except ReadyError Unit
  | [] => .ok ()
  | expertId :: rest =>
    match s.validateExpert expertId with
    | .error e => .error e
    | .ok _ =>
      if expertId ≤ previous then
        .error (.value "distinct_expert_ids must be sorted with no duplicates")
      else s.validateExperts expertId rest

def validateExpertList (s : ReadyWeightTable T) (layerId : Int) (expertIds : List Int) :
    Except ReadyError Unit :=
  match s.validateLayer layerId with
  | .error e => .error e
  | .ok _ => s.validateExperts (-1) expertIds

/-! ## the methods -/

/-- the current entry of a position -/
def entry (s : ReadyWeightTable T) (p : Position) : Option (Nat × ReadyEntry T) :=
  (s.table p).bind fun id => (s.heap[id]?).map fun e => (id, e)

/-- `None` is not a value -/
def publish (s : ReadyWeightTable T) (p : Position) (value : Option T) :
    Except ReadyError Unit × ReadyWeightTable T :=
  match s.validatePosition p with
  | .error e => (.error e, s)
  | .ok _ =>
    match value with
    | none => (.error (.value "ready weight value must not be None"), s)
    | some value =>
      if (s.table p).isSome then
        (.error (.runtime "ready weight position is already occupied"), s)
      else (.ok (), { s with
        heap := s.heap ++ [⟨value, true, 0⟩]
        table := Function.update s.table p (some s.heap.length) })

/-- `usage_count` past its validation -/
def usageCount (s : ReadyWeightTable T) (p : Position) : Int :=
  match s.entry p with
  | none => 0
  | some (_, e) => e.useCount

/-- missing or withdrawing -/
def unavailable (s : ReadyWeightTable T) (p : Position) : Bool :=
  match s.entry p with
  | none => true
  | some (_, e) => !e.accepting

/-- add `delta` to the count of each of these entries -/
def adjust (delta : Int) (heap : List (ReadyEntry T)) (ids : List Nat) : List (ReadyEntry T) :=
  ids.foldl (fun heap id => heap.modify id fun e => { e with useCount := e.useCount + delta }) heap

def acquireMany (s : ReadyWeightTable T) (layerId : Int) (expertIds : List Int) :
    Except ReadyError (ReadyWeightLease T) × ReadyWeightTable T :=
  match s.validateExpertList layerId expertIds with
  | .error e => (.error e, s)
  | .ok _ =>
    let missing := expertIds.filter fun expertId => s.unavailable ⟨layerId, expertId⟩
    if !missing.isEmpty then (.error (.notReady missing), s)
    else
      let retained := expertIds.filterMap fun expertId => s.entry ⟨layerId, expertId⟩
      let lease : ReadyWeightLease T :=
        ⟨layerId, expertIds, retained.map fun e => e.2.value, retained.map Prod.fst, false⟩
      (.ok lease, { s with
        heap := adjust 1 s.heap lease.entries, leases := s.leases ++ [lease] })

def beginWithdrawal (s : ReadyWeightTable T) (p : Position) :
    Except ReadyError Unit × ReadyWeightTable T :=
  match s.validatePosition p with
  | .error e => (.error e, s)
  | .ok _ =>
    match s.entry p with
    | none => (.error (.notReady [p.expertId]), s)
    | some (id, _) =>
      (.ok (), { s with heap := s.heap.modify id fun e => { e with accepting := false } })

/-- `finish_withdrawal` up to its wait -/
def finishWithdrawal (s : ReadyWeightTable T) (p : Position) (negativeTimeout : Bool) :
    Except ReadyError Unit × ReadyWeightTable T :=
  match s.validatePosition p with
  | .error e => (.error e, s)
  | .ok _ =>
    if negativeTimeout then (.error (.value "timeout must be nonnegative"), s)
    else
      match s.entry p with
      | none => (.error (.notReady [p.expertId]), s)
      | some (id, e) =>
        if e.accepting then
          (.error (.runtime "begin_withdrawal must run before finish_withdrawal"), s)
        else (.ok (), { s with withdrawals := s.withdrawals ++ [⟨p, id, false⟩] })

def endWithdrawal (s : ReadyWeightTable T) (i : Nat) (w : Withdrawal) : ReadyWeightTable T :=
  { s with withdrawals := s.withdrawals.set i { w with ended := true } }

/-- the wait of `finish_withdrawal` ends because the entry has no users -/
def withdrawn (s : ReadyWeightTable T) (i : Nat) (w : Withdrawal) (e : ReadyEntry T) :
    Except ReadyError T × ReadyWeightTable T :=
  if s.table w.position ≠ some w.entry then
    (.error (.runtime "ready weight position changed during withdrawal"), s.endWithdrawal i w)
  else
    (.ok e.value, { s.endWithdrawal i w with table := Function.update s.table w.position none })

/-- `_release` -/
def release (s : ReadyWeightTable T) (lease : ReadyWeightLease T) :
    Except ReadyError Unit × ReadyWeightTable T :=
  let retained := lease.expertIds.zip lease.entries
  match retained.findSome? fun r =>
      if s.table ⟨lease.layerId, r.1⟩ ≠ some r.2 then
        some "retained ready weight changed before release"
      else if ((s.heap[r.2]?).map fun e => decide (e.useCount ≤ 0)).getD true then
        some "ready weight usage count underflow"
      else none with
  | some diagnostic => (.error (.runtime diagnostic), s)
  | none => (.ok (), { s with heap := adjust (-1) s.heap lease.entries })

/-- `close` of the lease with number `i` -/
def close (s : ReadyWeightTable T) (i : Nat) (lease : ReadyWeightLease T) :
    Except ReadyError Unit × ReadyWeightTable T :=
  if lease.closed then (.ok (), s)
  else
    match s.release lease with
    | (.error e, s) => (.error e, s)
    | (.ok _, s) => (.ok (), { s with leases := s.leases.set i { lease with closed := true } })

end ReadyWeightTable

inductive Op (T : Type) where
  | publish (p : Position) (value : Option T)
  | acquireMany (layerId : Int) (expertIds : List Int)
  | beginWithdrawal (p : Position)
  | finishWithdrawal (p : Position) (negativeTimeout : Bool)
  /-- the wait of a call of `finish_withdrawal` ends, with or without users left -/
  | withdrawn (call : Nat)
  | timedOut (call : Nat)
  | close (lease : Nat)

namespace ReadyWeightTable

def step (s : ReadyWeightTable T) : Op T → Option (ReadyWeightTable T)
  | .publish p value => some (s.publish p value).2
  | .acquireMany layerId expertIds => some (s.acquireMany layerId expertIds).2
  | .beginWithdrawal p => some (s.beginWithdrawal p).2
  | .finishWithdrawal p negativeTimeout => some (s.finishWithdrawal p negativeTimeout).2
  | .withdrawn i =>
    (s.withdrawals[i]?).bind fun w => (s.heap[w.entry]?).bind fun e =>
      if w.ended ∨ e.useCount ≠ 0 then none else some (s.withdrawn i w e).2
  | .timedOut i =>
    (s.withdrawals[i]?).bind fun w => (s.heap[w.entry]?).bind fun e =>
      if w.ended ∨ e.useCount = 0 then none else some (s.endWithdrawal i w)
  | .close i => (s.leases[i]?).map fun lease => (s.close i lease).2

def run (s : ReadyWeightTable T) (ops : List (Op T)) : Option (ReadyWeightTable T) :=
  Steps.run step (fun _ _ => true) s ops

/-! ## the entries of a lease -/

theorem adjust_getElem? (delta : Int) (heap : List (ReadyEntry T)) (ids : List Nat) (j : Nat) :
    (adjust delta heap ids)[j]?
      = (heap[j]?).map fun e => { e with useCount := e.useCount + delta * ids.count j } := by
  unfold adjust
  induction ids generalizing heap with
  | nil =>
    rw [List.foldl_nil]
    generalize heap[j]? = o
    cases o <;> simp
  | cons id ids ih =>
    rw [List.foldl_cons, ih, List.getElem?_modify, List.count_cons]
    generalize heap[j]? = o
    by_cases hid : id = j
    · cases o with
      | none => rfl
      | some e =>
        simp only [hid, if_true, beq_self_eq_true, Option.map_eq_map, Option.map_some,
          Option.some.injEq, ReadyEntry.mk.injEq, true_and]
        push_cast
        ring
    · cases o with
      | none => rfl
      | some e => simp [hid]

theorem adjust_length (delta : Int) (heap : List (ReadyEntry T)) (ids : List Nat) :
    (adjust delta heap ids).length = heap.length := by
  unfold adjust
  induction ids generalizing heap with
  | nil => rfl
  | cons id ids ih => rw [List.foldl_cons, ih, List.length_modify]

theorem validateExperts_sorted {s : ReadyWeightTable T} {previous : Int} {expertIds : List Int}
    (h : s.validateExperts previous expertIds = .ok ()) :
    (previous :: expertIds).Pairwise (· < ·) := by
  induction expertIds generalizing previous with
  | nil => exact List.pairwise_singleton _ _
  | cons e rest ih =>
    unfold validateExperts at h
    split at h
    · cases h
    · split_ifs at h with hle
      have hrest := ih h
      refine List.pairwise_cons.mpr ⟨?_, hrest⟩
      intro a ha
      rcases List.mem_cons.mp ha with rfl | ha
      · omega
      · have hea := (List.pairwise_cons.mp hrest).1 a ha
        omega

theorem validateExpertList_nodup {s : ReadyWeightTable T} {layerId : Int} {expertIds : List Int}
    (h : s.validateExpertList layerId expertIds = .ok ()) : expertIds.Nodup := by
  unfold validateExpertList at h
  split at h
  · cases h
  · exact (List.pairwise_cons.mp (validateExperts_sorted h)).2.imp fun hlt => Int.ne_of_lt hlt

/-! ## the invariant -/

/-- how many leases that are not closed name the position -/
def users (leases : List (ReadyWeightLease T)) (p : Position) : Nat :=
  leases.countP fun l => !l.closed && decide (l.layerId = p.layerId ∧ p.expertId ∈ l.expertIds)

/-- the identity and the value of the current entry of a position -/
def current (s : ReadyWeightTable T) (p : Position) : Option (Nat × T) :=
  (s.entry p).map fun r => (r.1, r.2.value)

/-- the lease holds the current entry, and its value, of every position it names -/
def Holds (s : ReadyWeightTable T) (l : ReadyWeightLease T) : Prop :=
  l.expertIds.map (fun e => s.current ⟨l.layerId, e⟩) = (l.entries.zip l.objects).map some ∧
    l.entries.length = l.objects.length

structure Inv (s : ReadyWeightTable T) : Prop where
  allocated : ∀ p id, s.table p = some id → id < s.heap.length
  injective : ∀ p p' id, s.table p = some id → s.table p' = some id → p = p'
  sorted : ∀ l ∈ s.leases, l.expertIds.Nodup
  holds : ∀ l ∈ s.leases, l.closed = false → s.Holds l
  counts : ∀ p id e, s.entry p = some (id, e) → e.useCount = users s.leases p
  withdrawing : ∀ w ∈ s.withdrawals, w.ended = false → w.entry < s.heap.length

theorem new_inv (numLayers expertsPerLayer : Int) :
    (new numLayers expertsPerLayer : ReadyWeightTable T).Inv where
  allocated := by simp [new]
  injective := by simp [new]
  sorted := by simp [new]
  holds := by simp [new]
  counts := by simp [new, entry]
  withdrawing := by simp [new]

theorem entry_iff {s : ReadyWeightTable T} {p : Position} {id : Nat} {e : ReadyEntry T} :
    s.entry p = some (id, e) ↔ s.table p = some id ∧ s.heap[id]? = some e := by
  unfold entry
  constructor
  · intro h
    obtain ⟨id', hid, hmap⟩ := Option.bind_eq_some_iff.mp h
    obtain ⟨e', he, heq⟩ := Option.map_eq_some_iff.mp hmap
    cases heq
    exact ⟨hid, he⟩
  · rintro ⟨hid, he⟩
    rw [hid, Option.bind_some, he]
    rfl

theorem Inv.entry_of_table {s : ReadyWeightTable T} (h : s.Inv) {p : Position} {id : Nat}
    (hp : s.table p = some id) : ∃ e, s.entry p = some (id, e) :=
  ⟨_, entry_iff.mpr ⟨hp, List.getElem?_eq_getElem (h.allocated p id hp)⟩⟩

/-- the current entry of a position occurs in a lease as often as the lease names the position -/
theorem Inv.count_entries {s : ReadyWeightTable T} (h : s.Inv) {l : ReadyWeightLease T}
    (hnodup : l.expertIds.Nodup) (hholds : s.Holds l) {p : Position} {id : Nat}
    (hp : s.table p = some id) :
    l.entries.count id = if l.layerId = p.layerId ∧ p.expertId ∈ l.expertIds then 1 else 0 := by
  obtain ⟨hmap, hlen⟩ := hholds
  -- the entries are those of the positions, in order
  have hentries : l.expertIds.map (fun e => s.table ⟨l.layerId, e⟩) = l.entries.map some := by
    have hfst := congrArg (List.map fun o : Option (Nat × T) => o.map Prod.fst) hmap
    rw [List.map_map, List.map_map] at hfst
    have hzip : (l.entries.zip l.objects).map Prod.fst = l.entries :=
      List.map_fst_zip (by omega)
    rw [← hzip, List.map_map]
    refine Eq.trans (List.map_congr_left fun e he => ?_) (hfst.trans rfl)
    simp only [Function.comp_apply]
    cases ht : s.table ⟨l.layerId, e⟩ with
    | none => simp [current, entry, ht]
    | some id' =>
      obtain ⟨e', hentry⟩ := h.entry_of_table ht
      unfold current
      rw [hentry]
      rfl
  have hcount : l.entries.count id = (l.entries.map some).count (some id) := by
    rw [List.count_map_of_injective _ _ (Option.some_injective _)]
  rw [hcount, ← hentries, List.count_eq_countP, List.countP_map]
  by_cases hlayer : l.layerId = p.layerId
  · have hsame : ∀ e ∈ l.expertIds, ((fun o => o == some id) ∘ fun e =>
        s.table ⟨l.layerId, e⟩) e = true ↔ (e == p.expertId) = true := by
      intro e _
      simp only [Function.comp_apply, beq_iff_eq]
      constructor
      · intro he
        rw [← h.injective _ _ _ he hp]
      · rintro rfl
        rw [hlayer]
        exact hp
    rw [List.countP_congr hsame, ← List.count_eq_countP]
    by_cases hmem : p.expertId ∈ l.expertIds
    · rw [if_pos ⟨hlayer, hmem⟩, List.count_eq_one_of_mem hnodup hmem]
    · rw [if_neg fun hc => hmem hc.2, List.count_eq_zero_of_not_mem hmem]
  · rw [if_neg fun hc => hlayer hc.1, List.countP_eq_zero]
    intro e _ he
    simp only [Function.comp_apply, beq_iff_eq] at he
    exact hlayer (congrArg Position.layerId (h.injective _ _ _ he hp))

theorem Holds.named {s : ReadyWeightTable T} {l : ReadyWeightLease T} (h : s.Holds l) {e : Int}
    (he : e ∈ l.expertIds) : ∃ r, s.current ⟨l.layerId, e⟩ = some r := by
  have hmem : s.current ⟨l.layerId, e⟩ ∈ (l.entries.zip l.objects).map some := by
    rw [← h.1]
    exact List.mem_map.mpr ⟨e, he, rfl⟩
  obtain ⟨r, _, hr⟩ := List.mem_map.mp hmem
  exact ⟨r, hr.symm⟩

theorem Holds.congr {s s' : ReadyWeightTable T} {l : ReadyWeightLease T} (h : s.Holds l)
    (hsame : ∀ e ∈ l.expertIds, s'.current ⟨l.layerId, e⟩ = s.current ⟨l.layerId, e⟩) :
    s'.Holds l := by
  refine ⟨?_, h.2⟩
  rw [← h.1]
  exact List.map_congr_left hsame

theorem table_of_current {s : ReadyWeightTable T} {p : Position} {r : Nat × T}
    (h : s.current p = some r) : s.table p = some r.1 := by
  obtain ⟨⟨id, e⟩, hentry, rfl⟩ := Option.map_eq_some_iff.mp h
  exact (entry_iff.mp hentry).1

/-- a lease that is not closed names occupied positions only -/
theorem Inv.table_of_users {s : ReadyWeightTable T} (h : s.Inv) {p : Position}
    (hu : 0 < users s.leases p) : ∃ id, s.table p = some id := by
  obtain ⟨l, hl, hp⟩ := List.countP_pos_iff.mp hu
  obtain ⟨hopen, hnames⟩ := Bool.and_eq_true_iff.mp hp
  obtain ⟨hlayer, hexpert⟩ := of_decide_eq_true hnames
  obtain ⟨r, hr⟩ := (h.holds l hl (by simpa using hopen)).named hexpert
  rw [hlayer] at hr
  exact ⟨r.1, table_of_current hr⟩

theorem users_pos {leases : List (ReadyWeightLease T)} {l : ReadyWeightLease T} (hl : l ∈ leases)
    (hopen : l.closed = false) {e : Int} (he : e ∈ l.expertIds) :
    0 < users leases ⟨l.layerId, e⟩ :=
  List.countP_pos_iff.mpr ⟨l, hl, by simp [hopen, he]⟩

/-! ## what the methods do to the entries -/

/-- a change of the counts or of the acceptance of entries leaves their identities and values -/
theorem current_of_heap {s t : ReadyWeightTable T} (htable : t.table = s.table)
    (hheap : ∀ id : Nat, (t.heap[id]?).map ReadyEntry.value = (s.heap[id]?).map ReadyEntry.value)
    (p : Position) : t.current p = s.current p := by
  unfold current entry
  rw [htable]
  cases s.table p with
  | none => rfl
  | some id =>
    have hid := hheap id
    simp only [Option.bind_some]
    cases h1 : t.heap[id]? <;> cases h2 : s.heap[id]? <;> simp_all

theorem adjust_same {β : Type} (delta : Int) (heap : List (ReadyEntry T)) (ids : List Nat)
    (g : ReadyEntry T → β) (hg : ∀ e n, g { e with useCount := n } = g e) (id : Nat) :
    ((adjust delta heap ids)[id]?).map g = (heap[id]?).map g := by
  rw [adjust_getElem?, Option.map_map]
  generalize heap[id]? = o
  cases o with
  | none => rfl
  | some e => simp [hg]

theorem publish_cases (s : ReadyWeightTable T) (p : Position) (value : Option T) :
    (∃ e, s.publish p value = (.error e, s)) ∨
      ∃ v, value = some v ∧ s.table p = none ∧ s.publish p value = (.ok (), { s with
        heap := s.heap ++ [⟨v, true, 0⟩]
        table := Function.update s.table p (some s.heap.length) }) := by
  unfold publish
  split
  · exact .inl ⟨_, rfl⟩
  · split
    · exact .inl ⟨_, rfl⟩
    · rename_i v
      split_ifs with hsome
      · exact .inl ⟨_, rfl⟩
      · exact .inr ⟨v, rfl, by simpa using hsome, rfl⟩

theorem Inv.published {s : ReadyWeightTable T} (h : s.Inv) {p : Position} (hp : s.table p = none)
    (v : T) :
    ({ s with
        heap := s.heap ++ [⟨v, true, 0⟩]
        table := Function.update s.table p (some s.heap.length) } : ReadyWeightTable T).Inv := by
  have hnew : ∀ q id, s.table q = some id → q ≠ p ∧ id < s.heap.length := by
    intro q id hq
    refine ⟨?_, h.allocated q id hq⟩
    rintro rfl
    rw [hp] at hq
    cases hq
  refine ⟨?_, ?_, h.sorted, ?_, ?_, ?_⟩
  · intro q id hq
    simp only [List.length_append, List.length_singleton] at hq ⊢
    by_cases hqp : q = p
    · rw [hqp, Function.update_self] at hq
      cases hq
      exact Nat.lt_succ_self _
    · rw [Function.update_of_ne hqp] at hq
      exact Nat.lt_succ_of_lt (h.allocated q id hq)
  · intro q q' id hq hq'
    simp only at hq hq'
    by_cases hqp : q = p
    · by_cases hqp' : q' = p
      · rw [hqp, hqp']
      · rw [hqp, Function.update_self] at hq
        rw [Function.update_of_ne hqp'] at hq'
        cases hq
        exact absurd (h.allocated q' _ hq') (Nat.lt_irrefl _)
    · by_cases hqp' : q' = p
      · rw [hqp', Function.update_self] at hq'
        rw [Function.update_of_ne hqp] at hq
        cases hq'
        exact absurd (h.allocated q _ hq) (Nat.lt_irrefl _)
      · rw [Function.update_of_ne hqp] at hq
        rw [Function.update_of_ne hqp'] at hq'
        exact h.injective q q' id hq hq'
  · intro l hl hopen
    refine (h.holds l hl hopen).congr fun e he => ?_
    obtain ⟨r, hr⟩ := (h.holds l hl hopen).named he
    obtain ⟨hne, hlt⟩ := hnew _ _ (table_of_current hr)
    unfold current entry
    simp only
    rw [Function.update_of_ne hne, table_of_current hr, Option.bind_some, Option.bind_some,
      List.getElem?_append_left hlt]
  · intro q id e hq
    obtain ⟨htable, hheap⟩ := entry_iff.mp hq
    simp only at htable hheap
    by_cases hqp : q = p
    · rw [hqp, Function.update_self] at htable
      cases htable
      rw [List.getElem?_append_right (Nat.le_refl _), Nat.sub_self] at hheap
      cases hheap
      have hnone : users s.leases p = 0 := by
        by_contra hne
        obtain ⟨id, hid⟩ := h.table_of_users (Nat.pos_of_ne_zero hne)
        rw [hp] at hid
        cases hid
      rw [hqp, hnone]
      rfl
    · rw [Function.update_of_ne hqp] at htable
      rw [List.getElem?_append_left (h.allocated q id htable)] at hheap
      exact h.counts q id e (entry_iff.mpr ⟨htable, hheap⟩)
  · intro w hw hended
    simp only [List.length_append, List.length_singleton]
    exact Nat.lt_succ_of_lt (h.withdrawing w hw hended)

theorem acquireMany_cases (s : ReadyWeightTable T) (layerId : Int) (expertIds : List Int) :
    (∃ e, s.validateExpertList layerId expertIds = .error e ∧
        s.acquireMany layerId expertIds = (.error e, s)) ∨
      (s.validateExpertList layerId expertIds = .ok () ∧
        (∃ e ∈ expertIds, s.unavailable ⟨layerId, e⟩ = true) ∧
        s.acquireMany layerId expertIds = (.error (.notReady
          (expertIds.filter fun e => s.unavailable ⟨layerId, e⟩)), s)) ∨
      ∃ lease, expertIds.Nodup ∧ lease.layerId = layerId ∧ lease.expertIds = expertIds ∧
        lease.closed = false ∧ s.Holds lease ∧
        (∀ e ∈ expertIds, s.unavailable ⟨layerId, e⟩ = false) ∧
        s.acquireMany layerId expertIds = (.ok lease, { s with
          heap := adjust 1 s.heap lease.entries, leases := s.leases ++ [lease] }) := by
  unfold acquireMany
  split
  · rename_i e hvalid
    exact .inl ⟨e, hvalid, rfl⟩
  · rename_i hvalid
    have hnodup := validateExpertList_nodup hvalid
    refine .inr ?_
    by_cases hmissing : (expertIds.filter fun e => s.unavailable ⟨layerId, e⟩) = []
    · right
      have hall : ∀ e ∈ expertIds, s.unavailable ⟨layerId, e⟩ = false := by
        intro e he
        have hnone := List.filter_eq_nil_iff.mp hmissing e he
        simpa using hnone
      simp only [hmissing, List.isEmpty_nil, Bool.not_true, Bool.false_eq_true, if_false]
      refine ⟨_, hnodup, rfl, rfl, rfl, ⟨?_, by simp⟩, hall, rfl⟩
      -- every position has an entry, so none is left out
      have hentry : (expertIds.filterMap fun e => s.entry ⟨layerId, e⟩).map some
          = expertIds.map fun e => s.entry ⟨layerId, e⟩ := by
        clear hnodup hmissing hvalid
        induction expertIds with
        | nil => rfl
        | cons e rest ih =>
          have hrest := ih fun a ha => hall a (List.mem_cons_of_mem _ ha)
          have he := hall e List.mem_cons_self
          unfold unavailable at he
          cases hsome : s.entry ⟨layerId, e⟩ with
          | none =>
            rw [hsome] at he
            cases he
          | some r => simp only [List.filterMap_cons, hsome, List.map_cons, hrest]
      simp only
      rw [List.zip_map', List.map_map]
      unfold current
      have hmap := congrArg (List.map (Option.map fun r : Nat × ReadyEntry T => (r.1, r.2.value)))
        hentry
      rw [List.map_map, List.map_map] at hmap
      exact hmap.symm
    · left
      obtain ⟨e, he⟩ := List.exists_mem_of_ne_nil _ hmissing
      obtain ⟨hmem, hun⟩ := List.mem_filter.mp he
      refine ⟨hvalid, ⟨e, hmem, hun⟩, ?_⟩
      simp [hmissing]

theorem Inv.acquired {s : ReadyWeightTable T} (h : s.Inv) {lease : ReadyWeightLease T}
    (hnodup : lease.expertIds.Nodup) (hopen : lease.closed = false) (hholds : s.Holds lease) :
    ({ s with
        heap := adjust 1 s.heap lease.entries
        leases := s.leases ++ [lease] } : ReadyWeightTable T).Inv := by
  have hcurrent := current_of_heap (s := s) (t := { s with
    heap := adjust 1 s.heap lease.entries, leases := s.leases ++ [lease] }) rfl
    (adjust_same 1 s.heap lease.entries _ fun _ _ => rfl)
  refine ⟨?_, h.injective, ?_, ?_, ?_, ?_⟩
  · intro p id hp
    simp only
    rw [adjust_length]
    exact h.allocated p id hp
  · intro l hl
    rcases List.mem_append.mp hl with hl | hl
    · exact h.sorted l hl
    · rw [List.mem_singleton.mp hl]
      exact hnodup
  · intro l hl hclosed
    refine Holds.congr (s := s) ?_ fun e _ => hcurrent _
    rcases List.mem_append.mp hl with hl | hl
    · exact h.holds l hl hclosed
    · rw [List.mem_singleton.mp hl]
      exact hholds
  · intro p id e hp
    obtain ⟨htable, hheap⟩ := entry_iff.mp hp
    simp only at htable hheap
    rw [adjust_getElem?] at hheap
    obtain ⟨e0, he0, rfl⟩ := Option.map_eq_some_iff.mp hheap
    have hcount := h.counts p id e0 (entry_iff.mpr ⟨htable, he0⟩)
    have hnames := h.count_entries hnodup hholds htable
    simp only
    unfold users at hcount ⊢
    rw [List.countP_append, hcount, hnames]
    by_cases hp' : lease.layerId = p.layerId ∧ p.expertId ∈ lease.expertIds
    · rw [if_pos hp']
      simp [hopen, hp']
    · rw [if_neg hp']
      simp [hp']
  · intro w hw hended
    simp only
    rw [adjust_length]
    exact h.withdrawing w hw hended

/-- a change of entries that keeps the counts and values keeps the invariant -/
theorem Inv.of_heap {s s' : ReadyWeightTable T} (h : s.Inv) (htable : s'.table = s.table)
    (hleases : s'.leases = s.leases)
    (hheap : ∀ id : Nat, (s'.heap[id]?).map (fun e => (e.value, e.useCount))
      = (s.heap[id]?).map fun e => (e.value, e.useCount))
    (hlen : s'.heap.length = s.heap.length)
    (hwithdrawals : ∀ w ∈ s'.withdrawals, w.ended = false → w.entry < s.heap.length) : s'.Inv := by
  have hvalue : ∀ id : Nat, (s'.heap[id]?).map ReadyEntry.value
      = (s.heap[id]?).map ReadyEntry.value := by
    intro id
    have hid := congrArg (Option.map Prod.fst) (hheap id)
    rw [Option.map_map, Option.map_map] at hid
    exact hid
  refine ⟨?_, ?_, ?_, ?_, ?_, ?_⟩
  · intro p id hp
    rw [hlen]
    exact h.allocated p id (htable ▸ hp)
  · intro p p' id hp hp'
    exact h.injective p p' id (htable ▸ hp) (htable ▸ hp')
  · rw [hleases]
    exact h.sorted
  · intro l hl hopen
    rw [hleases] at hl
    exact (h.holds l hl hopen).congr fun e _ => current_of_heap htable hvalue _
  · intro p id e hp
    obtain ⟨hid, he⟩ := entry_iff.mp hp
    rw [htable] at hid
    have hsame := hheap id
    rw [he, Option.map_some] at hsame
    obtain ⟨e0, he0, heq⟩ := Option.map_eq_some_iff.mp hsame.symm
    have hcount := h.counts p id e0 (entry_iff.mpr ⟨hid, he0⟩)
    rw [hleases, ← hcount]
    exact (Prod.mk.inj heq).2.symm
  · intro w hw hended
    rw [hlen]
    exact hwithdrawals w hw hended

theorem beginWithdrawal_cases (s : ReadyWeightTable T) (p : Position) :
    (∃ e, s.beginWithdrawal p = (.error e, s)) ∨
      ∃ id e, s.entry p = some (id, e) ∧ s.beginWithdrawal p = (.ok (),
        { s with heap := s.heap.modify id fun e => { e with accepting := false } }) := by
  unfold beginWithdrawal
  split
  · exact .inl ⟨_, rfl⟩
  · split
    · exact .inl ⟨_, rfl⟩
    · rename_i id e hentry
      exact .inr ⟨id, e, hentry, rfl⟩

theorem modify_same {β : Type} (heap : List (ReadyEntry T)) (id : Nat)
    (f : ReadyEntry T → ReadyEntry T) (g : ReadyEntry T → β) (hfg : ∀ e, g (f e) = g e) (j : Nat) :
    ((heap.modify id f)[j]?).map g = (heap[j]?).map g := by
  rw [List.getElem?_modify]
  generalize heap[j]? = o
  cases o with
  | none => rfl
  | some e => by_cases hid : id = j <;> simp [hid, hfg]

theorem finishWithdrawal_cases (s : ReadyWeightTable T) (p : Position) (negativeTimeout : Bool) :
    (∃ e, s.finishWithdrawal p negativeTimeout = (.error e, s)) ∨
      ∃ id e, s.entry p = some (id, e) ∧ s.finishWithdrawal p negativeTimeout = (.ok (),
        { s with withdrawals := s.withdrawals ++ [⟨p, id, false⟩] }) := by
  unfold finishWithdrawal
  split
  · exact .inl ⟨_, rfl⟩
  · split_ifs
    · exact .inl ⟨_, rfl⟩
    · split
      · exact .inl ⟨_, rfl⟩
      · rename_i id e hentry
        split_ifs
        · exact .inl ⟨_, rfl⟩
        · exact .inr ⟨id, e, hentry, rfl⟩

theorem withdrawn_cases (s : ReadyWeightTable T) (i : Nat) (w : Withdrawal) (e : ReadyEntry T) :
    (∃ error, s.withdrawn i w e = (.error error, s.endWithdrawal i w)) ∨
      s.table w.position = some w.entry ∧ s.withdrawn i w e = (.ok e.value,
        { s.endWithdrawal i w with table := Function.update s.table w.position none }) := by
  unfold withdrawn
  split_ifs with hchanged
  · exact .inl ⟨_, rfl⟩
  · exact .inr ⟨by simpa using hchanged, rfl⟩

theorem Inv.endedWithdrawal {s : ReadyWeightTable T} (h : s.Inv) (i : Nat) (w : Withdrawal) :
    (s.endWithdrawal i w).Inv := by
  refine h.of_heap rfl rfl (fun _ => rfl) rfl ?_
  intro w' hw' hended
  rcases List.mem_or_eq_of_mem_set hw' with hw' | rfl
  · exact h.withdrawing w' hw' hended
  · cases hended

/-- a position that no lease names is emptied -/
theorem Inv.emptied {s : ReadyWeightTable T} (h : s.Inv) {p : Position}
    (hu : users s.leases p = 0) :
    ({ s with table := Function.update s.table p none } : ReadyWeightTable T).Inv := by
  have htable : ∀ q id, Function.update s.table p none q = some id →
      q ≠ p ∧ s.table q = some id := by
    intro q id hq
    by_cases hqp : q = p
    · rw [hqp, Function.update_self] at hq
      cases hq
    · rw [Function.update_of_ne hqp] at hq
      exact ⟨hqp, hq⟩
  refine ⟨?_, ?_, h.sorted, ?_, ?_, h.withdrawing⟩
  · intro q id hq
    exact h.allocated q id (htable q id hq).2
  · intro q q' id hq hq'
    exact h.injective q q' id (htable q id hq).2 (htable q' id hq').2
  · intro l hl hopen
    refine (h.holds l hl hopen).congr fun e he => ?_
    have hne : (⟨l.layerId, e⟩ : Position) ≠ p := by
      rintro rfl
      have hpos : 0 < users s.leases ⟨l.layerId, e⟩ := users_pos hl hopen he
      omega
    unfold current entry
    simp only
    rw [Function.update_of_ne hne]
  · intro q id e hq
    obtain ⟨hid, he⟩ := entry_iff.mp hq
    exact h.counts q id e (entry_iff.mpr ⟨(htable q id hid).2, he⟩)

/-- the checks of `_release` pass for a lease that is not closed -/
theorem Inv.release_ok {s : ReadyWeightTable T} (h : s.Inv) {l : ReadyWeightLease T}
    (hl : l ∈ s.leases) (hopen : l.closed = false) :
    s.release l = (.ok (), { s with heap := adjust (-1) s.heap l.entries }) := by
  have hholds := h.holds l hl hopen
  have hnone : (l.expertIds.zip l.entries).findSome? (fun r =>
      if s.table ⟨l.layerId, r.1⟩ ≠ some r.2 then
        some "retained ready weight changed before release"
      else if ((s.heap[r.2]?).map fun e => decide (e.useCount ≤ 0)).getD true then
        some "ready weight usage count underflow"
      else none) = none := by
    rw [List.findSome?_eq_none_iff]
    rintro ⟨e, id⟩ hmem
    have hexpert : e ∈ l.expertIds := (List.of_mem_zip hmem).1
    -- the entry of the lease is the current one
    have htable : s.table ⟨l.layerId, e⟩ = some id := by
      obtain ⟨j, hj⟩ := List.mem_iff_getElem?.mp hmem
      obtain ⟨he, hid⟩ := List.getElem?_zip_eq_some.mp hj
      have hat := congrArg (fun l => l[j]?) hholds.1
      simp only [List.getElem?_map, he, Option.map_some] at hat
      have hlt : j < (l.entries.zip l.objects).length := by
        have hlen := (List.getElem?_eq_some_iff.mp hid).1
        rw [List.length_zip, ← hholds.2, Nat.min_self]
        exact hlen
      rw [List.getElem?_eq_getElem hlt, Option.map_some, Option.some.injEq] at hat
      rw [table_of_current hat]
      obtain ⟨hlt', hget⟩ := List.getElem?_eq_some_iff.mp hid
      rw [List.getElem_zip, hget]
    obtain ⟨entry, hentry⟩ := h.entry_of_table htable
    have hcount := h.counts _ _ _ hentry
    have hpos := users_pos hl hopen hexpert
    simp only
    rw [if_neg (by simp [htable]), (entry_iff.mp hentry).2, Option.map_some, Option.getD_some,
      if_neg (by simp only [decide_eq_true_eq]; omega)]
  unfold release
  simp only [hnone]

theorem Inv.closed {s : ReadyWeightTable T} (h : s.Inv) {i : Nat} {l : ReadyWeightLease T}
    (hl : s.leases[i]? = some l) (hopen : l.closed = false) :
    ({ s with
        heap := adjust (-1) s.heap l.entries
        leases := s.leases.set i { l with closed := true } } : ReadyWeightTable T).Inv := by
  have hmem := List.mem_of_getElem? hl
  have hcurrent := current_of_heap (s := s) (t := { s with
    heap := adjust (-1) s.heap l.entries
    leases := s.leases.set i { l with closed := true } }) rfl
    (adjust_same (-1) s.heap l.entries _ fun _ _ => rfl)
  refine ⟨?_, h.injective, ?_, ?_, ?_, ?_⟩
  · intro p id hp
    simp only
    rw [adjust_length]
    exact h.allocated p id hp
  · intro l' hl'
    rcases List.mem_or_eq_of_mem_set hl' with hl' | rfl
    · exact h.sorted l' hl'
    · exact h.sorted l hmem
  · intro l' hl' hopen'
    rcases List.mem_or_eq_of_mem_set hl' with hl' | rfl
    · exact (h.holds l' hl' hopen').congr fun e _ => hcurrent _
    · cases hopen'
  · intro p id e hp
    obtain ⟨htable, hheap⟩ := entry_iff.mp hp
    simp only at htable hheap
    rw [adjust_getElem?] at hheap
    obtain ⟨e0, he0, rfl⟩ := Option.map_eq_some_iff.mp hheap
    have hcount := h.counts p id e0 (entry_iff.mpr ⟨htable, he0⟩)
    have hnames := h.count_entries (h.sorted l hmem) (h.holds l hmem hopen) htable
    have hset := Ledger.countP_set hl { l with closed := true } fun l =>
      !l.closed && decide (l.layerId = p.layerId ∧ p.expertId ∈ l.expertIds)
    simp only [hopen, Bool.not_false, Bool.true_and, decide_eq_true_eq, Bool.not_true,
      Bool.false_and, Bool.false_eq_true, if_false, Nat.add_zero] at hset
    unfold users at hcount ⊢
    simp only
    rw [hcount, hnames, ← hset]
    by_cases hp' : l.layerId = p.layerId ∧ p.expertId ∈ l.expertIds
    · rw [if_pos hp']
      push_cast
      ring
    · rw [if_neg hp']
      simp
  · intro w hw hended
    simp only
    rw [adjust_length]
    exact h.withdrawing w hw hended

/-! ## the steps of a run -/

/-- what a step can do -/
inductive Effect (s : ReadyWeightTable T) : Op T → ReadyWeightTable T → Prop where
  | same (op : Op T) : Effect s op s
  | published (p : Position) (v : T) (hp : s.table p = none)
      (hok : (s.publish p (some v)).1 = .ok ()) : Effect s (.publish p (some v)) { s with
        heap := s.heap ++ [⟨v, true, 0⟩]
        table := Function.update s.table p (some s.heap.length) }
  | acquired (op : Op T) (lease : ReadyWeightLease T) (hnodup : lease.expertIds.Nodup)
      (hopen : lease.closed = false) (hholds : s.Holds lease) : Effect s op { s with
        heap := adjust 1 s.heap lease.entries, leases := s.leases ++ [lease] }
  | withdrawing (op : Op T) (id : Nat) : Effect s op { s with
      heap := s.heap.modify id fun e => { e with accepting := false } }
  | waiting (op : Op T) (p : Position) (id : Nat) (hp : s.table p = some id) : Effect s op { s with
      withdrawals := s.withdrawals ++ [⟨p, id, false⟩] }
  | gaveUp (op : Op T) (i : Nat) (w : Withdrawal) : Effect s op (s.endWithdrawal i w)
  | withdrawn (i : Nat) (w : Withdrawal) (e : ReadyEntry T) (he : s.heap[w.entry]? = some e)
      (hzero : e.useCount = 0) (hp : s.table w.position = some w.entry) :
      Effect s (.withdrawn i) { s.endWithdrawal i w with
        table := Function.update s.table w.position none }
  | closed (op : Op T) (i : Nat) (lease : ReadyWeightLease T) (hl : s.leases[i]? = some lease)
      (hopen : lease.closed = false) : Effect s op { s with
        heap := adjust (-1) s.heap lease.entries
        leases := s.leases.set i { lease with closed := true } }

theorem Inv.effect {s s1 : ReadyWeightTable T} (h : s.Inv) {op : Op T} (hs : s.step op = some s1) :
    s.Effect op s1 := by
  cases op with
  | publish p value =>
    cases hs
    rcases s.publish_cases p value with ⟨e, hsame⟩ | ⟨v, rfl, hp, hnew⟩
    · rw [hsame]
      exact .same _
    · have hok : (s.publish p (some v)).1 = .ok () := by rw [hnew]
      rw [hnew]
      exact .published p v hp hok
  | acquireMany layerId expertIds =>
    cases hs
    rcases s.acquireMany_cases layerId expertIds with
      ⟨e, _, hsame⟩ | ⟨_, _, hsame⟩ | ⟨lease, hnodup, _, rfl, hopen, hholds, _, hnew⟩
    · rw [hsame]
      exact .same _
    · rw [hsame]
      exact .same _
    · rw [hnew]
      exact .acquired _ lease hnodup hopen hholds
  | beginWithdrawal p =>
    cases hs
    rcases s.beginWithdrawal_cases p with ⟨e, hsame⟩ | ⟨id, e, _, hnew⟩
    · rw [hsame]
      exact .same _
    · rw [hnew]
      exact .withdrawing _ id
  | finishWithdrawal p negativeTimeout =>
    cases hs
    rcases s.finishWithdrawal_cases p negativeTimeout with ⟨e, hsame⟩ | ⟨id, e, hentry, hnew⟩
    · rw [hsame]
      exact .same _
    · rw [hnew]
      exact .waiting _ p id (entry_iff.mp hentry).1
  | withdrawn i =>
    obtain ⟨w, _, hw⟩ := Option.bind_eq_some_iff.mp hs
    obtain ⟨e, he, hend⟩ := Option.bind_eq_some_iff.mp hw
    split_ifs at hend with hwaits
    cases hend
    rcases s.withdrawn_cases i w e with ⟨error, hsame⟩ | ⟨hp, hremoved⟩
    · rw [hsame]
      exact .gaveUp _ i w
    · rw [hremoved]
      exact .withdrawn i w e he (by simpa using (not_or.mp hwaits).2) hp
  | timedOut i =>
    obtain ⟨w, _, hw⟩ := Option.bind_eq_some_iff.mp hs
    obtain ⟨e, _, hend⟩ := Option.bind_eq_some_iff.mp hw
    split_ifs at hend
    cases hend
    exact .gaveUp _ i w
  | close i =>
    obtain ⟨lease, hlease, rfl⟩ := Option.map_eq_some_iff.mp hs
    unfold ReadyWeightTable.close
    cases hopen : lease.closed with
    | true => exact .same _
    | false =>
      rw [h.release_ok (List.mem_of_getElem? hlease) hopen]
      exact .closed _ i lease hlease hopen

theorem Inv.step {s s1 : ReadyWeightTable T} (h : s.Inv) {op : Op T} (hs : s.step op = some s1) :
    s1.Inv := by
  cases h.effect hs with
  | same => exact h
  | published p v hp _ => exact h.published hp v
  | acquired _ lease hnodup hopen hholds => exact h.acquired hnodup hopen hholds
  | withdrawing _ id =>
    exact h.of_heap rfl rfl (fun j => modify_same s.heap id (fun e => { e with accepting := false })
      (fun e => (e.value, e.useCount)) (fun _ => rfl) j) (List.length_modify _ _ _) h.withdrawing
  | waiting _ p id hp =>
    refine h.of_heap rfl rfl (fun _ => rfl) rfl ?_
    intro w hw hended
    rcases List.mem_append.mp hw with hw | hw
    · exact h.withdrawing w hw hended
    · rw [List.mem_singleton.mp hw]
      exact h.allocated p id hp
  | gaveUp _ i w => exact h.endedWithdrawal i w
  | withdrawn i w e he hzero hp =>
    have hcount := h.counts w.position w.entry e (entry_iff.mpr ⟨hp, he⟩)
    exact (h.endedWithdrawal i w).emptied (by simp only [endWithdrawal]; omega)
  | closed _ i lease hl hopen => exact h.closed hl hopen

theorem run_inv {numLayers expertsPerLayer : Int} {ops : List (Op T)} {s : ReadyWeightTable T}
    (hr : (new numLayers expertsPerLayer).run ops = some s) : s.Inv :=
  (Steps.Reach.of_run .refl hr).invariant (new_inv numLayers expertsPerLayer)
    fun _ _ _ h _ hs => h.step hs

/-- a step that takes the object of a position away is the end of a withdrawal without users -/
theorem Inv.current_step {s s1 : ReadyWeightTable T} (h : s.Inv) {op : Op T}
    (hs : s.step op = some s1) {p : Position} {r : Nat × T} (hr : s.current p = some r) :
    s1.current p = some r ∨
      (∃ call, op = .withdrawn call) ∧ s.usageCount p = 0 ∧ s1.table p = none := by
  cases h.effect hs with
  | same => exact .inl hr
  | published q v hq _ =>
    left
    have hp := table_of_current hr
    have hne : p ≠ q := by
      rintro rfl
      cases hq.symm.trans hp
    rw [← hr]
    unfold current entry
    simp only
    rw [Function.update_of_ne hne, hp, Option.bind_some, Option.bind_some,
      List.getElem?_append_left (h.allocated p r.1 hp)]
  | acquired _ lease =>
    left
    rw [← hr]
    exact current_of_heap (s := s) (t := { s with
      heap := adjust 1 s.heap lease.entries, leases := s.leases ++ [lease] }) rfl
      (adjust_same 1 s.heap lease.entries _ fun _ _ => rfl) p
  | withdrawing _ id =>
    left
    rw [← hr]
    exact current_of_heap (s := s) (t := { s with
      heap := s.heap.modify id fun e => { e with accepting := false } }) rfl
      (modify_same s.heap id (fun e => { e with accepting := false }) _ fun _ => rfl) p
  | waiting => exact .inl hr
  | gaveUp => exact .inl hr
  | withdrawn i w e he hzero hp =>
    by_cases hw : p = w.position
    · right
      refine ⟨⟨i, rfl⟩, ?_, by simp [hw]⟩
      unfold usageCount
      rw [hw, entry_iff.mpr ⟨hp, he⟩]
      exact hzero
    · left
      rw [← hr]
      unfold current entry endWithdrawal
      simp only
      rw [Function.update_of_ne hw]
  | closed _ i lease =>
    left
    rw [← hr]
    exact current_of_heap (s := s) (t := { s with
      heap := adjust (-1) s.heap lease.entries
      leases := s.leases.set i { lease with closed := true } }) rfl
      (adjust_same (-1) s.heap lease.entries _ fun _ _ => rfl) p

/-! ## withdrawing positions -/

/-- the step publishes a new object at the position -/
def Publishes (s : ReadyWeightTable T) (op : Op T) (p : Position) : Prop :=
  ∃ value, op = .publish p value ∧ (s.publish p value).1 = .ok ()

theorem unavailable_iff {s : ReadyWeightTable T} {p : Position} :
    s.unavailable p = true ↔
      ∀ id, s.table p = some id → (s.heap[id]?).map ReadyEntry.accepting ≠ some true := by
  unfold unavailable entry
  cases s.table p with
  | none => simp
  | some id => cases h : s.heap[id]? <;> simp [h]

theorem Inv.unavailable_step {s s1 : ReadyWeightTable T} (h : s.Inv) {op : Op T}
    (hs : s.step op = some s1) {p : Position} (hp : ¬ s.Publishes op p)
    (hu : s.unavailable p = true) : s1.unavailable p = true := by
  have hold := unavailable_iff.mp hu
  refine unavailable_iff.mpr fun id hid => ?_
  cases h.effect hs with
  | same => exact hold id hid
  | published q v hq hok =>
    have hne : p ≠ q := fun hpq => hp ⟨some v, hpq ▸ rfl, hpq ▸ hok⟩
    simp only [Function.update_of_ne hne] at hid ⊢
    rw [List.getElem?_append_left (h.allocated p id hid)]
    exact hold id hid
  | acquired _ lease =>
    simp only
    rw [adjust_same 1 s.heap lease.entries _ fun _ _ => rfl]
    exact hold id hid
  | withdrawing _ id' =>
    simp only
    rw [List.getElem?_modify]
    by_cases hsame : id' = id
    · rw [List.getElem?_eq_getElem (h.allocated p id hid)]
      simp [hsame]
    · simpa [hsame] using hold id hid
  | waiting => exact hold id hid
  | gaveUp => exact hold id hid
  | withdrawn i w =>
    by_cases hw : p = w.position
    · simp only [hw, Function.update_self] at hid
      cases hid
    · simp only [Function.update_of_ne hw] at hid
      exact hold id hid
  | closed _ i lease =>
    simp only
    rw [adjust_same (-1) s.heap lease.entries _ fun _ _ => rfl]
    exact hold id hid

theorem beginWithdrawal_unavailable {s s1 : ReadyWeightTable T} {p : Position}
    (hb : s.beginWithdrawal p = (.ok (), s1)) : s1.unavailable p = true := by
  rcases s.beginWithdrawal_cases p with ⟨e, herror⟩ | ⟨id, e, hentry, hnew⟩
  · rw [herror] at hb
    cases hb
  · rw [hnew] at hb
    cases hb
    refine unavailable_iff.mpr fun id' hid' => ?_
    obtain ⟨hid, he⟩ := entry_iff.mp hentry
    cases hid.symm.trans hid'
    simp [he]

theorem acquireMany_unavailable {s : ReadyWeightTable T} {p : Position}
    (hu : s.unavailable p = true) {expertIds : List Int} (he : p.expertId ∈ expertIds)
    (lease : ReadyWeightLease T) : (s.acquireMany p.layerId expertIds).1 ≠ .ok lease := by
  intro hok
  rcases s.acquireMany_cases p.layerId expertIds with
    ⟨e, _, hsame⟩ | ⟨_, _, hsame⟩ | ⟨l, _, _, _, _, _, havail, _⟩
  · rw [hsame] at hok
    cases hok
  · rw [hsame] at hok
    cases hok
  · have := havail p.expertId he
    rw [hu] at this
    cases this

theorem Inv.usageCount_eq {s : ReadyWeightTable T} (h : s.Inv) (p : Position) :
    s.usageCount p = users s.leases p := by
  unfold usageCount
  cases hentry : s.entry p with
  | some r => exact h.counts p r.1 r.2 hentry
  | none =>
    -- a lease that names the position would hold an entry of it
    by_contra hne
    obtain ⟨id, hid⟩ := h.table_of_users (p := p) (Nat.pos_of_ne_zero fun hz => hne (by simp [hz]))
    obtain ⟨e, he⟩ := h.entry_of_table hid
    rw [hentry] at he
    cases he

end ReadyWeightTable

open ReadyWeightTable

/-- in every run: the usage counts are the open leases, a refused `acquire_many` changes nothing and
names the missing and withdrawing experts, a withdrawing position is not acquired before a new
object is published there, an object goes only when it has no users, and every `close` returns -/
theorem ready_weight_leases {numLayers expertsPerLayer : Int} {ops : List (Op T)}
    {s : ReadyWeightTable T} (hr : (new numLayers expertsPerLayer).run ops = some s) :
    (∀ p, s.usageCount p = users s.leases p) ∧
      (∀ layerId expertIds error, (s.acquireMany layerId expertIds).1 = .error error →
        (s.acquireMany layerId expertIds).2 = s ∧
          (s.validateExpertList layerId expertIds = .ok () →
            error = .notReady (expertIds.filter fun e => s.unavailable ⟨layerId, e⟩))) ∧
      (∀ p s1, s.beginWithdrawal p = (.ok (), s1) →
        ∀ s2, Steps.Reach step (fun s op => ¬ s.Publishes op p) s1 s2 →
          ∀ expertIds, p.expertId ∈ expertIds →
            ∀ lease, (s2.acquireMany p.layerId expertIds).1 ≠ .ok lease) ∧
      (∀ op s1 p r, s.step op = some s1 → s.current p = some r → s1.current p ≠ some r →
        (∃ call, op = .withdrawn call) ∧ s.usageCount p = 0 ∧ s1.table p = none) ∧
      ∀ i l, s.leases[i]? = some l → (s.close i l).1 = .ok () ∧ (l.closed = false → s.Holds l) := by
  have h := run_inv hr
  refine ⟨h.usageCount_eq, ?_, ?_, ?_, ?_⟩
  · intro layerId expertIds error he
    rcases s.acquireMany_cases layerId expertIds with
      ⟨e, hinvalid, hsame⟩ | ⟨_, _, hsame⟩ | ⟨lease, _, _, _, _, _, _, hnew⟩
    · rw [hsame]
      refine ⟨rfl, fun hvalid => ?_⟩
      rw [hinvalid] at hvalid
      cases hvalid
    · rw [hsame] at he ⊢
      cases he
      exact ⟨rfl, fun _ => rfl⟩
    · rw [hnew] at he
      cases he
  · intro p s1 hb s2 hreach expertIds he lease
    have hs1 : s1.Inv := by
      have hstep : s.step (.beginWithdrawal p) = some (s.beginWithdrawal p).2 := rfl
      rw [hb] at hstep
      exact h.step hstep
    have hinv : s2.Inv ∧ s2.unavailable p = true := by
      refine hreach.invariant (P := fun s => s.Inv ∧ s.unavailable p = true)
        ⟨hs1, beginWithdrawal_unavailable hb⟩ ?_
      intro s op s' hs hok hstep
      exact ⟨hs.1.step hstep, hs.1.unavailable_step hstep hok hs.2⟩
    exact acquireMany_unavailable hinv.2 he lease
  · intro op s1 p r hs hcur hne
    exact (h.current_step hs hcur).resolve_left hne
  · intro i l hl
    refine ⟨?_, fun hopen => h.holds l (List.mem_of_getElem? hl) hopen⟩
    unfold ReadyWeightTable.close
    cases hopen : l.closed with
    | true => rfl
    | false =>
      rw [h.release_ok (List.mem_of_getElem? hl) hopen]
      rfl

/-- two objects, a lease on both, and the withdrawal of the first while the lease is open -/
def withdrawalRun : List (Op Nat) :=
  [.publish ⟨0, 1⟩ (some 7), .publish ⟨0, 2⟩ (some 8), .acquireMany 0 [1, 2],
    .beginWithdrawal ⟨0, 1⟩, .finishWithdrawal ⟨0, 1⟩ false, .acquireMany 0 [1, 2],
    .acquireMany 0 [2]]

theorem ready_weight_leases_two : ∃ s : ReadyWeightTable Nat,
    (new 1 4).run withdrawalRun = some s ∧ s.usageCount ⟨0, 2⟩ = 2 ∧
      users s.leases ⟨0, 2⟩ = 2 ∧ s.unavailable ⟨0, 1⟩ = true ∧
      (s.close 0 ⟨0, [1, 2], [7, 8], [0, 1], false⟩).1 = .ok () := by
  have hrun : ∃ s : ReadyWeightTable Nat, (new 1 4).run withdrawalRun = some s ∧
      (decide (s.usageCount ⟨0, 2⟩ = 2) && s.unavailable ⟨0, 1⟩
        && decide (s.leases[0]? = some ⟨0, [1, 2], [7, 8], [0, 1], false⟩)) = true :=
    (Option.any_eq_true (fun s : ReadyWeightTable Nat => decide (s.usageCount ⟨0, 2⟩ = 2)
      && s.unavailable ⟨0, 1⟩ && decide (s.leases[0]? = some ⟨0, [1, 2], [7, 8], [0, 1], false⟩))
      _).mp (by decide +kernel)
  obtain ⟨s, hs, hend⟩ := hrun
  obtain ⟨hrest, hlease⟩ := (Bool.and_eq_true _ _).mp hend
  obtain ⟨hcount, hun⟩ := (Bool.and_eq_true _ _).mp hrest
  obtain ⟨husers, _, _, _, hclose⟩ := ready_weight_leases hs
  have hcount : s.usageCount ⟨0, 2⟩ = 2 := of_decide_eq_true hcount
  refine ⟨s, hs, hcount, ?_, hun, (hclose 0 _ (of_decide_eq_true hlease)).1⟩
  have htwo := husers ⟨0, 2⟩
  omega

end

end ExpertKit.Worker.ReadyWeights

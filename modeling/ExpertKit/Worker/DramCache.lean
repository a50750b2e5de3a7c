import ExpertKit.Lib.Steps
import ExpertKit.Lib.Assoc
import ExpertKit.Lib.Ledger

/-!
# Worker: the DRAM cache

`ek-worker/src/expertkit_worker/weights/dram_cache.py`.  Every method runs in one section of the
condition's lock; `commit`, `cancel` and `close` mark their object before they take the lock, and a
`reserve` that does not find room waits for the condition and runs its loop body again.

* `DramCache`, `reserve`, `commit`, `acquire`, `release`, `remove`, `clear`   the locked sections;
* `DramCache.Ok`      the accounting, for given counts of open leases and reserved bytes;
* `evictLoop_spec`    what a reservation evicts, in the order of the entries;
* `CacheRun`          the leases and reservations of any number of callers;
* `dram_cache_accounting`   the accounting of all runs, and which entries a step can take away.
-/

set_option linter.unusedSectionVars false

namespace ExpertKit.Worker

structure WeightKey where
  layerId : Nat
  expertId : Nat
deriving DecidableEq, Repr

structure CacheRecord (T : Type) where
  value : T
  byteCount : Int
  references : Int

/-- the entries are in the order of the `OrderedDict`, least recently used first -/
structure DramCache (T : Type) where
  maxBytes : Int
  usedBytes : Int
  reservedBytes : Int
  entries : List (WeightKey × CacheRecord T)

namespace DramCache

section
variable {T : Type}

/-! ## the locked sections -/

def new (maxBytes : Int) : DramCache T := ⟨maxBytes, 0, 0, []⟩

def availableBytes (c : DramCache T) : Int := c.maxBytes - c.usedBytes - c.reservedBytes

def find (c : DramCache T) (key : WeightKey) : Option (CacheRecord T) := c.entries.lookup key

/-- `acquire`: one more reference, and the entry moves to the end -/
def acquire (c : DramCache T) (key : WeightKey) : Option T × DramCache T :=
  match c.find key with
  | none => (none, c)
  | some record => (some record.value, { c with
      entries := Assoc.erase c.entries key ++ [(key, { record with references := record.references + 1 })] })

/-- `_entries.pop(key)`, and its bytes -/
def pop (c : DramCache T) (key : WeightKey) : DramCache T :=
  match c.find key with
  | none => c
  | some record =>
    { c with entries := Assoc.erase c.entries key, usedBytes := c.usedBytes - record.byteCount }

def victim (c : DramCache T) : Option WeightKey :=
  (c.entries.find? fun e => e.2.references == 0).map Prod.fst

/-- the loop of `_evict_until_available`, for at most `n` entries -/
def evictLoop (required : Int) : Nat → DramCache T → DramCache T
  | 0, c => c
  | n + 1, c =>
    if c.availableBytes < required then
      match c.victim with
      | none => c
      | some key => evictLoop required n (c.pop key)
    else c

def evictUntilAvailable (c : DramCache T) (required : Int) : DramCache T :=
  evictLoop required c.entries.length c

/-- the checks of `reserve` before the lock -/
def checkReserve (c : DramCache T) (byteCount : Int) : Option String :=
  if byteCount ≤ 0 then some "byte_count must be a positive integer"
  else if c.maxBytes < byteCount then some "one DRAM cache reservation exceeds max_bytes"
  else none

/-- one pass of the loop of `reserve`: whether it returns a reservation, and the cache -/
def reserve (c : DramCache T) (byteCount : Int) : Bool × DramCache T :=
  let c := c.evictUntilAvailable byteCount
  if byteCount ≤ c.availableBytes then
    (true, { c with reservedBytes := c.reservedBytes + byteCount })
  else (false, c)

/-- `_cancel` -/
def cancel (c : DramCache T) (reservedBytes : Int) : Except String Unit × DramCache T :=
  if c.reservedBytes < reservedBytes then
    (.error "DRAM cache reservation accounting underflow", c)
  else (.ok (), { c with reservedBytes := c.reservedBytes - reservedBytes })

/-- `_commit`: the value of the lease -/
def commit (c : DramCache T) (reservedBytes : Int) (key : WeightKey) (value : T)
    (actualBytes : Int) : Except String T × DramCache T :=
  if actualBytes ≤ 0 then
    match c.cancel reservedBytes with
    | (.error diagnostic, c) => (.error diagnostic, c)
    | (.ok _, c) => (.error "actual_bytes must be a positive integer", c)
  else if c.reservedBytes < reservedBytes then
    (.error "DRAM cache reservation accounting underflow", c)
  else
    let c := { c with reservedBytes := c.reservedBytes - reservedBytes }
    if reservedBytes < actualBytes then
      (.error "actual cache entry exceeds its reservation", c)
    else if (c.find key).isSome then (.error "DRAM cache key is already present", c)
    else (.ok value, { c with
      entries := c.entries ++ [(key, ⟨value, actualBytes, 1⟩)]
      usedBytes := c.usedBytes + actualBytes })

/-- `_release` -/
def release (c : DramCache T) (key : WeightKey) : Except String Unit × DramCache T :=
  match c.find key with
  | none => (.error "DRAM cache reference is no longer valid", c)
  | some record =>
    if record.references ≤ 0 then (.error "DRAM cache reference is no longer valid", c)
    else (.ok (), { c with entries := c.entries.map fun e =>
      if e.1 = key then (e.1, { e.2 with references := e.2.references - 1 }) else e })

def remove (c : DramCache T) (key : WeightKey) : Bool × DramCache T :=
  match c.find key with
  | none => (false, c)
  | some record => if record.references ≠ 0 then (false, c) else (true, c.pop key)

def clear (c : DramCache T) : Except String Unit × DramCache T :=
  if c.reservedBytes ≠ 0 then
    (.error "cannot clear DRAM cache with active reservations", c)
  else if c.entries.any fun e => e.2.references ≠ 0 then
    (.error "cannot clear DRAM cache with active references", c)
  else (.ok (), { c with entries := [], usedBytes := 0 })

/-! ## the accounting -/

/-- the accounting of a cache with `opened key` open leases on each entry and `reserved` bytes in
unfinished reservations -/
structure Ok (c : DramCache T) (opened : WeightKey → Nat) (reserved : Int) : Prop where
  keys : (c.entries.map Prod.fst).Nodup
  positive : ∀ e ∈ c.entries, 0 < e.2.byteCount
  used : c.usedBytes = (c.entries.map fun e => e.2.byteCount).sum
  reserved : c.reservedBytes = reserved
  bound : c.usedBytes + c.reservedBytes ≤ c.maxBytes
  references : ∀ e ∈ c.entries, e.2.references = opened e.1
  present : ∀ key, 0 < opened key → key ∈ c.entries.map Prod.fst

variable {c : DramCache T} {opened : WeightKey → Nat} {reserved : Int}

theorem new_ok {maxBytes : Int} (h : 0 ≤ maxBytes) :
    (new maxBytes : DramCache T).Ok (fun _ => 0) 0 :=
  ⟨List.nodup_nil, by simp [new], rfl, rfl, by simpa [new] using h, by simp [new], by simp⟩

theorem Ok.find_iff (h : c.Ok opened reserved) {key : WeightKey} {record : CacheRecord T} :
    c.find key = some record ↔ (key, record) ∈ c.entries :=
  Assoc.lookup_iff_mem h.keys

theorem Ok.find_of_opened (h : c.Ok opened reserved) {key : WeightKey} (hk : 0 < opened key) :
    ∃ record, c.find key = some record := by
  obtain ⟨⟨k, record⟩, he, rfl⟩ := List.mem_map.mp (h.present key hk)
  exact ⟨record, h.find_iff.mpr he⟩

theorem Ok.not_opened (h : c.Ok opened reserved) {key : WeightKey} {record : CacheRecord T}
    (hf : c.find key = some record) (hr : record.references = 0) : opened key = 0 := by
  have hcount := h.references _ (h.find_iff.mp hf)
  simp only at hcount
  omega

theorem Ok.used_erase (h : c.Ok opened reserved) {key : WeightKey} {record : CacheRecord T}
    (hf : c.find key = some record) :
    c.usedBytes - record.byteCount
      = ((Assoc.erase c.entries key).map fun e => e.2.byteCount).sum := by
  have hperm := (Assoc.perm_erase h.keys (h.find_iff.mp hf)).map fun e => e.2.byteCount
  rw [h.used, hperm.sum_eq, List.map_cons, List.sum_cons]
  exact add_sub_cancel_left _ _

/-- one more lease on the entry of a key -/
def oneMore (opened : WeightKey → Nat) (key : WeightKey) : WeightKey → Nat :=
  fun k => opened k + if k = key then 1 else 0

/-- one lease less -/
def oneLess (opened : WeightKey → Nat) (key : WeightKey) : WeightKey → Nat :=
  fun k => opened k - if k = key then 1 else 0

theorem acquire_ok (h : c.Ok opened reserved) {key : WeightKey} {value : T} {c' : DramCache T}
    (ha : c.acquire key = (some value, c')) : c'.Ok (oneMore opened key) reserved := by
  unfold acquire at ha
  split at ha
  · cases ha
  · rename_i record hf
    cases ha
    have hmem := h.find_iff.mp hf
    have hkeys : ((Assoc.erase c.entries key ++
        [(key, { record with references := record.references + 1 })]).map Prod.fst).Nodup := by
      rw [List.map_append, List.nodup_append]
      refine ⟨Assoc.nodup_erase h.keys key, List.nodup_singleton _, ?_⟩
      intro a ha b hb
      obtain ⟨e, he, rfl⟩ := List.mem_map.mp ha
      rw [List.map_singleton, List.mem_singleton] at hb
      rw [hb]
      exact (Assoc.mem_erase.mp he).2
    refine ⟨hkeys, ?_, ?_, h.reserved, h.bound, ?_, ?_⟩
    · intro e he
      rcases List.mem_append.mp he with he | he
      · exact h.positive e (Assoc.mem_erase.mp he).1
      · have hpos := h.positive _ hmem
        rw [List.mem_singleton.mp he]
        exact hpos
    · simp only
      rw [List.map_append, List.sum_append, ← h.used_erase hf]
      simp
    · intro e he
      rcases List.mem_append.mp he with he | he
      · obtain ⟨he, hne⟩ := Assoc.mem_erase.mp he
        rw [h.references e he]
        simp [oneMore, hne]
      · rw [List.mem_singleton.mp he]
        have hcount := h.references _ hmem
        simp only at hcount
        simp [oneMore, hcount]
    · intro k hk
      rw [List.map_append, List.mem_append, Assoc.keys_erase, List.mem_filter]
      by_cases hkey : k = key
      · exact .inr (by simp [hkey])
      · refine .inl ⟨h.present k ?_, by simpa using hkey⟩
        simpa [oneMore, hkey] using hk

theorem acquire_miss {key : WeightKey} {c' : DramCache T} (ha : c.acquire key = (none, c')) :
    c' = c ∧ c.find key = none := by
  unfold acquire at ha
  split at ha
  · rename_i hf
    cases ha
    exact ⟨rfl, hf⟩
  · cases ha

theorem pop_ok (h : c.Ok opened reserved) {key : WeightKey} {record : CacheRecord T}
    (hf : c.find key = some record) (hr : record.references = 0) :
    (c.pop key).Ok opened reserved := by
  unfold pop
  rw [hf]
  refine ⟨Assoc.nodup_erase h.keys key, ?_, h.used_erase hf, h.reserved, ?_, ?_, ?_⟩
  · intro e he
    exact h.positive e (Assoc.mem_erase.mp he).1
  · have hbound := h.bound
    have hpos := h.positive _ (h.find_iff.mp hf)
    simp only at hpos ⊢
    omega
  · intro e he
    exact h.references e (Assoc.mem_erase.mp he).1
  · intro k hk
    rw [Assoc.keys_erase, List.mem_filter]
    refine ⟨h.present k hk, ?_⟩
    have hne : k ≠ key := by
      rintro rfl
      have hnone := h.not_opened hf hr
      omega
    simpa using hne

theorem release_ok (h : c.Ok opened reserved) {key : WeightKey} (hk : 0 < opened key) :
    ∃ c', c.release key = (.ok (), c') ∧ c'.Ok (oneLess opened key) reserved := by
  obtain ⟨record, hf⟩ := h.find_of_opened hk
  have hcount := h.references _ (h.find_iff.mp hf)
  simp only at hcount
  unfold release
  rw [hf]
  simp only
  rw [if_neg (by omega)]
  have hfst : (c.entries.map fun e => if e.1 = key then
      (e.1, { e.2 with references := e.2.references - 1 }) else e).map Prod.fst
      = c.entries.map Prod.fst := by
    rw [List.map_map]
    refine List.map_congr_left fun e _ => ?_
    by_cases he : e.1 = key <;> simp [he]
  refine ⟨_, rfl, ⟨?_, ?_, ?_, h.reserved, h.bound, ?_, ?_⟩⟩
  · simp only
    rw [hfst]
    exact h.keys
  · intro e he
    obtain ⟨e', he', rfl⟩ := List.mem_map.mp he
    have hpos := h.positive e' he'
    by_cases hkey : e'.1 = key
    · rw [if_pos hkey]
      exact hpos
    · rw [if_neg hkey]
      exact hpos
  · simp only
    rw [h.used, List.map_map]
    congr 1
    refine List.map_congr_left fun e _ => ?_
    by_cases he : e.1 = key <;> simp [he]
  · intro e he
    obtain ⟨e', he', rfl⟩ := List.mem_map.mp he
    have href := h.references e' he'
    by_cases hkey : e'.1 = key
    · rw [if_pos hkey]
      simp only [oneLess, hkey, if_true] at href ⊢
      omega
    · rw [if_neg hkey, href]
      simp [oneLess, hkey]
  · intro k hk'
    simp only
    rw [hfst]
    refine h.present k ?_
    unfold oneLess at hk'
    omega

/-! ## eviction -/

theorem Ok.victim_find (h : c.Ok opened reserved) {key : WeightKey} (hv : c.victim = some key) :
    ∃ front record back, c.entries = front ++ (key, record) :: back ∧ record.references = 0 ∧
      c.find key = some record ∧ ∀ e ∈ front, e.2.references ≠ 0 := by
  unfold victim at hv
  obtain ⟨⟨k, record⟩, hfind, rfl⟩ := Option.map_eq_some_iff.mp hv
  obtain ⟨hzero, front, back, hsplit, hfront⟩ := List.find?_eq_some_iff_append.mp hfind
  refine ⟨front, record, back, hsplit, by simpa using hzero, ?_, ?_⟩
  · rw [h.find_iff, hsplit]
    simp
  · intro e he
    simpa using hfront e he

/-- what an eviction of `victims` leaves: they were not referenced, and in the order `r` of the
entries each of them comes before every entry that is not referenced and stays -/
structure Evicted (c c' : DramCache T) (r : WeightKey → WeightKey → Prop)
    (victims : List WeightKey) : Prop where
  entries : c'.entries = c.entries.filter fun e => decide (e.1 ∉ victims)
  unreferenced : ∀ key ∈ victims, ∃ record, (key, record) ∈ c.entries ∧ record.references = 0
  oldest : victims.Pairwise r
  older : ∀ key ∈ victims, ∀ e ∈ c'.entries, e.2.references = 0 → r key e.1

theorem Evicted.nil (c : DramCache T) (r : WeightKey → WeightKey → Prop) : Evicted c c r [] :=
  ⟨by simp, by simp, List.Pairwise.nil, by simp⟩

theorem pop_entries {key : WeightKey} {record : CacheRecord T}
    (hf : c.find key = some record) : (c.pop key).entries = Assoc.erase c.entries key := by
  unfold pop
  rw [hf]

theorem evictLoop_spec (required : Int) (n : Nat) (hn : c.entries.length ≤ n)
    (h : c.Ok opened reserved) {r : WeightKey → WeightKey → Prop}
    (hr : (c.entries.map Prod.fst).Pairwise r) :
    (evictLoop required n c).Ok opened reserved ∧
      (∃ victims, Evicted c (evictLoop required n c) r victims) ∧
      (required ≤ (evictLoop required n c).availableBytes ∨
        (evictLoop required n c).victim = none) ∧
      (evictLoop required n c).maxBytes = c.maxBytes := by
  induction n generalizing c with
  | zero =>
    have hnil : c.entries = [] := List.length_eq_zero_iff.mp (Nat.le_zero.mp hn)
    exact ⟨h, ⟨[], .nil c r⟩, .inr (by simp [evictLoop, victim, hnil]), rfl⟩
  | succ n ih =>
    unfold evictLoop
    split
    · cases hv : c.victim with
      | none => exact ⟨h, ⟨[], .nil c r⟩, .inr hv, rfl⟩
      | some key =>
        obtain ⟨front, record, back, hsplit, hzero, hf, hfront⟩ := h.victim_find hv
        have hentries := pop_entries hf
        have hlen : (c.pop key).entries.length ≤ n := by
          have hperm := (Assoc.perm_erase h.keys (h.find_iff.mp hf)).length_eq
          rw [hentries]
          rw [List.length_cons] at hperm
          omega
        have hsorted : ((c.pop key).entries.map Prod.fst).Pairwise r := by
          rw [hentries]
          exact hr.sublist ((Assoc.erase_sublist _ _).map _)
        obtain ⟨hok, ⟨victims, hev⟩, hend, hmax⟩ := ih hlen (pop_ok h hf hzero) hsorted
        simp only
        refine ⟨hok, ⟨key :: victims, ?_⟩, hend, hmax.trans (by unfold pop; rw [hf])⟩
        -- the first entry that is not referenced comes before all the others
        have hfirst : ∀ e ∈ (c.pop key).entries, e.2.references = 0 → r key e.1 := by
          intro e he hezero
          rw [hentries] at he
          obtain ⟨hmem, hne⟩ := Assoc.mem_erase.mp he
          rw [hsplit] at hmem
          rcases List.mem_append.mp hmem with hmem | hmem
          · exact absurd hezero (hfront e hmem)
          · rcases List.mem_cons.mp hmem with rfl | hmem
            · exact absurd rfl hne
            · rw [hsplit, List.map_append, List.map_cons, List.pairwise_append] at hr
              exact (List.pairwise_cons.mp hr.2.1).1 e.1 (List.mem_map_of_mem hmem)
        refine ⟨?_, ?_, ?_, ?_⟩
        · rw [hev.entries, hentries]
          unfold Assoc.erase
          rw [List.filter_filter]
          refine List.filter_congr fun e _ => ?_
          by_cases hkey : e.1 = key <;> simp [hkey]
        · intro k hk
          rcases List.mem_cons.mp hk with rfl | hk
          · exact ⟨record, h.find_iff.mp hf, hzero⟩
          · obtain ⟨record', hmem, hzero'⟩ := hev.unreferenced k hk
            rw [hentries] at hmem
            exact ⟨record', (Assoc.mem_erase.mp hmem).1, hzero'⟩
        · refine List.pairwise_cons.mpr ⟨?_, hev.oldest⟩
          intro k hk
          obtain ⟨record', hmem, hzero'⟩ := hev.unreferenced k hk
          exact hfirst _ hmem hzero'
        · intro k hk e he hezero
          rcases List.mem_cons.mp hk with rfl | hk
          · rw [hev.entries] at he
            exact hfirst e (List.mem_of_mem_filter he) hezero
          · exact hev.older k hk e he hezero
    · rename_i hroom
      exact ⟨h, ⟨[], .nil c r⟩, .inl (by omega), rfl⟩

theorem reserve_ok (h : c.Ok opened reserved) (byteCount : Int) :
    ((c.reserve byteCount).1 = true ∧
        (c.reserve byteCount).2.Ok opened (reserved + byteCount) ∨
      (c.reserve byteCount).1 = false ∧ (c.reserve byteCount).2.Ok opened reserved) ∧
    ∀ r : WeightKey → WeightKey → Prop, (c.entries.map Prod.fst).Pairwise r →
      ∃ victims, Evicted c (c.reserve byteCount).2 r victims := by
  have hspec := fun (r : WeightKey → WeightKey → Prop)
      (hr : (c.entries.map Prod.fst).Pairwise r) =>
    evictLoop_spec byteCount _ (Nat.le_refl c.entries.length) h hr
  have hok := (hspec (fun _ _ => True) (List.pairwise_of_forall fun _ _ => trivial)).1
  unfold reserve evictUntilAvailable
  simp only
  constructor
  · split
    · rename_i hroom
      refine .inl ⟨rfl, hok.keys, hok.positive, hok.used, ?_, ?_, hok.references, hok.present⟩
      · simp only
        rw [hok.reserved]
      · unfold availableBytes at hroom
        simp only
        omega
    · exact .inr ⟨rfl, hok⟩
  · intro r hr
    obtain ⟨_, ⟨victims, hev⟩, _⟩ := hspec r hr
    refine ⟨victims, ?_⟩
    split
    · exact ⟨hev.entries, hev.unreferenced, hev.oldest, hev.older⟩
    · exact hev

theorem cancel_ok (h : c.Ok opened reserved) {bytes : Int} (hb : bytes ≤ reserved)
    (hpos : 0 ≤ bytes) :
    ∃ c', c.cancel bytes = (.ok (), c') ∧ c'.Ok opened (reserved - bytes) ∧
      c'.entries = c.entries := by
  have hreserved := h.reserved
  have hbound := h.bound
  refine ⟨_, if_neg (by omega), ⟨h.keys, h.positive, h.used, ?_, ?_, h.references, h.present⟩, rfl⟩
  · simp only
    omega
  · simp only
    omega

theorem insert_ok (h : c.Ok opened reserved) {key : WeightKey} (hnone : c.find key = none)
    (value : T) {actualBytes : Int} (hpos : 0 < actualBytes)
    (hroom : c.usedBytes + actualBytes + c.reservedBytes ≤ c.maxBytes) :
    ({ c with
        entries := c.entries ++ [(key, ⟨value, actualBytes, 1⟩)]
        usedBytes := c.usedBytes + actualBytes } : DramCache T).Ok (oneMore opened key)
      reserved := by
  have hnew : key ∉ c.entries.map Prod.fst := Assoc.lookup_none_iff.mp hnone
  refine ⟨?_, ?_, ?_, h.reserved, hroom, ?_, ?_⟩
  · simp only
    rw [List.map_append, List.nodup_append]
    refine ⟨h.keys, List.nodup_singleton _, ?_⟩
    rintro a ha b hb rfl
    rw [List.map_singleton, List.mem_singleton] at hb
    rw [hb] at ha
    exact hnew ha
  · intro e he
    rcases List.mem_append.mp he with he | he
    · exact h.positive e he
    · rw [List.mem_singleton.mp he]
      exact hpos
  · simp only
    rw [List.map_append, List.sum_append, ← h.used]
    simp
  · intro e he
    rcases List.mem_append.mp he with he | he
    · have hne : e.1 ≠ key := fun heq => hnew (heq ▸ List.mem_map_of_mem he)
      rw [h.references e he]
      simp [oneMore, hne]
    · rw [List.mem_singleton.mp he]
      have hzero : opened key = 0 := by
        by_contra hne
        exact hnew (h.present key (Nat.pos_of_ne_zero hne))
      simp [oneMore, hzero]
  · intro k hk
    simp only
    rw [List.map_append, List.mem_append]
    by_cases hkey : k = key
    · exact .inr (by simp [hkey])
    · refine .inl (h.present k ?_)
      simpa [oneMore, hkey] using hk

/-- a commit gives the reserved bytes back; when it returns a lease the entry is new -/
theorem commit_ok (h : c.Ok opened reserved) {bytes : Int} (hb : bytes ≤ reserved)
    (hpos : 0 ≤ bytes) (key : WeightKey) (value : T) (actualBytes : Int) :
    (∃ diagnostic c', c.commit bytes key value actualBytes = (.error diagnostic, c') ∧
        c'.Ok opened (reserved - bytes) ∧ c'.entries = c.entries ∧
        (diagnostic = "DRAM cache key is already present" → (c.find key).isSome)) ∨
      ∃ c', c.commit bytes key value actualBytes = (.ok value, c') ∧ c.find key = none ∧
        c'.Ok (oneMore opened key) (reserved - bytes) ∧
        c'.entries = c.entries ++ [(key, ⟨value, actualBytes, 1⟩)] := by
  obtain ⟨c1, hcancel, hok, hentries⟩ := cancel_ok h hb hpos
  have hreserved := h.reserved
  have hc1 : c1 = { c with reservedBytes := c.reservedBytes - bytes } := by
    unfold cancel at hcancel
    rw [if_neg (by omega)] at hcancel
    cases hcancel
    rfl
  unfold commit
  by_cases hactual : actualBytes ≤ 0
  · rw [if_pos hactual, hcancel]
    exact .inl ⟨_, c1, rfl, hok, hentries, fun h => absurd h (by decide)⟩
  · rw [if_neg hactual, if_neg (by omega)]
    subst hc1
    simp only
    by_cases hlarge : bytes < actualBytes
    · rw [if_pos hlarge]
      exact .inl ⟨_, _, rfl, hok, rfl, fun h => absurd h (by decide)⟩
    · rw [if_neg hlarge]
      split
      · rename_i hpresent
        exact .inl ⟨_, _, rfl, hok, rfl, fun _ => hpresent⟩
      · rename_i hpresent
        have hnone : c.find key = none := by
          have hsome : ¬ (c.find key).isSome = true := hpresent
          simpa using hsome
        have hbound := h.bound
        refine .inr ⟨_, rfl, hnone, insert_ok hok hnone value (by omega) ?_, rfl⟩
        simp only
        omega

theorem remove_ok (h : c.Ok opened reserved) (key : WeightKey) :
    (c.remove key).2.Ok opened reserved ∧
      ((c.remove key).2 = c ∨ opened key = 0 ∧
        (c.remove key).2.entries = Assoc.erase c.entries key) := by
  unfold remove
  split
  · exact ⟨h, .inl rfl⟩
  · rename_i record hf
    split
    · exact ⟨h, .inl rfl⟩
    · rename_i hzero
      rw [not_not] at hzero
      exact ⟨pop_ok h hf hzero, .inr ⟨h.not_opened hf hzero, pop_entries hf⟩⟩

theorem clear_ok (h : c.Ok opened reserved) :
    c.clear.2.Ok opened reserved ∧
      (c.clear.2 = c ∨ (∀ key, opened key = 0) ∧ c.clear.2.entries = []) := by
  unfold clear
  split
  · exact ⟨h, .inl rfl⟩
  · split
    · exact ⟨h, .inl rfl⟩
    · rename_i hreserved hreferences
      have hzero : ∀ key, opened key = 0 := by
        intro key
        by_contra hne
        obtain ⟨record, hf⟩ := h.find_of_opened (Nat.pos_of_ne_zero hne)
        have hmem := h.find_iff.mp hf
        have hcount := h.references _ hmem
        refine hreferences (List.any_eq_true.mpr ⟨_, hmem, ?_⟩)
        simp only at hcount ⊢
        simp only [decide_eq_true_eq]
        omega
      have hbound := h.bound
      have hpos : 0 ≤ c.usedBytes := by
        rw [h.used]
        exact List.sum_nonneg fun n hn => by
          obtain ⟨e, he, rfl⟩ := List.mem_map.mp hn
          exact Int.le_of_lt (h.positive e he)
      refine ⟨⟨List.nodup_nil, by simp, rfl, h.reserved, ?_, by simp, ?_⟩, .inr ⟨hzero, rfl⟩⟩
      · simp only
        omega
      · intro key hk
        rw [hzero key] at hk
        exact absurd hk (Nat.lt_irrefl 0)

/-! ## entries that are in use -/

/-- every entry with an open lease stays, with its value -/
def Keeps (c c' : DramCache T) (opened : WeightKey → Nat) : Prop :=
  ∀ e ∈ c.entries, 0 < opened e.1 → ∃ record, (e.1, record) ∈ c'.entries ∧
    record.value = e.2.value

theorem Keeps.of_entries {c' : DramCache T} (h : c'.entries = c.entries) : c.Keeps c' opened :=
  fun e he _ => ⟨e.2, by rw [h]; exact he, rfl⟩

theorem acquire_cases (c : DramCache T) (key : WeightKey) :
    c.find key = none ∧ c.acquire key = (none, c) ∨
      ∃ record, c.find key = some record ∧ c.acquire key = (some record.value, { c with
        entries := Assoc.erase c.entries key ++
          [(key, { record with references := record.references + 1 })] }) := by
  unfold acquire
  cases hf : c.find key with
  | none => exact .inl ⟨rfl, rfl⟩
  | some record => exact .inr ⟨record, rfl, rfl⟩

theorem acquire_keeps (h : c.Ok opened reserved) (key : WeightKey) :
    c.Keeps (c.acquire key).2 opened := by
  rcases acquire_cases c key with ⟨_, ha⟩ | ⟨record, hf, ha⟩
  · rw [ha]
    exact .of_entries rfl
  · rw [ha]
    intro e he _
    simp only
    by_cases hkey : e.1 = key
    · have hsame : e.2 = record := by
        rw [← hkey, h.find_iff.mpr he] at hf
        exact Option.some.inj hf
      exact ⟨_, List.mem_append_right _ (by rw [hkey]; exact List.mem_singleton_self _),
        by rw [hsame]⟩
    · exact ⟨e.2, List.mem_append_left _ (Assoc.mem_erase.mpr ⟨he, hkey⟩), rfl⟩

theorem Evicted.keeps (h : c.Ok opened reserved) {c' : DramCache T}
    {r : WeightKey → WeightKey → Prop} {victims : List WeightKey} (hev : Evicted c c' r victims) :
    c.Keeps c' opened := by
  intro e he hopen
  refine ⟨e.2, ?_, rfl⟩
  rw [hev.entries]
  refine List.mem_filter.mpr ⟨he, decide_eq_true ?_⟩
  intro hvictim
  obtain ⟨record, hmem, hzero⟩ := hev.unreferenced e.1 hvictim
  have hnone := h.not_opened (h.find_iff.mpr hmem) hzero
  omega

theorem release_keeps (key : WeightKey) : c.Keeps (c.release key).2 opened := by
  unfold release
  split
  · exact .of_entries rfl
  · split
    · exact .of_entries rfl
    · intro e he _
      refine ⟨if e.1 = key then { e.2 with references := e.2.references - 1 } else e.2,
        List.mem_map.mpr ⟨e, he, ?_⟩, ?_⟩
      · split_ifs <;> rfl
      · split_ifs <;> rfl

theorem release_keys (key : WeightKey) :
    (c.release key).2.entries.map Prod.fst = c.entries.map Prod.fst := by
  unfold release
  split
  · rfl
  · split
    · rfl
    · simp only
      rw [List.map_map]
      refine List.map_congr_left fun e _ => ?_
      by_cases he : e.1 = key <;> simp [he]

theorem remove_keeps (h : c.Ok opened reserved) (key : WeightKey) :
    c.Keeps (c.remove key).2 opened := by
  rcases (remove_ok h key).2 with hsame | ⟨hnone, hentries⟩
  · rw [hsame]
    exact .of_entries rfl
  · intro e he hopen
    rw [hentries]
    refine ⟨e.2, Assoc.mem_erase.mpr ⟨he, ?_⟩, rfl⟩
    intro hkey
    rw [hkey, hnone] at hopen
    exact absurd hopen (Nat.lt_irrefl 0)

theorem clear_keeps (h : c.Ok opened reserved) : c.Keeps c.clear.2 opened := by
  rcases (clear_ok h).2 with hsame | ⟨hnone, _⟩
  · rw [hsame]
    exact .of_entries rfl
  · intro e _ hopen
    rw [hnone] at hopen
    exact absurd hopen (Nat.lt_irrefl 0)

end

end DramCache

/-! ## callers -/

/-- how far `commit` or `cancel` has come; both mark the reservation before they take the lock -/
inductive Settling (T : Type) where
  | held
  | committing (key : WeightKey) (value : T) (actualBytes : Int)
  | cancelling
  | finished

structure DramReservation (T : Type) where
  reservedBytes : Int
  settling : Settling T

/-- what a reservation holds of the budget, until the locked section of `commit` or `cancel` -/
def DramReservation.pending {T : Type} (r : DramReservation T) : Int :=
  match r.settling with
  | .finished => 0
  | _ => r.reservedBytes

/-- how far `close` has come -/
inductive Closing where
  | opened
  | closing
  | closed
deriving DecidableEq, Repr

structure DramCacheLease (T : Type) where
  key : WeightKey
  value : T
  closing : Closing

/-- a lease is open until the locked section of `close` -/
def DramCacheLease.isOpen {T : Type} (l : DramCacheLease T) : Bool := decide (l.closing ≠ .closed)

/-- the cache, the calls of `reserve` that wait for room, all reservations and leases ever handed
out, and the keys in the order in which they were acquired or committed, newest first -/
structure CacheRun (T : Type) where
  cache : DramCache T
  waiting : List Int
  reservations : List (DramReservation T)
  leases : List (DramCacheLease T)
  touched : List WeightKey

inductive CacheOp (T : Type) where
  | reserve (byteCount : Int)
  /-- a call of `reserve` runs its loop body -/
  | admitCall (call : Nat)
  | commit (reservation : Nat) (key : WeightKey) (value : T) (actualBytes : Int)
  | cancel (reservation : Nat)
  /-- the locked section of `commit` or `cancel` -/
  | settle (reservation : Nat)
  | acquire (key : WeightKey)
  | close (lease : Nat)
  /-- the locked section of `close` -/
  | release (lease : Nat)
  | remove (key : WeightKey)
  | clear

namespace CacheRun

section
variable {T : Type}

def new (maxBytes : Int) : CacheRun T := ⟨.new maxBytes, [], [], [], []⟩

def mark (s : CacheRun T) (i : Nat) (r : DramReservation T) (settling : Settling T) : CacheRun T :=
  match r.settling with
  | .held => { s with reservations := s.reservations.set i { r with settling := settling } }
  | _ => s

def finish (s : CacheRun T) (i : Nat) (r : DramReservation T) (c : DramCache T) : CacheRun T :=
  { s with cache := c, reservations := s.reservations.set i { r with settling := .finished } }

def settle (s : CacheRun T) (i : Nat) (r : DramReservation T) : Option (CacheRun T) :=
  match r.settling with
  | .committing key value actualBytes =>
    match s.cache.commit r.reservedBytes key value actualBytes with
    | (.error _, c) => some (s.finish i r c)
    | (.ok value, c) =>
      let s := s.finish i r c
      some { s with
        leases := s.leases ++ [⟨key, value, .opened⟩], touched := key :: s.touched }
  | .cancelling => some (s.finish i r (s.cache.cancel r.reservedBytes).2)
  | _ => none

def step (s : CacheRun T) : CacheOp T → Option (CacheRun T)
  | .reserve byteCount =>
    match s.cache.checkReserve byteCount with
    | some _ => some s
    | none => some { s with waiting := s.waiting ++ [byteCount] }
  | .admitCall call =>
    match s.waiting[call]? with
    | none => none
    | some byteCount =>
      match s.cache.reserve byteCount with
      | (true, c) => some { s with
          cache := c
          waiting := s.waiting.eraseIdx call
          reservations := s.reservations ++ [⟨byteCount, .held⟩] }
      | (false, c) => some { s with cache := c }
  | .commit i key value actualBytes =>
    (s.reservations[i]?).map fun r => s.mark i r (.committing key value actualBytes)
  | .cancel i => (s.reservations[i]?).map fun r => s.mark i r .cancelling
  | .settle i => (s.reservations[i]?).bind fun r => s.settle i r
  | .acquire key =>
    match s.cache.acquire key with
    | (none, c) => some { s with cache := c }
    | (some value, c) => some { s with
        cache := c, leases := s.leases ++ [⟨key, value, .opened⟩], touched := key :: s.touched }
  | .close i =>
    (s.leases[i]?).map fun l =>
      if l.closing = .opened then { s with leases := s.leases.set i { l with closing := .closing } }
      else s
  | .release i =>
    (s.leases[i]?).bind fun l =>
      if l.closing = .closing then some { s with
        cache := (s.cache.release l.key).2
        leases := s.leases.set i { l with closing := .closed } }
      else none
  | .remove key => some { s with cache := (s.cache.remove key).2 }
  | .clear => some { s with cache := s.cache.clear.2 }

def run (s : CacheRun T) (ops : List (CacheOp T)) : Option (CacheRun T) :=
  Steps.run step (fun _ _ => true) s ops

/-! ## the accounting of the callers -/

def openLeases (leases : List (DramCacheLease T)) (key : WeightKey) : Nat :=
  leases.countP fun l => l.isOpen && decide (l.key = key)

def pendingBytes (s : CacheRun T) : Int := (s.reservations.map DramReservation.pending).sum

/-- `a` was acquired or committed less recently than `b` -/
def LessRecent (touched : List WeightKey) (a b : WeightKey) : Prop :=
  touched.idxOf b < touched.idxOf a

structure Inv (s : CacheRun T) : Prop where
  ok : s.cache.Ok (openLeases s.leases) s.pendingBytes
  values : ∀ l ∈ s.leases, l.isOpen → ∃ record, s.cache.find l.key = some record ∧
    record.value = l.value
  recent : (s.cache.entries.map Prod.fst).Pairwise (LessRecent s.touched)
  positive : ∀ r ∈ s.reservations, 0 < r.reservedBytes
  waiting : ∀ byteCount ∈ s.waiting, 0 < byteCount

theorem openLeases_append (leases : List (DramCacheLease T)) (key : WeightKey) (value : T) :
    openLeases (leases ++ [⟨key, value, .opened⟩])
      = DramCache.oneMore (openLeases leases) key := by
  funext k
  unfold openLeases DramCache.oneMore
  rw [List.countP_append]
  congr 1
  by_cases hk : key = k
  · simp [DramCacheLease.isOpen, hk]
  · simp [DramCacheLease.isOpen, hk, Ne.symm hk]

theorem openLeases_set (leases : List (DramCacheLease T)) {i : Nat} {l m : DramCacheLease T}
    (hl : leases[i]? = some l) (hopen : l.isOpen = true) (hkey : m.key = l.key) :
    openLeases (leases.set i m) = if m.isOpen = true then openLeases leases
      else DramCache.oneLess (openLeases leases) l.key := by
  funext k
  have hset := Ledger.countP_set hl m fun l => l.isOpen && decide (l.key = k)
  rw [hopen, hkey, Bool.true_and] at hset
  unfold DramCache.oneLess openLeases
  cases hopen' : m.isOpen with
  | true =>
    rw [if_pos rfl]
    rw [hopen', Bool.true_and] at hset
    omega
  | false =>
    rw [if_neg Bool.false_ne_true]
    rw [hopen', Bool.false_and, if_neg Bool.false_ne_true] at hset
    by_cases hk : l.key = k
    · rw [if_pos (decide_eq_true hk)] at hset
      rw [if_pos hk.symm]
      omega
    · rw [if_neg (by simpa using hk)] at hset
      rw [if_neg (Ne.symm hk)]
      omega

theorem mark_pending {s : CacheRun T} {i : Nat} {r : DramReservation T}
    (hr : s.reservations[i]? = some r) {settling : Settling T} (hs : settling ≠ .finished) :
    (s.mark i r settling).pendingBytes = s.pendingBytes := by
  unfold mark
  split
  · rename_i hheld
    have hsum := Ledger.sum_map_set hr { r with settling := settling } DramReservation.pending
    have h1 : r.pending = r.reservedBytes := by
      unfold DramReservation.pending
      rw [hheld]
    have h2 : ({ r with settling := settling } : DramReservation T).pending = r.reservedBytes := by
      unfold DramReservation.pending
      split
      · rename_i hfinished
        exact absurd hfinished hs
      · rfl
    rw [h1, h2] at hsum
    exact add_right_cancel hsum
  · rfl

theorem finish_pending {s : CacheRun T} {i : Nat} {r : DramReservation T}
    (hr : s.reservations[i]? = some r) (hp : r.pending = r.reservedBytes) (c : DramCache T) :
    (s.finish i r c).pendingBytes = s.pendingBytes - r.reservedBytes := by
  have hsum := Ledger.sum_map_set hr { r with settling := .finished } DramReservation.pending
  rw [hp] at hsum
  have hzero : ({ r with settling := .finished } : DramReservation T).pending = 0 := rfl
  rw [hzero, add_zero] at hsum
  exact eq_sub_of_add_eq hsum

theorem Inv.pending_nonneg {s : CacheRun T} (h : s.Inv) :
    ∀ r ∈ s.reservations, 0 ≤ r.pending := by
  intro r hr
  have hpos := h.positive r hr
  unfold DramReservation.pending
  split
  · exact Int.le_refl 0
  · exact Int.le_of_lt hpos

theorem Inv.pending_le {s : CacheRun T} (h : s.Inv) {i : Nat} {r : DramReservation T}
    (hr : s.reservations[i]? = some r) (hp : r.pending = r.reservedBytes) :
    r.reservedBytes ≤ s.pendingBytes := by
  rw [← hp]
  refine List.single_le_sum ?_ _ (List.mem_map_of_mem (List.mem_of_getElem? hr))
  intro n hn
  obtain ⟨r', hr', rfl⟩ := List.mem_map.mp hn
  exact h.pending_nonneg r' hr'

/-! ## one step -/

/-- the entries of the leases that stay open keep their values -/
theorem Inv.values_step {s : CacheRun T} (h : s.Inv) {c' : DramCache T} {reserved : Int}
    {opened : WeightKey → Nat} (hok : c'.Ok opened reserved)
    (hkeeps : s.cache.Keeps c' (openLeases s.leases)) {l : DramCacheLease T} (hl : l ∈ s.leases)
    (hopen : l.isOpen = true) :
    ∃ record, c'.find l.key = some record ∧ record.value = l.value := by
  obtain ⟨record, hf, hvalue⟩ := h.values l hl hopen
  have hcount : 0 < openLeases s.leases l.key :=
    List.countP_pos_iff.mpr ⟨l, hl, by simp [hopen]⟩
  obtain ⟨record', hmem, hvalue'⟩ := hkeeps _ (h.ok.find_iff.mp hf) hcount
  exact ⟨record', hok.find_iff.mpr hmem, hvalue'.trans hvalue⟩

/-- `key` becomes the most recent one -/
theorem recent_touch {keys : List WeightKey} {touched : List WeightKey}
    (h : keys.Pairwise (LessRecent touched)) {key : WeightKey} (hkey : key ∉ keys) :
    (keys ++ [key]).Pairwise (LessRecent (key :: touched)) := by
  have hidx : ∀ k, k ≠ key → (key :: touched).idxOf k = touched.idxOf k + 1 := by
    intro k hk
    rw [List.idxOf_cons_ne _ (Ne.symm hk)]
  rw [List.pairwise_append]
  refine ⟨?_, List.pairwise_singleton _ _, ?_⟩
  · refine h.imp_of_mem ?_
    intro a b ha hb hlt
    unfold LessRecent at hlt ⊢
    rw [hidx a (fun e => hkey (e ▸ ha)), hidx b (fun e => hkey (e ▸ hb))]
    omega
  · intro a ha b hb
    rw [List.mem_singleton.mp hb]
    unfold LessRecent
    rw [List.idxOf_cons_self, hidx a (fun e => hkey (e ▸ ha))]
    omega

/-- what one step does to the entries -/
structure Moves (s s' : CacheRun T) (op : CacheOp T) : Prop where
  keeps : s.cache.Keeps s'.cache (openLeases s.leases)
  stays : (∀ call, op ≠ .admitCall call) → (∀ key, op ≠ .remove key) → op ≠ .clear →
    ∀ key ∈ s.cache.entries.map Prod.fst, key ∈ s'.cache.entries.map Prod.fst
  evicts : ∀ call, op = .admitCall call → ∃ victims,
    DramCache.Evicted s.cache s'.cache (LessRecent s.touched) victims

theorem Moves.same {s s' : CacheRun T} {op : CacheOp T} (h : s'.cache.entries = s.cache.entries) :
    s.Moves s' op where
  keeps := .of_entries h
  stays := fun _ _ _ key hk => h ▸ hk
  evicts := fun _ _ => ⟨[], by simpa using h, by simp, List.Pairwise.nil, by simp⟩

theorem Inv.acquired {s : CacheRun T} (h : s.Inv) {key : WeightKey} {value : T}
    {c : DramCache T} (ha : s.cache.acquire key = (some value, c)) :
    ({ s with
        cache := c
        leases := s.leases ++ [⟨key, value, .opened⟩]
        touched := key :: s.touched } : CacheRun T).Inv ∧
      s.cache.Keeps c (openLeases s.leases) ∧
      ∀ k ∈ s.cache.entries.map Prod.fst, k ∈ c.entries.map Prod.fst := by
  have hok := DramCache.acquire_ok h.ok ha
  have hkeeps := DramCache.acquire_keeps h.ok key
  rcases DramCache.acquire_cases s.cache key with ⟨_, hmiss⟩ | ⟨record, hf, hhit⟩
  · rw [hmiss] at ha
    cases ha
  · rw [ha] at hkeeps
    rw [hhit] at ha
    cases ha
    refine ⟨⟨?_, ?_, ?_, h.positive, h.waiting⟩, hkeeps, ?_⟩
    · rw [openLeases_append]
      exact hok
    · intro l hl hopen
      rcases List.mem_append.mp hl with hl | hl
      · exact h.values_step hok hkeeps hl hopen
      · rw [List.mem_singleton.mp hl]
        exact ⟨_, hok.find_iff.mpr (List.mem_append_right _ (List.mem_singleton_self _)), rfl⟩
    · simp only
      rw [List.map_append]
      refine recent_touch (h.recent.sublist ((Assoc.erase_sublist _ _).map _)) ?_
      rw [Assoc.keys_erase, List.mem_filter]
      simp
    · intro k hk
      simp only
      rw [List.map_append, List.mem_append, Assoc.keys_erase, List.mem_filter]
      by_cases hkey : k = key
      · exact .inr (by simp [hkey])
      · exact .inl ⟨hk, by simpa using hkey⟩

theorem Inv.admitted {s s' : CacheRun T} (h : s.Inv) {call : Nat}
    (hs : s.step (.admitCall call) = some s') : s'.Inv ∧ s.Moves s' (.admitCall call) := by
  simp only [step] at hs
  split at hs
  · cases hs
  · rename_i byteCount hcall
    have hpos := h.waiting byteCount (List.mem_of_getElem? hcall)
    obtain ⟨hroom, hev⟩ := DramCache.reserve_ok h.ok byteCount
    obtain ⟨victims, hev⟩ := hev _ h.recent
    have hkeeps := hev.keeps h.ok
    have hrecent : ((s.cache.reserve byteCount).2.entries.map Prod.fst).Pairwise
        (LessRecent s.touched) := by
      rw [hev.entries]
      exact h.recent.sublist (List.filter_sublist.map _)
    have hmoves : ∀ s' : CacheRun T, s'.cache = (s.cache.reserve byteCount).2 →
        s.Moves s' (.admitCall call) := by
      intro s' hc
      refine ⟨hc ▸ hkeeps, fun hno => absurd rfl (hno call), fun _ _ => ⟨victims, hc ▸ hev⟩⟩
    rcases hroom with ⟨hyes, hok⟩ | ⟨hno, hok⟩
    · split at hs
      · rename_i c heq
        cases hs
        have hc : c = (s.cache.reserve byteCount).2 := by rw [heq]
        subst hc
        refine ⟨⟨?_, ?_, hrecent, ?_, ?_⟩, hmoves _ rfl⟩
        · have hsum : ((s.reservations ++ [(⟨byteCount, .held⟩ : DramReservation T)]).map
              DramReservation.pending).sum = s.pendingBytes + byteCount := by
            rw [List.map_append, List.sum_append]
            simp [pendingBytes, DramReservation.pending]
          show DramCache.Ok _ _ _
          unfold pendingBytes
          rw [hsum]
          exact hok
        · intro l hl hopen
          exact h.values_step hok hkeeps hl hopen
        · intro r hr
          rcases List.mem_append.mp hr with hr | hr
          · exact h.positive r hr
          · rw [List.mem_singleton.mp hr]
            exact hpos
        · intro b hb
          exact h.waiting b (List.mem_of_mem_eraseIdx hb)
      · rename_i c heq
        rw [heq] at hyes
        cases hyes
    · split at hs
      · rename_i c heq
        rw [heq] at hno
        cases hno
      · rename_i c heq
        cases hs
        have hc : c = (s.cache.reserve byteCount).2 := by rw [heq]
        subst hc
        exact ⟨⟨hok, fun l hl hopen => h.values_step hok hkeeps hl hopen, hrecent, h.positive,
          h.waiting⟩, hmoves _ rfl⟩

theorem Inv.marked {s : CacheRun T} (h : s.Inv) {i : Nat} {r : DramReservation T}
    (hr : s.reservations[i]? = some r) {settling : Settling T} (hs : settling ≠ .finished) :
    (s.mark i r settling).Inv := by
  have hpending := mark_pending hr hs
  have hfields : (s.mark i r settling).cache = s.cache ∧ (s.mark i r settling).leases = s.leases ∧
      (s.mark i r settling).touched = s.touched ∧ (s.mark i r settling).waiting = s.waiting ∧
      ∀ r' ∈ (s.mark i r settling).reservations, 0 < r'.reservedBytes := by
    unfold mark
    split
    · refine ⟨rfl, rfl, rfl, rfl, fun r' hr' => ?_⟩
      rcases List.mem_or_eq_of_mem_set hr' with hr' | rfl
      · exact h.positive r' hr'
      · exact h.positive r (List.mem_of_getElem? hr)
    · exact ⟨rfl, rfl, rfl, rfl, h.positive⟩
  obtain ⟨hcache, hleases, htouched, hwaiting, hpositive⟩ := hfields
  refine ⟨?_, ?_, ?_, hpositive, ?_⟩
  · rw [hcache, hleases, hpending]
    exact h.ok
  · rw [hcache, hleases]
    exact h.values
  · rw [hcache, htouched]
    exact h.recent
  · rw [hwaiting]
    exact h.waiting

/-- a settled reservation gives its bytes back, and the entries stay in their order -/
theorem Inv.finished {s : CacheRun T} (h : s.Inv) {i : Nat} {r : DramReservation T}
    (hr : s.reservations[i]? = some r) (hp : r.pending = r.reservedBytes) {c : DramCache T}
    (hok : c.Ok (openLeases s.leases) (s.pendingBytes - r.reservedBytes))
    (hentries : c.entries = s.cache.entries) : (s.finish i r c).Inv := by
  refine ⟨?_, ?_, ?_, ?_, h.waiting⟩
  · rw [finish_pending hr hp]
    exact hok
  · intro l hl hopen
    exact h.values_step hok (.of_entries hentries) hl hopen
  · show (c.entries.map Prod.fst).Pairwise _
    rw [hentries]
    exact h.recent
  · intro r' hr'
    rcases List.mem_or_eq_of_mem_set hr' with hr' | rfl
    · exact h.positive r' hr'
    · exact h.positive r (List.mem_of_getElem? hr)

theorem Inv.settled {s s' : CacheRun T} (h : s.Inv) {i : Nat} {r : DramReservation T}
    (hr : s.reservations[i]? = some r) (hs : s.settle i r = some s') :
    s'.Inv ∧ s.Moves s' (.settle i) := by
  have hpos := h.positive r (List.mem_of_getElem? hr)
  unfold settle at hs
  split at hs
  · rename_i key value actualBytes hsettling
    have hp : r.pending = r.reservedBytes := by
      unfold DramReservation.pending
      rw [hsettling]
    rcases DramCache.commit_ok h.ok (h.pending_le hr hp) (Int.le_of_lt hpos) key value actualBytes
      with ⟨diagnostic, c, hcommit, hok, hentries, _⟩ | ⟨c, hcommit, hnone, hok, hentries⟩
    · rw [hcommit] at hs
      cases hs
      exact ⟨h.finished hr hp hok hentries, .same hentries⟩
    · rw [hcommit] at hs
      cases hs
      have hkeeps : s.cache.Keeps c (openLeases s.leases) := fun e he _ =>
        ⟨e.2, hentries ▸ List.mem_append_left _ he, rfl⟩
      refine ⟨⟨?_, ?_, ?_, ?_, h.waiting⟩, ⟨hkeeps, ?_, fun _ hop => by cases hop⟩⟩
      · show DramCache.Ok c (openLeases (s.leases ++ [⟨key, value, .opened⟩]))
          (s.finish i r c).pendingBytes
        rw [openLeases_append, finish_pending hr hp]
        exact hok
      · intro l hl hopen
        rcases List.mem_append.mp hl with hl | hl
        · exact h.values_step hok hkeeps hl hopen
        · rw [List.mem_singleton.mp hl]
          refine ⟨⟨value, actualBytes, 1⟩, hok.find_iff.mpr ?_, rfl⟩
          rw [hentries]
          simp
      · show (c.entries.map Prod.fst).Pairwise _
        rw [hentries, List.map_append]
        exact recent_touch h.recent (Assoc.lookup_none_iff.mp hnone)
      · intro r' hr'
        rcases List.mem_or_eq_of_mem_set hr' with hr' | rfl
        · exact h.positive r' hr'
        · exact hpos
      · intro _ _ _ k hk
        show k ∈ c.entries.map Prod.fst
        rw [hentries, List.map_append]
        exact List.mem_append_left _ hk
  · rename_i hsettling
    have hp : r.pending = r.reservedBytes := by
      unfold DramReservation.pending
      rw [hsettling]
    obtain ⟨c, hcancel, hok, hentries⟩ :=
      DramCache.cancel_ok h.ok (h.pending_le hr hp) (Int.le_of_lt hpos)
    rw [hcancel] at hs
    cases hs
    exact ⟨h.finished hr hp hok hentries, .same hentries⟩
  · cases hs

theorem Inv.released {s : CacheRun T} (h : s.Inv) {i : Nat} {l : DramCacheLease T}
    (hl : s.leases[i]? = some l) (hc : l.closing = .closing) :
    ({ s with
        cache := (s.cache.release l.key).2
        leases := s.leases.set i { l with closing := .closed } } : CacheRun T).Inv := by
  have hopen : l.isOpen = true := by
    unfold DramCacheLease.isOpen
    rw [hc]
    rfl
  have hcount : 0 < openLeases s.leases l.key :=
    List.countP_pos_iff.mpr ⟨l, List.mem_of_getElem? hl, by simp [hopen]⟩
  obtain ⟨c, hrelease, hok⟩ := DramCache.release_ok h.ok hcount
  have hkeeps : s.cache.Keeps (s.cache.release l.key).2 (openLeases s.leases) :=
    DramCache.release_keeps l.key
  have hkeys := DramCache.release_keys (c := s.cache) l.key
  rw [hrelease] at hkeeps hkeys ⊢
  refine ⟨?_, ?_, ?_, h.positive, h.waiting⟩
  · have hset := openLeases_set s.leases hl hopen
      (m := { l with closing := .closed }) rfl
    show DramCache.Ok c (openLeases (s.leases.set i { l with closing := .closed })) s.pendingBytes
    rw [hset, if_neg (by simp [DramCacheLease.isOpen])]
    exact hok
  · intro l' hl' hopen'
    rcases List.mem_or_eq_of_mem_set hl' with hl' | rfl
    · exact h.values_step hok hkeeps hl' hopen'
    · simp [DramCacheLease.isOpen] at hopen'
  · show (c.entries.map Prod.fst).Pairwise _
    rw [hkeys]
    exact h.recent

/-- the step lemma: what every step keeps, and what it takes away -/
theorem Inv.step {s s' : CacheRun T} (h : s.Inv) {op : CacheOp T} (hs : s.step op = some s') :
    s'.Inv ∧ s.Moves s' op := by
  cases op with
  | reserve byteCount =>
    simp only [CacheRun.step] at hs
    split at hs
    · cases hs
      exact ⟨h, .same rfl⟩
    · rename_i hcheck
      cases hs
      refine ⟨⟨h.ok, h.values, h.recent, h.positive, fun b hb => ?_⟩, .same rfl⟩
      rcases List.mem_append.mp hb with hb | hb
      · exact h.waiting b hb
      · rw [List.mem_singleton.mp hb]
        unfold DramCache.checkReserve at hcheck
        split_ifs at hcheck with hpos
        omega
  | admitCall call => exact h.admitted hs
  | commit i key value actualBytes =>
    obtain ⟨r, hr, rfl⟩ := Option.map_eq_some_iff.mp hs
    refine ⟨h.marked hr (by simp), .same ?_⟩
    unfold mark
    split <;> rfl
  | cancel i =>
    obtain ⟨r, hr, rfl⟩ := Option.map_eq_some_iff.mp hs
    refine ⟨h.marked hr (by simp), .same ?_⟩
    unfold mark
    split <;> rfl
  | settle i =>
    obtain ⟨r, hr, hsettle⟩ := Option.bind_eq_some_iff.mp hs
    exact h.settled hr hsettle
  | acquire key =>
    simp only [CacheRun.step] at hs
    split at hs
    · rename_i c heq
      cases hs
      obtain ⟨rfl, _⟩ := DramCache.acquire_miss heq
      exact ⟨⟨h.ok, h.values, h.recent, h.positive, h.waiting⟩, .same rfl⟩
    · rename_i value c heq
      cases hs
      obtain ⟨hinv, hkeeps, hstays⟩ := h.acquired heq
      exact ⟨hinv, hkeeps, fun _ _ _ => hstays, fun _ hop => by cases hop⟩
  | close i =>
    obtain ⟨l, hl, rfl⟩ := Option.map_eq_some_iff.mp hs
    split_ifs with hopened
    · have hopen : l.isOpen = true := by
        unfold DramCacheLease.isOpen
        rw [hopened]
        rfl
      have hset := openLeases_set s.leases hl hopen (m := { l with closing := .closing }) rfl
      have hstill : ({ l with closing := .closing } : DramCacheLease T).isOpen = true := rfl
      rw [if_pos hstill] at hset
      refine ⟨⟨?_, ?_, h.recent, h.positive, h.waiting⟩, .same rfl⟩
      · show DramCache.Ok s.cache (openLeases (s.leases.set i { l with closing := .closing }))
          s.pendingBytes
        rw [hset]
        exact h.ok
      · intro l' hl' hopen'
        rcases List.mem_or_eq_of_mem_set hl' with hl' | rfl
        · exact h.values l' hl' hopen'
        · exact h.values l (List.mem_of_getElem? hl) hopen
    · exact ⟨h, .same rfl⟩
  | release i =>
    obtain ⟨l, hl, hrelease⟩ := Option.bind_eq_some_iff.mp hs
    split_ifs at hrelease with hclosing
    cases hrelease
    refine ⟨h.released hl hclosing, DramCache.release_keeps l.key, ?_, fun _ hop => by cases hop⟩
    intro _ _ _ k hk
    show k ∈ (s.cache.release l.key).2.entries.map Prod.fst
    rw [DramCache.release_keys]
    exact hk
  | remove key =>
    cases hs
    obtain ⟨hok, hcases⟩ := DramCache.remove_ok h.ok key
    have hkeeps := DramCache.remove_keeps h.ok key
    refine ⟨⟨hok, fun l hl hopen => h.values_step hok hkeeps hl hopen, ?_, h.positive, h.waiting⟩,
      hkeeps, fun _ hno => absurd rfl (hno key), fun _ hop => by cases hop⟩
    show ((s.cache.remove key).2.entries.map Prod.fst).Pairwise _
    rcases hcases with hsame | ⟨_, hentries⟩
    · rw [hsame]
      exact h.recent
    · rw [hentries]
      exact h.recent.sublist ((Assoc.erase_sublist _ _).map _)
  | clear =>
    cases hs
    obtain ⟨hok, hcases⟩ := DramCache.clear_ok h.ok
    have hkeeps := DramCache.clear_keeps h.ok
    refine ⟨⟨hok, fun l hl hopen => h.values_step hok hkeeps hl hopen, ?_, h.positive, h.waiting⟩,
      hkeeps, fun _ _ hno => absurd rfl hno, fun _ hop => by cases hop⟩
    show (s.cache.clear.2.entries.map Prod.fst).Pairwise _
    rcases hcases with hsame | ⟨_, hentries⟩
    · rw [hsame]
      exact h.recent
    · rw [hentries]
      exact List.Pairwise.nil

/-! ## runs -/

/-- the accounting, in the cache's own terms -/
structure Accounted (s : CacheRun T) : Prop where
  used : s.cache.usedBytes = (s.cache.entries.map fun e => e.2.byteCount).sum
  reserved : s.cache.reservedBytes = s.pendingBytes
  bound : s.cache.usedBytes + s.cache.reservedBytes ≤ s.cache.maxBytes
  references : ∀ e ∈ s.cache.entries, e.2.references = openLeases s.leases e.1
  held : ∀ l ∈ s.leases, l.isOpen → ∃ record, s.cache.find l.key = some record ∧
    record.value = l.value

theorem Inv.accounted {s : CacheRun T} (h : s.Inv) : s.Accounted :=
  ⟨h.ok.used, h.ok.reserved, h.ok.bound, h.ok.references, h.values⟩

theorem new_inv {maxBytes : Int} (h : 0 < maxBytes) : (new maxBytes : CacheRun T).Inv where
  ok := DramCache.new_ok (Int.le_of_lt h)
  values := by simp [new]
  recent := List.Pairwise.nil
  positive := by simp [new]
  waiting := by simp [new]

theorem run_inv {s s' : CacheRun T} (h : s.Inv) {ops : List (CacheOp T)}
    (hr : s.run ops = some s') : s'.Inv := by
  induction ops generalizing s with
  | nil =>
    cases hr
    exact h
  | cons op ops ih =>
    obtain ⟨s1, hs, hrest⟩ := Option.bind_eq_some_iff.mp hr
    exact ih (h.step hs).1 hrest

end

end CacheRun

/-- **DRAM cache accounting.**  After any run the budget, the references and the leases agree, and
no step takes an entry with an open lease away; a reservation evicts the unreferenced entries that
were acquired or committed least recently, one after the other. -/
theorem dram_cache_accounting {T : Type} (maxBytes : Int) (hpos : 0 < maxBytes)
    (ops : List (CacheOp T)) (s : CacheRun T) (hrun : (CacheRun.new maxBytes).run ops = some s) :
    s.Accounted ∧ ∀ op s', s.step op = some s' → s.Moves s' op :=
  have hinv := CacheRun.run_inv (CacheRun.new_inv hpos) hrun
  ⟨hinv.accounted, fun _ _ hs => (hinv.step hs).2⟩

/-- the second reservation evicts the entry whose lease was closed -/
theorem dram_cache_accounting_evicts :
    ∃ s, (CacheRun.new 10).run [.reserve 6, .admitCall 0, .commit 0 ⟨0, 0⟩ "w" 5, .settle 0,
        .reserve 6, .admitCall 0, .close 0, .release 0, .admitCall 0] = some s ∧
      s.Accounted ∧ s.cache.entries.length = 0 ∧ s.cache.reservedBytes = 6 := by
  obtain ⟨s, hs, hcheck⟩ := (Option.any_eq_true (fun s : CacheRun String =>
      decide (s.cache.entries.length = 0 ∧ s.cache.reservedBytes = 6))
    ((CacheRun.new 10).run [.reserve 6, .admitCall 0, .commit 0 ⟨0, 0⟩ "w" 5, .settle 0,
        .reserve 6, .admitCall 0, .close 0, .release 0, .admitCall 0])).mp (by decide +kernel)
  exact ⟨s, hs, (dram_cache_accounting 10 (by decide) _ s hs).1, of_decide_eq_true hcheck⟩

end ExpertKit.Worker

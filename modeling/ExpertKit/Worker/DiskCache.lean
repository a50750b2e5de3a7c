import ExpertKit.Worker.DirectWrites

/-!
# Worker: the persistent weight cache

All runs of `CacheDisk.step`: the writes, reads, removals and cleanups of any number of processes on
one cache directory, with calls that raise, processes that die and power failures in any order.

* `DiskEvent.Legal`   what the code relies on;
* `Complete`          what may be at a path: all of a file that was there, or of a source;
* `Inv`               the invariant, `Inv.step` for one step;
* `complete_files`    paths hold and reads return complete files only;
* `returned_writes_last`   temporary files, and what is left of a write that returned.
-/

namespace ExpertKit.Worker.DirectIo
open Files

/-! ## the machine -/

/-- a volume after a boot -/
structure Mounted (v₀ : Volume Path) : Prop where
  bounded : ∀ n i, v₀.names n = some i → i < v₀.inodes.length
  synced : ∀ inode ∈ v₀.inodes, inode.synced = true
  stale : ∀ n, v₀.stale n = []

def CacheDisk.new (v₀ : Volume Path) : CacheDisk := ⟨v₀, [], [], [], [], fun _ => none⟩

/-- the content was there at the start, or is the source of a write to the path that moved it -/
def Complete (v₀ : Volume Path) (x : CacheDisk) (path : Path) (bytes : List UInt8) : Prop :=
  v₀.content path = some bytes ∨
    ∃ w ∈ x.writes, w.moved = true ∧ w.path = path ∧ w.source.view = bytes

/-- the file was there at the start, or was moved to the path -/
def Published (v₀ : Volume Path) (x : CacheDisk) (path : Path) (i : Nat) : Prop :=
  v₀.names path = some i ∨ ∃ w ∈ x.writes, w.moved = true ∧ w.path = path ∧ w.file = some i

/-- what the code relies on: targets are no temporary files, and identifiers are fresh -/
def DiskEvent.Legal (v₀ : Volume Path) (x : CacheDisk) : DiskEvent → Prop
  | .beginWrite pid path _ uuid =>
    ¬temporaryPrefix.toList <+: path.name.toList ∧
      v₀.names ⟨path.parent, temporaryName pid uuid⟩ = none ∧
      ∀ w ∈ x.writes, w.temporary ≠ ⟨path.parent, temporaryName pid uuid⟩
  | .beginRead _ path _ => ¬temporaryPrefix.toList <+: path.name.toList
  | .remove path => ¬temporaryPrefix.toList <+: path.name.toList
  | .powerFailure after => Fails x.volume after
  | _ => True

/-- a read between two calls -/
def Read.PhaseOk (v₀ : Volume Path) (x : CacheDisk) (r : Read) : Prop :=
  match r.phase with
  | .stat file => Published v₀ x r.path file
  | .allocate file size =>
    Published v₀ x r.path file ∧ size = (x.volume.dataOf file).length ∧
      checkSize r.maxBytes size = .ok ()
  | .reading file size total buffer =>
    Published v₀ x r.path file ∧ size = (x.volume.dataOf file).length ∧
      checkSize r.maxBytes size = .ok () ∧ size ≤ buffer.length ∧ total ≤ size ∧
      buffer.take total = (x.volume.dataOf file).take total
  | .close (.ok bytes) => Complete v₀ x r.path bytes ∧ checkSize r.maxBytes bytes.length = .ok ()
  | .ended (.ok bytes) => Complete v₀ x r.path bytes ∧ checkSize r.maxBytes bytes.length = .ok ()
  | _ => True

structure Read.Ok (v₀ : Volume Path) (x : CacheDisk) (r : Read) : Prop where
  target : ¬temporaryPrefix.toList <+: r.path.name.toList
  phase : r.PhaseOk v₀ x

/-- a path that a cleanup is about to remove -/
structure CheckedOk (v₀ : Volume Path) (x : CacheDisk) (path : Path) : Prop where
  ended : ∀ w ∈ x.writes, w.temporary = path → w.ended = true
  used : temporaryPrefix.toList <+: path.name.toList →
    v₀.names path ≠ none ∨ ∃ w ∈ x.writes, w.temporary = path

/-- the write whose file was the last to replace what the path referred to -/
def LatestOk (x : CacheDisk) (path : Path) (k : Nat) : Prop :=
  ∃ w, x.writes[k]? = some w ∧ w.path = path ∧ w.moved = true ∧ x.volume.names path = w.file ∧
    (w.durable = true → x.volume.stale path = [])

/-- the names and files of the volume -/
structure VolumeOk (v₀ : Volume Path) (x : CacheDisk) : Prop where
  length : v₀.inodes.length ≤ x.volume.inodes.length
  original : ∀ i < v₀.inodes.length, x.volume.inodes[i]? = v₀.inodes[i]?
  names : ∀ n i, Refers x.volume n i → v₀.names n = some i ∨
    ∃ w ∈ x.writes, w.file = some i ∧ (n = w.temporary ∨ (n = w.path ∧ w.moved = true))

/-- the writes beside each other -/
structure WritesOk (v₀ : Volume Path) (x : CacheDisk) : Prop where
  each : ∀ w ∈ x.writes, w.Ok x.live x.volume
  temporaries : ∀ (k l : Nat) (w u : Write), x.writes[k]? = some w → x.writes[l]? = some u →
    w.temporary = u.temporary → k = l
  files : ∀ (k l : Nat) (w u : Write) (i : Nat), x.writes[k]? = some w →
    x.writes[l]? = some u → w.file = some i → u.file = some i → k = l
  fresh : ∀ w ∈ x.writes, v₀.names w.temporary = none
  later : ∀ w ∈ x.writes, ∀ i, w.file = some i → v₀.inodes.length ≤ i

structure Inv (v₀ : Volume Path) (x : CacheDisk) : Prop where
  pids : ∀ pid ∈ x.live, 0 < pid
  volume : VolumeOk v₀ x
  writes : WritesOk v₀ x
  reads : ∀ r ∈ x.reads, r.Ok v₀ x
  cleaners : ∀ path, .checked path ∈ x.cleaners → CheckedOk v₀ x path
  latest : ∀ path k, x.latest path = some k → LatestOk x path k

section
variable {v₀ : Volume Path} {x x' : CacheDisk} {path : Path} {i : Nat}

theorem inv_new (hm : Mounted v₀) : Inv v₀ (.new v₀) where
  pids _ h := absurd h List.not_mem_nil
  volume := ⟨Nat.le_refl _, fun _ _ => rfl, fun n i hr => .inl (hr.resolve_right fun hs => by
    rw [show (CacheDisk.new v₀).volume.stale n = [] from hm.stale n] at hs
    exact absurd hs List.not_mem_nil)⟩
  writes := ⟨fun _ h => absurd h List.not_mem_nil,
    fun _ _ _ _ h => absurd (List.mem_of_getElem? h) List.not_mem_nil,
    fun _ _ _ _ _ h => absurd (List.mem_of_getElem? h) List.not_mem_nil,
    fun _ h => absurd h List.not_mem_nil, fun _ h => absurd h List.not_mem_nil⟩
  reads _ h := absurd h List.not_mem_nil
  cleaners _ h := absurd h List.not_mem_nil
  latest _ k h := absurd (show none = some k from h) (Option.some_ne_none k).symm

theorem VolumeOk.bounded (hm : Mounted v₀) (h : VolumeOk v₀ x) (hw : WritesOk v₀ x) (n : Path)
    (i : Nat) (hr : Refers x.volume n i) : i < x.volume.inodes.length := by
  rcases h.names n i hr with h0 | ⟨w, hmem, hfile, -⟩
  · exact (hm.bounded n i h0).trans_le h.length
  · exact (hw.each w hmem).bound i hfile

/-- a path that is not temporary refers to a published file -/
theorem VolumeOk.published (h : VolumeOk v₀ x)
    (htarget : ¬temporaryPrefix.toList <+: path.name.toList) (hr : Refers x.volume path i) :
    Published v₀ x path i := by
  rcases h.names path i hr with h0 | ⟨w, hmem, hfile, htemporary | ⟨hpath, hmoved⟩⟩
  · exact .inl h0
  · exact absurd (htemporary ▸ temporary_marked w.pid w.uuid) htarget
  · exact .inr ⟨w, hmem, hmoved, hpath.symm, hfile⟩

/-- a published file is complete and certain -/
theorem Published.complete (hm : Mounted v₀) (hv : VolumeOk v₀ x) (hw : WritesOk v₀ x)
    (h : Published v₀ x path i) :
    ∃ bytes, x.volume.inodes[i]? = some ⟨bytes, true⟩ ∧ Complete v₀ x path bytes := by
  rcases h with h0 | ⟨w, hmem, hmoved, hpath, hfile⟩
  · have hlt := hm.bounded path i h0
    have hget := List.getElem?_eq_getElem hlt
    cases hinode : v₀.inodes[i] with | mk bytes synced
    have hsynced : synced = true := by
      have hs := hm.synced _ (List.getElem_mem hlt)
      rw [hinode] at hs
      exact hs
    subst hsynced
    refine ⟨bytes, (hv.original i hlt).trans (hget.trans (congrArg some hinode)), .inl ?_⟩
    unfold Volume.content
    rw [h0, Option.bind_some, hget, hinode]
    rfl
  · exact ⟨w.source.view, (hw.each w hmem).sealed hmoved i hfile,
      .inr ⟨w, hmem, hmoved, hpath, rfl⟩⟩

/-- the writes go on: files and names that a write has, it keeps -/
def Follows (x x' : CacheDisk) : Prop :=
  ∀ w ∈ x.writes, ∃ w' ∈ x'.writes, w'.temporary = w.temporary ∧ w'.path = w.path ∧
    w'.source = w.source ∧ (∀ i, w.file = some i → w'.file = some i) ∧
    (w.moved = true → w'.moved = true)

theorem Follows.of_subset (h : x.writes ⊆ x'.writes) : Follows x x' :=
  fun w hw => ⟨w, h hw, rfl, rfl, rfl, fun _ => id, id⟩

theorem Published.follows (h : Published v₀ x path i) (hf : Follows x x') :
    Published v₀ x' path i := by
  rcases h with h0 | ⟨w, hmem, hmoved, hpath, hfile⟩
  · exact .inl h0
  · obtain ⟨w', hmem', -, hpath', -, hfile', hmoved'⟩ := hf w hmem
    exact .inr ⟨w', hmem', hmoved' hmoved, hpath'.trans hpath, hfile' i hfile⟩

theorem Complete.follows {bytes : List UInt8} (h : Complete v₀ x path bytes) (hf : Follows x x') :
    Complete v₀ x' path bytes := by
  rcases h with h0 | ⟨w, hmem, hmoved, hpath, hview⟩
  · exact .inl h0
  · obtain ⟨w', hmem', -, hpath', hsource, -, hmoved'⟩ := hf w hmem
    exact .inr ⟨w', hmem', hmoved' hmoved, hpath'.trans hpath, hsource ▸ hview⟩

theorem VolumeOk.follows (h : VolumeOk v₀ x) (hf : Follows x x')
    (hlength : x.volume.inodes.length ≤ x'.volume.inodes.length)
    (horiginal : ∀ i < v₀.inodes.length, x'.volume.inodes[i]? = x.volume.inodes[i]?)
    (hrefers : ∀ n i, Refers x'.volume n i → Refers x.volume n i) : VolumeOk v₀ x' where
  length := h.length.trans hlength
  original i hi := (horiginal i hi).trans (h.original i hi)
  names n i hr := by
    rcases h.names n i (hrefers n i hr) with h0 | ⟨w, hmem, hfile, hname⟩
    · exact .inl h0
    · obtain ⟨w', hmem', htemporary, hpath, -, hfile', hmoved⟩ := hf w hmem
      exact .inr ⟨w', hmem', hfile' i hfile, hname.imp (fun hn => hn.trans htemporary.symm)
        fun hn => ⟨hn.1.trans hpath.symm, hmoved hn.2⟩⟩

theorem dataOf_congr {v v' : Volume Path} (h : v'.inodes[i]? = v.inodes[i]?) :
    v'.dataOf i = v.dataOf i := by
  unfold Volume.dataOf
  rw [h]

theorem Read.Ok.follows {r : Read} (h : r.Ok v₀ x) (hf : Follows x x')
    (hinodes : ∀ i, Published v₀ x r.path i → x'.volume.inodes[i]? = x.volume.inodes[i]?) :
    r.Ok v₀ x' := by
  refine ⟨h.target, ?_⟩
  have hphase := h.phase
  unfold Read.PhaseOk at hphase ⊢
  split at hphase
  · exact hphase.follows hf
  · rw [dataOf_congr (hinodes _ hphase.1)]
    exact ⟨hphase.1.follows hf, hphase.2⟩
  · rw [dataOf_congr (hinodes _ hphase.1)]
    exact ⟨hphase.1.follows hf, hphase.2⟩
  · exact ⟨hphase.1.follows hf, hphase.2⟩
  · exact ⟨hphase.1.follows hf, hphase.2⟩
  · trivial

theorem Read.Ok.stop {r : Read} (h : r.Ok v₀ x) (hf : Follows x x') :
    (CacheDisk.stopRead r).Ok v₀ x' := by
  have hphase := h.phase
  unfold Read.PhaseOk at hphase
  unfold CacheDisk.stopRead
  split
  · rename_i result hr
    refine ⟨h.target, ?_⟩
    unfold Read.PhaseOk
    rw [hr] at hphase ⊢
    cases result with
    | error _ => trivial
    | ok bytes => exact ⟨hphase.1.follows hf, hphase.2⟩
  · exact ⟨h.target, trivial⟩

/-! ## one step of the machine -/

/-- a name that is not the temporary name of a running write is removed -/
theorem Inv.unlink (h : Inv v₀ x)
    (hpath : ∀ w ∈ x.writes, w.temporary = path → w.ended = true) {cleaners : List Cleaner}
    (hcleaners : ∀ p, .checked p ∈ cleaners → .checked p ∈ x.cleaners) :
    Inv v₀ { x with
      volume := (x.volume.unlink path).getD x.volume
      cleaners := cleaners
      latest := Function.update x.latest path none } := by
  have hsub : Follows x { x with
      volume := (x.volume.unlink path).getD x.volume
      cleaners := cleaners
      latest := Function.update x.latest path none } := .of_subset (List.Subset.refl _)
  have hinodes : ((x.volume.unlink path).getD x.volume).inodes = x.volume.inodes := by
    unfold Volume.unlink
    split_ifs <;> rfl
  have hrefers : ∀ n i, Refers ((x.volume.unlink path).getD x.volume) n i →
      Refers x.volume n i := by
    intro n i hr
    cases hu : x.volume.unlink path with
    | none => rwa [hu] at hr
    | some v' =>
      rw [hu] at hr
      exact refers_unlink hu hr
  have hkept : ∀ n, n ≠ path ∨ x.volume.names path = none →
      ((x.volume.unlink path).getD x.volume).names n = x.volume.names n ∧
        (x.volume.stale n = [] → ((x.volume.unlink path).getD x.volume).stale n = []) := by
    intro n hn
    unfold Volume.unlink
    split_ifs with hnone
    · exact ⟨rfl, id⟩
    · have hne := hn.resolve_right hnone
      exact ⟨Function.update_of_ne hne _ _, fun hs => (Function.update_of_ne hne _ _).trans hs⟩
  refine ⟨h.pids, h.volume.follows hsub (Nat.le_of_eq (congrArg _ hinodes.symm))
    (fun i _ => congrArg (·[i]?) hinodes) hrefers,
    ⟨fun w hw => ?_, h.writes.temporaries, h.writes.files, h.writes.fresh, h.writes.later⟩,
    fun r hr => (h.reads r hr).follows hsub fun i _ => congrArg (·[i]?) hinodes,
    fun p hp => ⟨(h.cleaners p (hcleaners p hp)).ended, (h.cleaners p (hcleaners p hp)).used⟩,
    fun p k hk => ?_⟩
  · have hok := h.writes.each w hw
    refine hok.frame hok.alive ?_ (Nat.le_of_eq (congrArg _ hinodes.symm))
      (fun i _ => congrArg (·[i]?) hinodes) fun i n _ hr => hrefers n i hr
    by_cases hclear : w.temporary ≠ path ∨ x.volume.names path = none
    · have hsame := hkept w.temporary hclear
      exact hok.phase.frame hsame.1 hsame.2 fun i _ => congrArg (·[i]?) hinodes
    · rw [not_or, not_not] at hclear
      have hended := hpath w hw hclear.1
      have hphase := hok.phase
      unfold Write.PhaseOk at hphase ⊢
      change w.phase.ended = true at hended
      unfold WritePhase.ended at hended
      split at hended
      · rename_i hr
        rw [hr] at hphase
        exact absurd (hclear.1 ▸ hphase.1.2) hclear.2
      · rename_i hr
        rw [hr]
        trivial
      · rename_i hr
        rw [hr]
        trivial
      · cases hended
  · change Function.update x.latest path none p = some k at hk
    by_cases hp : p = path
    · rw [hp, Function.update_self] at hk
      cases hk
    · rw [Function.update_of_ne hp] at hk
      obtain ⟨w, hget, hpathw, hmoved, hname, hstale⟩ := h.latest p k hk
      have hsame := hkept p (.inl hp)
      exact ⟨w, hget, hpathw, hmoved, hsame.1.trans hname, fun hd => hsame.2 (hstale hd)⟩

/-- one call of a write -/
theorem Inv.write (hm : Mounted v₀) (h : Inv v₀ x) {k : Nat} {w w' : Write} {v' : Volume Path}
    {answer : Answer} (hget : x.writes[k]? = some w) (hs : w.step x.volume answer = some (v', w')) :
    Inv v₀ { x with
      volume := v'
      writes := x.writes.set k w'
      latest := if w.moved ≠ w'.moved then Function.update x.latest w.path (some k)
        else x.latest } := by
  have hlt := (List.getElem?_eq_some_iff.mp hget).1
  have hmem := List.mem_of_getElem? hget
  have hok := h.writes.each w hmem
  have hbounded := h.volume.bounded hm h.writes
  have he := Write.step_effect hok hbounded hs
  have htemporary : w'.temporary = w.temporary := by
    unfold Write.temporary
    rw [he.path, he.pid, he.uuid]
  have hself : (x.writes.set k w')[k]? = some w' := List.getElem?_set_self hlt
  have hmem' : w' ∈ x.writes.set k w' := List.mem_of_getElem? hself
  have hfile : ∀ i, w.file = some i → w'.file = some i := fun i hi => by
    rcases he.file with hf | ⟨hf, -⟩
    · exact hf.trans hi
    · exact absurd (hf.symm.trans hi) (Option.some_ne_none i).symm
  have hsub : Follows x { x with
      volume := v'
      writes := x.writes.set k w'
      latest := if w.moved ≠ w'.moved then Function.update x.latest w.path (some k)
        else x.latest } := by
    intro u hu
    obtain ⟨l, hl⟩ := List.mem_iff_getElem?.mp hu
    by_cases hkl : k = l
    · subst hkl
      cases hget.symm.trans hl
      exact ⟨w', hmem', htemporary, he.path, he.source, hfile, he.moved⟩
    · exact ⟨u, List.mem_of_getElem? ((List.getElem?_set_ne hkl).trans hl), rfl, rfl, rfl,
        fun _ => id, id⟩
  -- the file of the write is its own
  have hown : ∀ l u i, k ≠ l → x.writes[l]? = some u → u.file = some i → w'.file ≠ some i := by
    intro l u i hkl hl hu hw'
    rcases he.file with hf | ⟨-, hf⟩
    · exact hkl (h.writes.files k l w u i hget hl (hf.symm.trans hw') hu)
    · have hlast := (h.writes.each u (List.mem_of_getElem? hl)).bound i hu
      rw [Option.some.inj (hw'.symm.trans hf)] at hlast
      exact Nat.lt_irrefl _ hlast
  have hlater : ∀ i, w'.file = some i → v₀.inodes.length ≤ i := by
    intro i hi
    rcases he.file with hf | ⟨-, hf⟩
    · exact h.writes.later w hmem i (hf.symm.trans hi)
    · exact Option.some.inj (hi.symm.trans hf) ▸ h.volume.length
  have horiginal : ∀ i < v₀.inodes.length, v'.inodes[i]? = x.volume.inodes[i]? := fun i hi =>
    he.inodes i fun hf => absurd (hlater i hf) (Nat.not_le.mpr hi)
  -- published files are not written to
  have hpublished : ∀ p i, Published v₀ x p i → v'.inodes[i]? = x.volume.inodes[i]? := by
    rintro p i (h0 | ⟨u, hu, hmoved, -, hi⟩)
    · exact horiginal i (hm.bounded p i h0)
    · obtain ⟨l, hl⟩ := List.mem_iff_getElem?.mp hu
      by_cases hkl : k = l
      · subst hkl
        cases hget.symm.trans hl
        have hbefore := hok.sealed hmoved i hi
        have hafter := he.ok.sealed (he.moved hmoved) i (hfile i hi)
        rw [he.source] at hafter
        exact hafter.trans hbefore.symm
      · exact he.inodes i (hown l u i hkl hl hi)
  refine ⟨h.pids, ⟨h.volume.length.trans he.length, fun i hi =>
    (horiginal i hi).trans (h.volume.original i hi), fun n i hr => ?_⟩,
    ⟨fun u hu => ?_, fun l m u t hl hm' ht => ?_, fun l m u t i hl hm' hu ht => ?_,
      fun u hu => ?_, fun u hu i hi => ?_⟩,
    fun r hr => (h.reads r hr).follows hsub fun i => hpublished r.path i,
    fun p hp => ⟨fun u hu hp' => ?_, fun hmark => ?_⟩, fun p l hl => ?_⟩
  · rcases he.refers n i hr with hr | ⟨hf, hn⟩
    · rcases h.volume.names n i hr with h0 | ⟨u, hu, hi, hname⟩
      · exact .inl h0
      · obtain ⟨u', hu', ht, hp, -, hf, hmoved⟩ := hsub u hu
        exact .inr ⟨u', hu', hf i hi, hname.imp (fun hn => hn.trans ht.symm)
          fun hn => ⟨hn.1.trans hp.symm, hmoved hn.2⟩⟩
    · exact .inr ⟨w', hmem', hf, hn.imp (fun hn => hn.trans htemporary.symm)
        fun hn => ⟨hn.1.trans he.path.symm, hn.2⟩⟩
  · obtain ⟨l, hl⟩ := List.mem_iff_getElem?.mp hu
    rcases Ledger.getElem?_set_cases hl with ⟨rfl, rfl⟩ | ⟨hkl, hl⟩
    · exact he.ok
    · have hu := List.mem_of_getElem? hl
      have huok := h.writes.each u hu
      have hne : u.temporary ≠ w.temporary := fun ht =>
        hkl (h.writes.temporaries k l w u hget hl ht.symm)
      have hnames := he.names u.temporary hne
        fun hp => absurd hp.symm (hok.path_ne u.pid u.uuid u.path.parent)
      have hinodes : ∀ i, u.file = some i → v'.inodes[i]? = x.volume.inodes[i]? :=
        fun i hi => he.inodes i (hown l u i hkl hl hi)
      refine huok.frame huok.alive (huok.phase.frame hnames.1 hnames.2 hinodes) he.length hinodes
        fun i n hi hr => ?_
      exact (he.refers n i hr).resolve_right fun hn => hown l u i hkl hl hi hn.1
  · rcases Ledger.getElem?_set_cases hl with ⟨rfl, rfl⟩ | ⟨hkl, hul⟩ <;>
      rcases Ledger.getElem?_set_cases hm' with ⟨rfl, rfl⟩ | ⟨hkm, htm⟩
    · rfl
    · exact h.writes.temporaries _ m w t hget htm (htemporary.symm.trans ht)
    · exact h.writes.temporaries l _ u w hul hget (ht.trans htemporary)
    · exact h.writes.temporaries l m u t hul htm ht
  · rcases Ledger.getElem?_set_cases hl with ⟨rfl, rfl⟩ | ⟨hkl, hul⟩ <;>
      rcases Ledger.getElem?_set_cases hm' with ⟨rfl, rfl⟩ | ⟨hkm, htm⟩
    · rfl
    · exact absurd hu (hown m t i hkm htm ht)
    · exact absurd ht (hown l u i hkl hul hu)
    · exact h.writes.files l m u t i hul htm hu ht
  · rcases List.mem_or_eq_of_mem_set hu with hu | rfl
    · exact h.writes.fresh u hu
    · exact htemporary ▸ h.writes.fresh w hmem
  · rcases List.mem_or_eq_of_mem_set hu with hu | rfl
    · exact h.writes.later u hu i hi
    · exact hlater i hi
  · rcases List.mem_or_eq_of_mem_set hu with hu | rfl
    · exact (h.cleaners p hp).ended u hu hp'
    · have hended := (h.cleaners p hp).ended w hmem (htemporary.symm.trans hp')
      rw [he.running] at hended
      cases hended
  · rcases (h.cleaners p hp).used hmark with h0 | ⟨u, hu, hp'⟩
    · exact .inl h0
    · obtain ⟨u', hu', ht, -⟩ := hsub u hu
      exact .inr ⟨u', hu', ht.trans hp'⟩
  · change (if w.moved ≠ w'.moved then Function.update x.latest w.path (some k) else x.latest) p =
      some l at hl
    by_cases harrived : w.moved ≠ w'.moved ∧ p = w.path
    · obtain ⟨hne, rfl⟩ := harrived
      rw [if_pos hne, Function.update_self] at hl
      cases hl
      have hbefore : w.moved = false := Bool.eq_false_iff.mpr fun ht => hne (ht.trans
        (he.moved ht).symm)
      have hafter : w'.moved = true := Bool.eq_true_of_not_eq_false fun hf =>
        hne (hbefore.trans hf.symm)
      obtain ⟨hname, hphase⟩ := he.arrives hbefore hafter
      refine ⟨w', hself, he.path, hafter, hname, fun hd => ?_⟩
      unfold Write.durable at hd
      rw [hphase] at hd
      cases hd
    · have hlatest : x.latest p = some l := by
        split_ifs at hl with hne
        · rwa [Function.update_of_ne fun hp => harrived ⟨hne, hp⟩] at hl
        · exact hl
      obtain ⟨u, hu, rfl, hmoved, hname, hstale⟩ := h.latest p l hlatest
      have huok := h.writes.each u (List.mem_of_getElem? hu)
      have hnames := he.names u.path (huok.path_ne w.pid w.uuid w.path.parent)
        fun hp => (not_not.mp fun hne => harrived ⟨fun he => hne he.symm, hp⟩)
      by_cases hkl : k = l
      · subst hkl
        cases hget.symm.trans hu
        have hsame : w'.file = w.file := he.file.resolve_right fun hf =>
          absurd ((hok.unmoved hf.1).symm.trans hmoved) Bool.false_ne_true
        refine ⟨w', hself, he.path, he.moved hmoved, hnames.1.trans (hname.trans hsame.symm),
          fun hd => ?_⟩
        exact (Write.step_durable hs hd).elim (fun hd => hnames.2 (hstale hd)) id
      · exact ⟨u, (List.getElem?_set_ne hkl).trans hu, rfl, hmoved, hnames.1.trans hname,
          fun hd => hnames.2 (hstale hd)⟩

theorem le_roundUp {alignment : Nat} (h : 0 < alignment) (value : Nat) :
    value ≤ roundUp value alignment := by
  have hmod := Nat.mod_lt (value + alignment - 1) h
  have hdiv := Nat.div_add_mod' (value + alignment - 1) alignment
  unfold roundUp
  omega

theorem overwrite_take {buffer bytes : List UInt8} {total : Nat} (h : total ≤ buffer.length) :
    (overwrite buffer total bytes).take (total + bytes.length) = buffer.take total ++ bytes := by
  unfold overwrite
  rw [Nat.sub_eq_zero_of_le h, List.replicate_zero, List.append_nil]
  refine List.take_left' ?_
  rw [List.length_append, List.length_take_of_le h]

theorem length_overwrite {buffer bytes : List UInt8} {total : Nat} (h : total ≤ buffer.length) :
    buffer.length ≤ (overwrite buffer total bytes).length := by
  unfold overwrite
  rw [List.length_append, List.length_append, List.length_append, List.length_take_of_le h,
    List.length_drop]
  omega

/-- one turn of the reading loop -/
theorem Read.Ok.readBlock (hm : Mounted v₀) (h : Inv v₀ x) {r : Read} (hr : r.Ok v₀ x)
    {alignment file size total : Nat} {buffer : List UInt8}
    (hp : r.phase = .reading file size total buffer) (answer : Answer) :
    (r.readBlock alignment x.volume file size total buffer answer).Ok v₀ x := by
  refine ⟨?_, ?_⟩
  · unfold Read.readBlock
    split_ifs
    · exact hr.target
    · cases answer with
      | raises code => exact hr.target
      | count n =>
        dsimp only
        split_ifs <;> exact hr.target
    · exact hr.target
    · exact hr.target
  · have hphase := hr.phase
    unfold Read.PhaseOk at hphase
    rw [hp] at hphase
    obtain ⟨hpublished, hsize, hcheck, hbuffer, htotal, hread⟩ := hphase
    unfold Read.readBlock
    split_ifs with hlt haligned hend
    · trivial
    · cases answer with
      | raises code => trivial
      | count n =>
        dsimp only
        generalize hbytes : ((x.volume.dataOf file).drop total).take
          (min n (buffer.length - total)) = bytes
        split_ifs with hzero
        · trivial
        · have hfit : total ≤ buffer.length := htotal.trans hbuffer
          have hlen : total + bytes.length ≤ size := by
            rw [← hbytes, List.length_take, List.length_drop]
            omega
          refine ⟨hpublished, hsize, hcheck, hbuffer.trans (length_overwrite hfit), hlen, ?_⟩
          rw [overwrite_take hfit, hread, ← hbytes]
          exact take_append_block _ _ _
    · trivial
    · have hfull : total = size := not_not.mp hend
      obtain ⟨bytes, hinode, hcomplete⟩ := hpublished.complete hm h.volume h.writes
      have hdata : buffer.take size = bytes := by
        rw [← hfull, hread, hfull, hsize, List.take_length]
        exact dataOf_eq hinode
      change Complete v₀ x r.path (buffer.take size) ∧ checkSize _ (buffer.take size).length = _
      rw [List.length_take_of_le hbuffer]
      exact ⟨hdata ▸ hcomplete, hcheck⟩

/-- one call of a read -/
theorem Read.Ok.step (hm : Mounted v₀) (h : Inv v₀ x) {alignment : Nat} (hpos : 0 < alignment)
    {r r' : Read} (hr : r.Ok v₀ x) {answer : Answer}
    (hs : r.step alignment x.volume answer = some r') : r'.Ok v₀ x := by
  have hphase := hr.phase
  unfold Read.PhaseOk at hphase
  unfold Read.step at hs
  split at hs
  · split at hs <;> cases hs
    · exact ⟨hr.target, trivial⟩
    · exact ⟨hr.target, trivial⟩
    · rename_i hname
      exact ⟨hr.target, h.volume.published hr.target (.inl hname)⟩
  · rename_i file hp
    rw [hp] at hphase
    cases answer with
    | raises code =>
      cases hs
      exact ⟨hr.target, trivial⟩
    | count n =>
      simp only at hs
      split at hs <;> cases hs
      · exact ⟨hr.target, trivial⟩
      · rename_i hcheck
        exact ⟨hr.target, hphase, rfl, hcheck⟩
  · rename_i file size hp
    rw [hp] at hphase
    cases answer <;> cases hs
    · refine ⟨hr.target, hphase.1, hphase.2.1, hphase.2.2, ?_, Nat.zero_le _, rfl⟩
      rw [List.length_replicate]
      exact le_roundUp hpos size
    · exact ⟨hr.target, trivial⟩
  · rename_i hp
    cases hs
    exact hr.readBlock hm h hp answer
  · rename_i result hp
    rw [hp] at hphase
    cases answer <;> cases hs
    · refine ⟨hr.target, ?_⟩
      cases result with
      | error _ => trivial
      | ok bytes => exact hphase
    · exact ⟨hr.target, trivial⟩
  · cases hs

/-- what lasts through a power failure, or without one -/
structure Lasts (v v' : Volume Path) : Prop where
  length : v'.inodes.length = v.inodes.length
  kept : ∀ (i : Nat) (inode : Inode), v.inodes[i]? = some inode → inode.synced = true →
    v'.inodes[i]? = some inode
  refers : ∀ n i, Refers v' n i → Refers v n i
  quiet : ∀ n, v.stale n = [] →
    (v'.names n = v.names n ∨ v'.names n = none) ∧ v'.stale n = []

theorem Lasts.refl (v : Volume Path) : Lasts v v := ⟨rfl, fun _ _ h _ => h, fun _ _ => id,
  fun _ h => ⟨.inl rfl, h⟩⟩

theorem Lasts.of_fails {v v' : Volume Path} (h : Fails v v') : Lasts v v' where
  length := h.length
  kept := h.kept
  refers _ _ := h.refers
  quiet n hs := ⟨(h.quiet hs).imp_right And.right, h.stale n⟩

theorem Write.Ok.lasts {live live' : List Nat} {v v' : Volume Path} {w : Write} (h : w.Ok live v)
    (hended : w.ended = true) (hl : Lasts v v') : w.Ok live' v' := by
  refine ⟨fun hf => absurd (hf.symm.trans hended) Bool.false_ne_true, ?_, fun i hi => ?_,
    h.unmoved, fun hm i hi => hl.kept i _ (h.sealed hm i hi) rfl,
    fun hm i n hi hr => h.hidden hm i n hi (hl.refers n i hr), h.target⟩
  · have hphase := h.phase
    unfold Write.PhaseOk at hphase ⊢
    change w.phase.ended = true at hended
    unfold WritePhase.ended at hended
    split at hended
    · rename_i hp
      rw [hp] at hphase ⊢
      obtain ⟨⟨hmoved, hname⟩, hstale⟩ := hphase
      obtain ⟨hname', hstale'⟩ := hl.quiet _ hstale
      exact ⟨⟨hmoved, hname'.elim (fun hsame => hsame.trans hname) id⟩, hstale'⟩
    · rename_i hp
      rw [hp]
      trivial
    · rename_i hp
      rw [hp]
      trivial
    · cases hended
  · exact (h.bound i hi).trans_eq hl.length.symm

/-- processes stop, and the volume keeps what lasts -/
theorem Inv.stop (hm : Mounted v₀) (h : Inv v₀ x) {f : Write → Write}
    (hf : ∀ w, f w = { w with phase := .stopped } ∨ (f w = w ∧ (w.ended = true ∨
      (x'.volume = x.volume ∧ x'.live = x.live))))
    (hwrites : x'.writes = x.writes.map f) (hlasts : Lasts x.volume x'.volume)
    (hpids : ∀ pid ∈ x'.live, 0 < pid)
    (hreads : ∀ r ∈ x'.reads, ∃ r₀ ∈ x.reads, r = CacheDisk.stopRead r₀ ∨
      (r = r₀ ∧ x'.volume = x.volume))
    (hcleaners : ∀ p, .checked p ∈ x'.cleaners → .checked p ∈ x.cleaners)
    (hlatest : ∀ p k, x'.latest p = some k → x.latest p = some k ∧
      x'.volume.names p = x.volume.names p) : Inv v₀ x' := by
  have hsame : ∀ w, (f w).temporary = w.temporary ∧ (f w).path = w.path ∧
      (f w).source = w.source ∧ (f w).file = w.file ∧ (f w).moved = w.moved ∧
      (w.ended = true → (f w).ended = true) ∧ ((f w).durable = true → w.durable = true) := by
    intro w
    rcases hf w with hw | ⟨hw, -⟩ <;> rw [hw]
    · exact ⟨rfl, rfl, rfl, rfl, rfl, fun _ => rfl, fun hd => absurd hd Bool.false_ne_true⟩
    · exact ⟨rfl, rfl, rfl, rfl, rfl, id, id⟩
  have hget : ∀ (k : Nat) (w' : Write), x'.writes[k]? = some w' →
      ∃ w, x.writes[k]? = some w ∧ w' = f w := by
    intro k w' hk
    rw [hwrites, List.getElem?_map] at hk
    obtain ⟨w, hw, rfl⟩ := Option.map_eq_some_iff.mp hk
    exact ⟨w, hw, rfl⟩
  have hmem : ∀ w' ∈ x'.writes, ∃ w ∈ x.writes, w' = f w := by
    intro w' hw'
    rw [hwrites] at hw'
    obtain ⟨w, hw, rfl⟩ := List.mem_map.mp hw'
    exact ⟨w, hw, rfl⟩
  have hmap : ∀ w ∈ x.writes, f w ∈ x'.writes := fun w hw => hwrites ▸ List.mem_map_of_mem hw
  have hsub : Follows x x' := by
    intro w hw
    obtain ⟨ht, hp, hs, hfile, hmoved, -⟩ := hsame w
    exact ⟨f w, hmap w hw, ht, hp, hs, fun i hi => hfile.trans hi, fun hm' => hmoved.trans hm'⟩
  have hlength : x.volume.inodes.length ≤ x'.volume.inodes.length := Nat.le_of_eq hlasts.length.symm
  have horiginal : ∀ i < v₀.inodes.length, x'.volume.inodes[i]? = x.volume.inodes[i]? := by
    intro i hi
    have hgetv := (h.volume.original i hi).trans (List.getElem?_eq_getElem hi)
    rw [hgetv]
    exact hlasts.kept i _ hgetv (hm.synced _ (List.getElem_mem hi))
  refine ⟨hpids, h.volume.follows hsub hlength horiginal hlasts.refers,
    ⟨fun w' hw' => ?_, fun k l w u hk hl ht => ?_, fun k l w u i hk hl hw hu => ?_,
      fun w' hw' => ?_, fun w' hw' i hi => ?_⟩, fun r hr => ?_, fun p hp => ⟨fun w' hw' ht => ?_,
      fun hmark => ?_⟩, fun p k hk => ?_⟩
  · obtain ⟨w, hw, rfl⟩ := hmem w' hw'
    have hok := h.writes.each w hw
    rcases hf w with hstop | ⟨hw', hended | ⟨hvolume, hlive⟩⟩
    · rw [hstop]
      exact hok.stopped (fun i n => hlasts.refers n i) hlength hlasts.kept
    · rw [hw']
      exact hok.lasts hended hlasts
    · rw [hw', hvolume, hlive]
      exact hok
  · obtain ⟨w₀, hw₀, rfl⟩ := hget k w hk
    obtain ⟨u₀, hu₀, rfl⟩ := hget l u hl
    exact h.writes.temporaries k l w₀ u₀ hw₀ hu₀
      ((hsame w₀).1.symm.trans (ht.trans (hsame u₀).1))
  · obtain ⟨w₀, hw₀, rfl⟩ := hget k w hk
    obtain ⟨u₀, hu₀, rfl⟩ := hget l u hl
    exact h.writes.files k l w₀ u₀ i hw₀ hu₀ ((hsame w₀).2.2.2.1.symm.trans hw)
      ((hsame u₀).2.2.2.1.symm.trans hu)
  · obtain ⟨w, hw, rfl⟩ := hmem w' hw'
    exact (hsame w).1 ▸ h.writes.fresh w hw
  · obtain ⟨w, hw, rfl⟩ := hmem w' hw'
    exact h.writes.later w hw i ((hsame w).2.2.2.1.symm.trans hi)
  · obtain ⟨r₀, hr₀, rfl | ⟨rfl, hvolume⟩⟩ := hreads r hr
    · exact (h.reads r₀ hr₀).stop hsub
    · exact (h.reads r hr₀).follows hsub fun i _ => by rw [hvolume]
  · obtain ⟨w, hw, rfl⟩ := hmem w' hw'
    exact (hsame w).2.2.2.2.2.1 ((h.cleaners p (hcleaners p hp)).ended w hw
      ((hsame w).1.symm.trans ht))
  · rcases (h.cleaners p (hcleaners p hp)).used hmark with h0 | ⟨w, hw, ht⟩
    · exact .inl h0
    · exact .inr ⟨f w, hmap w hw, (hsame w).1.trans ht⟩
  · obtain ⟨hk, hnames⟩ := hlatest p k hk
    obtain ⟨w, hw, hpath, hmoved, hname, hstale⟩ := h.latest p k hk
    obtain ⟨-, hp, -, hfile, hmoved', -, hdurable⟩ := hsame w
    refine ⟨f w, ?_, hp.trans hpath, hmoved'.trans hmoved,
      hnames.trans (hname.trans hfile.symm), fun hd => ?_⟩
    · rw [hwrites, List.getElem?_map, hw]
      rfl
    · exact (hlasts.quiet p (hstale (hdurable hd))).2

theorem stopWrite_cases (w : Write) :
    CacheDisk.stopWrite w = { w with phase := .stopped } ∨
      (CacheDisk.stopWrite w = w ∧ w.ended = true) := by
  unfold CacheDisk.stopWrite
  split_ifs with hended
  · exact .inr ⟨rfl, hended⟩
  · exact .inl rfl

/-- a new write -/
theorem Inv.beginWrite (h : Inv v₀ x) {pid : Nat} {source : AlignedWeightBuffer} {uuid : String}
    (hlegal : (DiskEvent.beginWrite pid path source uuid).Legal v₀ x) (hpid : pid ∈ x.live) :
    Inv v₀ { x with writes := x.writes ++ [⟨pid, path, source, uuid, .mkdir, none, false⟩] } := by
  obtain ⟨htarget, hfresh, hunused⟩ := hlegal
  have hsub : Follows x { x with
      writes := x.writes ++ [⟨pid, path, source, uuid, .mkdir, none, false⟩] } :=
    .of_subset (List.subset_append_left _ _)
  refine ⟨h.pids, h.volume.follows hsub (Nat.le_refl _) (fun _ _ => rfl) fun _ _ => id,
    ⟨fun w hw => ?_, fun k l w u hk hl ht => ?_, fun k l w u i hk hl hw hu => ?_, fun w hw => ?_,
      fun w hw i hi => ?_⟩, fun r hr => (h.reads r hr).follows hsub fun _ _ => rfl,
    fun p hp => ⟨fun w hw ht => ?_, fun hmark => ?_⟩, fun p k hk => ?_⟩
  · rcases List.mem_append.mp hw with hw | hw
    · exact h.writes.each w hw
    · rw [List.mem_singleton.mp hw]
      exact ⟨fun _ => hpid, rfl, fun i hi => absurd hi (Option.some_ne_none i).symm, fun _ => rfl,
        fun hm => absurd hm Bool.false_ne_true,
        fun _ i n hi => absurd hi (Option.some_ne_none i).symm, htarget⟩
  · rcases Ledger.getElem?_concat_cases hk with ⟨rfl, rfl⟩ | ⟨-, hk⟩ <;>
      rcases Ledger.getElem?_concat_cases hl with ⟨rfl, rfl⟩ | ⟨-, hl'⟩
    · rfl
    · exact absurd ht.symm (hunused u (List.mem_of_getElem? hl'))
    · exact absurd ht (hunused w (List.mem_of_getElem? hk))
    · exact h.writes.temporaries k l w u hk hl' ht
  · rcases Ledger.getElem?_concat_cases hk with ⟨rfl, rfl⟩ | ⟨-, hk⟩
    · exact absurd hw (Option.some_ne_none i).symm
    · rcases Ledger.getElem?_concat_cases hl with ⟨rfl, rfl⟩ | ⟨-, hl⟩
      · exact absurd hu (Option.some_ne_none i).symm
      · exact h.writes.files k l w u i hk hl hw hu
  · rcases List.mem_append.mp hw with hw | hw
    · exact h.writes.fresh w hw
    · rw [List.mem_singleton.mp hw]
      exact hfresh
  · rcases List.mem_append.mp hw with hw | hw
    · exact h.writes.later w hw i hi
    · rw [List.mem_singleton.mp hw] at hi
      exact absurd hi (Option.some_ne_none i).symm
  · rcases List.mem_append.mp hw with hw | hw
    · exact (h.cleaners p hp).ended w hw ht
    · rw [List.mem_singleton.mp hw] at ht
      have hmark : temporaryPrefix.toList <+: p.name.toList := ht ▸ temporary_marked pid uuid
      rcases (h.cleaners p hp).used hmark with h0 | ⟨u, hu, hp'⟩
      · exact absurd (ht ▸ hfresh) h0
      · exact absurd (hp'.trans ht.symm) (hunused u hu)
  · rcases (h.cleaners p hp).used hmark with h0 | ⟨u, hu, hp'⟩
    · exact .inl h0
    · exact .inr ⟨u, List.mem_append_left _ hu, hp'⟩
  · obtain ⟨w, hw, hrest⟩ := h.latest p k hk
    exact ⟨w, (List.getElem?_append_left (List.getElem?_eq_some_iff.mp hw).1).trans hw, hrest⟩

/-- a path that a cleanup found without a live owner -/
theorem Inv.checked (h : Inv v₀ x) {before : String} (hbefore : cleanupPrefix path = some before)
    (hname : x.volume.names path ≠ none) (howner : ¬hasLiveOwner x.live path.name before = true) :
    CheckedOk v₀ x path := by
  constructor
  · rintro w hw rfl
    by_contra hrunning
    have hok := h.writes.each w hw
    have hpid := hok.alive (Bool.eq_false_iff.mpr hrunning)
    have hmark : cleanupPrefix w.temporary = some temporaryPrefix :=
      cleanupPrefix_temporary (temporary_marked w.pid w.uuid)
    cases hmark.symm.trans hbefore
    exact howner (hasLiveOwner_temporaryName hpid (h.pids _ hpid) w.uuid)
  · intro hmark
    obtain ⟨i, hi⟩ := Option.ne_none_iff_exists'.mp hname
    rcases h.volume.names path i (.inl hi) with h0 | ⟨w, hw, -, htemporary | ⟨hpath, -⟩⟩
    · exact .inl (by rw [h0]; exact Option.some_ne_none i)
    · exact .inr ⟨w, hw, htemporary.symm⟩
    · exact absurd (hpath ▸ hmark) (h.writes.each w hw).target

/-- readers and cleanups go on beside the volume -/
theorem Inv.beside (h : Inv v₀ x) {reads : List Read} {cleaners : List Cleaner}
    (hreads : ∀ r ∈ reads, r.Ok v₀ x)
    (hcleaners : ∀ p, .checked p ∈ cleaners → CheckedOk v₀ x p) :
    Inv v₀ { x with reads := reads, cleaners := cleaners } where
  pids := h.pids
  volume := ⟨h.volume.length, h.volume.original, h.volume.names⟩
  writes := ⟨h.writes.each, h.writes.temporaries, h.writes.files, h.writes.fresh, h.writes.later⟩
  reads r hr := (hreads r hr).follows (.of_subset (List.Subset.refl _)) fun _ _ => rfl
  cleaners p hp := ⟨(hcleaners p hp).ended, (hcleaners p hp).used⟩
  latest := h.latest

theorem Inv.step (hm : Mounted v₀) (h : Inv v₀ x) {alignment : Nat} (hpos : 0 < alignment)
    {event : DiskEvent} (hlegal : event.Legal v₀ x) (hs : x.step alignment event = some x') :
    Inv v₀ x' := by
  cases event with
  | start pid =>
    simp only [CacheDisk.step] at hs
    split_ifs at hs with hstart
    cases hs
    refine ⟨fun p hp => ?_, ⟨h.volume.length, h.volume.original, h.volume.names⟩,
      ⟨fun w hw => ?_, h.writes.temporaries, h.writes.files, h.writes.fresh, h.writes.later⟩,
      fun r hr => (h.reads r hr).follows (.of_subset (List.Subset.refl _)) fun _ _ => rfl,
      fun p hp => ⟨(h.cleaners p hp).ended, (h.cleaners p hp).used⟩, h.latest⟩
    · rcases List.mem_cons.mp hp with rfl | hp
      · exact hstart.1
      · exact h.pids p hp
    · have hok := h.writes.each w hw
      exact hok.frame (fun hr => List.mem_cons_of_mem _ (hok.alive hr)) hok.phase (Nat.le_refl _)
        (fun _ _ => rfl) fun _ _ _ => id
  | exit pid =>
    cases hs
    refine h.stop hm (f := fun w => if w.pid = pid then CacheDisk.stopWrite w else w)
      (fun w => ?_) rfl (.refl _) h.pids (fun r hr => ?_) (fun _ => id) fun p k hk => ⟨hk, rfl⟩
    · dsimp only
      split_ifs
      · rcases stopWrite_cases w with hw | ⟨hw, hended⟩
        · exact .inl hw
        · exact .inr ⟨hw, .inl hended⟩
      · exact .inr ⟨rfl, .inr ⟨rfl, rfl⟩⟩
    · obtain ⟨r₀, hr₀, rfl⟩ := List.mem_map.mp hr
      refine ⟨r₀, hr₀, ?_⟩
      split_ifs
      · exact .inl rfl
      · exact .inr ⟨rfl, rfl⟩
  | reap pid =>
    simp only [CacheDisk.step] at hs
    split_ifs at hs with hrunning
    cases hs
    refine ⟨fun p hp => h.pids p (List.mem_of_mem_erase hp),
      ⟨h.volume.length, h.volume.original, h.volume.names⟩,
      ⟨fun w hw => ?_, h.writes.temporaries, h.writes.files, h.writes.fresh, h.writes.later⟩,
      fun r hr => (h.reads r hr).follows (.of_subset (List.Subset.refl _)) fun _ _ => rfl,
      fun p hp => ⟨(h.cleaners p hp).ended, (h.cleaners p hp).used⟩, h.latest⟩
    have hok := h.writes.each w hw
    refine hok.frame (fun hr => ?_) hok.phase (Nat.le_refl _) (fun _ _ => rfl) fun _ _ _ => id
    have hne : w.pid ≠ pid := fun he => hrunning (List.any_eq_true.mpr ⟨w, hw, by
      rw [hr, he]
      exact decide_eq_true ⟨rfl, rfl⟩⟩)
    exact (List.mem_erase_of_ne hne).mpr (hok.alive hr)
  | beginWrite pid path source uuid =>
    simp only [CacheDisk.step] at hs
    split_ifs at hs with hpid
    cases hs
    exact h.beginWrite hlegal hpid
  | write k answer =>
    simp only [CacheDisk.step] at hs
    split at hs
    · cases hs
    · rename_i w hget
      split at hs
      · cases hs
      · rename_i v' w' hstep
        cases hs
        exact h.write hm hget hstep
  | beginRead pid path maxBytes =>
    simp only [CacheDisk.step] at hs
    split_ifs at hs with hpid
    cases hs
    refine h.beside (fun r hr => ?_) h.cleaners
    rcases List.mem_append.mp hr with hr | hr
    · exact h.reads r hr
    · rw [List.mem_singleton.mp hr]
      exact ⟨hlegal, trivial⟩
  | read k answer =>
    simp only [CacheDisk.step] at hs
    split at hs
    · cases hs
    · rename_i r hget
      obtain ⟨r', hstep, rfl⟩ := Option.map_eq_some_iff.mp hs
      refine h.beside (fun u hu => ?_) h.cleaners
      rcases List.mem_or_eq_of_mem_set hu with hu | rfl
      · exact h.reads u hu
      · exact (h.reads r (List.mem_of_getElem? hget)).step hm h hpos hstep
  | beginCleanup =>
    cases hs
    refine h.beside h.reads fun p hp => ?_
    rcases List.mem_append.mp hp with hp | hp
    · exact h.cleaners p hp
    · exact absurd (List.mem_singleton.mp hp) nofun
  | look k path =>
    simp only [CacheDisk.step] at hs
    split at hs
    · rename_i before _ hbefore
      split_ifs at hs with hskip
      · cases hs
        exact h
      · cases hs
        rw [not_or] at hskip
        refine h.beside h.reads fun p hp => ?_
        rcases List.mem_or_eq_of_mem_set hp with hp | hp
        · exact h.cleaners p hp
        · cases hp
          exact h.checked hbefore hskip.1 hskip.2
    · cases hs
  | clean k answer =>
    simp only [CacheDisk.step] at hs
    split at hs
    · rename_i path hget
      cases answer with
      | raises code =>
        cases hs
        refine h.beside h.reads fun p hp => ?_
        rcases List.mem_or_eq_of_mem_set hp with hp | hp
        · exact h.cleaners p hp
        · cases hp
      | count n =>
        cases hs
        refine h.unlink (h.cleaners path (List.mem_of_getElem? hget)).ended fun p hp => ?_
        rcases List.mem_or_eq_of_mem_set hp with hp | hp
        · exact hp
        · cases hp
    · cases hs
  | endCleanup k =>
    simp only [CacheDisk.step] at hs
    split at hs
    · cases hs
    · cases hs
      refine h.beside h.reads fun p hp => ?_
      rcases List.mem_or_eq_of_mem_set hp with hp | hp
      · exact h.cleaners p hp
      · cases hp
  | remove path =>
    cases hs
    exact h.unlink (fun w _ hw => absurd (hw ▸ temporary_marked w.pid w.uuid) hlegal) fun _ => id
  | powerFailure after =>
    cases hs
    refine h.stop hm (f := CacheDisk.stopWrite) (fun w => ?_) rfl (.of_fails hlegal)
      (fun _ hp => absurd hp List.not_mem_nil) (fun r hr => ?_) (fun p hp => ?_) fun p k hk => ?_
    · rcases stopWrite_cases w with hw | ⟨hw, hended⟩
      · exact .inl hw
      · exact .inr ⟨hw, .inl hended⟩
    · obtain ⟨r₀, hr₀, rfl⟩ := List.mem_map.mp hr
      exact ⟨r₀, hr₀, .inl rfl⟩
    · obtain ⟨c, -, hc⟩ := List.mem_map.mp hp
      cases hc
    · change (if after.names p = x.volume.names p then x.latest p else none) = some k at hk
      split_ifs at hk with hsame
      exact ⟨hk, hsame⟩

/-! ## every run -/

/-- the runs from a mounted volume -/
abbrev CacheRun (alignment : Nat) (v₀ : Volume Path) (x : CacheDisk) : Prop :=
  Steps.Reach (CacheDisk.step alignment) (fun x event => event.Legal v₀ x) (.new v₀) x

theorem inv_of_run (hm : Mounted v₀) {alignment : Nat} (hpos : 0 < alignment)
    (h : CacheRun alignment v₀ x) : Inv v₀ x :=
  h.invariant (inv_new hm) fun _ _ _ hi hlegal hs => hi.step hm hpos hlegal hs

/-- whatever fails, a path never holds a part of a file, and a read never returns one: both are what
the path held at the start, or the source of one write to it -/
theorem complete_files (hm : Mounted v₀) {alignment : Nat} (hpos : 0 < alignment)
    (h : CacheRun alignment v₀ x) :
    (∀ path, ¬temporaryPrefix.toList <+: path.name.toList → ∀ bytes,
      x.volume.content path = some bytes → Complete v₀ x path bytes) ∧
    ∀ r ∈ x.reads, ∀ bytes, r.phase = .ended (.ok bytes) →
      Complete v₀ x r.path bytes ∧ Read.checkSize r.maxBytes bytes.length = .ok () := by
  have hinv := inv_of_run hm hpos h
  refine ⟨fun path htarget bytes hcontent => ?_, fun r hr bytes hended => ?_⟩
  · unfold Volume.content at hcontent
    obtain ⟨i, hname, hdata⟩ := Option.bind_eq_some_iff.mp hcontent
    obtain ⟨bytes', hinode, hcomplete⟩ :=
      (hinv.volume.published htarget (.inl hname)).complete hm hinv.volume hinv.writes
    rw [hinode] at hdata
    cases hdata
    exact hcomplete
  · have hphase := (hinv.reads r hr).phase
    unfold Read.PhaseOk at hphase
    rw [hended] at hphase
    exact hphase

/-- the write has a file that is not moved yet -/
def Write.preparing (w : Write) : Bool :=
  match w.phase with
  | .writing _ => true
  | .truncate => true
  | .sync => true
  | .close => true
  | .replace => true
  | _ => false

theorem Write.PhaseOk.preparing {v : Volume Path} {w : Write} (h : w.PhaseOk v)
    (hp : w.preparing = true) : ∃ i, w.file = some i ∧ v.names w.temporary = some i := by
  have hheld : ∀ {inode}, w.Holds v inode → ∃ i, w.file = some i ∧ v.names w.temporary = some i :=
    fun ⟨_, i, hi, hname, _⟩ => ⟨i, hi, hname⟩
  unfold Write.PhaseOk at h
  unfold Write.preparing at hp
  split at hp
  · rename_i hphase
    rw [hphase] at h
    exact hheld h.2
  · rename_i hphase
    rw [hphase] at h
    exact hheld h
  · rename_i hphase
    rw [hphase] at h
    exact hheld h
  · rename_i hphase
    rw [hphase] at h
    exact hheld h
  · rename_i hphase
    rw [hphase] at h
    exact hheld h
  · cases hp

/-- the event changes what the path refers to: another file replaces it, or it is removed -/
def DiskEvent.Changes (x : CacheDisk) (path : Path) : DiskEvent → Prop
  | .write k _ => ∃ w, x.writes[k]? = some w ∧ w.path = path ∧ w.phase = .replace
  | .clean k _ => x.cleaners[k]? = some (.checked path)
  | .remove p => p = path
  | _ => False

/-- a power failure comes while the directory of the path is not on the disk yet -/
def DiskEvent.Endangers (x : CacheDisk) (path : Path) : DiskEvent → Prop
  | .powerFailure _ => x.volume.home path ≠ .durable
  | _ => False

theorem arrives_replace {v v' : Volume Path} {w w' : Write} {answer : Answer}
    (hs : w.step v answer = some (v', w')) (hne : w.moved ≠ w'.moved) : w.phase = .replace := by
  unfold Write.step at hs
  split at hs
  case h_3 total file _ _ =>
    refine absurd ?_ hne
    have hsame : (w.writeBlock v file total answer).2.moved = w.moved := by
      unfold Write.writeBlock
      split_ifs
      · rfl
      · cases answer with
        | raises code => rfl
        | count n =>
          dsimp only
          split_ifs <;> rfl
      · rfl
    rw [Option.some.inj hs] at hsame
    exact hsame.symm
  all_goals grind

theorem not_step_ended {v : Volume Path} {w : Write} (h : w.ended = true) (answer : Answer) :
    w.step v answer = none := by
  change w.phase.ended = true at h
  unfold WritePhase.ended at h
  unfold Write.step
  split at h <;> grind

/-- the write has returned, and nothing changed its path since -/
structure Settled (x : CacheDisk) (k : Nat) (w : Write) : Prop where
  get : x.writes[k]? = some w
  returned : w.phase = .returned
  latest : x.latest w.path = some k

/-- only a change of its path unsettles a write; a power failure does not, once its directory is on
the disk -/
theorem Settled.step (hinv : Inv v₀ x) {k : Nat} {w : Write} (h : Settled x k w) {alignment : Nat}
    {event : DiskEvent} (hlegal : event.Legal v₀ x) (hchanges : ¬event.Changes x w.path)
    (hsafe : ¬event.Endangers x w.path) (hs : x.step alignment event = some x') : Settled x' k w := by
  have hended : w.ended = true := congrArg WritePhase.ended h.returned
  have hstop : CacheDisk.stopWrite w = w := if_pos hended
  cases event with
  | start pid | beginRead pid _ _ =>
    simp only [CacheDisk.step] at hs
    split_ifs at hs
    cases hs
    exact ⟨h.get, h.returned, h.latest⟩
  | reap pid =>
    simp only [CacheDisk.step] at hs
    split_ifs at hs
    cases hs
    exact ⟨h.get, h.returned, h.latest⟩
  | exit pid =>
    cases hs
    refine ⟨?_, h.returned, h.latest⟩
    rw [List.getElem?_map, h.get, Option.map_some, hstop, ite_self]
  | beginWrite pid path source uuid =>
    simp only [CacheDisk.step] at hs
    split_ifs at hs
    cases hs
    have hlt := (List.getElem?_eq_some_iff.mp h.get).1
    exact ⟨(List.getElem?_append_left hlt).trans h.get, h.returned, h.latest⟩
  | write l answer =>
    simp only [CacheDisk.step] at hs
    split at hs
    · cases hs
    · rename_i u hget
      split at hs
      · cases hs
      · rename_i v' u' hstep
        cases hs
        have hne : l ≠ k := by
          rintro rfl
          cases h.get.symm.trans hget
          rw [not_step_ended hended] at hstep
          cases hstep
        refine ⟨(List.getElem?_set_ne hne).trans h.get, h.returned, ?_⟩
        change (if u.moved ≠ u'.moved then _ else x.latest) w.path = some k
        split_ifs with hmoved
        · rw [Function.update_of_ne fun hp => hchanges
            ⟨u, hget, hp.symm, arrives_replace hstep hmoved⟩]
          exact h.latest
        · exact h.latest
  | read l answer =>
    simp only [CacheDisk.step] at hs
    split at hs
    · cases hs
    · obtain ⟨r', -, rfl⟩ := Option.map_eq_some_iff.mp hs
      exact ⟨h.get, h.returned, h.latest⟩
  | beginCleanup =>
    cases hs
    exact ⟨h.get, h.returned, h.latest⟩
  | look l path =>
    simp only [CacheDisk.step] at hs
    split at hs
    · split_ifs at hs <;> cases hs <;> exact ⟨h.get, h.returned, h.latest⟩
    · cases hs
  | clean l answer =>
    simp only [CacheDisk.step] at hs
    split at hs
    · rename_i path hget
      cases answer <;> cases hs
      · refine ⟨h.get, h.returned, ?_⟩
        have hne : w.path ≠ path := fun hp => hchanges
          (hget.trans (congrArg (fun p => some (Cleaner.checked p)) hp.symm))
        exact (Function.update_of_ne hne _ _).trans h.latest
      · exact ⟨h.get, h.returned, h.latest⟩
    · cases hs
  | endCleanup l =>
    simp only [CacheDisk.step] at hs
    split at hs <;> cases hs
    exact ⟨h.get, h.returned, h.latest⟩
  | remove path =>
    cases hs
    exact ⟨h.get, h.returned,
      (Function.update_of_ne (fun hp => hchanges hp.symm) _ _).trans h.latest⟩
  | powerFailure after =>
    cases hs
    refine ⟨?_, h.returned, ?_⟩
    · rw [List.getElem?_map, h.get, Option.map_some, hstop]
    · obtain ⟨u, hu, hpath, -, -, hstale⟩ := hinv.latest _ _ h.latest
      cases h.get.symm.trans hu
      have hdurable : w.durable = true := by
        unfold Write.durable
        rw [h.returned]
      have hsame := (Fails.quiet hlegal (hstale hdurable)).resolve_right fun hlost => by
        have hhome := not_not.mp hsafe
        rw [hlost.1] at hhome
        cases hhome
      exact (if_pos hsame).trans h.latest

/-- a directory that is on the disk stays there -/
theorem home_step {alignment : Nat} {event : DiskEvent} (hlegal : event.Legal v₀ x)
    (hs : x.step alignment event = some x') (hpath : x.volume.home path = .durable) :
    x'.volume.home path = .durable := by
  cases event with
  | start pid | reap pid | beginWrite pid _ _ _ | beginRead pid _ _ =>
    simp only [CacheDisk.step] at hs
    split_ifs at hs
    cases hs
    exact hpath
  | exit pid | beginCleanup =>
    cases hs
    exact hpath
  | write k answer =>
    simp only [CacheDisk.step] at hs
    split at hs
    · cases hs
    · split at hs
      · cases hs
      · rename_i hstep
        cases hs
        exact Write.step_home hstep hpath
  | read k answer =>
    simp only [CacheDisk.step] at hs
    split at hs
    · cases hs
    · obtain ⟨r', -, rfl⟩ := Option.map_eq_some_iff.mp hs
      exact hpath
  | look k p =>
    simp only [CacheDisk.step] at hs
    split at hs
    · split_ifs at hs <;> cases hs <;> exact hpath
    · cases hs
  | clean k answer =>
    simp only [CacheDisk.step] at hs
    split at hs
    · rename_i p _
      cases answer <;> cases hs
      · exact (congrFun (unlink_home x.volume p) path).trans hpath
      · exact hpath
    · cases hs
  | endCleanup k =>
    simp only [CacheDisk.step] at hs
    split at hs <;> cases hs
    exact hpath
  | remove p =>
    cases hs
    exact (congrFun (unlink_home x.volume p) path).trans hpath
  | powerFailure after =>
    cases hs
    exact Fails.durable hlegal hpath

theorem Settled.content (hinv : Inv v₀ x) {k : Nat} {w : Write} (h : Settled x k w) :
    x.volume.content w.path = some w.source.view := by
  obtain ⟨u, hu, -, hmoved, hname, -⟩ := hinv.latest _ _ h.latest
  cases h.get.symm.trans hu
  have hok := hinv.writes.each w (List.mem_of_getElem? hu)
  obtain ⟨i, hi⟩ := Option.ne_none_iff_exists'.mp fun hf =>
    Bool.false_ne_true ((hok.unmoved hf).symm.trans hmoved)
  unfold Volume.content
  rw [hname, hi, Option.bind_some, hok.sealed hmoved i hi]
  rfl

/-- no cleanup takes the temporary file of a write that still needs it; a write that returned leaves
no temporary file, and its content lasts through every power failure that finds its directory on the
disk, until its path is changed; and a directory that is on the disk stays there -/
theorem returned_writes_last (hm : Mounted v₀) {alignment : Nat} (hpos : 0 < alignment)
    (h : CacheRun alignment v₀ x) :
    (∀ w ∈ x.writes, w.preparing = true → ∃ i, w.file = some i ∧
      x.volume.names w.temporary = some i) ∧
    (∀ w ∈ x.writes, w.phase = .returned → ∀ i, ¬Refers x.volume w.temporary i) ∧
    (∀ k w, Settled x k w → ∀ x', Steps.Reach (CacheDisk.step alignment)
        (fun x event => event.Legal v₀ x ∧ ¬event.Changes x w.path ∧ ¬event.Endangers x w.path)
        x x' →
      Settled x' k w ∧ x'.volume.content w.path = some w.source.view) ∧
    ∀ path, x.volume.home path = .durable → ∀ x', Steps.Reach (CacheDisk.step alignment)
      (fun x event => event.Legal v₀ x) x x' → x'.volume.home path = .durable := by
  have hinv := inv_of_run hm hpos h
  refine ⟨fun w hw => (hinv.writes.each w hw).phase.preparing, fun w hw hreturned i => ?_,
    fun k w hsettled x' hlater => ?_, fun path hpath x' hlater => ?_⟩
  · have hphase := (hinv.writes.each w hw).phase
    unfold Write.PhaseOk at hphase
    rw [hreturned] at hphase
    obtain ⟨⟨-, hname⟩, hstale⟩ := hphase
    rintro (hr | hr)
    · exact absurd (hname.symm.trans hr) (Option.some_ne_none i).symm
    · rw [hstale] at hr
      exact absurd hr List.not_mem_nil
  · have hboth := hlater.invariant (P := fun x => Inv v₀ x ∧ Settled x k w) ⟨hinv, hsettled⟩
      fun y event y' hy hok hs =>
        ⟨hy.1.step hm hpos hok.1 hs, hy.2.step hy.1 hok.1 hok.2.1 hok.2.2 hs⟩
    exact ⟨hboth.2, hboth.2.content hboth.1⟩
  · exact hlater.invariant (P := fun x => x.volume.home path = .durable) hpath
      fun y event y' hy hlegal hs => home_step hlegal hs hy

end

/-! ## a write between two power failures -/

def smallPath : Path := expertFilePath "cache" "m" 0 7

/-- no files; the directory of the cache is on the disk, or missing -/
def emptyVolume (home : Home) : Volume Path :=
  ⟨[], fun _ => none, fun _ => [], fun n => if n.parent = smallPath.parent then home else .missing⟩

theorem emptyVolume_mounted (home : Home) : Mounted (emptyVolume home) where
  bounded _ i h := absurd (show none = some i from h) (Option.some_ne_none i).symm
  synced _ h := absurd h List.not_mem_nil
  stale _ := rfl

/-- one byte and one of padding -/
def smallBuffer : AlignedWeightBuffer :=
  ⟨1, 2, [7, 0], Nat.one_pos, by decide, Nat.two_pos, by decide⟩

def smallEvents : List DiskEvent :=
  [.start 12, .beginWrite 12 smallPath smallBuffer "a1", .write 0 (.count 0), .write 0 (.count 0),
    .write 0 (.count 2), .write 0 (.count 0), .write 0 (.count 0), .write 0 (.count 0),
    .write 0 (.count 0), .write 0 (.count 0), .write 0 (.count 0), .write 0 (.count 0),
    .write 0 (.count 0), .beginRead 12 smallPath none, .read 0 (.count 0), .read 0 (.count 0),
    .read 0 (.count 0), .read 0 (.count 9), .read 0 (.count 0), .read 0 (.count 0)]

/-- the legal events of the run above, decided -/
def plain (x : CacheDisk) : DiskEvent → Bool
  | .beginWrite pid path _ uuid =>
    !temporaryPrefix.toList.isPrefixOf path.name.toList ∧
      ∀ w ∈ x.writes, w.temporary ≠ ⟨path.parent, temporaryName pid uuid⟩
  | .beginRead _ path _ => !temporaryPrefix.toList.isPrefixOf path.name.toList
  | .remove _ => false
  | .powerFailure _ => false
  | _ => true

theorem legal_of_plain {home : Home} {x : CacheDisk} {event : DiskEvent}
    (h : plain x event = true) : event.Legal (emptyVolume home) x := by
  have hmark : ∀ {path : Path}, (!temporaryPrefix.toList.isPrefixOf path.name.toList) = true →
      ¬temporaryPrefix.toList <+: path.name.toList := by
    intro path hp hpre
    rw [List.isPrefixOf_iff_prefix.mpr hpre] at hp
    cases hp
  cases event with
  | beginWrite pid path source uuid =>
    have hboth := of_decide_eq_true h
    exact ⟨hmark hboth.1, rfl, hboth.2⟩
  | beginRead pid path maxBytes => exact hmark h
  | remove path => cases h
  | powerFailure after => cases h
  | _ => trivial

/-- what a read that ended returned -/
def Read.result (r : Read) : Option (List UInt8) :=
  match r.phase with
  | .ended (.ok bytes) => some bytes
  | _ => none

theorem Read.result_eq {r : Read} {bytes : List UInt8} (h : r.result = some bytes) :
    r.phase = .ended (.ok bytes) := by
  unfold Read.result at h
  split at h
  · rename_i hp
    rw [hp, Option.some.inj h]
  · cases h

theorem smallEvents_run (home : Home) (hhome : home ≠ .made) : ∃ x,
    CacheRun 4 (emptyVolume home) x ∧
    x.volume.content smallPath = some [7] ∧ x.latest smallPath = some 0 ∧
    x.writes.map Write.phase = [.returned] ∧ x.reads.map Read.result = [some [7]] ∧
    x.volume.home smallPath = if home = .missing then .made else .durable := by
  have hrun : (Steps.run (CacheDisk.step 4) plain (.new (emptyVolume home)) smallEvents).any
      (fun x => decide (x.volume.content smallPath = some [7] ∧
        x.latest smallPath = some 0 ∧ x.writes.map Write.phase = [.returned] ∧
        x.reads.map Read.result = [some [7]] ∧
        x.volume.home smallPath = if home = .missing then .made else .durable)) = true := by
    cases home with
    | made => exact absurd rfl hhome
    | missing => decide +kernel
    | durable => decide +kernel
  obtain ⟨x, hx, hfacts⟩ := (Option.any_eq_true _ _).mp hrun
  have hreach := Steps.Reach.of_run .refl hx
  exact ⟨x, hreach.mono fun _ _ => legal_of_plain, of_decide_eq_true hfacts⟩

theorem complete_files_small : ∃ x, CacheRun 4 (emptyVolume .missing) x ∧
    x.volume.content smallPath = some [7] ∧
    Complete (emptyVolume .missing) x smallPath [7] ∧
    ∃ r ∈ x.reads, r.phase = .ended (.ok [7]) ∧
      Complete (emptyVolume .missing) x r.path [7] := by
  obtain ⟨x, hreach, hcontent, -, -, hreads, -⟩ := smallEvents_run .missing (by decide)
  have hmem : some [7] ∈ x.reads.map Read.result := hreads ▸ List.mem_singleton_self _
  obtain ⟨r, hr, hresult⟩ := List.mem_map.mp hmem
  obtain ⟨hfiles, hread⟩ :=
    complete_files (emptyVolume_mounted .missing) (by decide : 0 < 4) hreach
  exact ⟨x, hreach, hcontent, hfiles smallPath (expertFilePath_unmarked _ _ _ _) _ hcontent, r, hr,
    Read.result_eq hresult, (hread r hr _ (Read.result_eq hresult)).1⟩

/-- the write of the run has returned, and nothing changed its path since -/
theorem smallEvents_settled {home : Home} {x : CacheDisk} (h : CacheRun 4 (emptyVolume home) x)
    (hlatest : x.latest smallPath = some 0) (hphases : x.writes.map Write.phase = [.returned]) :
    ∃ w, Settled x 0 w ∧ w.path = smallPath := by
  obtain ⟨w, hget, hpath, -⟩ :=
    (inv_of_run (emptyVolume_mounted home) (by decide : 0 < 4) h).latest _ _ hlatest
  have hreturned : w.phase = .returned := by
    have hmem := List.mem_map_of_mem (f := Write.phase) (List.mem_of_getElem? hget)
    rw [hphases] at hmem
    exact List.mem_singleton.mp hmem
  exact ⟨w, ⟨hget, hreturned, hpath ▸ hlatest⟩, hpath⟩

theorem returned_writes_last_small : ∃ x w x', CacheRun 4 (emptyVolume .durable) x ∧
    Settled x 0 w ∧ x.step 4 (.powerFailure x.volume.settle) = some x' ∧
    x'.volume.content w.path = some w.source.view ∧ x'.volume.home w.path = .durable := by
  obtain ⟨x, hreach, -, hlatest, hphases, -, hhome⟩ := smallEvents_run .durable (by decide)
  obtain ⟨w, hsettled, hpath⟩ := smallEvents_settled hreach hlatest hphases
  have hdurable : x.volume.home w.path = .durable := hpath ▸ hhome
  have hlater : Steps.Reach (CacheDisk.step 4) (fun x event =>
      DiskEvent.Legal (emptyVolume .durable) x event ∧ ¬event.Changes x w.path ∧
        ¬event.Endangers x w.path) x _ :=
    .step (.powerFailure x.volume.settle) .refl
      ⟨fails_settle x.volume, id, not_not.mpr hdurable⟩
      (show CacheDisk.step 4 x _ = some _ from rfl)
  obtain ⟨-, -, hlast, hstays⟩ :=
    returned_writes_last (emptyVolume_mounted .durable) (by decide : 0 < 4) hreach
  exact ⟨x, w, _, hreach, hsettled, rfl, (hlast 0 w hsettled _ hlater).2,
    hstays w.path hdurable _ (hlater.mono fun _ _ hok => hok.1)⟩

/-- a write that returned can be lost with its directory, which nothing syncs where it was made -/
theorem new_directory_lost : ∃ x w after, CacheRun 4 (emptyVolume .missing) x ∧ Settled x 0 w ∧
    x.volume.content w.path = some [7] ∧ Fails x.volume after ∧
    after.content w.path = none := by
  obtain ⟨x, hreach, hcontent, hlatest, hphases, -, hhome⟩ := smallEvents_run .missing (by decide)
  obtain ⟨w, hsettled, hpath⟩ := smallEvents_settled hreach hlatest hphases
  let lost : Volume Path := { x.volume with
    names := fun n => if x.volume.home n = .made then none else x.volume.names n
    stale := fun _ => []
    home := fun n => if x.volume.home n = .durable then .durable else .missing }
  have hfails : Fails x.volume lost := by
    refine ⟨rfl, fun _ _ h _ => h, fun n => ?_, fun n => ?_, fun n => ?_, fun _ => rfl⟩
    all_goals
      unfold lost
      cases hn : x.volume.home n <;> simp [hn]
  refine ⟨x, w, lost, hreach, hsettled, hpath ▸ hcontent, hfails, ?_⟩
  have hname : lost.names w.path = none := if_pos (hpath ▸ hhome)
  unfold Volume.content
  rw [hname]
  rfl

end ExpertKit.Worker.DirectIo

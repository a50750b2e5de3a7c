import ExpertKit.Weights.ExpertIndex

/-!
# Weight server: one run after the other

What completed runs of `weight build` over any layer ranges leave behind.

* `Setup.keys`               the experts of a range;
* `buildLoop_spec`           which blobs the loops write;
* `buildLoop_index`          which experts the saved index lists;
* `History`, `History.step`  the machine, with the ranges so far and the blobs written in vain;
* `build_cumulative_iff`     the runs for which nothing is lost and nothing is done twice.
-/

set_option linter.unusedSectionVars false

namespace ExpertKit.Weights
open Std ExpertKit.Elastic

/-! ## what is listed -/

def Work.key : Work → Option Key
  | .expert key => some key
  | .checkpoint => none

/-- the experts of a range -/
def Setup.keys (setup : Setup) (range : LayerRange) : List Key :=
  (setup.work range).filterMap Work.key

def IndexFile.lists (file : Option IndexFile) (name : String) : Bool :=
  match file with
  | some (.manifest index) => index.entries.contains name
  | _ => false

/-- already extracted and indexed -/
def Setup.complete (setup : Setup) (disk : Disk) (range : LayerRange) : Bool :=
  (setup.keys range).all fun key =>
    (disk.blobs key).isSome && IndexFile.lists disk.cacheIndex (setup.expertKey key)

/-! ## completed runs -/

structure History where
  disk : Disk
  /-- the ranges of the runs -/
  ranges : List LayerRange
  /-- the blobs that runs over an extracted and indexed range wrote -/
  rewritten : List Key

def History.step (setup : Setup) (h : History) (range : LayerRange) : Option History :=
  match buildIndex setup h.disk range with
  | .ok (disk, written) => some ⟨disk, h.ranges ++ [range],
      h.rewritten ++ if setup.complete h.disk range then written else []⟩
  | .error _ => none

def History.covers (setup : Setup) (h : History) (key : Key) : Prop :=
  ∃ range ∈ h.ranges, key ∈ setup.keys range

/-- the index in the cache directory lists the experts of all ranges, and no blob was written
again -/
def History.Cumulative (setup : Setup) (h : History) : Prop :=
  (∀ name, IndexFile.lists h.disk.cacheIndex name = true ↔
    ∃ key, h.covers setup key ∧ setup.expertKey key = name) ∧ h.rewritten = []

/-- one directory; or a range without layers; or all experts so far, and a new one if it has any -/
def Extends (setup : Setup) (h : History) (range : LayerRange) : Prop :=
  setup.sameDirectory = true ∨ setup.layers range = [] ∨
    ((∀ key, h.covers setup key → key ∈ setup.keys range) ∧
      (setup.keys range ≠ [] → ∃ key ∈ setup.keys range, ¬ h.covers setup key))

/-- nothing was built yet: there may be blobs, but no index -/
def History.Fresh (h : History) : Prop :=
  h.disk.rootIndex = none ∧ h.disk.cacheIndex = none ∧ h.ranges = [] ∧ h.rewritten = []

section
variable {setup : Setup}

/-! ## the loops -/

/-- an expert is written, or skipped with nothing changed -/
theorem buildLoop_expert {key : Key} {work : List Work} {disk final : Disk} {index : ExpertIndex}
    {written blobs : List Key}
    (h : buildLoop setup (.expert key :: work) disk index written = .ok (final, blobs)) :
    (setup.skips disk index key = true ∧ buildLoop setup work disk index written
      = .ok (final, blobs)) ∨
    (setup.skips disk index key = false ∧ ∃ bytes entry, buildLoop setup work
      (disk.writeBlob key bytes) (index.upsert (setup.expertKey key) entry) (written ++ [key])
        = .ok (final, blobs)) := by
  rw [buildLoop] at h
  by_cases hskip : setup.skips disk index key = true
  · rw [if_pos hskip] at h
    exact .inl ⟨hskip, h⟩
  · rw [if_neg hskip] at h
    refine .inr ⟨Bool.eq_false_iff.mpr hskip, ?_⟩
    cases hlive : setup.getExpert key with
    | error e =>
      rw [hlive] at h
      cases h
    | ok bytes =>
      cases hnames : setup.tensorNames bytes with
      | error e =>
        simp only [hlive, hnames] at h
        cases h
      | ok names =>
        simp only [hlive, hnames] at h
        exact ⟨bytes, _, h⟩

theorem contains_upsert (index : ExpertIndex) (key : String) (entry : ExpertEntry) (name : String) :
    (index.upsert key entry).entries.contains name = true ↔
      name = key ∨ index.entries.contains name = true := by
  unfold ExpertIndex.upsert
  rw [ExtTreeMap.contains_insert, Bool.or_eq_true, beq_iff_eq,
    Std.compare_eq_iff_eq, eq_comm (b := name)]

/-- the blobs stay, those of the work are there in the end, and none is written exactly when all of
them can be skipped -/
theorem buildLoop_spec {work : List Work} {disk final : Disk} {index : ExpertIndex}
    {written blobs : List Key}
    (h : buildLoop setup work disk index written = .ok (final, blobs)) :
    final.rootIndex = disk.rootIndex ∧
    (disk.cacheIndex ≠ some .torn → final.cacheIndex ≠ some .torn) ∧
    (∀ key, (disk.blobs key).isSome = true ∨ key ∈ work.filterMap Work.key →
      (final.blobs key).isSome = true) ∧
    ∃ more, blobs = written ++ more ∧
      (more = [] ↔ ∀ key ∈ work.filterMap Work.key, setup.skips disk index key = true) := by
  induction work generalizing disk index written with
  | nil =>
    cases h
    exact ⟨rfl, id, fun key hkey => hkey.resolve_right List.not_mem_nil, [],
      (List.append_nil _).symm, iff_of_true rfl fun _ hkey => absurd hkey List.not_mem_nil⟩
  | cons round work ih =>
    cases round with
    | checkpoint =>
      rw [buildLoop] at h
      obtain ⟨hroot, hwhole, hrest⟩ := ih h
      exact ⟨hroot, fun _ => hwhole fun hfile => (by cases hfile), hrest⟩
    | expert key =>
      rw [List.filterMap_cons_some (show Work.key (.expert key) = some key from rfl)]
      rcases buildLoop_expert h with ⟨hskip, hrest⟩ | ⟨hskip, bytes, entry, hrest⟩
      · obtain ⟨hroot, hwhole, hblobs, more, hmore, hnone⟩ := ih hrest
        refine ⟨hroot, hwhole, fun other hother => hblobs other ?_, more, hmore, ?_⟩
        · rcases hother with hold | hnew
          · exact .inl hold
          · rcases List.mem_cons.mp hnew with rfl | hwork
            · exact .inl ((Bool.and_eq_true _ _).mp hskip).1
            · exact .inr hwork
        · rw [hnone, List.forall_mem_cons]
          exact (and_iff_right hskip).symm
      · obtain ⟨hroot, hwhole, hblobs, more, hmore, _⟩ := ih hrest
        refine ⟨hroot, hwhole, fun other hother => hblobs other ?_, key :: more, ?_, ?_⟩
        · rw [Disk.blobs_writeBlob]
          by_cases hkey : other = key
          · exact .inl (by rw [if_pos hkey]; rfl)
          · rw [if_neg hkey]
            exact hother.imp_right fun hnew => (List.mem_cons.mp hnew).resolve_left hkey
        · rw [hmore, List.append_assoc, List.singleton_append]
        · refine iff_of_false (List.cons_ne_nil _ _) fun hall => ?_
          rw [hall key List.mem_cons_self] at hskip
          cases hskip

/-- the index that the last checkpoint saves -/
theorem buildLoop_index {work : List Work} {disk final : Disk} {index : ExpertIndex}
    {written blobs : List Key}
    (h : buildLoop setup (work ++ [.checkpoint]) disk index written = .ok (final, blobs))
    (name : String) : IndexFile.lists final.cacheIndex name = true ↔
      index.entries.contains name = true ∨
        ∃ key ∈ work.filterMap Work.key, setup.expertKey key = name := by
  induction work generalizing disk index written with
  | nil =>
    cases h
    exact (or_iff_left fun ⟨_, hkey, _⟩ => List.not_mem_nil hkey).symm
  | cons round work ih =>
    cases round with
    | checkpoint => exact ih h
    | expert key =>
      rw [List.filterMap_cons_some (show Work.key (.expert key) = some key from rfl)]
      simp only [List.mem_cons, exists_eq_or_imp]
      rcases buildLoop_expert h with ⟨hskip, hrest⟩ | ⟨_, bytes, entry, hrest⟩
      · rw [ih hrest]
        -- a skipped expert is listed already
        refine or_congr_right' fun hno => (or_iff_right fun heq => hno ?_).symm
        rw [← heq]
        exact ((Bool.and_eq_true _ _).mp hskip).2
      · rw [ih hrest, contains_upsert, or_assoc, or_left_comm, eq_comm (a := name)]

theorem work_of_layers {range : LayerRange} (h : setup.layers range ≠ []) :
    ∃ work, setup.work range = work ++ [.checkpoint] := by
  obtain ⟨layers, layer, hlayers⟩ := (List.eq_nil_or_concat _).resolve_left h
  refine ⟨layers.flatMap setup.layerWork ++
    (List.range setup.routedExperts).map fun expert => .expert (layer, expert), ?_⟩
  rw [Setup.work, hlayers, List.concat_eq_append, List.flatMap_append, List.flatMap_singleton,
    Setup.layerWork, List.append_assoc]

theorem keys_of_layers {range : LayerRange} {work : List Work}
    (h : setup.work range = work ++ [.checkpoint]) :
    setup.keys range = work.filterMap Work.key := by
  rw [Setup.keys, h, List.filterMap_append]
  exact List.append_nil _

theorem keys_of_no_layers {range : LayerRange} (h : setup.layers range = []) :
    setup.work range = [] ∧ setup.keys range = [] := by
  have hwork : setup.work range = [] := by rw [Setup.work, h, List.flatMap_nil]
  exact ⟨hwork, by rw [Setup.keys, hwork, List.filterMap_nil]⟩

/-! ## the runs -/

/-- what holds before each run -/
structure History.Inv (setup : Setup) (h : History) : Prop where
  cumulative : h.Cumulative setup
  /-- no index in a checkpoint directory of its own -/
  root : setup.sameDirectory = false → h.disk.rootIndex = none
  whole : h.disk.cacheIndex ≠ some .torn
  blobs : ∀ key, h.covers setup key → (h.disk.blobs key).isSome = true

/-- the index that a run starts with -/
theorem History.Inv.loaded {h : History} (hinv : h.Inv setup) :
    ∃ found, load (setup.rootFile h.disk) = .ok found ∧
      (setup.sameDirectory = false → found = none) ∧
      (setup.sameDirectory = true → ∀ name,
        (found.getD (.new setup.modelName)).entries.contains name =
          IndexFile.lists h.disk.cacheIndex name) := by
  unfold Setup.rootFile
  by_cases hsame : setup.sameDirectory = true
  · rw [if_pos hsame]
    cases hfile : h.disk.cacheIndex with
    | none =>
      exact ⟨none, rfl, fun _ => rfl, fun _ _ => ExtTreeMap.contains_empty⟩
    | some file =>
      cases file with
      | manifest index =>
        exact ⟨some index, rfl, fun hno => absurd (hsame.symm.trans hno) (by decide),
          fun _ _ => rfl⟩
      | torn => exact absurd hfile hinv.whole
  · rw [if_neg hsame, hinv.root (Bool.eq_false_iff.mpr hsame)]
    exact ⟨none, rfl, fun _ => rfl, fun h => absurd h hsame⟩

/-- what a completed run did -/
structure Ran (setup : Setup) (h : History) (range : LayerRange) (h' : History) : Prop where
  ranges : h'.ranges = h.ranges ++ [range]
  root : h'.disk.rootIndex = h.disk.rootIndex
  whole : h.disk.cacheIndex ≠ some .torn → h'.disk.cacheIndex ≠ some .torn
  blobs : ∀ key, (h.disk.blobs key).isSome = true ∨ key ∈ setup.keys range →
    (h'.disk.blobs key).isSome = true
  same : setup.layers range = [] → h'.disk.cacheIndex = h.disk.cacheIndex
  /-- the index it started with, and the blobs it wrote -/
  work : ∀ found, load (setup.rootFile h.disk) = .ok found → ∃ written,
    h'.rewritten = h.rewritten ++ (if setup.complete h.disk range then written else []) ∧
    (written = [] ↔ ∀ key ∈ setup.keys range,
      setup.skips h.disk (found.getD (.new setup.modelName)) key = true) ∧
    (setup.layers range ≠ [] → ∀ name, IndexFile.lists h'.disk.cacheIndex name = true ↔
      (found.getD (.new setup.modelName)).entries.contains name = true ∨
        ∃ key ∈ setup.keys range, setup.expertKey key = name)

theorem History.step_ran {h h' : History} {range : LayerRange}
    (hs : h.step setup range = some h') : Ran setup h range h' := by
  unfold History.step at hs
  cases hbuild : buildIndex setup h.disk range with
  | error e =>
    rw [hbuild] at hs
    cases hs
  | ok built =>
    obtain ⟨final, written⟩ := built
    rw [hbuild] at hs
    cases hs
    unfold buildIndex at hbuild
    cases hload : load (setup.rootFile h.disk) with
    | error e =>
      rw [hload] at hbuild
      cases hbuild
    | ok found =>
      rw [hload] at hbuild
      obtain ⟨hroot, hwhole, hblobs, more, hmore, hnone⟩ := buildLoop_spec hbuild
      rw [List.nil_append] at hmore
      refine ⟨rfl, hroot, hwhole, hblobs, fun hlayers => ?_, fun found' hfound => ?_⟩
      · rw [(keys_of_no_layers hlayers).1] at hbuild
        cases hbuild
        rfl
      · obtain rfl : found = found' := Except.ok.inj (hload.symm.trans hfound)
        refine ⟨written, rfl, hmore ▸ hnone, fun hlayers name => ?_⟩
        obtain ⟨work, hwork⟩ := work_of_layers hlayers
        rw [keys_of_layers hwork]
        rw [hwork] at hbuild
        exact buildLoop_index hbuild name

theorem Ran.covers {h h' : History} {range : LayerRange} (hran : Ran setup h range h') (key : Key) :
    h'.covers setup key ↔ h.covers setup key ∨ key ∈ setup.keys range := by
  unfold History.covers
  rw [hran.ranges]
  simp only [List.mem_append, List.mem_singleton, or_and_right, exists_or, exists_eq_left]

/-- a listed expert was built -/
theorem History.Inv.lists_iff {h : History} (hinv : h.Inv setup) (key : Key) :
    IndexFile.lists h.disk.cacheIndex (setup.expertKey key) = true ↔ h.covers setup key := by
  rw [hinv.cumulative.1]
  refine ⟨fun ⟨other, hcovers, heq⟩ => ?_, fun hcovers => ⟨key, hcovers, rfl⟩⟩
  obtain ⟨hlayer, hexpert⟩ := objectKey_inj heq
  rwa [show other = key from Prod.ext hlayer hexpert] at hcovers

theorem History.Inv.complete_iff {h : History} (hinv : h.Inv setup) (range : LayerRange) :
    setup.complete h.disk range = true ↔ ∀ key ∈ setup.keys range, h.covers setup key := by
  unfold Setup.complete
  rw [List.all_eq_true]
  refine forall₂_congr fun key _ => ?_
  rw [Bool.and_eq_true, hinv.lists_iff]
  exact and_iff_right_of_imp (hinv.blobs key)

theorem History.Inv.step {h h' : History} {range : LayerRange} (hinv : h.Inv setup)
    (hgood : Extends setup h range) (hs : h.step setup range = some h') : h'.Inv setup := by
  have hran := History.step_ran hs
  obtain ⟨found, hload, hnew, hsame⟩ := hinv.loaded
  obtain ⟨written, hrewritten, hnone, hlists⟩ := hran.work found hload
  refine ⟨⟨fun name => ?_, ?_⟩, fun h => hran.root.trans (hinv.root h), hran.whole hinv.whole,
    fun key hcovers => hran.blobs key (((hran.covers key).mp hcovers).imp_left (hinv.blobs key))⟩
  · simp only [hran.covers, or_and_right, exists_or]
    rw [← hinv.cumulative.1]
    by_cases hlayers : setup.layers range = []
    · rw [hran.same hlayers, (keys_of_no_layers hlayers).2]
      simp only [List.not_mem_nil, false_and, exists_false, or_false]
    · rw [hlists hlayers]
      rcases hgood with hone | hno | ⟨hall, _⟩
      · rw [hsame hone]
      · exact absurd hno hlayers
      · by_cases hone : setup.sameDirectory = true
        · rw [hsame hone]
        · -- the run starts from nothing, and covers what was listed
          rw [hnew (Bool.eq_false_iff.mpr hone), Option.getD_none, hinv.cumulative.1]
          have hempty : (ExpertIndex.new setup.modelName).entries.contains name = false :=
            ExtTreeMap.contains_empty
          rw [hempty]
          refine ⟨fun hkey => .inr (hkey.resolve_left Bool.false_ne_true), fun hkey => .inr ?_⟩
          rcases hkey with ⟨key, hcovers, heq⟩ | hkey
          · exact ⟨key, hall key hcovers, heq⟩
          · exact hkey
  · rw [hrewritten, hinv.cumulative.2, List.nil_append]
    by_cases hcomplete : setup.complete h.disk range = true
    · rw [if_pos hcomplete, hnone]
      intro key hkey
      have hkeys := (hinv.complete_iff range).mp hcomplete
      rcases hgood with hone | hno | ⟨_, hsome⟩
      · unfold Setup.skips
        rw [hsame hone, hinv.blobs key (hkeys key hkey), (hinv.lists_iff key).mpr (hkeys key hkey)]
        rfl
      · rw [(keys_of_no_layers hno).2] at hkey
        exact absurd hkey List.not_mem_nil
      · obtain ⟨other, hother, hnot⟩ := hsome (List.ne_nil_of_mem hkey)
        exact absurd (hkeys other hother) hnot
    · exact if_neg hcomplete

/-- a run that does not go on from the earlier ones loses an expert or writes a blob again -/
theorem History.Inv.broken {h h' : History} {range : LayerRange} (hinv : h.Inv setup)
    (hbad : ¬ Extends setup h range) (hs : h.step setup range = some h') :
    ¬ h'.Cumulative setup := by
  rintro ⟨hlisted, hrewritten⟩
  unfold Extends at hbad
  push Not at hbad
  obtain ⟨hone, hlayers, hcovered⟩ := hbad
  have hran := History.step_ran hs
  obtain ⟨found, hload, hnew, _⟩ := hinv.loaded
  obtain ⟨written, hwritten, hnone, hlists⟩ := hran.work found hload
  rw [hnew (Bool.eq_false_iff.mpr hone), Option.getD_none] at hnone hlists
  have hempty : ∀ name, (ExpertIndex.new setup.modelName).entries.contains name = false :=
    fun _ => ExtTreeMap.contains_empty
  simp only [hempty, Bool.false_eq_true, false_or] at hlists
  have hall : ∀ key, h.covers setup key → key ∈ setup.keys range := by
    intro key hcovers
    obtain ⟨other, hother, heq⟩ := (hlists hlayers _).mp
      ((hlisted (setup.expertKey key)).mpr ⟨key, (hran.covers key).mpr (.inl hcovers), rfl⟩)
    obtain ⟨hlayer, hexpert⟩ := objectKey_inj heq
    rwa [show other = key from Prod.ext hlayer hexpert] at hother
  obtain ⟨hne, hkeys⟩ := hcovered hall
  rw [hinv.cumulative.2, if_pos ((hinv.complete_iff range).mpr hkeys), List.nil_append] at hwritten
  obtain ⟨key, hkey⟩ := List.exists_mem_of_ne_nil _ hne
  have hskip := hnone.mp (hwritten.symm.trans hrewritten) key hkey
  unfold Setup.skips at hskip
  rw [hempty, Bool.and_false] at hskip
  cases hskip

/-- **Resumable builds.**  In every sequence of completed runs, the index lists exactly the experts
of all ranges and no run over an extracted and indexed range writes a blob, after each run, if and
only if each run extends the earlier ones. -/
theorem build_cumulative_iff {start final : History} {ranges : List LayerRange}
    (hstart : start.Fresh)
    (hrun : Steps.run (History.step setup) (fun _ _ => true) start ranges = some final) :
    (∀ n h, Steps.run (History.step setup) (fun _ _ => true) start (ranges.take n) = some h →
      h.Cumulative setup) ↔
    ∀ n h range, Steps.run (History.step setup) (fun _ _ => true) start (ranges.take n) = some h →
      ranges[n]? = some range → Extends setup h range := by
  obtain ⟨hroot, hcache, hranges, hrewritten⟩ := hstart
  have hnone : ∀ key, ¬ start.covers setup key := by
    rintro key ⟨range, hrange, _⟩
    rw [hranges] at hrange
    exact List.not_mem_nil hrange
  refine Steps.run_states_iff (fun _ => True) (Extends setup) (I := History.Inv setup)
    (fun _ => History.Inv.cumulative) (fun _ _ _ hinv _ => hinv.step)
    (fun _ _ _ hinv _ => hinv.broken) ?_ (fun _ _ => trivial) hrun
  refine ⟨⟨fun name => ?_, hrewritten⟩, fun _ => hroot, ?_, fun key hcovers =>
    absurd hcovers (hnone key)⟩
  · rw [hcache]
    exact iff_of_false Bool.false_ne_true fun ⟨key, hcovers, _⟩ => hnone key hcovers
  · rw [hcache]
    nofun

end

/-- a checkpoint with two layers of one expert -/
def twoLayers (sameDirectory : Bool) : Setup where
  modelName := "m"
  sameDirectory := sameDirectory
  moeLayers := (0, 2)
  routedExperts := 1
  getExpert := fun _ => .ok [1, 2]
  tensorNames := fun _ => .ok []
  deriveShardFiles := id

def emptyHistory : History := ⟨⟨fun _ => none, none, none⟩, [], []⟩

theorem emptyHistory_fresh : emptyHistory.Fresh := ⟨rfl, rfl, rfl, rfl⟩

/-- the first layer, then the second one -/
def layerByLayer : List LayerRange := [(none, some 1), (some 1, none)]

/-- in one directory -/
theorem build_cumulative_iff_shared : ∃ final, final.Cumulative (twoLayers true) ∧
    Steps.run (History.step (twoLayers true)) (fun _ _ => true) emptyHistory layerByLayer
      = some final := by
  obtain ⟨final, hrun⟩ := Option.isSome_iff_exists.mp (show (Steps.run
    (History.step (twoLayers true)) (fun _ _ => true) emptyHistory layerByLayer).isSome = true
      by decide)
  exact ⟨final, (build_cumulative_iff emptyHistory_fresh hrun).mpr
    (fun _ _ _ _ _ => .inl rfl) 2 final hrun, hrun⟩

/-- in two directories the second run starts from nothing and drops the first layer -/
theorem build_loses_layers : ¬ ∀ (setup : Setup) (start final : History) (ranges : List LayerRange),
    start.Fresh → Steps.run (History.step setup) (fun _ _ => true) start ranges = some final →
    final.Cumulative setup := by
  intro hall
  obtain ⟨final, hrun, hend⟩ := (Option.any_eq_true (fun h : History =>
      !IndexFile.lists h.disk.cacheIndex "m/l0-e0" && decide (h.ranges = layerByLayer))
    (Steps.run (History.step (twoLayers false)) (fun _ _ => true) emptyHistory layerByLayer)).mp
      (by decide)
  rw [Bool.and_eq_true, Bool.not_eq_true'] at hend
  have hlists := ((hall (twoLayers false) emptyHistory final layerByLayer emptyHistory_fresh
    hrun).1 "m/l0-e0").mpr ⟨(0, 0), ⟨(none, some 1), ?_, by decide⟩, by decide⟩
  · rw [hlists] at hend
    cases hend.1
  · rw [of_decide_eq_true hend.2]
    exact List.mem_cons_self

end ExpertKit.Weights

import ExpertKit.Elastic.Database
import ExpertKit.Lib.Steps

/-!
# Weight server: the expert index

`weight build` of `ek-cli/src/weight_index.rs` over `ek-db/src/expert_index.rs`, and the lookup of
`weight_srv/manager.rs`.  The builder reads the index of the checkpoint and writes the one of the
cache; both are one file when the checkpoint lies in the cache directory.  A file that is being
written holds what was written so far; an index cut short does not parse.

* `Disk`, `Setup`           the files, and what the checkpoint says;
* `buildIndex`              a run from its start to its end;
* `Builder`, `Builder.step`   the same run byte by byte, with interruptions between;
* `advances_build`          an undisturbed run of the builder is `buildIndex`;
* `getExpertBytes`          the lookup of a server.
-/

set_option linter.unusedSectionVars false

namespace ExpertKit.Weights
open Std ExpertKit.Elastic

/-! ## the files -/

inductive BuildError where
  | json
  | checkpoint (message : String)
deriving DecidableEq, Repr

structure ExpertEntry where
  sizeBytes : Nat
  shardFiles : List String
  tensorNames : List String
  cached : Bool
deriving DecidableEq, Repr

structure ExpertIndex where
  version : Nat
  modelName : String
  entries : ExtTreeMap String ExpertEntry

def ExpertIndex.new (modelName : String) : ExpertIndex := ⟨1, modelName, ∅⟩

def ExpertIndex.upsert (index : ExpertIndex) (key : String) (entry : ExpertEntry) : ExpertIndex :=
  { index with entries := index.entries.insert key entry }

inductive IndexFile where
  | manifest (index : ExpertIndex)
  /-- cut short -/
  | torn

/-- layer and expert -/
abbrev Key := Nat × Nat

structure Disk where
  blobs : Key → Option (List UInt8)
  /-- `ek-expert-index.json` in the model root -/
  rootIndex : Option IndexFile
  /-- the same in the cache directory of the model -/
  cacheIndex : Option IndexFile

/-- the checkpoint: its experts do not change between the runs -/
structure Setup where
  modelName : String
  /-- the model root is the cache directory of the model -/
  sameDirectory : Bool
  moeLayers : Nat × Nat
  routedExperts : Nat
  getExpert : Key → Except BuildError (List UInt8)
  /-- `SafeTensors::deserialize` and `names` -/
  tensorNames : List UInt8 → Except BuildError (List String)
  deriveShardFiles : List String → List String

def Setup.expertKey (setup : Setup) (key : Key) : String :=
  objectKey setup.modelName key.1 key.2

/-- the index file that the builder reads -/
def Setup.rootFile (setup : Setup) (disk : Disk) : Option IndexFile :=
  if setup.sameDirectory then disk.cacheIndex else disk.rootIndex

/-- `ExpertIndex::load` -/
def load : Option IndexFile → Except BuildError (Option ExpertIndex)
  | none => .ok none
  | some (.manifest index) => .ok (some index)
  | some .torn => .error .json

def Disk.writeBlob (disk : Disk) (key : Key) (content : List UInt8) : Disk :=
  { disk with blobs := Function.update disk.blobs key (some content) }

/-! ## a run -/

/-- the rounds of the loops: an expert, or the checkpoint after a layer -/
inductive Work where
  | expert (key : Key)
  | checkpoint
deriving DecidableEq, Repr

/-- `layer_start` and `layer_end` -/
abbrev LayerRange := Option Nat × Option Nat

def Setup.layers (setup : Setup) (range : LayerRange) : List Nat :=
  List.range' (range.1.getD setup.moeLayers.1)
    (range.2.getD setup.moeLayers.2 - range.1.getD setup.moeLayers.1)

def Setup.layerWork (setup : Setup) (layer : Nat) : List Work :=
  (List.range setup.routedExperts).map (fun expert => .expert (layer, expert)) ++ [.checkpoint]

def Setup.work (setup : Setup) (range : LayerRange) : List Work :=
  (setup.layers range).flatMap setup.layerWork

/-- already extracted and recorded -/
def Setup.skips (setup : Setup) (disk : Disk) (index : ExpertIndex) (key : Key) : Bool :=
  (disk.blobs key).isSome && index.entries.contains (setup.expertKey key)

def Setup.entry (setup : Setup) (bytes : List UInt8) (names : List String) : ExpertEntry :=
  ⟨bytes.length, setup.deriveShardFiles names, names, true⟩

/-- the loops, with the blobs that were written -/
def buildLoop (setup : Setup) :
    List Work → Disk → ExpertIndex → List Key → Except BuildError (Disk × List Key)
  | [], disk, _, written => .ok (disk, written)
  | .checkpoint :: rest, disk, index, written =>
    buildLoop setup rest { disk with cacheIndex := some (.manifest index) } index written
  | .expert key :: rest, disk, index, written =>
    if setup.skips disk index key then buildLoop setup rest disk index written
    else
      match setup.getExpert key with
      | .error error => .error error
      | .ok bytes =>
        match setup.tensorNames bytes with
        | .error error => .error error
        | .ok names => buildLoop setup rest (disk.writeBlob key bytes)
            (index.upsert (setup.expertKey key) (setup.entry bytes names)) (written ++ [key])

def buildIndex (setup : Setup) (disk : Disk) (range : LayerRange) :
    Except BuildError (Disk × List Key) :=
  match load (setup.rootFile disk) with
  | .error error => .error error
  | .ok found =>
    buildLoop setup (setup.work range) disk (found.getD (.new setup.modelName)) []

/-! ## byte by byte -/

inductive Phase where
  | next
  /-- `fs::write` of a blob, with the bytes that are not written yet -/
  | writing (key : Key) (rest : List UInt8) (entry : ExpertEntry)
  /-- `std::fs::write` of the index -/
  | saving

structure Run where
  work : List Work
  index : ExpertIndex
  phase : Phase

structure Builder where
  disk : Disk
  run : Option Run
  /-- how the last run ended; nothing for an interrupted one -/
  exit : Option (Except BuildError Unit)
  /-- the blobs that the run has opened -/
  written : List Key

inductive BuildStep where
  | start (range : LayerRange)
  | advance
  | interrupt
deriving DecidableEq

/-- one statement, or one byte of a blob -/
def Run.advance (setup : Setup) (disk : Disk) (written : List Key) (run : Run) : Builder :=
  match run.phase with
  | .writing key (byte :: rest) entry =>
    ⟨disk.writeBlob key ((disk.blobs key).getD [] ++ [byte]),
      some { run with phase := .writing key rest entry }, none, written⟩
  | .writing key [] entry =>
    ⟨disk, some { run with
      index := run.index.upsert (setup.expertKey key) entry
      phase := .next }, none, written⟩
  | .saving =>
    ⟨{ disk with cacheIndex := some (.manifest run.index) }, some { run with phase := .next }, none,
      written⟩
  | .next =>
    match run.work with
    | [] => ⟨disk, none, some (.ok ()), written⟩
    | .checkpoint :: work =>
      ⟨{ disk with cacheIndex := some .torn }, some ⟨work, run.index, .saving⟩, none, written⟩
    | .expert key :: work =>
      if setup.skips disk run.index key then
        ⟨disk, some { run with work := work }, none, written⟩
      else
        match setup.getExpert key with
        | .error error => ⟨disk, none, some (.error error), written⟩
        | .ok bytes =>
          match setup.tensorNames bytes with
          | .error error => ⟨disk, none, some (.error error), written⟩
          | .ok names => ⟨disk.writeBlob key [], some ⟨work, run.index,
              .writing key bytes (setup.entry bytes names)⟩, none, written ++ [key]⟩

/-- the runs of one machine come one after the other -/
def Builder.step (setup : Setup) (x : Builder) : BuildStep → Option Builder
  | .start range =>
    match x.run with
    | some _ => none
    | none =>
      match load (setup.rootFile x.disk) with
      | .error error => some ⟨x.disk, none, some (.error error), []⟩
      | .ok found => some ⟨x.disk,
          some ⟨setup.work range, found.getD (.new setup.modelName), .next⟩, none, []⟩
  | .advance => x.run.map (Run.advance setup x.disk x.written)
  | .interrupt => x.run.map fun _ => { x with run := none, exit := none }

/-- the run goes on undisturbed -/
def Advances (setup : Setup) : Builder → Builder → Prop :=
  Relation.ReflTransGen fun x y => x.step setup .advance = some y

/-! ## the two descriptions agree -/

theorem Disk.writeBlob_writeBlob (disk : Disk) (key : Key) (a b : List UInt8) :
    (disk.writeBlob key a).writeBlob key b = disk.writeBlob key b := by
  unfold Disk.writeBlob
  simp only [Function.update_idem]

theorem Disk.blobs_writeBlob (disk : Disk) (key : Key) (content : List UInt8) (other : Key) :
    (disk.writeBlob key content).blobs other =
      if other = key then some content else disk.blobs other := by
  unfold Disk.writeBlob
  simp only [Function.update_apply]

section
variable {setup : Setup}

theorem Advances.step {x y z : Builder} (h : x.step setup .advance = some y)
    (hrest : Advances setup y z) : Advances setup x z :=
  Relation.ReflTransGen.head h hrest

/-- a blob is written from its first byte to its last -/
theorem advances_bytes (disk : Disk) (key : Key) (done rest : List UInt8) (entry : ExpertEntry)
    (work : List Work) (index : ExpertIndex) (written : List Key) :
    Advances setup
      ⟨disk.writeBlob key done, some ⟨work, index, .writing key rest entry⟩, none, written⟩
      ⟨disk.writeBlob key (done ++ rest), some ⟨work, index, .writing key [] entry⟩, none,
        written⟩ := by
  induction rest generalizing done with
  | nil =>
    rw [List.append_nil]
    exact .refl
  | cons byte rest ih =>
    have hrest := ih (done ++ [byte])
    rw [List.append_assoc, List.singleton_append] at hrest
    refine .step ?_ hrest
    simp only [Builder.step, Option.map_some, Run.advance, Disk.writeBlob_writeBlob,
      Disk.blobs_writeBlob, if_true, Option.getD_some]

/-- an undisturbed run ends as the loops do -/
theorem advances_loop (work : List Work) (disk : Disk) (index : ExpertIndex) (written : List Key) :
    (∀ final blobs, buildLoop setup work disk index written = .ok (final, blobs) →
      Advances setup ⟨disk, some ⟨work, index, .next⟩, none, written⟩
        ⟨final, none, some (.ok ()), blobs⟩) ∧
    ∀ error, buildLoop setup work disk index written = .error error →
      ∃ final blobs, Advances setup ⟨disk, some ⟨work, index, .next⟩, none, written⟩
        ⟨final, none, some (.error error), blobs⟩ := by
  induction work generalizing disk index written with
  | nil =>
    refine ⟨fun final blobs h => ?_, fun error h => ?_⟩
    · cases h
      exact .step rfl .refl
    · cases h
  | cons round work ih =>
    cases round with
    | checkpoint =>
      obtain ⟨hok, herror⟩ := ih { disk with cacheIndex := some (.manifest index) } index written
      refine ⟨fun final blobs h => .step rfl (.step rfl (hok final blobs h)), fun error h => ?_⟩
      obtain ⟨final, blobs, hrun⟩ := herror error h
      exact ⟨final, blobs, .step rfl (.step rfl hrun)⟩
    | expert key =>
      have hstep : ∀ y, Run.advance setup disk written ⟨.expert key :: work, index, .next⟩ = y →
          (⟨disk, some ⟨.expert key :: work, index, .next⟩, none, written⟩ : Builder).step setup
            .advance = some y := fun y h => congrArg some h
      rw [buildLoop]
      by_cases hskip : setup.skips disk index key = true
      · obtain ⟨hok, herror⟩ := ih disk index written
        have hfirst := hstep ⟨disk, some ⟨work, index, .next⟩, none, written⟩ <| by
          rw [Run.advance]
          exact if_pos hskip
        rw [if_pos hskip]
        refine ⟨fun final blobs h => .step hfirst (hok final blobs h), fun error h => ?_⟩
        obtain ⟨final, blobs, hrun⟩ := herror error h
        exact ⟨final, blobs, .step hfirst hrun⟩
      · rw [if_neg hskip]
        cases hlive : setup.getExpert key with
        | error e =>
          have hfirst := hstep ⟨disk, none, some (.error e), written⟩ <| by
            rw [Run.advance]
            simp only [if_neg hskip, hlive]
          refine ⟨fun _ _ h => (by cases h), fun error h => ?_⟩
          cases h
          exact ⟨disk, written, .step hfirst .refl⟩
        | ok bytes =>
          cases hnames : setup.tensorNames bytes with
          | error e =>
            have hfirst := hstep ⟨disk, none, some (.error e), written⟩ <| by
              rw [Run.advance]
              simp only [if_neg hskip, hlive, hnames]
            simp only [hnames]
            refine ⟨fun _ _ h => (by cases h), fun error h => ?_⟩
            cases h
            exact ⟨disk, written, .step hfirst .refl⟩
          | ok names =>
            have hfirst := hstep ⟨disk.writeBlob key [], some ⟨work, index,
                .writing key bytes (setup.entry bytes names)⟩, none, written ++ [key]⟩ <| by
              rw [Run.advance]
              simp only [if_neg hskip, hlive, hnames]
            have hbytes : Advances setup _ _ := advances_bytes disk key [] bytes
              (setup.entry bytes names) work index (written ++ [key])
            obtain ⟨hok, herror⟩ := ih (disk.writeBlob key bytes)
              (index.upsert (setup.expertKey key) (setup.entry bytes names)) (written ++ [key])
            simp only [hnames]
            refine ⟨fun final blobs h =>
              .step hfirst (hbytes.trans (Advances.step rfl (hok final blobs h))), fun error h => ?_⟩
            obtain ⟨final, blobs, hrun⟩ := herror error h
            exact ⟨final, blobs, .step hfirst (hbytes.trans (Advances.step rfl hrun))⟩

/-- an undisturbed run of the builder is `buildIndex` -/
theorem advances_build {disk final : Disk} {range : LayerRange} {blobs : List Key}
    {exit : Option (Except BuildError Unit)} {written : List Key}
    (h : buildIndex setup disk range = .ok (final, blobs)) :
    ∃ started, Builder.step setup ⟨disk, none, exit, written⟩ (.start range) = some started ∧
      Advances setup started ⟨final, none, some (.ok ()), blobs⟩ := by
  unfold buildIndex at h
  cases hload : load (setup.rootFile disk) with
  | error e =>
    rw [hload] at h
    cases h
  | ok found =>
    rw [hload] at h
    refine ⟨_, ?_, (advances_loop _ _ _ _).1 final blobs h⟩
    simp only [Builder.step, hload]

end

/-! ## the server -/

/-- the index that a server starts with; one that cannot be read is left aside -/
def serverIndex (disk : Disk) : Option ExpertIndex :=
  match load disk.cacheIndex with
  | .ok found => found
  | .error _ => none

def ExpertIndex.caches (index : ExpertIndex) (key : String) : Bool :=
  index.entries[key]?.any ExpertEntry.cached

/-- the fast path, and the live serialization when the blob cannot be read -/
def getExpertBytes (setup : Setup) (disk : Disk) (key : Key) : Except BuildError (List UInt8) :=
  if (serverIndex disk).any fun index => index.caches (setup.expertKey key) then
    match disk.blobs key with
    | some bytes => .ok bytes
    | none => setup.getExpert key
  else setup.getExpert key

end ExpertKit.Weights

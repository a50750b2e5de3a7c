import ExpertKit.Weights.ExpertIndex

/-!
# Weight server: the fast path

Which bytes a server returns after any number of builds, finished or interrupted.

* `Disk.lists`         an index on the disk says that the blob is there;
* `Clean`              no interruption inside the write of such a blob;
* `Consistent`         what every clean step keeps;
* `fast_path_sound`    then the fast path returns what the slow path returns;
* `fast_path_torn`     an interrupted rewrite of a listed blob is served as it is.
-/

set_option linter.unusedSectionVars false

namespace ExpertKit.Weights
open Std ExpertKit.Elastic

def IndexFile.caches (file : Option IndexFile) (key : String) : Bool :=
  match file with
  | some (.manifest index) => index.caches key
  | _ => false

/-- one of the two index files says that the blob is there -/
def Disk.lists (setup : Setup) (disk : Disk) (key : Key) : Bool :=
  IndexFile.caches (setup.rootFile disk) (setup.expertKey key) ||
    IndexFile.caches disk.cacheIndex (setup.expertKey key)

/-- the blob is missing, or holds the live bytes -/
def Disk.Served (setup : Setup) (disk : Disk) (key : Key) : Prop :=
  ∀ bytes, disk.blobs key = some bytes → setup.getExpert key = .ok bytes

/-- a run is not interrupted inside the write of a blob that an index lists -/
def Clean (setup : Setup) (x : Builder) (l : BuildStep) : Prop :=
  l = .interrupt → ∀ run key byte rest entry, x.run = some run →
    run.phase = .writing key (byte :: rest) entry → x.disk.lists setup key = false

/-- the blob that is being written -/
def Phase.key : Phase → Option Key
  | .writing key _ _ => some key
  | _ => none

/-- what a run needs: the blobs that its index or a file lists, but for the one being written -/
structure RunConsistent (setup : Setup) (disk : Disk) (run : Run) : Prop where
  served : ∀ key, disk.lists setup key = true ∨ run.index.caches (setup.expertKey key) = true →
    run.phase.key = some key ∨ disk.Served setup key
  writing : ∀ key rest entry, run.phase = .writing key rest entry →
    ∃ done, disk.blobs key = some done ∧ setup.getExpert key = .ok (done ++ rest)

def Consistent (setup : Setup) (x : Builder) : Prop :=
  match x.run with
  | none => ∀ key, x.disk.lists setup key = true → x.disk.Served setup key
  | some run => RunConsistent setup x.disk run

section
variable {setup : Setup}

theorem expertKey_inj {a b : Key} (h : setup.expertKey a = setup.expertKey b) : a = b := by
  obtain ⟨hlayer, hexpert⟩ := objectKey_inj h
  exact Prod.ext hlayer hexpert

theorem caches_upsert {index : ExpertIndex} {key : String} {entry : ExpertEntry} {other : String}
    (h : (index.upsert key entry).caches other = true) :
    other = key ∨ index.caches other = true := by
  unfold ExpertIndex.caches ExpertIndex.upsert at h
  rw [ExtTreeMap.getElem?_insert] at h
  split_ifs at h with hkey
  · exact .inl (LawfulEqCmp.eq_of_compare hkey).symm
  · exact .inr h

theorem served_writeBlob {disk : Disk} {key other : Key} (content : List UInt8) (hne : other ≠ key)
    (h : disk.Served setup other) : (disk.writeBlob key content).Served setup other := by
  intro bytes hbytes
  rw [Disk.blobs_writeBlob, if_neg hne] at hbytes
  exact h bytes hbytes

/-- another index file keeps the blobs -/
theorem lists_cacheIndex {disk : Disk} {file : Option IndexFile} {key : Key}
    (h : Disk.lists setup { disk with cacheIndex := file } key = true) :
    disk.lists setup key = true ∨ IndexFile.caches file (setup.expertKey key) = true := by
  unfold Disk.lists Setup.rootFile at *
  rcases (Bool.or_eq_true _ _).mp h with hroot | hcache
  · by_cases hsame : setup.sameDirectory = true
    · rw [if_pos hsame] at hroot
      exact .inr hroot
    · rw [if_neg hsame] at hroot
      rw [if_neg hsame]
      exact .inl ((Bool.or_eq_true _ _).mpr (.inl hroot))
  · exact .inr hcache

/-- one statement or one byte -/
theorem Consistent.advance {disk : Disk} {run : Run} {written : List Key}
    (h : RunConsistent setup disk run) : Consistent setup (run.advance setup disk written) := by
  obtain ⟨work, index, phase⟩ := run
  cases phase with
  | writing key rest entry =>
    obtain ⟨done, hdone, hlive⟩ := h.writing key rest entry rfl
    have hother : ∀ other, other ≠ key → disk.lists setup other = true ∨
        index.caches (setup.expertKey other) = true → disk.Served setup other := by
      intro other hne hlisted
      rcases h.served other hlisted with hwriting | hserved
      · exact absurd (Option.some.inj hwriting).symm hne
      · exact hserved
    cases rest with
    | nil =>
      change RunConsistent setup disk
        ⟨work, index.upsert (setup.expertKey key) entry, .next⟩
      refine ⟨fun other hlisted => .inr ?_, fun _ _ _ hphase => (by cases hphase)⟩
      by_cases hkey : other = key
      · subst hkey
        intro bytes hbytes
        rw [hdone] at hbytes
        cases hbytes
        rwa [List.append_nil] at hlive
      · refine hother other hkey (hlisted.imp_right fun hcaches => ?_)
        rcases caches_upsert hcaches with heq | hold
        · exact absurd (expertKey_inj heq) hkey
        · exact hold
    | cons byte rest =>
      change RunConsistent setup (disk.writeBlob key ((disk.blobs key).getD [] ++ [byte]))
        ⟨work, index, .writing key rest entry⟩
      refine ⟨fun other hlisted => ?_, fun other rest' entry' hphase => ?_⟩
      · by_cases hkey : other = key
        · exact .inl (by rw [hkey]; rfl)
        · exact .inr (served_writeBlob _ hkey (hother other hkey hlisted))
      · cases hphase
        refine ⟨done ++ [byte], ?_, ?_⟩
        · simp only [Disk.blobs_writeBlob, if_true, hdone, Option.getD_some]
        · rw [hlive, List.append_assoc, List.singleton_append]
  | saving =>
    refine ⟨fun other hlisted => ?_, fun _ _ _ hphase => (by cases hphase)⟩
    refine .inr ((h.served other ?_).resolve_left fun hphase => (by cases hphase))
    rcases hlisted with hdisk | hindex
    · exact lists_cacheIndex hdisk
    · exact .inr hindex
  | next =>
    have hserved : ∀ key, disk.lists setup key = true ∨
        index.caches (setup.expertKey key) = true → disk.Served setup key := fun key hlisted =>
      (h.served key hlisted).resolve_left fun hphase => (by cases hphase)
    have hend : ∀ exit, Consistent setup ⟨disk, none, exit, written⟩ := fun _ key hlisted =>
      hserved key (.inl hlisted)
    cases work with
    | nil => exact hend _
    | cons round work =>
      cases round with
      | checkpoint =>
        refine ⟨fun key hlisted => .inr (hserved key ?_), fun _ _ _ hphase => (by cases hphase)⟩
        rcases hlisted with hdisk | hindex
        · exact .inl ((lists_cacheIndex hdisk).resolve_right Bool.false_ne_true)
        · exact .inr hindex
      | expert key =>
        by_cases hskip : setup.skips disk index key = true
        · have hadvance : Run.advance setup disk written ⟨.expert key :: work, index, .next⟩ =
              ⟨disk, some ⟨work, index, .next⟩, none, written⟩ := if_pos hskip
          rw [hadvance]
          exact ⟨fun key hlisted => .inr (hserved key hlisted),
            fun _ _ _ hphase => (by cases hphase)⟩
        · cases hlive : setup.getExpert key with
          | error e =>
            have hadvance : Run.advance setup disk written ⟨.expert key :: work, index, .next⟩ =
                ⟨disk, none, some (.error e), written⟩ := by
              rw [Run.advance]
              simp only [if_neg hskip, hlive]
            rw [hadvance]
            exact hend _
          | ok bytes =>
            cases hnames : setup.tensorNames bytes with
            | error e =>
              have hadvance : Run.advance setup disk written ⟨.expert key :: work, index, .next⟩ =
                  ⟨disk, none, some (.error e), written⟩ := by
                rw [Run.advance]
                simp only [if_neg hskip, hlive, hnames]
              rw [hadvance]
              exact hend _
            | ok names =>
              have hadvance : Run.advance setup disk written ⟨.expert key :: work, index, .next⟩ =
                  ⟨disk.writeBlob key [], some ⟨work, index, .writing key bytes
                    (setup.entry bytes names)⟩, none, written ++ [key]⟩ := by
                rw [Run.advance]
                simp only [if_neg hskip, hlive, hnames]
              rw [hadvance]
              refine ⟨fun other hlisted => ?_, fun other rest entry hphase => ?_⟩
              · by_cases hkey : other = key
                · exact .inl (by rw [hkey]; rfl)
                · exact .inr (served_writeBlob _ hkey (hserved other hlisted))
              · cases hphase
                exact ⟨[], by rw [Disk.blobs_writeBlob, if_pos rfl], hlive⟩

theorem Consistent.step {x y : Builder} {l : BuildStep} (h : Consistent setup x)
    (hclean : Clean setup x l) (hs : x.step setup l = some y) : Consistent setup y := by
  cases l with
  | start range =>
    cases hrun : x.run with
    | some run =>
      rw [Builder.step, hrun] at hs
      cases hs
    | none =>
      have hserved : ∀ key, x.disk.lists setup key = true → x.disk.Served setup key := by
        rw [Consistent, hrun] at h
        exact h
      rw [Builder.step, hrun] at hs
      simp only at hs
      cases hload : load (setup.rootFile x.disk) with
      | error e =>
        rw [hload] at hs
        cases hs
        exact hserved
      | ok found =>
        rw [hload] at hs
        cases hs
        refine ⟨fun key hlisted => .inr (hserved key ?_), fun _ _ _ hphase => (by cases hphase)⟩
        rcases hlisted with hdisk | hindex
        · exact hdisk
        · -- the index of the run is the one in the model root
          unfold load at hload
          split at hload
          · cases hload
            cases hindex
          · rename_i index hfile
            cases hload
            refine (Bool.or_eq_true _ _).mpr (.inl ?_)
            rw [hfile]
            exact hindex
          · cases hload
  | advance =>
    obtain ⟨run, hrun, rfl⟩ := Option.map_eq_some_iff.mp hs
    rw [Consistent, hrun] at h
    exact Consistent.advance h
  | interrupt =>
    obtain ⟨run, hrun, rfl⟩ := Option.map_eq_some_iff.mp hs
    rw [Consistent, hrun] at h
    intro key hlisted
    rcases h.served key (.inl hlisted) with hwriting | hserved
    · obtain ⟨work, index, phase⟩ := run
      cases phase with
      | writing key' rest entry =>
        obtain rfl := Option.some.inj hwriting
        obtain ⟨done, hdone, hlive⟩ := h.writing key' rest entry rfl
        cases rest with
        | nil =>
          intro bytes hbytes
          have hsame : done = bytes := Option.some.inj (hdone.symm.trans hbytes)
          rwa [List.append_nil, hsame] at hlive
        | cons byte rest =>
          have hnot := hclean rfl _ key' byte rest entry hrun rfl
          exact absurd (hnot.symm.trans hlisted) Bool.false_ne_true
      | saving => cases hwriting
      | next => cases hwriting
    · exact hserved

/-- a disk without blobs; the index files may say anything -/
def Builder.Fresh (x : Builder) : Prop := x.run = none ∧ ∀ key, x.disk.blobs key = none

/-- **The fast path.**  Whatever builds ran or were interrupted, as long as none was interrupted
inside the write of a blob that an index lists, a server returns the live bytes of every expert. -/
theorem fast_path_sound {start x : Builder} (hstart : start.Fresh)
    (hreach : Steps.Reach (Builder.step setup) (Clean setup) start x) (hidle : x.run = none)
    (key : Key) : getExpertBytes setup x.disk key = setup.getExpert key := by
  have hconsistent : Consistent setup x := by
    refine hreach.invariant ?_ fun s l s' h hclean hs => h.step hclean hs
    rw [Consistent, hstart.1]
    intro key _ bytes hbytes
    rw [hstart.2 key] at hbytes
    cases hbytes
  rw [Consistent, hidle] at hconsistent
  unfold getExpertBytes
  split_ifs with hlisted
  · have hcaches : IndexFile.caches x.disk.cacheIndex (setup.expertKey key) = true := by
      unfold serverIndex at hlisted
      cases hfile : x.disk.cacheIndex with
      | none =>
        rw [hfile] at hlisted
        cases hlisted
      | some file =>
        rw [hfile] at hlisted
        cases file with
        | manifest index => exact hlisted
        | torn => cases hlisted
    cases hblob : x.disk.blobs key with
    | none => rfl
    | some bytes =>
      exact (hconsistent key ((Bool.or_eq_true _ _).mpr (.inr hcaches)) bytes hblob).symm
  · rfl

end

/-- a checkpoint with one expert, in a directory of its own -/
def smallSetup : Setup where
  modelName := "m"
  sameDirectory := false
  moeLayers := (0, 1)
  routedExperts := 1
  getExpert := fun _ => .ok [1, 2]
  tensorNames := fun _ => .ok []
  deriveShardFiles := id

def emptyBuilder : Builder := ⟨⟨fun _ => none, none, none⟩, none, none, []⟩

/-- one run, with its seven statements -/
def wholeRun : List BuildStep := .start (none, none) :: List.replicate 7 .advance

theorem emptyBuilder_fresh : emptyBuilder.Fresh := ⟨rfl, fun _ => rfl⟩

/-- no interruption once an index is there -/
def firstOnly (x : Builder) (l : BuildStep) : Bool :=
  decide (l ≠ .interrupt) || (x.disk.rootIndex.isNone && x.disk.cacheIndex.isNone)

theorem firstOnly_clean {x : Builder} {l : BuildStep} (h : firstOnly x l = true) :
    Clean smallSetup x l := by
  intro hl run key byte rest entry _ _
  subst hl
  obtain ⟨hroot, hcache⟩ := (Bool.and_eq_true _ _).mp h
  unfold Disk.lists Setup.rootFile
  rw [Option.isNone_iff_eq_none.mp hroot, Option.isNone_iff_eq_none.mp hcache]
  rfl

/-- the first run stops inside the blob, the second one is finished -/
theorem fast_path_sound_example : ∃ x : Builder, (x.disk.blobs (0, 0)).isSome = true ∧
    getExpertBytes smallSetup x.disk (0, 0) = .ok [1, 2] := by
  obtain ⟨x, hx, hend⟩ := (Option.any_eq_true
    (fun x : Builder => x.run.isNone && (x.disk.blobs (0, 0)).isSome)
    (Steps.run (Builder.step smallSetup) firstOnly emptyBuilder
      ([.start (none, none), .advance, .advance, .interrupt] ++ wholeRun))).mp (by decide)
  obtain ⟨hidle, hblob⟩ := (Bool.and_eq_true _ _).mp hend
  exact ⟨x, hblob, fast_path_sound emptyBuilder_fresh
    ((Steps.Reach.of_run .refl hx).mono fun _ _ => firstOnly_clean)
    (Option.isNone_iff_eq_none.mp hidle) (0, 0)⟩

/-- the second run writes the listed blob again, since it reads the other index -/
theorem fast_path_torn : ¬ ∀ (setup : Setup) (start x : Builder), start.Fresh →
    Steps.Reach (Builder.step setup) (fun _ _ => True) start x → x.run = none →
    ∀ key, getExpertBytes setup x.disk key = setup.getExpert key := by
  intro hall
  obtain ⟨x, hx, hend⟩ := (Option.any_eq_true
    (fun x : Builder => x.run.isNone &&
      decide ((getExpertBytes smallSetup x.disk (0, 0)).toOption = some [1]))
    (Steps.run (Builder.step smallSetup) (fun _ _ => true) emptyBuilder
      (wholeRun ++ [.start (none, none), .advance, .advance, .interrupt]))).mp (by decide)
  obtain ⟨hidle, htorn⟩ := (Bool.and_eq_true _ _).mp hend
  have hlive := hall smallSetup emptyBuilder x emptyBuilder_fresh
    ((Steps.Reach.of_run .refl hx).mono fun _ _ _ => trivial)
    (Option.isNone_iff_eq_none.mp hidle) (0, 0)
  rw [hlive] at htorn
  exact absurd htorn (by decide)

end ExpertKit.Weights

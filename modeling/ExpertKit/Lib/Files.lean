import Mathlib

/-!
# Files that survive power failures

A volume of files and the names that refer to them.  What was written since the last sync of a file
is uncertain after a power failure, and so is each name that was changed since the last sync of its
directory: it may refer to anything it referred to since then.  A directory that was made since the
last boot may be lost with all its names, as nothing syncs the directory above it.

* `Volume`, `makeDirectory`, `create`, `write`, `truncate`, `sync`, `rename`, `unlink`, `syncNames`
                    the operations;
* `Fails`           what a power failure may leave;
* `Refers`          what a name refers to, or may refer to after a power failure.
-/

namespace Files

/-! ## the operations -/

/-- a file; only what is synced outlasts a power failure -/
structure Inode where
  data : List UInt8
  synced : Bool
deriving DecidableEq, Repr

/-- `bytes` written at an offset; a gap before it is zero -/
def overwrite (data : List UInt8) (offset : Nat) (bytes : List UInt8) : List UInt8 :=
  data.take offset ++ List.replicate (offset - data.length) 0 ++ bytes ++
    data.drop (offset + bytes.length)

/-- the first `size` bytes, with zeros after the end -/
def resize (data : List UInt8) (size : Nat) : List UInt8 :=
  data.take size ++ List.replicate (size - data.length) 0

/-- a directory is missing, was made since the last boot, or is on the disk -/
inductive Home where
  | missing
  | made
  | durable
deriving DecidableEq, Repr

structure Volume (ν : Type) where
  inodes : List Inode
  names : ν → Option Nat
  /-- what each name referred to since the last sync of its directory, before it was changed -/
  stale : ν → List (Option Nat)
  /-- the directory of each name -/
  home : ν → Home

namespace Volume

variable {ν : Type} [DecidableEq ν]

/-- the contents that a name refers to -/
def content (v : Volume ν) (n : ν) : Option (List UInt8) :=
  (v.names n).bind fun i => v.inodes[i]?.map Inode.data

def setName (v : Volume ν) (n : ν) (i : Option Nat) : Volume ν :=
  { v with
    names := Function.update v.names n i
    stale := Function.update v.stale n (v.names n :: v.stale n) }

def setInode (v : Volume ν) (i : Nat) (inode : Inode) : Volume ν :=
  { v with inodes := v.inodes.set i inode }

/-- `mkdir` of a directory that may exist -/
def makeDirectory (v : Volume ν) (directory : ν → Bool) : Volume ν :=
  { v with home := fun n => if directory n ∧ v.home n = .missing then .made else v.home n }

/-- a new file of that name; none where the name exists -/
def create (v : Volume ν) (n : ν) : Option (Volume ν) :=
  if v.names n = none then
    some (({ v with inodes := v.inodes ++ [⟨[], false⟩] } : Volume ν).setName n
      (some v.inodes.length))
  else none

def dataOf (v : Volume ν) (i : Nat) : List UInt8 := (v.inodes[i]?.map Inode.data).getD []

def write (v : Volume ν) (i offset : Nat) (bytes : List UInt8) : Volume ν :=
  v.setInode i ⟨overwrite (v.dataOf i) offset bytes, false⟩

def truncate (v : Volume ν) (i size : Nat) : Volume ν :=
  v.setInode i ⟨resize (v.dataOf i) size, false⟩

def sync (v : Volume ν) (i : Nat) : Volume ν := v.setInode i ⟨v.dataOf i, true⟩

/-- the new name replaces what it referred to; none where the old name does not exist -/
def rename (v : Volume ν) (n m : ν) : Option (Volume ν) :=
  if v.names n = none then none
  else if n = m then some v
  else some ((v.setName m (v.names n)).setName n none)

def unlink (v : Volume ν) (n : ν) : Option (Volume ν) :=
  if v.names n = none then none else some (v.setName n none)

/-- the names of a directory become certain -/
def syncNames (v : Volume ν) (directory : ν → Bool) : Volume ν :=
  { v with stale := fun n => if directory n then [] else v.stale n }

end Volume

variable {ν : Type} [DecidableEq ν] {v v' : Volume ν} {n m : ν} {i : Nat}

/-- a name refers to the file, or may refer to it after a power failure -/
def Refers (v : Volume ν) (n : ν) (i : Nat) : Prop :=
  v.names n = some i ∨ some i ∈ v.stale n

/-- a power failure: synced files are kept, and each name refers to something it referred to, or is
lost with its directory -/
structure Fails (v v' : Volume ν) : Prop where
  length : v'.inodes.length = v.inodes.length
  kept : ∀ (i : Nat) (inode : Inode), v.inodes[i]? = some inode → inode.synced = true →
    v'.inodes[i]? = some inode
  home : ∀ n, v'.home n = v.home n ∨ v.home n = .made
  booted : ∀ n, v'.home n ≠ .made
  names : ∀ n, if v.home n = .made ∧ v'.home n = .missing then v'.names n = none
    else v'.names n = v.names n ∨ v'.names n ∈ v.stale n
  stale : ∀ n, v'.stale n = []

/-- a power failure that loses nothing -/
def Volume.settle (v : Volume ν) : Volume ν :=
  { v with
    stale := fun _ => []
    home := fun n => if v.home n = .missing then .missing else .durable }

omit [DecidableEq ν] in
theorem fails_settle (v : Volume ν) : Fails v v.settle := by
  refine ⟨rfl, fun _ _ h _ => h, fun n => ?_, fun n => ?_, fun n => ?_, fun _ => rfl⟩
  all_goals
    unfold Volume.settle
    cases hn : v.home n <;> simp [hn]

/-! ## directories -/

omit [DecidableEq ν] in
theorem makeDirectory_durable {directory : ν → Bool} (h : v.home n = .durable) :
    (v.makeDirectory directory).home n = .durable := by
  unfold Volume.makeDirectory
  simp [h]

theorem create_home (h : v.create n = some v') : v'.home = v.home := by
  unfold Volume.create at h
  split_ifs at h
  cases h
  rfl

theorem rename_home (h : v.rename n m = some v') : v'.home = v.home := by
  unfold Volume.rename at h
  split_ifs at h <;> cases h <;> rfl

theorem unlink_home (v : Volume ν) (n : ν) : ((v.unlink n).getD v).home = v.home := by
  unfold Volume.unlink
  split_ifs <;> rfl

omit [DecidableEq ν] in
theorem Fails.durable (h : Fails v v') (hn : v.home n = .durable) : v'.home n = .durable := by
  rcases h.home n with hsame | hmade
  · exact hsame.trans hn
  · rw [hn] at hmade
    cases hmade

/-! ## what a name may refer to -/

omit [DecidableEq ν] in
/-- a name that was synced is kept, or lost with its directory -/
theorem Fails.quiet (h : Fails v v') (hs : v.stale n = []) :
    v'.names n = v.names n ∨ (v.home n = .made ∧ v'.names n = none) := by
  have hnames := h.names n
  split_ifs at hnames with hlost
  · exact .inr ⟨hlost.1, hnames⟩
  · refine .inl (hnames.resolve_right fun hmem => ?_)
    rw [hs] at hmem
    exact List.not_mem_nil hmem

omit [DecidableEq ν] in
theorem Fails.refers (h : Fails v v') (hi : Refers v' n i) : Refers v n i := by
  rcases hi with hi | hi
  · have hnames := h.names n
    split_ifs at hnames with hlost
    · rw [hnames] at hi
      cases hi
    · rcases hnames with hn | hn
      · exact .inl (hn.symm.trans hi)
      · exact .inr (hi ▸ hn)
  · rw [h.stale n] at hi
    cases hi

theorem refers_setName {value : Option Nat} :
    Refers (v.setName n value) m i ↔ Refers v m i ∨ (m = n ∧ value = some i) := by
  unfold Refers Volume.setName
  simp only [Function.update_apply]
  split_ifs with h
  · subst h
    rw [List.mem_cons]
    constructor
    · rintro (hv | hv | hv)
      · exact .inr ⟨rfl, hv⟩
      · exact .inl (.inl hv.symm)
      · exact .inl (.inr hv)
    · rintro ((hv | hv) | ⟨-, hv⟩)
      · exact .inr (.inl hv.symm)
      · exact .inr (.inr hv)
      · exact .inl hv
  · exact ⟨.inl, fun hv => hv.resolve_right fun hv => h hv.1⟩

theorem refers_rename (h : v.rename n m = some v') {k : ν} (hi : Refers v' k i) :
    Refers v k i ∨ (k = m ∧ v.names n = some i) := by
  unfold Volume.rename at h
  split_ifs at h with h1 h2
  · cases h
    exact .inl hi
  · cases h
    rcases refers_setName.mp hi with hi | ⟨-, hi⟩
    · exact refers_setName.mp hi
    · cases hi

theorem refers_unlink (h : v.unlink n = some v') {k : ν} (hi : Refers v' k i) : Refers v k i := by
  unfold Volume.unlink at h
  split_ifs at h with h1
  cases h
  rcases refers_setName.mp hi with hi | ⟨-, hi⟩
  · exact hi
  · cases hi

theorem refers_create (h : v.create n = some v') {k : ν} (hi : Refers v' k i) :
    Refers v k i ∨ (k = n ∧ i = v.inodes.length) := by
  unfold Volume.create at h
  split_ifs at h with h1
  cases h
  rcases refers_setName.mp hi with hi | ⟨hk, hi⟩
  · exact .inl hi
  · exact .inr ⟨hk, (Option.some.inj hi).symm⟩

omit [DecidableEq ν] in
theorem refers_syncNames {directory : ν → Bool} (hi : Refers (v.syncNames directory) n i) :
    Refers v n i := by
  rcases hi with hi | hi
  · exact .inl hi
  · refine .inr ?_
    change some i ∈ (if directory n then [] else v.stale n) at hi
    split_ifs at hi with hn
    · cases hi
    · exact hi

end Files

import ExpertKit.Lib.Files
import ExpertKit.Lib.Steps
import ExpertKit.Lib.Ledger

/-!
# Worker: direct weight I/O

`ek-worker/src/expertkit_worker/weights/direct_io.py` and the calls of `disk_cache.py` on it.  Any
number of processes of one PID namespace share one cache directory; a step is one call to the
operating system, which may raise, and a process or the whole machine can stop between two steps.

* `AlignedWeightBuffer`     a buffer with its logical and its aligned size;
* `Write.step`              `write_direct_atomic`, one call after the other;
* `Read.step`               `read_direct`;
* `Cleaner.step`            `cleanup_temporary_files`, which looks at one path after the other;
* `CacheDisk.step`          all of them, with removals, new and dead processes and power failures.
-/

namespace ExpertKit.Worker.DirectIo
open Files

/-! ## paths -/

def temporaryPrefix : String := ".ek-weight-tmp-"

def probePrefix : String := ".ek-weight-probe-"

structure Path where
  parent : String
  name : String
deriving DecidableEq, Repr

/-- the name of a temporary file: the owner's number and a fresh identifier -/
def temporaryName (pid : Nat) (uuid : String) : String :=
  temporaryPrefix ++ toString pid ++ "-" ++ uuid

/-- decimal digits with single underscores between them -/
def decimal : List Char → Option Nat → Option Nat
  | [], value => value
  | c :: rest, value =>
    if c.isDigit then decimal rest (some (10 * value.getD 0 + (c.toNat - '0'.toNat)))
    else if c = '_' ∧ value.isSome ∧ rest.head?.any Char.isDigit then decimal rest value
    else none

/-- `int` of a text: blanks around it, a sign, digits -/
def parseInt (text : List Char) : Option Int :=
  match (text.dropWhile Char.isWhitespace).rdropWhile Char.isWhitespace with
  | '-' :: digits => (decimal digits none).map fun n => -(n : Int)
  | '+' :: digits => (decimal digits none).map fun n => (n : Int)
  | digits => (decimal digits none).map fun n => (n : Int)

/-- the text of the owner in a name with that prefix -/
def ownerText (name before : String) : List Char :=
  (name.toList.drop before.length).takeWhile (· ≠ '-')

/-- `_temporary_file_has_live_owner`, for the processes that are alive -/
def hasLiveOwner (live : List Nat) (name before : String) : Bool :=
  match parseInt (ownerText name before) with
  | none => false
  | some pid => 0 < pid ∧ pid.toNat ∈ live

/-- the prefix with which the cleanup finds the path -/
def cleanupPrefix (path : Path) : Option String :=
  if temporaryPrefix.toList <+: path.name.toList then some temporaryPrefix
  else if probePrefix.toList <+: path.name.toList then some probePrefix
  else none

/-- `expert_file_path` -/
def expertFilePath (root modelName : String) (layerId expertId : Nat) : Path :=
  ⟨root ++ "/" ++ modelName, "l" ++ toString layerId ++ "-e" ++ toString expertId⟩

/-- the file of the startup probe -/
def probeFilePath (directory : String) (pid : Nat) (uuid : String) : Path :=
  ⟨directory, probePrefix ++ toString pid ++ "-" ++ uuid⟩

/-! ## names of temporary files -/

theorem isDigit_ne {c d : Char} (h : c.isDigit = true) (hd : d.isDigit = false) : c ≠ d := by
  rintro rfl
  rw [h] at hd
  cases hd

theorem decimal_digits {l : List Char} (h : ∀ c ∈ l, c.isDigit = true) (value : Nat) :
    decimal l (some value) = some (Nat.ofDigitChars 10 l value) := by
  induction l generalizing value with
  | nil => rw [decimal, Nat.ofDigitChars_nil]
  | cons c rest ih =>
    have hc := h c List.mem_cons_self
    rw [decimal, if_pos hc, Nat.ofDigitChars_cons]
    exact ih (fun d hd => h d (List.mem_cons_of_mem _ hd)) _

theorem isWhitespace_of_isDigit {c : Char} (h : c.isDigit = true) : c.isWhitespace = false := by
  unfold Char.isWhitespace
  simp only [Bool.or_eq_false_iff, decide_eq_false_iff_not]
  exact ⟨⟨⟨isDigit_ne h rfl, isDigit_ne h rfl⟩, isDigit_ne h rfl⟩, isDigit_ne h rfl⟩

theorem parseInt_digits {l : List Char} (h : ∀ c ∈ l, c.isDigit = true) (hne : l ≠ []) :
    parseInt l = some (Nat.ofDigitChars 10 l 0 : Int) := by
  have hleft : l.dropWhile Char.isWhitespace = l := by
    refine List.dropWhile_eq_self_iff.mpr fun hpos hspace => ?_
    rw [isWhitespace_of_isDigit (h _ (List.getElem_mem hpos))] at hspace
    cases hspace
  have hright : l.rdropWhile Char.isWhitespace = l := by
    refine List.rdropWhile_eq_self_iff.mpr fun hl hspace => ?_
    rw [isWhitespace_of_isDigit (h _ (List.getLast_mem hl))] at hspace
    cases hspace
  unfold parseInt
  rw [hleft, hright]
  cases l with
  | nil => exact absurd rfl hne
  | cons c rest =>
    have hc := h c List.mem_cons_self
    have hvalue : decimal (c :: rest) none = some (Nat.ofDigitChars 10 (c :: rest) 0) := by
      rw [decimal, if_pos hc, Nat.ofDigitChars_cons]
      exact decimal_digits (fun d hd => h d (List.mem_cons_of_mem _ hd)) _
    split
    · rename_i heq
      cases heq
      exact absurd rfl (isDigit_ne hc rfl)
    · rename_i heq
      cases heq
      exact absurd rfl (isDigit_ne hc rfl)
    · rw [hvalue]
      rfl

theorem toList_toString (n : Nat) : (toString n).toList = Nat.toDigits 10 n := Nat.toList_repr

theorem isDigit_toString {n : Nat} {c : Char} (h : c ∈ Nat.toDigits 10 n) : c.isDigit = true :=
  Nat.isDigit_of_mem_toDigits (by decide) (by decide) h

theorem toList_temporaryName (pid : Nat) (uuid : String) :
    (temporaryName pid uuid).toList =
      temporaryPrefix.toList ++ (Nat.toDigits 10 pid ++ ('-' :: uuid.toList)) := by
  unfold temporaryName
  rw [String.toList_append, String.toList_append, String.toList_append, toList_toString,
    List.append_assoc, List.append_assoc]
  rfl

/-- the owner of a temporary file is the process that created it -/
theorem ownerText_temporaryName (pid : Nat) (uuid : String) :
    ownerText (temporaryName pid uuid) temporaryPrefix = Nat.toDigits 10 pid := by
  unfold ownerText
  rw [toList_temporaryName, show temporaryPrefix.length = temporaryPrefix.toList.length from rfl,
    List.drop_left, List.takeWhile_append_of_pos fun c hc => ?_]
  · rw [List.takeWhile_cons_of_neg (by simp), List.append_nil]
  · exact decide_eq_true (isDigit_ne (isDigit_toString hc) rfl)

theorem hasLiveOwner_temporaryName {live : List Nat} {pid : Nat} (hlive : pid ∈ live)
    (hpos : 0 < pid) (uuid : String) :
    hasLiveOwner live (temporaryName pid uuid) temporaryPrefix = true := by
  unfold hasLiveOwner
  rw [ownerText_temporaryName, parseInt_digits (fun _ => isDigit_toString) Nat.toDigits_ne_nil,
    Nat.ofDigitChars_ten_toDigits]
  simp only [Int.toNat_natCast, decide_eq_true_eq]
  exact ⟨Int.natCast_pos.mpr hpos, hlive⟩

theorem cleanupPrefix_temporary {path : Path}
    (h : temporaryPrefix.toList <+: path.name.toList) :
    cleanupPrefix path = some temporaryPrefix := if_pos h

theorem temporary_marked (pid : Nat) (uuid : String) :
    temporaryPrefix.toList <+: (temporaryName pid uuid).toList := by
  rw [toList_temporaryName]
  exact List.prefix_append _ _

/-- a temporary file is no file of an expert -/
theorem expertFilePath_unmarked (root modelName : String) (layerId expertId : Nat) :
    ¬temporaryPrefix.toList <+: (expertFilePath root modelName layerId expertId).name.toList := by
  unfold expertFilePath
  simp only [String.toList_append]
  exact fun h => absurd (List.cons_prefix_cons.mp h).1 (by decide)

/-- a temporary file is no startup probe -/
theorem probeFilePath_unmarked (directory : String) (pid : Nat) (uuid : String) :
    ¬temporaryPrefix.toList <+: (probeFilePath directory pid uuid).name.toList := by
  unfold probeFilePath
  simp only [String.toList_append]
  intro h
  have hboth := List.prefix_of_prefix_length_le h
    ((List.prefix_append _ _).trans ((List.prefix_append _ _).trans (List.prefix_append _ _)))
    (by decide : temporaryPrefix.toList.length ≤ probePrefix.toList.length)
  revert hboth
  decide

/-! ## buffers -/

def roundUp (value alignment : Nat) : Nat := (value + alignment - 1) / alignment * alignment

/-- the mapping holds the logical bytes and zeros up to the alignment -/
structure AlignedWeightBuffer where
  logicalSize : Nat
  alignment : Nat
  mapping : List UInt8
  logical_pos : 0 < logicalSize
  logical_le : logicalSize ≤ mapping.length
  alignment_pos : 0 < alignment
  aligned : alignment ∣ mapping.length

namespace AlignedWeightBuffer

def view (b : AlignedWeightBuffer) : List UInt8 := b.mapping.take b.logicalSize

def ioView (b : AlignedWeightBuffer) : List UInt8 := b.mapping

end AlignedWeightBuffer

/-! ## exceptions -/

inductive Raised where
  | directIo (text : String)
  | invalidWeightFile (text : String)
  | value (text : String)
  | fileNotFound
  | fileExists
  | system (code : Nat)
deriving DecidableEq, Repr

/-- what the operating system answers: a result, or an error -/
inductive Answer where
  | count (n : Nat)
  | raises (code : Nat)
deriving DecidableEq, Repr

/-! ## `write_direct_atomic` -/

inductive WritePhase where
  | mkdir
  | create
  | writing (total : Nat)
  | truncate
  | sync
  | close
  | replace
  | openDirectory
  | syncDirectory
  /-- closes the directory, after an exception or without -/
  | closeDirectory (error : Option Raised)
  /-- the last block: closes the file where it is open -/
  | closeFile (error : Raised)
  | unlink (error : Raised)
  | returned
  | raised (error : Raised)
  /-- its process is dead -/
  | stopped
deriving DecidableEq, Repr

def WritePhase.ended : WritePhase → Bool
  | .returned => true
  | .raised _ => true
  | .stopped => true
  | _ => false

structure Write where
  pid : Nat
  path : Path
  source : AlignedWeightBuffer
  uuid : String
  phase : WritePhase
  /-- the file that was created -/
  file : Option Nat
  /-- the file has replaced what the path referred to -/
  moved : Bool

namespace Write

def temporary (w : Write) : Path := ⟨w.path.parent, temporaryName w.pid w.uuid⟩

def ended (w : Write) : Bool := w.phase.ended

/-- one turn of the loop, or its end -/
def writeBlock (v : Volume Path) (w : Write) (file total : Nat) (answer : Answer) :
    Volume Path × Write :=
  if total < w.source.ioView.length then
    if total % w.source.alignment ≠ 0 then
      (v, { w with
        phase := .closeFile (.directIo "direct weight write returned an unaligned short result") })
    else
      match answer with
      | .raises code => (v, { w with phase := .closeFile (.system code) })
      | .count n =>
        let bytes := (w.source.ioView.drop total).take n
        if bytes.length = 0 then
          (v, { w with phase := .closeFile (.directIo "direct weight write made no progress") })
        else
          (v.write file total bytes, { w with phase := .writing (total + bytes.length) })
  else (v, { w with phase := .truncate })

/-- one call of `write_direct_atomic` -/
def step (v : Volume Path) (w : Write) (answer : Answer) : Option (Volume Path × Write) :=
  match w.phase, w.file with
  | .mkdir, _ =>
    match answer with
    | .raises code => some (v, { w with phase := .raised (.system code) })
    | .count _ =>
      some (v.makeDirectory fun n => n.parent = w.path.parent, { w with phase := .create })
  | .create, _ =>
    match answer with
    | .raises code => some (v, { w with phase := .raised (.system code) })
    | .count _ =>
      match v.create w.temporary with
      | none => some (v, { w with phase := .raised .fileExists })
      | some v' => some (v', { w with phase := .writing 0, file := some v.inodes.length })
  | .writing total, some file => some (writeBlock v w file total answer)
  | .truncate, some file =>
    match answer with
    | .raises code => some (v, { w with phase := .closeFile (.system code) })
    | .count _ => some (v.truncate file w.source.logicalSize, { w with phase := .sync })
  | .sync, some file =>
    match answer with
    | .raises code => some (v, { w with phase := .closeFile (.system code) })
    | .count _ => some (v.sync file, { w with phase := .close })
  | .close, some _ =>
    match answer with
    | .raises code => some (v, { w with phase := .closeFile (.system code) })
    | .count _ => some (v, { w with phase := .replace })
  | .replace, some _ =>
    match answer with
    | .raises code => some (v, { w with phase := .unlink (.system code) })
    | .count _ =>
      match v.rename w.temporary w.path with
      | none => some (v, { w with phase := .unlink .fileNotFound })
      | some v' => some (v', { w with phase := .openDirectory, moved := true })
  | .openDirectory, _ =>
    match answer with
    | .raises code => some (v, { w with phase := .unlink (.system code) })
    | .count _ => some (v, { w with phase := .syncDirectory })
  | .syncDirectory, _ =>
    match answer with
    | .raises code => some (v, { w with phase := .closeDirectory (some (.system code)) })
    | .count _ =>
      some (v.syncNames fun n => n.parent = w.path.parent, { w with phase := .closeDirectory none })
  | .closeDirectory error, _ =>
    match answer with
    | .raises code => some (v, { w with phase := .unlink (.system code) })
    | .count _ =>
      match error with
      | some error => some (v, { w with phase := .unlink error })
      | none => some (v, { w with phase := .returned })
  | .closeFile error, _ =>
    match answer with
    | .raises code => some (v, { w with phase := .raised (.system code) })
    | .count _ => some (v, { w with phase := .unlink error })
  | .unlink error, _ =>
    match answer with
    | .raises code => some (v, { w with phase := .raised (.system code) })
    | .count _ => some ((v.unlink w.temporary).getD v, { w with phase := .raised error })
  | _, _ => none

end Write

/-! ## `read_direct` -/

inductive ReadPhase where
  | open
  | stat (file : Nat)
  | allocate (file size : Nat)
  | reading (file size total : Nat) (buffer : List UInt8)
  | close (result : Except Raised (List UInt8))
  | ended (result : Except Raised (List UInt8))
  | stopped

structure Read where
  pid : Nat
  path : Path
  maxBytes : Option Int
  phase : ReadPhase

namespace Read

/-- the checks of the file's length -/
def checkSize (maxBytes : Option Int) (size : Nat) : Except Raised Unit :=
  if size = 0 then .error (.invalidWeightFile "direct weight source must not be empty")
  else
    match maxBytes with
    | none => .ok ()
    | some bound =>
      if bound ≤ 0 then .error (.value "max_bytes must be a positive integer")
      else if bound < size then
        .error (.invalidWeightFile "direct weight source exceeds its configured byte limit")
      else .ok ()

/-- one turn of the loop, or its end -/
def readBlock (alignment : Nat) (v : Volume Path) (r : Read) (file size total : Nat)
    (buffer : List UInt8) (answer : Answer) : Read :=
  if total < size then
    if total % alignment ≠ 0 then
      { r with phase := .close (.error
        (.invalidWeightFile "direct weight read returned an unaligned short result")) }
    else
      match answer with
      | .raises code => { r with phase := .close (.error (.system code)) }
      | .count n =>
        let bytes := ((v.dataOf file).drop total).take (min n (buffer.length - total))
        if bytes.length = 0 then
          { r with phase := .close (.error
            (.invalidWeightFile "direct weight read ended before the file was complete")) }
        else
          { r with
            phase := .reading file size (total + bytes.length) (overwrite buffer total bytes) }
  else if total ≠ size then
    { r with phase := .close (.error
      (.invalidWeightFile "direct weight read exceeded the logical file length")) }
  else { r with phase := .close (.ok (buffer.take size)) }

/-- one call of `read_direct` -/
def step (alignment : Nat) (v : Volume Path) (r : Read) (answer : Answer) : Option Read :=
  match r.phase with
  | .open =>
    match answer, v.names r.path with
    | .raises code, _ => some { r with phase := .ended (.error (.system code)) }
    | .count _, none => some { r with phase := .ended (.error .fileNotFound) }
    | .count _, some file => some { r with phase := .stat file }
  | .stat file =>
    match answer with
    | .raises code => some { r with phase := .close (.error (.system code)) }
    | .count _ =>
      match checkSize r.maxBytes (v.dataOf file).length with
      | .error error => some { r with phase := .close (.error error) }
      | .ok () => some { r with phase := .allocate file (v.dataOf file).length }
  | .allocate file size =>
    match answer with
    | .raises code => some { r with phase := .close (.error (.system code)) }
    | .count _ =>
      some { r with phase := .reading file size 0 (List.replicate (roundUp size alignment) 0) }
  | .reading file size total buffer =>
    some (readBlock alignment v r file size total buffer answer)
  | .close result =>
    match answer with
    | .raises code => some { r with phase := .ended (.error (.system code)) }
    | .count _ => some { r with phase := .ended result }
  | _ => none

end Read

/-! ## `cleanup_temporary_files` -/

/-- a cleanup between two paths, or with a path that it found without a live owner -/
inductive Cleaner where
  | scanning
  | checked (path : Path)
  | ended
deriving DecidableEq, Repr

/-! ## the machine -/

inductive DiskEvent where
  /-- a process starts -/
  | start (pid : Nat)
  /-- a process dies, and is alive for the others until it is reaped -/
  | exit (pid : Nat)
  | reap (pid : Nat)
  | beginWrite (pid : Nat) (path : Path) (source : AlignedWeightBuffer) (uuid : String)
  | write (k : Nat) (answer : Answer)
  | beginRead (pid : Nat) (path : Path) (maxBytes : Option Int)
  | read (k : Nat) (answer : Answer)
  | beginCleanup
  /-- the cleanup looks at a path -/
  | look (k : Nat) (path : Path)
  /-- and removes it -/
  | clean (k : Nat) (answer : Answer)
  | endCleanup (k : Nat)
  /-- `remove` of the disk cache, and the end of the startup probe -/
  | remove (path : Path)
  | powerFailure (after : Volume Path)

structure CacheDisk where
  volume : Volume Path
  /-- the processes that are alive, for `os.kill` -/
  live : List Nat
  writes : List Write
  reads : List Read
  cleaners : List Cleaner
  /-- the write whose file replaced what a path referred to, where nothing changed the path since -/
  latest : Path → Option Nat

namespace CacheDisk

def running (x : CacheDisk) (pid : Nat) : Bool := x.writes.any fun w => w.pid = pid ∧ !w.ended

def stopWrite (w : Write) : Write := if w.ended then w else { w with phase := .stopped }

def stopRead (r : Read) : Read :=
  match r.phase with
  | .ended _ => r
  | _ => { r with phase := .stopped }

/-- one step; `alignment` is the page size -/
def step (alignment : Nat) (x : CacheDisk) : DiskEvent → Option CacheDisk
  | .start pid => if 0 < pid ∧ pid ∉ x.live then some { x with live := pid :: x.live } else none
  | .exit pid =>
    some { x with
      writes := x.writes.map fun w => if w.pid = pid then stopWrite w else w
      reads := x.reads.map fun r => if r.pid = pid then stopRead r else r }
  | .reap pid => if x.running pid then none else some { x with live := x.live.erase pid }
  | .beginWrite pid path source uuid =>
    if pid ∈ x.live then
      some { x with writes := x.writes ++ [⟨pid, path, source, uuid, .mkdir, none, false⟩] }
    else none
  | .write k answer =>
    match x.writes[k]? with
    | none => none
    | some w =>
      match w.step x.volume answer with
      | none => none
      | some (v', w') =>
        some { x with
          volume := v'
          writes := x.writes.set k w'
          latest := if w.moved ≠ w'.moved then Function.update x.latest w.path (some k)
            else x.latest }
  | .beginRead pid path maxBytes =>
    if pid ∈ x.live then some { x with reads := x.reads ++ [⟨pid, path, maxBytes, .open⟩] }
    else none
  | .read k answer =>
    match x.reads[k]? with
    | none => none
    | some r =>
      (r.step alignment x.volume answer).map fun r' => { x with reads := x.reads.set k r' }
  | .beginCleanup => some { x with cleaners := x.cleaners ++ [.scanning] }
  | .look k path =>
    match x.cleaners[k]?, cleanupPrefix path with
    | some .scanning, some before =>
      if x.volume.names path = none ∨ hasLiveOwner x.live path.name before then some x
      else some { x with cleaners := x.cleaners.set k (.checked path) }
    | _, _ => none
  | .clean k answer =>
    match x.cleaners[k]? with
    | some (.checked path) =>
      match answer with
      | .raises _ => some { x with cleaners := x.cleaners.set k .ended }
      | .count _ =>
        some { x with
          volume := (x.volume.unlink path).getD x.volume
          cleaners := x.cleaners.set k .scanning
          latest := Function.update x.latest path none }
    | _ => none
  | .endCleanup k =>
    match x.cleaners[k]? with
    | none => none
    | some _ => some { x with cleaners := x.cleaners.set k .ended }
  | .remove path =>
    some { x with
      volume := (x.volume.unlink path).getD x.volume
      latest := Function.update x.latest path none }
  | .powerFailure after =>
    some { x with
      volume := after
      live := []
      writes := x.writes.map stopWrite
      reads := x.reads.map stopRead
      cleaners := x.cleaners.map fun _ => .ended
      latest := fun path => if after.names path = x.volume.names path then x.latest path else none }

end CacheDisk

end ExpertKit.Worker.DirectIo

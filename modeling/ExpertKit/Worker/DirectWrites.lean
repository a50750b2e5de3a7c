import ExpertKit.Worker.DirectIo

/-!
# Worker: one direct write

What `write_direct_atomic` keeps between two calls, beside other writes and in front of a process
that dies.

* `Write.Ok`          a write between two calls: its temporary file, and what the file holds;
* `Effect`            what a call does to the volume;
* `Write.step_effect`   every call;
* `Write.Ok.frame`, `Write.Ok.stopped`   the calls of others, and the death of the process.
-/

namespace ExpertKit.Worker.DirectIo
open Files

/-! ## one write -/

/-- the file is under its temporary name only -/
def Write.Holds (v : Volume Path) (w : Write) (inode : Inode) : Prop :=
  w.moved = false ∧ ∃ i, w.file = some i ∧ v.names w.temporary = some i ∧
    v.inodes[i]? = some inode

/-- the file has its final name, and the temporary name is gone -/
def Write.Placed (v : Volume Path) (w : Write) : Prop :=
  w.moved = true ∧ v.names w.temporary = none

/-- what the phase says about the volume -/
def Write.PhaseOk (v : Volume Path) (w : Write) : Prop :=
  match w.phase with
  | .mkdir => w.file = none
  | .create => w.file = none
  | .writing total =>
    total ≤ w.source.mapping.length ∧ w.Holds v ⟨w.source.mapping.take total, false⟩
  | .truncate => w.Holds v ⟨w.source.mapping, false⟩
  | .sync => w.Holds v ⟨w.source.view, false⟩
  | .close => w.Holds v ⟨w.source.view, true⟩
  | .replace => w.Holds v ⟨w.source.view, true⟩
  | .openDirectory => w.Placed v
  | .syncDirectory => w.Placed v
  | .closeDirectory none => w.Placed v ∧ v.stale w.temporary = []
  | .returned => w.Placed v ∧ v.stale w.temporary = []
  | _ => True

structure Write.Ok (live : List Nat) (v : Volume Path) (w : Write) : Prop where
  alive : w.ended = false → w.pid ∈ live
  phase : w.PhaseOk v
  bound : ∀ i, w.file = some i → i < v.inodes.length
  unmoved : w.file = none → w.moved = false
  sealed : w.moved = true → ∀ i, w.file = some i → v.inodes[i]? = some ⟨w.source.view, true⟩
  hidden : w.moved = false → ∀ i n, w.file = some i → Refers v n i → n = w.temporary
  target : ¬temporaryPrefix.toList <+: w.path.name.toList

/-- what a call of the write does -/
structure Effect (live : List Nat) (v : Volume Path) (w : Write) (v' : Volume Path) (w' : Write) :
    Prop where
  pid : w'.pid = w.pid
  path : w'.path = w.path
  source : w'.source = w.source
  uuid : w'.uuid = w.uuid
  file : w'.file = w.file ∨ (w.file = none ∧ w'.file = some v.inodes.length)
  moved : w.moved = true → w'.moved = true
  running : w.ended = false
  arrives : w.moved = false → w'.moved = true →
    v'.names w.path = w'.file ∧ w'.phase = .openDirectory
  refers : ∀ n i, Refers v' n i → Refers v n i ∨
    (w'.file = some i ∧ (n = w.temporary ∨ (n = w.path ∧ w'.moved = true)))
  inodes : ∀ i, w'.file ≠ some i → v'.inodes[i]? = v.inodes[i]?
  length : v.inodes.length ≤ v'.inodes.length
  names : ∀ n, n ≠ w.temporary → (n = w.path → w'.moved = w.moved) →
    v'.names n = v.names n ∧ (v.stale n = [] → v'.stale n = [])
  ok : w'.Ok live v'

section
variable {live : List Nat} {v v' : Volume Path} {w w' : Write} {i : Nat}

theorem Write.Ok.path_ne (h : w.Ok live v) (pid : Nat) (uuid parent : String) :
    w.path ≠ ⟨parent, temporaryName pid uuid⟩ := by
  intro he
  exact h.target (he ▸ temporary_marked pid uuid)

/-- a call that leaves the volume as it is -/
theorem Effect.stay (h : w.Ok live v) (hrun : w.ended = false) {phase : WritePhase}
    (hphase : ({ w with phase := phase } : Write).PhaseOk v) :
    Effect live v w v { w with phase := phase } where
  pid := rfl
  path := rfl
  source := rfl
  uuid := rfl
  file := .inl rfl
  moved := id
  running := hrun
  arrives hm hm' := absurd (hm.symm.trans hm') Bool.false_ne_true
  refers _ _ := .inl
  inodes _ _ := rfl
  length := Nat.le_refl _
  names _ _ _ := ⟨rfl, id⟩
  ok := ⟨fun _ => h.alive hrun, hphase, h.bound, h.unmoved, h.sealed, h.hidden, h.target⟩

/-- the directory is made where it is missing -/
theorem Effect.makeDirectory (h : w.Ok live v) (hrun : w.ended = false) (directory : Path → Bool)
    {phase : WritePhase} (hphase : ({ w with phase := phase } : Write).PhaseOk v) :
    Effect live v w (v.makeDirectory directory) { w with phase := phase } where
  pid := rfl
  path := rfl
  source := rfl
  uuid := rfl
  file := .inl rfl
  moved := id
  running := hrun
  arrives hm hm' := absurd (hm.symm.trans hm') Bool.false_ne_true
  refers _ _ := .inl
  inodes _ _ := rfl
  length := Nat.le_refl _
  names _ _ _ := ⟨rfl, id⟩
  ok := ⟨fun _ => h.alive hrun, hphase, h.bound, h.unmoved, h.sealed, h.hidden, h.target⟩

/-- a call that changes the file before it is moved -/
theorem Effect.rewrite (h : w.Ok live v) (hrun : w.ended = false) (hmoved : w.moved = false)
    (hfile : w.file = some i) {inode : Inode} {phase : WritePhase}
    (hphase : ({ w with phase := phase } : Write).PhaseOk (v.setInode i inode)) :
    Effect live v w (v.setInode i inode) { w with phase := phase } where
  pid := rfl
  path := rfl
  source := rfl
  uuid := rfl
  file := .inl rfl
  moved := id
  running := hrun
  arrives hm hm' := absurd (hm.symm.trans hm') Bool.false_ne_true
  refers _ _ := .inl
  inodes j hj := by
    have hij : i ≠ j := fun he => hj (he ▸ hfile)
    exact List.getElem?_set_ne hij
  length := Nat.le_of_eq List.length_set.symm
  names _ _ _ := ⟨rfl, id⟩
  ok := by
    refine ⟨fun _ => h.alive hrun, hphase, fun j hj => ?_, h.unmoved, fun hm => ?_,
      h.hidden, h.target⟩
    · exact (h.bound j hj).trans_eq List.length_set.symm
    · exact absurd hm (by rw [hmoved]; exact Bool.false_ne_true)

theorem Write.Holds.rewrite {inode inode' : Inode} (h : w.Holds v inode)
    (hbound : ∀ i, w.file = some i → i < v.inodes.length) {phase : WritePhase}
    (hfile : w.file = some i) :
    ({ w with phase := phase } : Write).Holds (v.setInode i inode') inode' := by
  obtain ⟨hmoved, j, hj, hname, -⟩ := h
  cases hfile.symm.trans hj
  exact ⟨hmoved, i, hfile, hname, List.getElem?_set_self (hbound i hfile)⟩

theorem dataOf_eq {inode : Inode} (h : v.inodes[i]? = some inode) : v.dataOf i = inode.data := by
  unfold Volume.dataOf
  rw [h]
  rfl

theorem overwrite_end (data bytes : List UInt8) :
    overwrite data data.length bytes = data ++ bytes := by
  unfold overwrite
  rw [List.take_length, Nat.sub_self, List.replicate_zero, List.append_nil,
    List.drop_eq_nil_of_le (Nat.le_add_right _ _), List.append_nil]

theorem resize_view (b : AlignedWeightBuffer) : resize b.mapping b.logicalSize = b.view := by
  unfold resize
  rw [Nat.sub_eq_zero_of_le b.logical_le, List.replicate_zero, List.append_nil]
  rfl

theorem take_append_block {α : Type} (l : List α) (total n : Nat) :
    l.take total ++ (l.drop total).take n = l.take (total + ((l.drop total).take n).length) := by
  rw [List.take_add, List.length_take, ← List.take_eq_take_min]

/-- one turn of the writing loop -/
theorem writeBlock_effect (h : w.Ok live v) {total : Nat} (hp : w.phase = .writing total)
    (hfile : w.file = some i) (answer : Answer) :
    Effect live v w (w.writeBlock v i total answer).1 (w.writeBlock v i total answer).2 := by
  have hrun : w.ended = false := congrArg WritePhase.ended hp
  have hok := h.phase
  unfold Write.PhaseOk at hok
  rw [hp] at hok
  obtain ⟨htotal, hholds⟩ := hok
  unfold Write.writeBlock
  split_ifs with hlt haligned
  · exact .stay h hrun trivial
  · cases answer with
    | raises code => exact .stay h hrun trivial
    | count n =>
      dsimp only
      split_ifs with hzero
      · exact .stay h hrun trivial
      · obtain ⟨hmoved, j, hj, hname, hinode⟩ := hholds
        cases hfile.symm.trans hj
        have hlen : (w.source.mapping.take total).length = total := List.length_take_of_le htotal
        have hdata : overwrite (v.dataOf i) total ((w.source.ioView.drop total).take n) =
            w.source.mapping.take (total + ((w.source.ioView.drop total).take n).length) := by
          rw [dataOf_eq hinode]
          calc overwrite (w.source.mapping.take total) total ((w.source.ioView.drop total).take n)
              = w.source.mapping.take total ++ (w.source.ioView.drop total).take n := by
                have happend := overwrite_end (w.source.mapping.take total)
                  ((w.source.ioView.drop total).take n)
                rwa [hlen] at happend
            _ = _ := take_append_block _ _ _
        have hle : total + ((w.source.ioView.drop total).take n).length ≤
            w.source.mapping.length := by
          have hdrop : (w.source.ioView.drop total).length = w.source.mapping.length - total :=
            List.length_drop
          rw [List.length_take]
          omega
        unfold Volume.write
        rw [hdata]
        exact .rewrite h hrun hmoved hfile
          ⟨hle, .rewrite ⟨hmoved, i, hfile, hname, hinode⟩ h.bound hfile⟩
  · refine .stay h hrun ?_
    rw [List.take_of_length_le (show w.source.mapping.length ≤ total from Nat.not_lt.mp hlt)]
      at hholds
    exact hholds

/-- the new file -/
theorem create_effect (h : w.Ok live v) (hbounded : ∀ n i, Refers v n i → i < v.inodes.length)
    (hp : w.phase = .create)
    (hc : v.create w.temporary = some v') :
    Effect live v w v' { w with phase := .writing 0, file := some v.inodes.length } := by
  have hrun : w.ended = false := congrArg WritePhase.ended hp
  have hnone : w.file = none := by
    have hok := h.phase
    unfold Write.PhaseOk at hok
    rw [hp] at hok
    exact hok
  have hmoved := h.unmoved hnone
  have hv' : v' = ({ v with inodes := v.inodes ++ [⟨[], false⟩] } : Volume Path).setName w.temporary
      (some v.inodes.length) := by
    unfold Volume.create at hc
    split_ifs at hc
    exact (Option.some.inj hc).symm
  have hlen : v'.inodes.length = v.inodes.length + 1 := by
    rw [hv']
    exact List.length_append
  have hnew : v'.inodes[v.inodes.length]? = some ⟨[], false⟩ := by
    rw [hv']
    exact List.getElem?_concat_length
  have hrefers : ∀ n i, Refers v' n i → Refers v n i ∨ (n = w.temporary ∧ i = v.inodes.length) :=
    fun n i hi => refers_create hc hi
  refine ⟨rfl, rfl, rfl, rfl, .inr ⟨hnone, rfl⟩, id, hrun,
    fun hm hm' => absurd (hm.symm.trans hm') Bool.false_ne_true, fun n i hi => ?_, fun i hi => ?_,
    by omega, fun n hn _ => ?_, fun _ => h.alive hrun, ?_, fun i hi => ?_,
    fun hi => absurd hi nofun, fun hm => ?_, fun _ i n hi hr => ?_, h.target⟩
  · rcases hrefers n i hi with hi | ⟨hn, hi⟩
    · exact .inl hi
    · exact .inr ⟨congrArg some hi.symm, .inl hn⟩
  · have hne : i ≠ v.inodes.length := fun he => hi (congrArg some he.symm)
    rw [hv']
    change (v.inodes ++ [_])[i]? = _
    rcases Nat.lt_or_ge i v.inodes.length with hlt | hge
    · exact List.getElem?_append_left hlt
    · rw [List.getElem?_eq_none hge, List.getElem?_eq_none]
      rw [List.length_append, List.length_singleton]
      omega
  · rw [hv']
    exact ⟨Function.update_of_ne hn _ _, fun hs => (Function.update_of_ne hn _ _).trans hs⟩
  · refine ⟨Nat.zero_le _, hmoved, v.inodes.length, rfl, ?_, ?_⟩
    · rw [hv']
      exact Function.update_self _ _ _
    · rw [List.take_zero]
      exact hnew
  · cases hi
    omega
  · exact absurd hm (by rw [hmoved]; exact Bool.false_ne_true)
  · cases hi
    rcases hrefers n _ hr with hr | ⟨hn, -⟩
    · exact absurd (hbounded n _ hr) (Nat.lt_irrefl _)
    · exact hn

/-- the temporary file gets its final name -/
theorem replace_effect (h : w.Ok live v) (hp : w.phase = .replace)
    (hr : v.rename w.temporary w.path = some v') :
    Effect live v w v' { w with phase := .openDirectory, moved := true } := by
  have hrun : w.ended = false := congrArg WritePhase.ended hp
  have hok := h.phase
  unfold Write.PhaseOk at hok
  rw [hp] at hok
  obtain ⟨hmoved, i, hfile, hname, hinode⟩ := hok
  have hne : w.temporary ≠ w.path := (h.path_ne w.pid w.uuid w.path.parent).symm
  have hv' : v' = (v.setName w.path (v.names w.temporary)).setName w.temporary none := by
    unfold Volume.rename at hr
    split_ifs at hr with h1
    exact (Option.some.inj hr).symm
  have hinodes : v'.inodes = v.inodes := by rw [hv']; rfl
  have hpath : v'.names w.path = w.file := by
    rw [hv']
    exact (Function.update_of_ne hne.symm _ _).trans
      ((Function.update_self _ _ _).trans (hname.trans hfile.symm))
  refine ⟨rfl, rfl, rfl, rfl, .inl rfl, fun _ => rfl, hrun, fun _ _ => ⟨hpath, rfl⟩,
    fun n j hj => ?_,
    fun j _ => by rw [hinodes], by rw [hinodes], fun n hn hpath => ?_, fun _ => h.alive hrun,
    ⟨rfl, ?_⟩, fun j hj => by rw [hinodes]; exact h.bound j hj,
    fun hf => absurd (hf.symm.trans hfile) nofun, fun _ j hj => ?_, fun hm => absurd hm nofun,
    h.target⟩
  · rcases refers_rename hr hj with hj | ⟨hn, hj⟩
    · exact .inl hj
    · exact .inr ⟨hfile.trans (hname.symm.trans hj), .inr ⟨hn, rfl⟩⟩
  · have hnp : n ≠ w.path := fun he => absurd (hpath he) (by rw [hmoved]; exact Bool.noConfusion)
    rw [hv']
    exact ⟨(Function.update_of_ne hn _ _).trans (Function.update_of_ne hnp _ _), fun hs =>
      (Function.update_of_ne hn _ _).trans ((Function.update_of_ne hnp _ _).trans hs)⟩
  · rw [hv']
    exact Function.update_self _ _ _
  · cases hfile.symm.trans hj
    rw [hinodes]
    exact hinode

/-- the names of the directory are certain -/
theorem syncDirectory_effect (h : w.Ok live v) (hp : w.phase = .syncDirectory) :
    Effect live v w (v.syncNames fun n => n.parent = w.path.parent)
      { w with phase := .closeDirectory none } := by
  have hrun : w.ended = false := congrArg WritePhase.ended hp
  have hok := h.phase
  unfold Write.PhaseOk at hok
  rw [hp] at hok
  have hrefers := fun n i (hr : Refers (v.syncNames fun n => n.parent = w.path.parent) n i) =>
    refers_syncNames hr
  refine ⟨rfl, rfl, rfl, rfl, .inl rfl, id, hrun,
    fun hm hm' => absurd (hm.symm.trans hm') Bool.false_ne_true,
    fun n i hr => .inl (hrefers n i hr),
    fun _ _ => rfl, Nat.le_refl _, fun n _ _ => ⟨rfl, fun hs => ?_⟩, fun _ => h.alive hrun,
    ⟨⟨hok.1, hok.2⟩, if_pos (decide_eq_true rfl)⟩, h.bound, h.unmoved, h.sealed,
    fun hm i n hf hr => h.hidden hm i n hf (hrefers n i hr), h.target⟩
  change (if _ then [] else v.stale n) = []
  split
  · rfl
  · exact hs

/-- the temporary name is removed, where it exists -/
theorem unlink_effect (h : w.Ok live v) (hrun : w.ended = false) (error : Raised) :
    Effect live v w ((v.unlink w.temporary).getD v) { w with phase := .raised error } := by
  cases hu : v.unlink w.temporary with
  | none => exact .stay h hrun trivial
  | some v' =>
    have hv' : v' = v.setName w.temporary none := by
      unfold Volume.unlink at hu
      split_ifs at hu
      exact (Option.some.inj hu).symm
    have hinodes : v'.inodes = v.inodes := by rw [hv']; rfl
    have hrefers := fun n i (hr : Refers v' n i) => refers_unlink hu hr
    refine ⟨rfl, rfl, rfl, rfl, .inl rfl, id, hrun,
    fun hm hm' => absurd (hm.symm.trans hm') Bool.false_ne_true,
    fun n i hr => .inl (hrefers n i hr),
      fun i _ => congrArg (·[i]?) hinodes, Nat.le_of_eq (congrArg _ hinodes.symm),
      fun n hn _ => ?_, fun _ => h.alive hrun, trivial, ?_, h.unmoved, ?_, ?_, h.target⟩
    · change v'.names n = _ ∧ (_ → v'.stale n = [])
      rw [hv']
      exact ⟨Function.update_of_ne hn _ _, fun hs => (Function.update_of_ne hn _ _).trans hs⟩
    · intro i hi
      rw [Option.getD_some, hinodes]
      exact h.bound i hi
    · intro hm i hi
      rw [Option.getD_some, hinodes]
      exact h.sealed hm i hi
    · exact fun hm i n hf hr => h.hidden hm i n hf (hrefers n i hr)

/-- every call of a write -/
theorem Write.step_effect (h : w.Ok live v) (hbounded : ∀ n i, Refers v n i → i < v.inodes.length)
    {answer : Answer} (hs : w.step v answer = some (v', w')) : Effect live v w v' w' := by
  have hok := h.phase
  unfold Write.PhaseOk at hok
  cases hp : w.phase with
  | mkdir =>
    have hrun : w.ended = false := congrArg WritePhase.ended hp
    rw [hp] at hok
    unfold Write.step at hs
    rw [hp] at hs
    cases answer <;> cases hs
    · exact .makeDirectory h hrun _ hok
    · exact .stay h hrun trivial
  | create =>
    have hrun : w.ended = false := congrArg WritePhase.ended hp
    unfold Write.step at hs
    rw [hp] at hs
    cases answer with
    | raises code =>
      cases hs
      exact .stay h hrun trivial
    | count n =>
      simp only at hs
      split at hs
      · cases hs
        exact .stay h hrun trivial
      · rename_i hc
        cases hs
        exact create_effect h hbounded hp hc
  | writing total =>
    unfold Write.step at hs
    rw [hp] at hs
    cases hfile : w.file with
    | none =>
      rw [hfile] at hs
      cases hs
    | some i =>
      rw [hfile] at hs
      have heffect := writeBlock_effect h hp hfile answer
      simp only [Option.some.injEq] at hs
      rw [hs] at heffect
      exact heffect
  | truncate =>
    have hrun : w.ended = false := congrArg WritePhase.ended hp
    rw [hp] at hok
    obtain ⟨hmoved, i, hfile, hname, hinode⟩ := hok
    unfold Write.step at hs
    rw [hp, hfile] at hs
    cases answer <;> cases hs <;> rw [← hfile]
    · refine .rewrite h hrun hmoved hfile ?_
      rw [dataOf_eq hinode]
      dsimp only
      rw [resize_view]
      exact .rewrite ⟨hmoved, i, hfile, hname, hinode⟩ h.bound hfile
    · exact .stay h hrun trivial
  | sync =>
    have hrun : w.ended = false := congrArg WritePhase.ended hp
    rw [hp] at hok
    obtain ⟨hmoved, i, hfile, hname, hinode⟩ := hok
    unfold Write.step at hs
    rw [hp, hfile] at hs
    cases answer <;> cases hs <;> rw [← hfile]
    · refine .rewrite h hrun hmoved hfile ?_
      rw [dataOf_eq hinode]
      exact .rewrite ⟨hmoved, i, hfile, hname, hinode⟩ h.bound hfile
    · exact .stay h hrun trivial
  | close =>
    have hrun : w.ended = false := congrArg WritePhase.ended hp
    rw [hp] at hok
    obtain ⟨-, i, hfile, -⟩ := id hok
    unfold Write.step at hs
    rw [hp, hfile] at hs
    cases answer <;> cases hs <;> rw [← hfile]
    · exact .stay h hrun hok
    · exact .stay h hrun trivial
  | replace =>
    have hrun : w.ended = false := congrArg WritePhase.ended hp
    rw [hp] at hok
    obtain ⟨-, i, hfile, -⟩ := id hok
    unfold Write.step at hs
    rw [hp, hfile] at hs
    cases answer with
    | raises code =>
      cases hs
      rw [← hfile]
      exact .stay h hrun trivial
    | count n =>
      simp only at hs
      split at hs
      · cases hs
        rw [← hfile]
        exact .stay h hrun trivial
      · rename_i hr
        cases hs
        rw [← hfile]
        exact replace_effect h hp hr
  | openDirectory =>
    have hrun : w.ended = false := congrArg WritePhase.ended hp
    rw [hp] at hok
    unfold Write.step at hs
    rw [hp] at hs
    cases answer <;> cases hs
    · exact .stay h hrun hok
    · exact .stay h hrun trivial
  | syncDirectory =>
    have hrun : w.ended = false := congrArg WritePhase.ended hp
    rw [hp] at hok
    unfold Write.step at hs
    rw [hp] at hs
    cases answer <;> cases hs
    · exact syncDirectory_effect h hp
    · exact .stay h hrun trivial
  | closeDirectory error =>
    have hrun : w.ended = false := congrArg WritePhase.ended hp
    rw [hp] at hok
    unfold Write.step at hs
    rw [hp] at hs
    cases answer with
    | raises code =>
      cases hs
      exact .stay h hrun trivial
    | count n =>
      cases error <;> cases hs
      · exact .stay h hrun hok
      · exact .stay h hrun trivial
  | closeFile error =>
    have hrun : w.ended = false := congrArg WritePhase.ended hp
    unfold Write.step at hs
    rw [hp] at hs
    cases answer <;> cases hs <;> exact .stay h hrun trivial
  | unlink error =>
    have hrun : w.ended = false := congrArg WritePhase.ended hp
    unfold Write.step at hs
    rw [hp] at hs
    cases answer <;> cases hs
    · exact unlink_effect h hrun error
    · exact .stay h hrun trivial
  | returned | raised error | stopped =>
    unfold Write.step at hs
    rw [hp] at hs
    cases hs

/-- the directory was synced after the file got its name -/
def Write.durable (w : Write) : Bool :=
  match w.phase with
  | .closeDirectory none => true
  | .returned => true
  | _ => false

theorem writeBlock_durable (v : Volume Path) (w : Write) (file total : Nat) (answer : Answer) :
    (w.writeBlock v file total answer).2.durable = false := by
  unfold Write.writeBlock
  split_ifs
  · rfl
  · cases answer with
    | raises code => rfl
    | count n =>
      dsimp only
      split_ifs <;> rfl
  · rfl

/-- only the sync of its directory makes a write durable -/
theorem Write.step_durable {answer : Answer} (hs : w.step v answer = some (v', w'))
    (hd : w'.durable = true) : w.durable = true ∨ v'.stale w.path = [] := by
  unfold Write.step at hs
  split at hs
  case h_3 total file _ _ =>
    have hfalse := writeBlock_durable v w file total answer
    rw [Option.some.inj hs] at hfalse
    exact absurd (hfalse.symm.trans hd) Bool.false_ne_true
  case h_9 =>
    cases answer <;> cases hs
    · exact .inr (if_pos (decide_eq_true rfl))
    · cases hd
  all_goals
    unfold Write.durable at hd ⊢
    grind

theorem writeBlock_home (v : Volume Path) (w : Write) (file total : Nat) (answer : Answer) :
    (w.writeBlock v file total answer).1.home = v.home := by
  unfold Write.writeBlock
  split_ifs
  · rfl
  · cases answer with
    | raises code => rfl
    | count n =>
      dsimp only
      split_ifs <;> rfl
  · rfl

/-- no call of a write takes a directory from the disk -/
theorem Write.step_home {answer : Answer} (hs : w.step v answer = some (v', w')) {n : Path}
    (hn : v.home n = .durable) : v'.home n = .durable := by
  unfold Write.step at hs
  split at hs
  case h_1 =>
    cases answer <;> cases hs
    · exact makeDirectory_durable hn
    · exact hn
  case h_2 =>
    cases answer with
    | raises code =>
      cases hs
      exact hn
    | count _ =>
      simp only at hs
      split at hs
      · cases hs
        exact hn
      · rename_i hcreate
        cases hs
        rw [create_home hcreate]
        exact hn
  case h_3 total file _ _ =>
    have hhome := writeBlock_home v w file total answer
    rw [Option.some.inj hs] at hhome
    rw [show v'.home = v.home from hhome]
    exact hn
  case h_7 =>
    cases answer with
    | raises code =>
      cases hs
      exact hn
    | count _ =>
      simp only at hs
      split at hs
      · cases hs
        exact hn
      · rename_i hrename
        cases hs
        rw [rename_home hrename]
        exact hn
  case h_10 error _ =>
    cases answer with
    | raises code =>
      cases hs
      exact hn
    | count _ =>
      cases error <;> cases hs <;> exact hn
  case h_12 =>
    cases answer <;> cases hs
    · rw [unlink_home]
      exact hn
    · exact hn
  case h_13 => cases hs
  all_goals cases answer <;> cases hs <;> exact hn

/-! ## writes beside each other -/

theorem Write.PhaseOk.frame (h : w.PhaseOk v) (hname : v'.names w.temporary = v.names w.temporary)
    (hstale : v.stale w.temporary = [] → v'.stale w.temporary = [])
    (hinodes : ∀ i, w.file = some i → v'.inodes[i]? = v.inodes[i]?) : w.PhaseOk v' := by
  have hholds : ∀ inode, w.Holds v inode → w.Holds v' inode := by
    rintro inode ⟨hmoved, i, hfile, hn, hi⟩
    exact ⟨hmoved, i, hfile, hname.trans hn, (hinodes i hfile).trans hi⟩
  have hplaced : w.Placed v → w.Placed v' := fun hp => ⟨hp.1, hname.trans hp.2⟩
  unfold Write.PhaseOk at h ⊢
  split at h
  · exact h
  · exact h
  · exact ⟨h.1, hholds _ h.2⟩
  · exact hholds _ h
  · exact hholds _ h
  · exact hholds _ h
  · exact hholds _ h
  · exact hplaced h
  · exact hplaced h
  · exact ⟨hplaced h.1, hstale h.2⟩
  · exact ⟨hplaced h.1, hstale h.2⟩
  · trivial

theorem Write.Ok.frame {live' : List Nat} (h : w.Ok live v)
    (halive : w.ended = false → w.pid ∈ live') (hphase : w.PhaseOk v')
    (hlength : v.inodes.length ≤ v'.inodes.length)
    (hinodes : ∀ i, w.file = some i → v'.inodes[i]? = v.inodes[i]?)
    (hrefers : ∀ i n, w.file = some i → Refers v' n i → Refers v n i) : w.Ok live' v' where
  alive := halive
  phase := hphase
  bound i hi := (h.bound i hi).trans_le hlength
  unmoved := h.unmoved
  sealed hm i hi := (hinodes i hi).trans (h.sealed hm i hi)
  hidden hm i n hi hr := h.hidden hm i n hi (hrefers i n hi hr)
  target := h.target

/-- a write whose process died -/
theorem Write.Ok.stopped {live' : List Nat} (h : w.Ok live v) (hrefers : ∀ i n, Refers v' n i →
    Refers v n i) (hlength : v.inodes.length ≤ v'.inodes.length)
    (hsealed : ∀ (i : Nat) (inode : Inode), v.inodes[i]? = some inode → inode.synced = true →
      v'.inodes[i]? = some inode) : ({ w with phase := .stopped } : Write).Ok live' v' where
  alive := nofun
  phase := trivial
  bound i hi := (h.bound i hi).trans_le hlength
  unmoved := h.unmoved
  sealed hm i hi := hsealed i _ (h.sealed hm i hi) rfl
  hidden hm i n hi hr := h.hidden hm i n hi (hrefers i n hr)
  target := h.target

end

end ExpertKit.Worker.DirectIo

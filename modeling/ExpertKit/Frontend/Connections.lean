import ExpertKit.Frontend.Watcher

/-!
# Frontend: the connections of the Workers

`_install` and `_retire_worker_resources` of the topology watcher, over any route tables: Workers
appear, leave, come back under the same identity or change their metadata, while the cleanup tasks
of earlier tables still run.

* `Watcher.installStep`       a call of `_install`, one of its connections, or a cleanup task;
* `Books`                     who owes the `close` of each Transport and each pool;
* `Tidy`                      the pools that may stay in the mapping;
* `PoolsCurrent`, `ClosedOnce`, `PoolsExact`   what holds after each step, and when nothing runs;
* `connections_kept`          in every run, as long as no `close` of a retired connection raises.
-/

set_option linter.unusedSectionVars false

namespace ExpertKit.Frontend
open Std

/-! ## runs -/

/-- one call of `_install`, one connection of it, or one step of a cleanup task -/
inductive InstallEvent where
  | install (version : Nat) (descriptions : RouteDescriptions)
  | create (creation : Creation)
  | retire (task : Retirement) (raised : Bool)

/-- two calls of `_install` never overlap -/
def Watcher.installStep (w : Watcher) : InstallEvent → Option Watcher
  | .install version descriptions =>
    match w.watching with
    | .creating _ _ _ _ _ => none
    | _ => some (w.install version descriptions)
  | .create creation => w.step (.create creation)
  | .retire task raised => w.step (.retire task raised)

/-- the table is one that decoding a message leads to -/
def InstallEvent.Decoded : InstallEvent → Prop
  | .install _ descriptions => RoutesOk descriptions
  | _ => True

/-- no `close` of a retired connection raises -/
def InstallEvent.Quiet : InstallEvent → Prop
  | .retire _ raised => raised = false
  | _ => True

/-! ## what is owed -/

/-- the calls of `close` that the task has still to make -/
def Retirement.untouched (task : Retirement) : List Part :=
  match task.stage with
  | .created => [.transport task.resources.serial, .pool task.resources.serial]
  | .closingTransport => [.pool task.resources.serial]
  | .closingPool => []

/-- the call of `close` that the task awaits -/
def Retirement.inFlight (task : Retirement) : List Part :=
  match task.stage with
  | .created => []
  | .closingTransport => [.transport task.resources.serial]
  | .closingPool => [.pool task.resources.serial]

theorem Retirement.untouched_created (r : Resources) (raised : Bool) :
    (⟨r, .created, raised⟩ : Retirement).untouched = [.transport r.serial, .pool r.serial] := rfl

theorem Retirement.untouched_closingTransport (r : Resources) (raised : Bool) :
    (⟨r, .closingTransport, raised⟩ : Retirement).untouched = [.pool r.serial] := rfl

theorem Retirement.untouched_closingPool (r : Resources) (raised : Bool) :
    (⟨r, .closingPool, raised⟩ : Retirement).untouched = [] := rfl

theorem Retirement.inFlight_created (r : Resources) (raised : Bool) :
    (⟨r, .created, raised⟩ : Retirement).inFlight = [] := rfl

theorem Retirement.inFlight_closingTransport (r : Resources) (raised : Bool) :
    (⟨r, .closingTransport, raised⟩ : Retirement).inFlight = [.transport r.serial] := rfl

theorem Retirement.inFlight_closingPool (r : Resources) (raised : Bool) :
    (⟨r, .closingPool, raised⟩ : Retirement).inFlight = [.pool r.serial] := rfl

theorem Retirement.serial_untouched {task : Retirement} {part : Part}
    (h : part ∈ task.untouched) : part.serial = task.resources.serial := by
  unfold Retirement.untouched at h
  split at h
  · rcases List.mem_cons.mp h with rfl | h
    · rfl
    · rw [List.mem_singleton.mp h]
      rfl
  · rw [List.mem_singleton.mp h]
    rfl
  · exact absurd h List.not_mem_nil

theorem Retirement.serial_inFlight {task : Retirement} {part : Part}
    (h : part ∈ task.inFlight) : part.serial = task.resources.serial := by
  unfold Retirement.inFlight at h
  split at h
  · exact absurd h List.not_mem_nil
  · rw [List.mem_singleton.mp h]
    rfl
  · rw [List.mem_singleton.mp h]
    rfl

/-- the connection is installed, or the attempt under way has made it -/
def Watcher.Owned (w : Watcher) (created : List Resources) (serial : Nat) : Prop :=
  (∃ (i : Routing.WorkerIdentity) (r : Resources), w.resources[i]? = some r ∧ r.serial = serial) ∨
    ∃ r ∈ created, r.serial = serial

/-- each part is owned, waits for its task, or its `close` was called once -/
structure Watcher.Books (w : Watcher) (created : List Resources) : Prop where
  tasks : (w.cleanup.map fun task => task.resources.serial).Nodup
  closing : w.closing.Nodup
  opened : ∀ part, part ∈ w.opened ↔ part ∈ w.closing ∨ w.Owned created part.serial ∨
    ∃ task ∈ w.cleanup, part ∈ task.untouched
  waiting : ∀ task ∈ w.cleanup, ∀ part ∈ task.untouched, part ∉ w.closing
  closed : w.closed.Nodup
  flight : ∀ part, part ∈ w.closing ↔ part ∈ w.closed ∨ ∃ task ∈ w.cleanup, part ∈ task.inFlight
  flying : ∀ task ∈ w.cleanup, ∀ part ∈ task.inFlight, part ∉ w.closed
  named : ∀ (i : Routing.WorkerIdentity) (r : Resources), w.resources[i]? = some r →
    ∃ (key : ExpertKey) (replicas : List WorkerRoute),
      w.routeDescriptions[key]? = some replicas ∧ ∃ route ∈ replicas, route.process = i

namespace Watcher

theorem Books.frame {w w' : Watcher} {created : List Resources} (h : w.Books created)
    (h1 : w'.cleanup = w.cleanup) (h2 : w'.closing = w.closing) (h3 : w'.opened = w.opened)
    (h4 : w'.closed = w.closed) (h5 : w'.resources = w.resources)
    (h6 : w'.routeDescriptions = w.routeDescriptions) : w'.Books created := by
  refine ⟨?_, ?_, ?_, ?_, ?_, ?_, ?_, ?_⟩
  · rw [h1]
    exact h.tasks
  · rw [h2]
    exact h.closing
  · intro part
    unfold Owned
    rw [h1, h2, h3, h5]
    exact h.opened part
  · rw [h1, h2]
    exact h.waiting
  · rw [h4]
    exact h.closed
  · rw [h1, h2, h4]
    exact h.flight
  · rw [h1, h4]
    exact h.flying
  · rw [h5, h6]
    exact h.named

/-- a closed part is a part whose `close` was called -/
theorem Books.closed_subset {w : Watcher} {created : List Resources} (h : w.Books created)
    {part : Part} (hpart : part ∈ w.closed) : part ∈ w.closing :=
  (h.flight part).mpr (.inl hpart)

/-- parts with a new number that are opened and closed at once -/
theorem Books.spend {w w' : Watcher} {created : List Resources} (h : w.Books created)
    (parts : List Part) (hnd : parts.Nodup) (hnew : ∀ part ∈ parts, part ∉ w.closing ∧
      ∀ task ∈ w.cleanup, task.resources.serial ≠ part.serial)
    (h1 : w'.cleanup = w.cleanup) (h2 : w'.closing = parts ++ w.closing)
    (h3 : ∀ part, part ∈ w'.opened ↔ part ∈ parts ∨ part ∈ w.opened)
    (h4 : w'.closed = parts ++ w.closed) (h5 : w'.resources = w.resources)
    (h6 : w'.routeDescriptions = w.routeDescriptions) : w'.Books created := by
  refine ⟨?_, ?_, ?_, ?_, ?_, ?_, ?_, ?_⟩
  · rw [h1]
    exact h.tasks
  · rw [h2, List.nodup_append]
    exact ⟨hnd, h.closing, fun a ha b hb heq => (hnew a ha).1 (heq ▸ hb)⟩
  · intro part
    unfold Owned
    rw [h1, h2, h3, h5, List.mem_append, or_assoc, h.opened part]
    rfl
  · rw [h1, h2]
    intro task htask part hpart hin
    rcases List.mem_append.mp hin with hin | hin
    · exact (hnew part hin).2 task htask (Retirement.serial_untouched hpart).symm
    · exact h.waiting task htask part hpart hin
  · rw [h4, List.nodup_append]
    exact ⟨hnd, h.closed, fun a ha b hb heq => (hnew a ha).1 (h.closed_subset (heq ▸ hb))⟩
  · intro part
    rw [h1, h2, h4, List.mem_append, List.mem_append, or_assoc, h.flight part]
  · rw [h1, h4]
    intro task htask part hpart hin
    rcases List.mem_append.mp hin with hin | hin
    · exact (hnew part hin).2 task htask (Retirement.serial_inFlight hpart).symm
    · exact h.flying task htask part hpart hin
  · rw [h5, h6]
    exact h.named

/-- closing a connection of the attempt -/
theorem Books.close {w : Watcher} {r : Resources} {created : List Resources}
    (h : w.Books (r :: created)) (hopen : w.IsOpen r)
    (htasks : ∀ task ∈ w.cleanup, task.resources.serial ≠ r.serial) :
    (w.closeResources r).Books created := by
  have hnot : ∀ part : Part, part.serial = r.serial → part ∉ w.closing :=
    fun part hs hin => hopen part hin hs
  have htwo : [Part.pool r.serial, Part.transport r.serial].Nodup := by simp
  have hparts : ∀ part, part ∈ [Part.pool r.serial, Part.transport r.serial] ↔
      part.serial = r.serial := by
    intro part
    cases part <;> simp [Part.serial]
  have hclosing : (w.closeResources r).closing =
      [Part.pool r.serial, Part.transport r.serial] ++ w.closing := rfl
  have hclosed : (w.closeResources r).closed =
      [Part.pool r.serial, Part.transport r.serial] ++ w.closed := rfl
  refine ⟨h.tasks, ?_, ?_, ?_, ?_, ?_, ?_, h.named⟩
  · rw [hclosing, List.nodup_append]
    refine ⟨htwo, h.closing, fun a ha b hb heq => ?_⟩
    exact hnot b (heq ▸ (hparts a).mp ha) hb
  · intro part
    rw [hclosing, List.mem_append, hparts]
    refine (h.opened part).trans ?_
    unfold Owned
    simp only [List.mem_cons, exists_eq_or_imp]
    constructor
    · rintro (hin | (hres | heq | hin) | htask)
      · exact .inl (.inr hin)
      · exact .inr (.inl (.inl hres))
      · exact .inl (.inl heq.symm)
      · exact .inr (.inl (.inr hin))
      · exact .inr (.inr htask)
    · rintro ((heq | hin) | (hres | hin) | htask)
      · exact .inr (.inl (.inr (.inl heq.symm)))
      · exact .inl hin
      · exact .inr (.inl (.inl hres))
      · exact .inr (.inl (.inr (.inr hin)))
      · exact .inr (.inr htask)
  · intro task htask part hpart hin
    rw [hclosing] at hin
    rcases List.mem_append.mp hin with hin | hin
    · exact htasks task htask
        ((Retirement.serial_untouched hpart).symm.trans ((hparts part).mp hin))
    · exact h.waiting task htask part hpart hin
  · rw [hclosed, List.nodup_append]
    refine ⟨htwo, h.closed, fun a ha b hb heq => ?_⟩
    exact hnot b (heq ▸ (hparts a).mp ha) (h.closed_subset hb)
  · intro part
    rw [hclosing, hclosed, List.mem_append, List.mem_append, or_assoc, h.flight part]
    rfl
  · intro task htask part hpart hin
    rw [hclosed] at hin
    rcases List.mem_append.mp hin with hin | hin
    · exact htasks task htask ((Retirement.serial_inFlight hpart).symm.trans ((hparts part).mp hin))
    · exact h.flying task htask part hpart hin

/-- the connections of a failed attempt are all closed -/
theorem Books.closeAll {w : Watcher} {created : List Resources} (h : w.Books created)
    (hopen : ∀ r ∈ created, w.IsOpen r)
    (hdistinct : created.Pairwise fun r r' => r.serial ≠ r'.serial)
    (htasks : ∀ r ∈ created, ∀ task ∈ w.cleanup, task.resources.serial ≠ r.serial) :
    (created.foldl closeResources w).Books [] := by
  induction created generalizing w with
  | nil => exact h
  | cons r created ih =>
    obtain ⟨hfirst, hrest⟩ := List.pairwise_cons.mp hdistinct
    refine ih (h.close (hopen r List.mem_cons_self) (htasks r List.mem_cons_self)) ?_ hrest ?_
    · intro r' hr' part hpart heq
      rcases List.mem_cons.mp hpart with rfl | hpart
      · exact hfirst r' hr' heq
      · rcases List.mem_cons.mp hpart with rfl | hpart
        · exact hfirst r' hr' heq
        · exact hopen r' (List.mem_cons_of_mem _ hr') part hpart heq
    · exact fun r' hr' => htasks r' (List.mem_cons_of_mem _ hr')

/-! ## a creation -/

theorem Books.create_ok {w : Watcher} {created : List Resources} (h : w.Books created)
    {c : Creation} {route : WorkerRoute} {r : Resources}
    (hr : (w.createWorkerResources c route).1 = .ok r) :
    (w.createWorkerResources c route).2.Books (created ++ [r]) := by
  obtain ⟨_, hserial, _, _, hclosing⟩ := createWorkerResources_ok hr
  have hlists : (w.createWorkerResources c route).2.opened =
        .pool w.nextSerial :: .transport w.nextSerial :: w.opened ∧
      (w.createWorkerResources c route).2.closed = w.closed := by
    obtain ⟨transport, pool, start⟩ := c
    unfold createWorkerResources at hr ⊢
    cases transport with
    | some e => cases hr
    | none =>
      cases pool with
      | some e => cases hr
      | none =>
        cases start with
        | some e => cases hr
        | none =>
          simp only at hr ⊢
          split at hr
          · cases hr
          · exact ⟨rfl, rfl⟩
  rw [createWorkerResources_frame w c route]
  generalize (w.createWorkerResources c route).2 = w1 at hclosing hlists ⊢
  have hparts : ∀ part, part ∈ w1.opened ↔ part.serial = r.serial ∨ part ∈ w.opened := by
    intro part
    rw [hlists.1, List.mem_cons, List.mem_cons, hserial, ← or_assoc]
    cases part <;> simp [Part.serial]
  refine ⟨h.tasks, hclosing ▸ h.closing, ?_, ?_, hlists.2 ▸ h.closed, ?_, ?_, h.named⟩
  · intro part
    refine (hparts part).trans ?_
    rw [h.opened part]
    unfold Owned
    simp only [List.mem_append, List.mem_singleton, or_and_right, exists_or, exists_eq_left,
      hclosing]
    constructor
    · rintro (heq | hin | (hres | hin) | htask)
      · exact .inr (.inl (.inr (.inr heq.symm)))
      · exact .inl hin
      · exact .inr (.inl (.inl hres))
      · exact .inr (.inl (.inr (.inl hin)))
      · exact .inr (.inr htask)
    · rintro (hin | (hres | hin | heq) | htask)
      · exact .inr (.inl hin)
      · exact .inr (.inr (.inl (.inl hres)))
      · exact .inr (.inr (.inl (.inr hin)))
      · exact .inl heq.symm
      · exact .inr (.inr (.inr htask))
  · intro task htask part hpart
    rw [hclosing]
    exact h.waiting task htask part hpart
  · intro part
    rw [hclosing, hlists.2]
    exact h.flight part
  · intro task htask part hpart
    rw [hlists.2]
    exact h.flying task htask part hpart

theorem Books.create_error {w : Watcher} {created : List Resources} (hcore : w.Core)
    (h : w.Books created) {c : Creation} {route : WorkerRoute} (hp : route.positive)
    {e : WatchError} (he : (w.createWorkerResources c route).1 = .error e) :
    (w.createWorkerResources c route).2.Books created := by
  have hnew : ∀ part : Part, part.serial = w.nextSerial → part ∉ w.closing ∧
      ∀ task ∈ w.cleanup, task.resources.serial ≠ part.serial := by
    intro part hs
    refine ⟨fun hin => ?_, fun task htask heq => ?_⟩
    · have hlt := hcore.closing part hin
      omega
    · have hlt := (hcore.retired task htask).1
      omega
  obtain ⟨transport, pool, start⟩ := c
  unfold createWorkerResources at he ⊢
  cases transport with
  | some e1 => exact h.frame rfl rfl rfl rfl rfl rfl
  | none =>
    cases pool with
    | some e2 =>
      refine h.spend [.transport w.nextSerial] (List.nodup_singleton _) (fun part hpart => ?_) rfl
        rfl (fun part => List.mem_cons.trans (or_congr_left List.mem_singleton.symm)) rfl rfl rfl
      exact hnew part (by rw [List.mem_singleton.mp hpart]; rfl)
    | none =>
      cases start with
      | some e3 =>
        refine h.spend [.transport w.nextSerial, .pool w.nextSerial] (by simp)
          (fun part hpart => ?_) rfl rfl (fun part => ?_) rfl rfl rfl
        · refine hnew part ?_
          rcases List.mem_cons.mp hpart with rfl | hpart
          · rfl
          · rw [List.mem_singleton.mp hpart]
            rfl
        · simp only [openPart, closePart, List.mem_cons, List.not_mem_nil, or_false]
          tauto
      | none =>
        simp only [workerConnection, dif_pos hp] at he
        cases he

/-! ## an installation -/

/-- the cleanup tasks of an installation -/
def retirements (w : Watcher) (new : ExtTreeMap Routing.WorkerIdentity Resources) :
    List Retirement :=
  (w.resources.toList.filter fun e => new[e.1]? ≠ some e.2).map fun e => ⟨e.2, .created, false⟩

theorem mem_retirements {w : Watcher} {new : ExtTreeMap Routing.WorkerIdentity Resources}
    {task : Retirement} : task ∈ w.retirements new ↔
      ∃ (i : Routing.WorkerIdentity) (r : Resources), w.resources[i]? = some r ∧
        new[i]? ≠ some r ∧ task = ⟨r, .created, false⟩ := by
  unfold retirements
  rw [List.mem_map]
  constructor
  · rintro ⟨⟨i, r⟩, hmem, rfl⟩
    obtain ⟨hold, hnew⟩ := List.mem_filter.mp hmem
    exact ⟨i, r, ExtTreeMap.mem_toList_iff_getElem?_eq_some.mp hold, of_decide_eq_true hnew, rfl⟩
  · rintro ⟨i, r, hold, hnew, rfl⟩
    exact ⟨(i, r), List.mem_filter.mpr
      ⟨ExtTreeMap.mem_toList_iff_getElem?_eq_some.mpr hold, decide_eq_true hnew⟩, rfl⟩

theorem retirements_nodup {w : Watcher} (h : w.Core)
    (new : ExtTreeMap Routing.WorkerIdentity Resources) :
    ((w.retirements new).map fun task => task.resources.serial).Nodup := by
  have hkeys : w.resources.toList.Nodup := by
    refine (ExtTreeMap.distinct_keys_toList (t := w.resources)).imp ?_
    rintro a b hne rfl
    exact hne (Std.compare_eq_iff_eq.mpr rfl)
  unfold retirements
  rw [List.map_map]
  refine List.Nodup.map_on ?_ (hkeys.sublist List.filter_sublist)
  rintro ⟨i, r⟩ hr ⟨j, r'⟩ hr' heq
  have hget := ExtTreeMap.mem_toList_iff_getElem?_eq_some.mp (List.mem_filter.mp hr).1
  have hget' := ExtTreeMap.mem_toList_iff_getElem?_eq_some.mp (List.mem_filter.mp hr').1
  have hsame : r = r' := h.serials i j r r' hget hget' heq
  subst hsame
  exact Prod.ext ((h.own i r hget).1.symm.trans (h.own j r hget').1) rfl

/-- a connection of the attempt is installed under its own process -/
theorem newResources_of_created {w : Watcher} {descriptions : RouteDescriptions}
    {required rest : List WorkerRoute} {created : List Resources}
    (hi : w.Installing descriptions required rest created) (hc : w.Connected required created)
    (hsub : (created.map Resources.route).Sublist required) {r : Resources} (hr : r ∈ created) :
    (w.newResources required created)[r.route.process]? = some r := by
  have hroutes : (created.map Resources.route).Pairwise fun a b => a.process ≠ b.process :=
    List.Pairwise.sublist hsub hi.named.distinct
  have hpair := List.pairwise_map.mp hroutes
  have hsymm : Std.Symm fun a b : Resources => a.route.process ≠ b.route.process :=
    ⟨fun _ _ hne => hne.symm⟩
  have hfind : (created.find? fun a => decide (a.route.process = r.route.process)) = some r := by
    cases hf : created.find? fun a => decide (a.route.process = r.route.process) with
    | none => exact absurd (decide_eq_true rfl) (List.find?_eq_none.mp hf r hr)
    | some found =>
      have htrue := List.find?_some hf
      by_contra hne
      exact hpair.forall (List.mem_of_find?_eq_some hf) hr (fun heq => hne (heq ▸ rfl))
        (of_decide_eq_true htrue)
  obtain ⟨r', hget, _⟩ := newResources_of_mem hi hc (hi.made r hr).1
  have hcases := hget
  unfold newResources at hcases
  rcases Maps.getElem?_insertAll_cases _ _ hcases with ⟨found, hmem, hk, hv⟩ | hempty
  · obtain ⟨route, hroute, hpick⟩ := List.mem_filterMap.mp hmem
    obtain ⟨r2, hpick2, hroute2, _⟩ := pick_spec hi hc hroute
    have hsame : found = r2 := Option.some.inj (hpick.symm.trans hpick2)
    have hprocess : route.process = r.route.process := by
      rw [← hroute2, ← hsame]
      exact hk
    rw [hprocess, hfind, Option.some_or] at hpick
    rw [hget, ← hv, ← Option.some.inj hpick]
    rfl
  · simp at hempty

theorem Books.installed {w : Watcher} {descriptions : RouteDescriptions}
    {required rest : List WorkerRoute} {created : List Resources} (hcore : w.Core)
    (h : w.Books created) (hi : w.Installing descriptions required rest created)
    (hc : w.Connected required created) (hsub : (created.map Resources.route).Sublist required)
    (snapshot : Routing.TopologySnapshot) :
    (w.installed descriptions (w.newResources required created) snapshot).Books [] := by
  generalize hnew : w.newResources required created = new
  have hcleanup : (w.installed descriptions new snapshot).cleanup =
      w.cleanup ++ w.retirements new := rfl
  have hflight : ∀ task ∈ w.retirements new, task.inFlight = [] := by
    intro task htask
    obtain ⟨_, _, _, _, rfl⟩ := mem_retirements.mp htask
    rfl
  have huntouched : ∀ part : Part, (∃ task ∈ w.retirements new, part ∈ task.untouched) ↔
      ∃ (i : Routing.WorkerIdentity) (r : Resources), w.resources[i]? = some r ∧
        new[i]? ≠ some r ∧ r.serial = part.serial := by
    intro part
    constructor
    · rintro ⟨task, htask, hpart⟩
      have hs := Retirement.serial_untouched hpart
      obtain ⟨i, r, hold, hgone, rfl⟩ := mem_retirements.mp htask
      exact ⟨i, r, hold, hgone, hs.symm⟩
    · rintro ⟨i, r, hold, hgone, hs⟩
      refine ⟨⟨r, .created, false⟩, mem_retirements.mpr ⟨i, r, hold, hgone, rfl⟩, ?_⟩
      cases part with
      | transport serial =>
        cases hs
        exact List.mem_cons_self
      | pool serial =>
        cases hs
        exact List.mem_cons_of_mem _ List.mem_cons_self
  refine ⟨?_, h.closing, ?_, ?_, h.closed, ?_, ?_, ?_⟩
  · rw [hcleanup, List.map_append, List.nodup_append]
    refine ⟨h.tasks, retirements_nodup hcore new, ?_⟩
    intro a ha b hb heq
    obtain ⟨old, hold, rfl⟩ := List.mem_map.mp ha
    obtain ⟨task, htask, rfl⟩ := List.mem_map.mp hb
    obtain ⟨i, r, hget, _, rfl⟩ := mem_retirements.mp htask
    exact (hcore.retired old hold).2 i r hget heq.symm
  · intro part
    refine (h.opened part).trans (or_congr_right ?_)
    rw [hcleanup]
    simp only [List.mem_append, or_and_right, exists_or, huntouched]
    unfold Owned
    simp only [List.not_mem_nil, false_and, exists_false, or_false]
    change _ ↔ (∃ (i : Routing.WorkerIdentity) (r : Resources), new[i]? = some r ∧
      r.serial = part.serial) ∨ _
    constructor
    · rintro ((⟨i, r, hget, hs⟩ | ⟨r, hr, hs⟩) | htask)
      · by_cases hkept : new[i]? = some r
        · exact .inl ⟨i, r, hkept, hs⟩
        · exact .inr (.inr ⟨i, r, hget, hkept, hs⟩)
      · exact .inl ⟨r.route.process, r, hnew ▸ newResources_of_created hi hc hsub hr, hs⟩
      · exact .inr (.inl htask)
    · rintro (⟨i, r, hget, hs⟩ | htask | ⟨i, r, hget, _, hs⟩)
      · rw [← hnew] at hget
        rcases (newResources_cases hi hc hget).2.2 with hmem | hold
        · exact .inl (.inr ⟨r, hmem, hs⟩)
        · exact .inl (.inl ⟨i, r, hold, hs⟩)
      · exact .inr htask
      · exact .inl (.inl ⟨i, r, hget, hs⟩)
  · rw [hcleanup]
    intro task htask part hpart
    rcases List.mem_append.mp htask with hold | htask
    · exact h.waiting task hold part hpart
    · have hs := Retirement.serial_untouched hpart
      obtain ⟨i, r, hget, _, rfl⟩ := mem_retirements.mp htask
      exact fun hin => (hcore.own i r hget).2.2.2.1 part hin hs
  · intro part
    refine (h.flight part).trans (or_congr_right ?_)
    rw [hcleanup]
    simp only [List.mem_append, or_and_right, exists_or]
    refine (or_iff_left ?_).symm
    rintro ⟨task, htask, hpart⟩
    rw [hflight task htask] at hpart
    exact List.not_mem_nil hpart
  · rw [hcleanup]
    intro task htask part hpart
    rcases List.mem_append.mp htask with hold | htask
    · exact h.flying task hold part hpart
    · rw [hflight task htask] at hpart
      exact absurd hpart List.not_mem_nil
  · intro i r hget
    change new[i]? = some r at hget
    rw [← hnew] at hget
    obtain ⟨hroute, hprocess, _⟩ := newResources_cases hi hc hget
    obtain ⟨key, replicas, hk, hmem⟩ := (hi.named.mem r.route).mp hroute
    exact ⟨key, replicas, hk, r.route, hmem, hprocess⟩

/-! ## a cleanup task -/

theorem exists_cleanup {w : Watcher} {task : Retirement} (ht : task ∈ w.cleanup)
    (P : Retirement → Prop) :
    (∃ other ∈ w.cleanup, P other) ↔ P task ∨ ∃ other ∈ w.cleanup.erase task, P other := by
  have hperm := List.perm_cons_erase ht
  simp only [hperm.mem_iff, List.mem_cons, exists_eq_or_imp]

theorem Books.others {w : Watcher} {created : List Resources} (h : w.Books created)
    {task : Retirement} (ht : task ∈ w.cleanup) :
    (task.resources.serial ::
      (w.cleanup.erase task).map fun other => other.resources.serial).Nodup :=
  ((List.perm_cons_erase ht).map fun other : Retirement => other.resources.serial).nodup_iff.mp
    h.tasks

theorem Books.retire {w : Watcher} {created : List Resources} (h : w.Books created)
    {task : Retirement} (ht : task ∈ w.cleanup) (raised : Bool) :
    (w.retire task raised).Books created := by
  obtain ⟨r, stage, hadRaised⟩ := task
  have hnd := h.others ht
  have hopened := fun part => h.opened part
  have hflight := fun part => h.flight part
  simp only [exists_cleanup ht] at hopened hflight
  have hsub : ∀ other ∈ w.cleanup.erase ⟨r, stage, hadRaised⟩, other ∈ w.cleanup :=
    fun other hother => List.mem_of_mem_erase hother
  have hserial : ∀ other ∈ w.cleanup.erase ⟨r, stage, hadRaised⟩, ∀ part : Part,
      part.serial = r.serial → part ∉ other.untouched ∧ part ∉ other.inFlight := by
    intro other hother part hs
    have hne : other.resources.serial ≠ r.serial := fun heq =>
      (List.nodup_cons.mp hnd).1 (heq ▸ List.mem_map_of_mem hother)
    exact ⟨fun hin => hne ((Retirement.serial_untouched hin).symm.trans hs),
      fun hin => hne ((Retirement.serial_inFlight hin).symm.trans hs)⟩
  have htransport := fun other hother => hserial other hother (.transport r.serial) rfl
  have hpool := fun other hother => hserial other hother (.pool r.serial) rfl
  have howned : ∀ serial, (w.retire ⟨r, stage, hadRaised⟩ raised).Owned created serial =
      w.Owned created serial := by
    intro serial
    unfold Owned
    rw [(retire_frame w ⟨r, stage, hadRaised⟩ raised).1]
  cases stage with
  | created =>
    have hfresh := h.waiting _ ht (.transport r.serial) List.mem_cons_self
    have hpoolFresh := h.waiting _ ht (.pool r.serial) (List.mem_cons_of_mem _ List.mem_cons_self)
    refine ⟨hnd, List.nodup_cons.mpr ⟨hfresh, h.closing⟩, fun part => ?_, ?_, h.closed,
      fun part => ?_, ?_, h.named⟩
    · rw [howned]
      refine (hopened part).trans ?_
      simp only [Watcher.retire, Retirement.untouched_created,
        Retirement.untouched_closingTransport, List.mem_cons, exists_eq_or_imp, List.not_mem_nil,
        or_false]
      tauto
    · intro other hother part hpart hin
      rcases List.mem_cons.mp hother with rfl | hother
      · cases List.mem_singleton.mp hpart
        rcases List.mem_cons.mp hin with heq | hin
        · cases heq
        · exact hpoolFresh hin
      · rcases List.mem_cons.mp hin with rfl | hin
        · exact (htransport other hother).1 hpart
        · exact h.waiting other (hsub other hother) part hpart hin
    · simp only [Watcher.retire, Retirement.inFlight_created, Retirement.inFlight_closingTransport,
        List.mem_cons, exists_eq_or_imp, List.not_mem_nil, or_false, hflight part, false_or]
      tauto
    · intro other hother part hpart hin
      rcases List.mem_cons.mp hother with rfl | hother
      · cases List.mem_singleton.mp hpart
        exact hfresh (h.closed_subset hin)
      · exact h.flying other (hsub other hother) part hpart hin
  | closingTransport =>
    have hfresh := h.waiting _ ht (.pool r.serial) List.mem_cons_self
    have hflying := h.flying _ ht (.transport r.serial) List.mem_cons_self
    refine ⟨hnd, List.nodup_cons.mpr ⟨hfresh, h.closing⟩, fun part => ?_, ?_,
      List.nodup_cons.mpr ⟨hflying, h.closed⟩, fun part => ?_, ?_, h.named⟩
    · rw [howned]
      refine (hopened part).trans ?_
      simp only [Watcher.retire, Retirement.untouched_closingTransport,
        Retirement.untouched_closingPool, List.mem_cons, exists_eq_or_imp, List.not_mem_nil,
        or_false, false_or]
      tauto
    · intro other hother part hpart hin
      rcases List.mem_cons.mp hother with rfl | hother
      · exact absurd hpart List.not_mem_nil
      · rcases List.mem_cons.mp hin with rfl | hin
        · exact (hpool other hother).1 hpart
        · exact h.waiting other (hsub other hother) part hpart hin
    · simp only [Watcher.retire, Retirement.inFlight_closingTransport,
        Retirement.inFlight_closingPool, List.mem_cons, exists_eq_or_imp, List.not_mem_nil,
        or_false, hflight part]
      tauto
    · intro other hother part hpart hin
      rcases List.mem_cons.mp hother with rfl | hother
      · cases List.mem_singleton.mp hpart
        rcases List.mem_cons.mp hin with heq | hin
        · cases heq
        · exact hfresh (h.closed_subset hin)
      · rcases List.mem_cons.mp hin with rfl | hin
        · exact (htransport other hother).2 hpart
        · exact h.flying other (hsub other hother) part hpart hin
  | closingPool =>
    have hflying := h.flying _ ht (.pool r.serial) List.mem_cons_self
    refine ⟨(List.nodup_cons.mp hnd).2, h.closing, fun part => ?_,
      fun other hother => h.waiting other (hsub other hother),
      List.nodup_cons.mpr ⟨hflying, h.closed⟩, fun part => ?_, ?_, h.named⟩
    · rw [howned]
      refine (hopened part).trans ?_
      simp only [Watcher.retire, Retirement.untouched_closingPool, List.not_mem_nil, false_or]
    · simp only [Watcher.retire, Retirement.inFlight_closingPool, List.mem_cons, List.not_mem_nil,
        or_false, hflight part]
      tauto
    · intro other hother part hpart hin
      rcases List.mem_cons.mp hin with rfl | hin
      · exact (hpool other hother).2 hpart
      · exact h.flying other (hsub other hother) part hpart hin

/-! ## the pools -/

/-- no task has met an exception, and each pool is installed or its task has not ended -/
structure Tidy (w : Watcher) : Prop where
  calm : ∀ task ∈ w.cleanup, task.raised = false
  kept : ∀ (i : Routing.WorkerIdentity) (r : Resources), w.pools[i]? = some r →
    w.resources[i]? = some r ∨ ∃ task ∈ w.cleanup, task.resources = r

theorem Tidy.frame {w w' : Watcher} (h : w.Tidy) (h1 : w'.cleanup = w.cleanup)
    (h2 : w'.pools = w.pools) (h3 : w'.resources = w.resources) : w'.Tidy :=
  ⟨h1 ▸ h.calm, by
    rw [h1, h2, h3]
    exact h.kept⟩

theorem Tidy.installed {w : Watcher} (h : w.Tidy) (descriptions : RouteDescriptions)
    (new : ExtTreeMap Routing.WorkerIdentity Resources) (snapshot : Routing.TopologySnapshot) :
    (w.installed descriptions new snapshot).Tidy := by
  have hcleanup : (w.installed descriptions new snapshot).cleanup =
      w.cleanup ++ w.retirements new := rfl
  constructor
  · rw [hcleanup]
    intro task htask
    rcases List.mem_append.mp htask with hold | htask
    · exact h.calm task hold
    · obtain ⟨_, _, _, _, rfl⟩ := mem_retirements.mp htask
      rfl
  · intro i r hr
    rw [getElem?_installed_pools] at hr
    rw [hcleanup]
    change new[i]? = some r ∨ _
    cases hn : new[i]? with
    | some r' =>
      rw [hn, Option.some_or] at hr
      exact .inl hr
    | none =>
      rw [hn, Option.none_or] at hr
      refine .inr ?_
      rcases h.kept i r hr with hget | ⟨task, htask, heq⟩
      · refine ⟨⟨r, .created, false⟩, List.mem_append_right _ (mem_retirements.mpr
          ⟨i, r, hget, ?_, rfl⟩), rfl⟩
        rw [hn]
        exact (Option.some_ne_none r).symm
      · exact ⟨task, List.mem_append_left _ htask, heq⟩

theorem Tidy.retire {w : Watcher} (hcore : w.Core) (h : w.Tidy) {task : Retirement}
    (ht : task ∈ w.cleanup) : (w.retire task false).Tidy := by
  obtain ⟨r, stage, hadRaised⟩ := task
  have hcalm : hadRaised = false := h.calm _ ht
  subst hcalm
  have hsub : ∀ other ∈ w.cleanup.erase ⟨r, stage, false⟩, other ∈ w.cleanup :=
    fun other hother => List.mem_of_mem_erase hother
  cases stage with
  | created =>
    constructor
    · intro other hother
      rcases List.mem_cons.mp hother with rfl | hother
      · rfl
      · exact h.calm other (hsub other hother)
    · intro i r' hr
      refine (h.kept i r' hr).imp_right fun htask => ?_
      rw [exists_cleanup ht] at htask
      rcases htask with heq | ⟨other, hother, heq⟩
      · exact ⟨_, List.mem_cons_self, heq⟩
      · exact ⟨other, List.mem_cons_of_mem _ hother, heq⟩
  | closingTransport =>
    constructor
    · intro other hother
      rcases List.mem_cons.mp hother with rfl | hother
      · rfl
      · exact h.calm other (hsub other hother)
    · intro i r' hr
      refine (h.kept i r' hr).imp_right fun htask => ?_
      rw [exists_cleanup ht] at htask
      rcases htask with heq | ⟨other, hother, heq⟩
      · exact ⟨_, List.mem_cons_self, heq⟩
      · exact ⟨other, List.mem_cons_of_mem _ hother, heq⟩
  | closingPool =>
    refine ⟨fun other hother => h.calm other (hsub other hother), fun i r' hr => ?_⟩
    have hgone : ∀ j, w.resources[j]? ≠ some r := fun j hget =>
      (hcore.retired _ ht).2 j r hget rfl
    have hold : w.pools[i]? = some r' ∧ ¬ (i = r.route.process ∧ r' = r) := by
      change (if _ then w.pools.erase r.route.process else w.pools)[i]? = some r' at hr
      split_ifs at hr with hif
      · rw [Maps.getElem?_erase_eq] at hr
        split_ifs at hr with heq
        exact ⟨hr, fun hsame => heq hsame.1.symm⟩
      · refine ⟨hr, ?_⟩
        rintro ⟨rfl, rfl⟩
        refine hif ?_
        simp only [Bool.not_false, Bool.and_true, Bool.true_and, Bool.and_eq_true, bne_iff_ne,
          beq_iff_eq]
        exact ⟨hgone _, hr⟩
    refine (h.kept i r' hold.1).imp_right fun htask => ?_
    rw [exists_cleanup ht] at htask
    rcases htask with heq | ⟨other, hother, heq⟩
    · have hprocess := (hcore.pool i r' hold.1).1
      cases heq
      exact absurd ⟨hprocess.symm, rfl⟩ hold.2
    · exact ⟨other, hother, heq⟩

/-! ## every run -/

/-- what every step of a run keeps -/
structure Kept (w : Watcher) : Prop where
  ok : w.Ok
  books : w.Books w.attempt
  ahead : ∀ version descriptions required rest created,
    w.watching = .creating version descriptions required rest created →
      (created.map Resources.route ++ rest).Sublist required

theorem Books.fail {w : Watcher} (hcore : w.Core) (h : w.Books []) (e : WatchError) :
    (w.fail e).Kept := by
  have hnone : (w.fail e).attempt = [] ∧ ∀ version descriptions required rest created,
      (w.fail e).watching ≠ .creating version descriptions required rest created := by
    cases e <;> exact ⟨rfl, fun _ _ _ _ _ heq => by cases heq⟩
  refine ⟨hcore.fail_ok e, ?_, fun v d q t c hw => absurd hw (hnone.2 v d q t c)⟩
  rw [hnone.1]
  cases e <;> exact h.frame rfl rfl rfl rfl rfl rfl

/-- the watch state says nothing about the books -/
theorem fail_tidy {w : Watcher} (h : w.Tidy) (e : WatchError) : (w.fail e).Tidy := by
  cases e <;> exact h.frame rfl rfl rfl

theorem Installing.connected {w : Watcher} {descriptions : RouteDescriptions}
    {required rest : List WorkerRoute} {created : List Resources}
    (hi : w.Installing descriptions required rest created)
    (hrest : rest.dropWhile w.connected = []) : w.Connected required created := by
  intro route hr
  rcases hi.done route hr with hmem | hdone
  · exact .inl (List.dropWhile_eq_nil_iff.mp hrest route hmem)
  · exact hdone

theorem Books.continueInstall {w : Watcher} {descriptions : RouteDescriptions}
    {required rest : List WorkerRoute} {created : List Resources} (hcore : w.Core)
    (h : w.Books created) (hi : w.Installing descriptions required rest created)
    (hsub : (created.map Resources.route ++ rest).Sublist required) (version : Nat) :
    (w.continueInstall version descriptions required rest created).Kept := by
  have hok := hcore.continueInstall hi version
  have hdrop : (created.map Resources.route ++ rest.dropWhile w.connected).Sublist required :=
    (List.Sublist.append_left (List.dropWhile_sublist _) _).trans hsub
  unfold Watcher.continueInstall at hok ⊢
  cases hrest : rest.dropWhile w.connected with
  | nil =>
    rw [hrest] at hok hdrop
    rw [List.append_nil] at hdrop
    have hc := hi.connected hrest
    obtain ⟨snapshot, heq, _⟩ := commit_eq hcore hi hc version
    simp only at hok ⊢
    rw [heq] at hok ⊢
    exact ⟨hok, h.installed hcore hi hc hdrop snapshot, fun _ _ _ _ _ hw => by cases hw⟩
  | cons route more =>
    rw [hrest] at hok hdrop
    refine ⟨hok, h.frame rfl rfl rfl rfl rfl rfl, fun _ _ _ _ _ hw => ?_⟩
    cases hw
    exact hdrop

theorem Tidy.continueInstall {w : Watcher} {descriptions : RouteDescriptions}
    {required rest : List WorkerRoute} {created : List Resources} (hcore : w.Core)
    (h : w.Tidy) (hi : w.Installing descriptions required rest created) (version : Nat) :
    (w.continueInstall version descriptions required rest created).Tidy := by
  unfold Watcher.continueInstall
  cases hrest : rest.dropWhile w.connected with
  | nil =>
    have hc := hi.connected hrest
    obtain ⟨snapshot, heq, _⟩ := commit_eq hcore hi hc version
    simp only
    rw [heq]
    exact h.installed descriptions _ snapshot
  | cons route more => exact h.frame rfl rfl rfl

theorem attempt_of_creating {w : Watcher} {version : Nat} {descriptions : RouteDescriptions}
    {required rest : List WorkerRoute} {created : List Resources}
    (hw : w.watching = .creating version descriptions required rest created) :
    w.attempt = created := by
  unfold attempt
  rw [hw]

/-! ## what a step does -/

theorem installStep_install {w w' : Watcher} {version : Nat} {descriptions : RouteDescriptions}
    (hs : w.installStep (.install version descriptions) = some w') :
    w.attempt = [] ∧ w.install version descriptions = w' := by
  simp only [installStep] at hs
  split at hs
  · cases hs
  · rename_i hw
    refine ⟨?_, Option.some.inj hs⟩
    unfold attempt
    split
    · rename_i heq
      exact absurd heq (hw _ _ _ _ _)
    · rfl

theorem installStep_create {w w' : Watcher} {c : Creation}
    (hs : w.installStep (.create c) = some w') :
    ∃ version descriptions required route rest created,
      w.watching = .creating version descriptions required (route :: rest) created ∧
      ((∃ r, (w.createWorkerResources c route).1 = .ok r ∧
        (w.createWorkerResources c route).2.continueInstall version descriptions required rest
          (created ++ [r]) = w') ∨
      ∃ e, (w.createWorkerResources c route).1 = .error e ∧
        (w.afterFailure c route created).fail e = w') := by
  simp only [installStep, Watcher.step] at hs
  split at hs
  · rename_i version descriptions required route rest created hw
    refine ⟨version, descriptions, required, route, rest, created, hw, ?_⟩
    split at hs
    · rename_i hr
      rw [hr]
      exact .inl ⟨_, rfl, Option.some.inj hs⟩
    · rename_i he
      unfold Watcher.afterFailure
      rw [he]
      exact .inr ⟨_, rfl, Option.some.inj hs⟩
  · cases hs

theorem installStep_retire {w w' : Watcher} {task : Retirement} {raised : Bool}
    (hs : w.installStep (.retire task raised) = some w') :
    task ∈ w.cleanup ∧ w.retire task raised = w' := by
  simp only [installStep, Watcher.step] at hs
  split_ifs at hs with ht
  exact ⟨ht, Option.some.inj hs⟩

theorem Kept.step {w w' : Watcher} (h : w.Kept) {event : InstallEvent} (hd : event.Decoded)
    (hs : w.installStep event = some w') : w'.Kept := by
  cases event with
  | install version descriptions =>
    obtain ⟨hnone, rfl⟩ := installStep_install hs
    have hbooks := h.books
    rw [hnone] at hbooks
    unfold Watcher.install
    cases hq : requiredRoutes (Maps.values descriptions).flatten [] with
    | error e => exact hbooks.fail h.ok.core (.protocol e)
    | ok required =>
      exact hbooks.continueInstall h.ok.core (.begin hd (required_of_requiredRoutes hq))
        (List.Sublist.refl required) version
  | create c =>
    obtain ⟨version, descriptions, required, route, rest, created, hw, hcases⟩ :=
      installStep_create hs
    have hi := h.ok.installing _ _ _ _ _ hw
    have hbooks := h.books
    rw [attempt_of_creating hw] at hbooks
    rcases hcases with ⟨r, hr, rfl⟩ | ⟨e, he, rfl⟩
    · obtain ⟨hcore, hinst⟩ := h.ok.created hw hr
      refine (hbooks.create_ok hr).continueInstall hcore hinst ?_ version
      have hahead := h.ahead _ _ _ _ _ hw
      rw [List.map_append, List.append_assoc]
      obtain ⟨_, _, hroute, _⟩ := createWorkerResources_ok hr
      rw [← hroute] at hahead
      exact hahead
    · refine Books.fail (h.ok.afterFailure hw he) ?_ e
      refine (hbooks.create_error h.ok.core (h.ok.head_positive hw) he).closeAll ?_ hi.distinct ?_
      · intro r hr part hpart heq
        rcases (createWorkerResources_error (h.ok.head_positive hw) he).2.2.1 part hpart with
          hin | hs
        · exact (hi.made r hr).2.2.2 part hin heq
        · have hlt := (hi.made r hr).2.2.1
          omega
      · intro r hr
        rw [createWorkerResources_frame w c route]
        exact (hi.fresh r hr).2
  | retire task raised =>
    obtain ⟨ht, rfl⟩ := installStep_retire hs
    have hframe := (retire_frame w task raised).1
    have hwatch : (w.retire task raised).watching = w.watching := by rw [hframe]
    refine ⟨h.ok.retire ht raised, ?_, ?_⟩
    · have hattempt : (w.retire task raised).attempt = w.attempt := by
        unfold attempt
        rw [hwatch]
      rw [hattempt]
      exact h.books.retire ht raised
    · rw [hwatch]
      exact h.ahead

theorem Tidy.step {w w' : Watcher} (h : w.Tidy) (hkept : w.Kept) {event : InstallEvent}
    (hd : event.Decoded) (hquiet : event.Quiet) (hs : w.installStep event = some w') :
    w'.Tidy := by
  cases event with
  | install version descriptions =>
    obtain ⟨_, rfl⟩ := installStep_install hs
    unfold Watcher.install
    cases hq : requiredRoutes (Maps.values descriptions).flatten [] with
    | error e => exact fail_tidy h _
    | ok required =>
      exact h.continueInstall hkept.ok.core (.begin hd (required_of_requiredRoutes hq)) version
  | create c =>
    obtain ⟨version, descriptions, required, route, rest, created, hw, hcases⟩ :=
      installStep_create hs
    rcases hcases with ⟨r, hr, rfl⟩ | ⟨e, _, rfl⟩
    · obtain ⟨hcore, hinst⟩ := hkept.ok.created hw hr
      refine Tidy.continueInstall hcore ?_ hinst version
      rw [createWorkerResources_frame w c route]
      exact h.frame rfl rfl rfl
    · refine fail_tidy ?_ e
      rw [afterFailure_frame w c route created]
      exact h.frame rfl rfl rfl
  | retire task raised =>
    obtain ⟨ht, rfl⟩ := installStep_retire hs
    cases hquiet
    exact h.retire hkept.ok.core ht

theorem start_kept (config : WatcherConfig) : (start config).Kept := by
  refine ⟨start_ok config, ⟨List.nodup_nil, List.nodup_nil, fun part => ?_,
    fun _ h => absurd h List.not_mem_nil, List.nodup_nil, fun part => ?_,
    fun _ h => absurd h List.not_mem_nil, fun i r h => ?_⟩, fun _ _ _ _ _ hw => by cases hw⟩
  · simp [start, Owned, attempt]
  · simp [start]
  · simp [start] at h

theorem start_tidy (config : WatcherConfig) : (start config).Tidy :=
  ⟨fun _ h => absurd h List.not_mem_nil, fun i r h => by simp [start] at h⟩

/-! ## what holds -/

/-- the pool of each identity of the snapshot is that of its connection -/
def PoolsCurrent (w : Watcher) : Prop :=
  ∀ (key : ExpertKey) (replicas : List Routing.WorkerConnection),
    w.snapshot.routes[key]? = some replicas → ∀ target ∈ replicas,
      ∃ r, w.resources[target.identity]? = some r ∧ r.target = target ∧
        w.pools[target.identity]? = some r

/-- a Transport and a pool are closed once, and not while they are installed -/
structure ClosedOnce (w : Watcher) : Prop where
  owned : ∀ part : Part, w.Owned w.attempt part.serial → part ∉ w.closing
  once : ∀ part, w.closing.count part ≤ 1
  waiting : ∀ part ∈ w.opened, part ∉ w.closing → w.Owned w.attempt part.serial ∨
    ∃ task ∈ w.cleanup, part ∈ task.untouched
  finished : w.cleanup = [] → ∀ part ∈ w.opened, ¬ w.Owned w.attempt part.serial →
    w.closing.count part = 1 ∧ w.closed.count part = 1

def Routed (w : Watcher) (i : Routing.WorkerIdentity) : Prop :=
  ∃ (key : ExpertKey) (replicas : List Routing.WorkerConnection),
    w.snapshot.routes[key]? = some replicas ∧ ∃ target ∈ replicas, target.identity = i

/-- with no cleanup task, the mapping has the pools of the routed identities -/
def PoolsExact (w : Watcher) : Prop :=
  w.cleanup = [] → ∀ i : Routing.WorkerIdentity, (∃ r, w.pools[i]? = some r) ↔ w.Routed i

theorem Core.poolsCurrent {w : Watcher} (h : w.Core) : w.PoolsCurrent := by
  intro key replicas hk target ht
  obtain ⟨r, hres, hpool, htarget, _⟩ := h.usable hk ht
  exact ⟨r, hres, htarget, hpool⟩

theorem Kept.closedOnce {w : Watcher} (h : w.Kept) : w.ClosedOnce := by
  have howned : ∀ part : Part, w.Owned w.attempt part.serial → part ∉ w.closing := by
    rintro part (⟨i, r, hget, hs⟩ | ⟨r, hr, hs⟩) hin
    · exact (h.ok.core.own i r hget).2.2.2.1 part hin hs.symm
    · unfold attempt at hr
      split at hr
      · rename_i hw
        exact ((h.ok.installing _ _ _ _ _ hw).made r hr).2.2.2 part hin hs.symm
      · exact absurd hr List.not_mem_nil
  refine ⟨howned, List.nodup_iff_count_le_one.mp h.books.closing, fun part hpart hout => ?_,
    fun hnone part hpart hfree => ?_⟩
  · exact ((h.books.opened part).mp hpart).resolve_left hout
  · have hin : part ∈ w.closing := by
      rcases (h.books.opened part).mp hpart with hin | hown | ⟨task, htask, _⟩
      · exact hin
      · exact absurd hown hfree
      · rw [hnone] at htask
        exact absurd htask List.not_mem_nil
    have hclosed : part ∈ w.closed := by
      refine ((h.books.flight part).mp hin).resolve_right ?_
      rintro ⟨task, htask, _⟩
      rw [hnone] at htask
      exact absurd htask List.not_mem_nil
    exact ⟨List.count_eq_one_of_mem h.books.closing hin,
      List.count_eq_one_of_mem h.books.closed hclosed⟩

/-- a routed identity has a connection, and the other way round -/
theorem Kept.routed_iff {w : Watcher} (h : w.Kept) (i : Routing.WorkerIdentity) :
    w.Routed i ↔ ∃ r, w.resources[i]? = some r := by
  constructor
  · rintro ⟨key, replicas, hk, target, ht, rfl⟩
    obtain ⟨r, hget, _⟩ := h.ok.core.usable hk ht
    exact ⟨r, hget⟩
  · rintro ⟨r, hget⟩
    obtain ⟨key, replicas, hk, route, hroute, hp⟩ := h.books.named i r hget
    obtain ⟨r', hget', heq⟩ := connected_iff.mp (h.ok.core.routed key replicas hk route hroute)
    have hsame : r' = r := Option.some.inj (by rw [← hget', hp, hget])
    obtain ⟨hprocess, hok, _⟩ := h.ok.core.own i r hget
    refine ⟨key, replicas.filterMap fun route => (w.resources[route.process]?).map
      Resources.target, ?_, r.target, ?_, hok.identity.trans hprocess⟩
    · rw [h.ok.core.snapshot, targetsOf, ExtTreeMap.getElem?_map, hk]
      rfl
    · refine List.mem_filterMap.mpr ⟨route, hroute, ?_⟩
      rw [hget', hsame]
      rfl

theorem Tidy.poolsExact {w : Watcher} (h : w.Tidy) (hkept : w.Kept) : w.PoolsExact := by
  intro hnone i
  rw [hkept.routed_iff]
  constructor
  · rintro ⟨r, hr⟩
    rcases h.kept i r hr with hget | ⟨task, htask, _⟩
    · exact ⟨r, hget⟩
    · rw [hnone] at htask
      exact absurd htask List.not_mem_nil
  · rintro ⟨r, hr⟩
    exact ⟨r, (hkept.ok.core.own i r hr).2.2.2.2⟩

/-- **The connections of the Workers.**  In every run of installations and cleanup tasks, the
pools of a snapshot are those of its connections, and each Transport and pool is closed once, after
it has left the snapshot.  If no `close` of a retired connection raises, the mapping has the routed
identities and no others once the cleanup tasks have ended. -/
theorem connections_kept (config : WatcherConfig) (w : Watcher) :
    (Steps.Reach installStep (fun _ event => event.Decoded) (start config) w →
      w.PoolsCurrent ∧ w.ClosedOnce) ∧
    (Steps.Reach installStep (fun _ event => event.Decoded ∧ event.Quiet) (start config) w →
      w.PoolsExact) := by
  constructor
  · intro hreach
    have hkept : w.Kept := hreach.invariant (start_kept config) fun _ _ _ h hd hs => h.step hd hs
    exact ⟨hkept.ok.core.poolsCurrent, hkept.closedOnce⟩
  · intro hreach
    have hall : w.Kept ∧ w.Tidy := hreach.invariant (P := fun w => w.Kept ∧ w.Tidy)
      ⟨start_kept config, start_tidy config⟩
      fun _ _ _ h hok hs => ⟨h.1.step hok.1 hs, h.2.step h.1 hok.1 hok.2 hs⟩
    exact hall.2.poolsExact hall.1

end Watcher

/-- one expert on a Worker -/
def oneRoute : RouteDescriptions :=
  (∅ : RouteDescriptions).insert ⟨0, 0⟩
    [describe (WatcherExample.replica "a" "127.0.0.1:50051" 1)]

theorem oneRoute_ok : RoutesOk oneRoute := by
  intro key replicas h
  rw [oneRoute, Maps.getElem?_insert_eq] at h
  split_ifs at h
  · cases h
    exact ⟨⟨List.nodup_singleton _, fun route hr => by
      rw [List.mem_singleton.mp hr]
      exact ⟨Nat.one_pos.trans (by decide), Nat.one_pos, Nat.one_pos⟩⟩, List.cons_ne_nil _ _⟩
  · simp at h

/-- what its connection consists of -/
def leaving : Resources where
  serial := 0
  route := describe (WatcherExample.replica "a" "127.0.0.1:50051" 1)
  target := ⟨⟨"a", "s1"⟩, 4, 1, 1, WatcherExample.four_pos, Nat.one_pos, Nat.one_pos⟩
  pool := outputPool WatcherExample.config
    (describe (WatcherExample.replica "a" "127.0.0.1:50051" 1))

/-- the Worker joins and leaves, and the cleanup task closes its Transport and its pool -/
def leavingEvents : List InstallEvent :=
  [.install 1 oneRoute, .create ⟨none, none, none⟩, .install 2 ∅,
    .retire ⟨leaving, .created, false⟩ false, .retire ⟨leaving, .closingTransport, false⟩ false,
    .retire ⟨leaving, .closingPool, false⟩ false]

/-- the pool stays in the mapping until the task ends, and then no identity has one -/
theorem connections_kept_joining : ∃ w1 w2 w3 w4 w5 w6 : Watcher,
    (Watcher.start WatcherExample.config).installStep (.install 1 oneRoute) = some w1 ∧
    w1.installStep (.create ⟨none, none, none⟩) = some w2 ∧
    w2.installStep (.install 2 ∅) = some w3 ∧
    w3.installStep (.retire ⟨leaving, .created, false⟩ false) = some w4 ∧
    w4.installStep (.retire ⟨leaving, .closingTransport, false⟩ false) = some w5 ∧
    w5.installStep (.retire ⟨leaving, .closingPool, false⟩ false) = some w6 ∧
    w2.PoolsExact ∧ w3.PoolsCurrent ∧ w3.ClosedOnce ∧ w3.pools.size = 1 ∧ w6.ClosedOnce ∧
    w6.closed = [.pool 0, .transport 0] ∧
    ∀ i : Routing.WorkerIdentity, w6.pools[i]? = none := by
  obtain ⟨w6, h, hend⟩ := (Option.any_eq_true
    (fun w : Watcher => decide (w.cleanup = [] ∧ w.closed = [.pool 0, .transport 0] ∧
      w.snapshot.routes.isEmpty = true))
    (Steps.run Watcher.installStep (fun _ _ => true) (Watcher.start WatcherExample.config)
      leavingEvents)).mp (by decide +kernel)
  obtain ⟨-, w1, h1, h⟩ := Steps.run_cons h
  obtain ⟨-, w2, h2, h⟩ := Steps.run_cons h
  obtain ⟨-, w3, h3, h⟩ := Steps.run_cons h
  obtain ⟨-, w4, h4, h⟩ := Steps.run_cons h
  obtain ⟨-, w5, h5, h⟩ := Steps.run_cons h
  obtain ⟨-, _, h6, hlast⟩ := Steps.run_cons h
  cases hlast
  have hcreated : Steps.Reach Watcher.installStep (fun _ event => event.Decoded ∧ event.Quiet)
      (Watcher.start WatcherExample.config) w2 :=
    .step (.create ⟨none, none, none⟩)
      (.step (.install 1 oneRoute) .refl ⟨oneRoute_ok, trivial⟩ h1) ⟨trivial, trivial⟩ h2
  have hleft : Steps.Reach Watcher.installStep (fun _ event => event.Decoded ∧ event.Quiet)
      (Watcher.start WatcherExample.config) w3 :=
    .step (.install 2 ∅) hcreated ⟨routesOk_empty, trivial⟩ h3
  have hclosed : Steps.Reach Watcher.installStep (fun _ event => event.Decoded ∧ event.Quiet)
      (Watcher.start WatcherExample.config) w6 :=
    .step (.retire ⟨leaving, .closingPool, false⟩ false)
      (.step (.retire ⟨leaving, .closingTransport, false⟩ false)
        (.step (.retire ⟨leaving, .created, false⟩ false) hleft ⟨trivial, rfl⟩ h4)
        ⟨trivial, rfl⟩ h5) ⟨trivial, rfl⟩ h6
  have hsize : (Steps.run Watcher.installStep (fun _ _ => true)
      (Watcher.start WatcherExample.config) (leavingEvents.take 3)).any
        (fun w : Watcher => decide (w.pools.size = 1)) = true := by
    decide +kernel
  have hthird : Steps.run Watcher.installStep (fun _ _ => true)
      (Watcher.start WatcherExample.config) (leavingEvents.take 3) = some w3 := by
    simp [leavingEvents, Steps.run, h1, h2, h3]
  rw [hthird] at hsize
  obtain ⟨hdone, hparts, hempty⟩ := of_decide_eq_true hend
  have hroutes := ExtTreeMap.isEmpty_iff.mp hempty
  obtain ⟨hcurrent, honce⟩ := (Watcher.connections_kept WatcherExample.config w3).1
    (hleft.mono fun _ _ h => h.1)
  have hexact := (Watcher.connections_kept WatcherExample.config w6).2 hclosed hdone
  refine ⟨w1, w2, w3, w4, w5, w6, h1, h2, h3, h4, h5, h6,
    (Watcher.connections_kept WatcherExample.config w2).2 hcreated, hcurrent, honce,
    of_decide_eq_true hsize, ((Watcher.connections_kept WatcherExample.config w6).1
      (hclosed.mono fun _ _ h => h.1)).2, hparts, fun i => ?_⟩
  refine Option.eq_none_iff_forall_ne_some.mpr fun r hr => ?_
  obtain ⟨key, replicas, hget, -⟩ := (hexact i).mp ⟨r, hr⟩
  rw [hroutes] at hget
  simp at hget

end ExpertKit.Frontend

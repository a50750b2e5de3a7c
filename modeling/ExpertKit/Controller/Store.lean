import ExpertKit.Controller.Registration

/-!
# Controller: the durable store

The trait `ControllerStateStore` of `ek-computation/src/controller/state_store.rs` as a structure of
functions on a store state `σ`.  Every call may fail, and a failed call may still have changed the
store: `σ` is arbitrary, so a store that fails at any chosen point is one of the instances.

* `TransientControllerStateStore`   the process-local store of the Controller tests;
* `FailingTopologyStore`            the same store with injected `advance` failures;
* `LawfulStore store stored`        what the trait promises about topology versions: `stored s i` is
                                    the last version allocated for the instance `i`; it never
                                    decreases, and a successful advance returns and keeps a
                                    version newer than both it and the caller's.
-/

namespace ExpertKit.Controller
open Std

structure PersistedPlacement where
  workerId : String
  instanceId : Nat
  generation : Nat
  targets : List TargetExpert
deriving DecidableEq, Repr

structure ControllerStoreSnapshot where
  placements : List PersistedPlacement
  topologyVersions : ExtTreeMap Nat Nat
deriving DecidableEq

/-- `ControllerStoreError`: the text of a storage failure -/
structure ControllerStoreError where
  message : String
deriving DecidableEq, Repr

structure ControllerStateStore (σ : Type) where
  load : σ → Except ControllerStoreError ControllerStoreSnapshot × σ
  savePlacement :
    σ → (workerId : String) → (instanceId generation : Nat) → (targets : List TargetExpert) →
      Except ControllerStoreError Unit × σ
  advanceTopologyVersion :
    σ → (instanceId currentVersion : Nat) → Except ControllerStoreError Nat × σ

/-! ## the transient store -/

/-- the row of the worker is replaced in place, a new worker is pushed at the end -/
def savePlacementRow : List PersistedPlacement → PersistedPlacement → List PersistedPlacement
  | [], row => [row]
  | existing :: rest, row =>
    if existing.workerId == row.workerId then row :: rest
    else existing :: savePlacementRow rest row

/-- largest value of the store's `u64` version column -/
def maxVersion : Nat := 2 ^ 64 - 1

def TransientControllerStateStore : ControllerStateStore ControllerStoreSnapshot where
  load s := (.ok s, s)
  savePlacement s workerId instanceId generation targets :=
    (.ok (), { s with
      placements := savePlacementRow s.placements ⟨workerId, instanceId, generation, targets⟩ })
  advanceTopologyVersion s instanceId currentVersion :=
    let stored := s.topologyVersions[instanceId]?.getD 0
    let next := max stored currentVersion + 1
    if next ≤ maxVersion then
      (.ok next, { s with topologyVersions := s.topologyVersions.insert instanceId next })
    else
      (.error ⟨"topology version is exhausted"⟩,
        { s with topologyVersions := s.topologyVersions.insert instanceId stored })

def ControllerStoreSnapshot.empty : ControllerStoreSnapshot := ⟨[], ∅⟩

/-- the list says which of the next `advance` calls fail -/
def FailingTopologyStore : ControllerStateStore (ControllerStoreSnapshot × List Bool) where
  load s := (.ok s.1, s)
  savePlacement s workerId instanceId generation targets :=
    let r := TransientControllerStateStore.savePlacement s.1 workerId instanceId generation targets
    (r.1, r.2, s.2)
  advanceTopologyVersion s instanceId currentVersion :=
    if s.2.headD false then (.error ⟨"injected topology failure"⟩, s.1, s.2.tail)
    else
      let r := TransientControllerStateStore.advanceTopologyVersion s.1 instanceId currentVersion
      (r.1, r.2, s.2.tail)

/-! ## sequences of store calls -/

/-- the store went from the first state to the second by writing calls, failed ones included -/
inductive StoreCalls {σ : Type} (store : ControllerStateStore σ) (s : σ) : σ → Prop where
  | refl : StoreCalls store s s
  | save (s' : σ) (workerId : String) (instanceId generation : Nat) (targets : List TargetExpert)
      (h : StoreCalls store s s') :
      StoreCalls store s (store.savePlacement s' workerId instanceId generation targets).2
  | advance (s' : σ) (instanceId currentVersion : Nat) (h : StoreCalls store s s') :
      StoreCalls store s (store.advanceTopologyVersion s' instanceId currentVersion).2

theorem StoreCalls.of_eq {σ : Type} {store : ControllerStateStore σ} {s s' : σ} (h : s = s') :
    StoreCalls store s s' :=
  h ▸ .refl

theorem StoreCalls.trans {σ : Type} {store : ControllerStateStore σ} {s s1 s' : σ}
    (h : StoreCalls store s s1) (h' : StoreCalls store s1 s') : StoreCalls store s s' := by
  induction h' with
  | refl => exact h
  | save s2 w i g t _ ih => exact .save s2 w i g t ih
  | advance s2 i c _ ih => exact .advance s2 i c ih

theorem StoreCalls.advance_of {σ : Type} {store : ControllerStateStore σ} {s s1 s' : σ}
    {i c : Nat} {r : Except ControllerStoreError Nat} (h : StoreCalls store s s1)
    (ha : store.advanceTopologyVersion s1 i c = (r, s')) : StoreCalls store s s' := by
  have h' := StoreCalls.advance s1 i c h
  rwa [ha] at h'

theorem StoreCalls.save_of {σ : Type} {store : ControllerStateStore σ} {s s1 s' : σ}
    {w : String} {i g : Nat} {t : List TargetExpert} {r : Except ControllerStoreError Unit}
    (h : StoreCalls store s s1) (hs : store.savePlacement s1 w i g t = (r, s')) :
    StoreCalls store s s' := by
  have h' := StoreCalls.save s1 w i g t h
  rwa [hs] at h'

/-- the store went from the first state to the second by `advance` calls -/
inductive AdvanceCalls {σ : Type} (store : ControllerStateStore σ) (s : σ) : σ → Prop where
  | refl : AdvanceCalls store s s
  | advance (s' : σ) (instanceId currentVersion : Nat) (h : AdvanceCalls store s s') :
      AdvanceCalls store s (store.advanceTopologyVersion s' instanceId currentVersion).2

theorem AdvanceCalls.of_eq {σ : Type} {store : ControllerStateStore σ} {s s' : σ} (h : s = s') :
    AdvanceCalls store s s' :=
  h ▸ .refl

theorem AdvanceCalls.advance_of {σ : Type} {store : ControllerStateStore σ} {s s1 s' : σ}
    {i c : Nat} {r : Except ControllerStoreError Nat} (h : AdvanceCalls store s s1)
    (ha : store.advanceTopologyVersion s1 i c = (r, s')) : AdvanceCalls store s s' := by
  have h' := AdvanceCalls.advance s1 i c h
  rwa [ha] at h'

theorem AdvanceCalls.storeCalls {σ : Type} {store : ControllerStateStore σ} {s s' : σ}
    (h : AdvanceCalls store s s') : StoreCalls store s s' := by
  induction h with
  | refl => exact .refl
  | advance s1 i c _ ih => exact .advance s1 i c ih

/-! ## the promise of the trait -/

structure LawfulStore {σ : Type} (store : ControllerStateStore σ) (stored : σ → Nat → Nat) :
    Prop where
  load_versions : ∀ s snapshot s', store.load s = (.ok snapshot, s') →
    ∀ i, stored s i ≤ snapshot.topologyVersions[i]?.getD 0
  load_mono : ∀ s i, stored s i ≤ stored (store.load s).2 i
  save_mono : ∀ s w i g t j, stored s j ≤ stored (store.savePlacement s w i g t).2 j
  advance_mono : ∀ s i c j, stored s j ≤ stored (store.advanceTopologyVersion s i c).2 j
  advance_newer : ∀ s i c v s', store.advanceTopologyVersion s i c = (.ok v, s') →
    stored s i < v ∧ c < v ∧ v ≤ stored s' i

theorem StoreCalls.mono {σ : Type} {store : ControllerStateStore σ} {stored : σ → Nat → Nat}
    (hs : LawfulStore store stored) {s s' : σ} (h : StoreCalls store s s') (i : Nat) :
    stored s i ≤ stored s' i := by
  induction h with
  | refl => exact Nat.le_refl _
  | save s1 w j g t _ ih => exact ih.trans (hs.save_mono s1 w j g t i)
  | advance s1 j c _ ih => exact ih.trans (hs.advance_mono s1 j c i)

theorem transient_lawful : LawfulStore TransientControllerStateStore
    (fun s i => s.topologyVersions[i]?.getD 0) where
  load_versions := by
    intro s snapshot s' h i
    simp only [TransientControllerStateStore, Prod.mk.injEq, Except.ok.injEq] at h
    rw [h.1]
  load_mono := fun s i => Nat.le_refl _
  save_mono := fun s w i g t j => Nat.le_refl _
  advance_mono := by
    intro s i c j
    simp only [TransientControllerStateStore]
    by_cases hij : i = j
    · subst hij
      split_ifs <;> simp
      omega
    · split_ifs <;> simp [Maps.getElem?_insert_eq, hij]
  advance_newer := by
    intro s i c v s' h
    simp only [TransientControllerStateStore] at h
    split_ifs at h with hle
    · simp only [Prod.mk.injEq, Except.ok.injEq] at h
      obtain ⟨h1, h2⟩ := h
      subst h1 h2
      simp only [ExtTreeMap.getElem?_insert_self, Option.getD_some]
      omega
    · simp at h

end ExpertKit.Controller

import ExpertKit.Lib.Parts

/-!
# Multipart messages in any order

The parts of several messages arrive in one stream, in any order, repeated and interleaved.  What a
receiver may do is said over the parts it has consumed: a message is complete when each of its
parts was consumed, and open when only some were.

* `Gathered t ps seen`      the table `t` holds exactly the parts whose numbers were seen;
* `Gathered.insert`, `Gathered.size_eq_iff`, `Gathered.filled`   one more part, and when it is full;
* `Complete`, `openKeys`    the messages of the parts consumed;
* `Sendable`, `completed`   a part that a receiver with a bound must take, and what it completes;
* `Allowed`, `collect`      a condition on each part of a stream, and the results of the parts;
* `feed_spec`               a receiver that takes every allowed part takes every allowed stream.
-/

namespace Parts
open Std

/-! ## the table of received parts -/

section
variable {β : Type*} {t : ExtTreeMap Nat β} {ps : List β} {seen seen' : Nat → Prop} {i : Nat}
  {b : β}

structure Gathered (t : ExtTreeMap Nat β) (ps : List β) (seen : Nat → Prop) : Prop where
  held : ∀ i, seen i → i < ps.length ∧ t[i]? = ps[i]?
  absent : ∀ i, ¬seen i → t[i]? = none

theorem Gathered.empty (ps : List β) (h : ∀ i, ¬seen i) : Gathered ∅ ps seen :=
  ⟨fun i hi => absurd hi (h i), fun i _ => by simp⟩

theorem Gathered.congr (h : Gathered t ps seen) (hseen : ∀ i, seen' i ↔ seen i) :
    Gathered t ps seen' :=
  ⟨fun i hi => h.held i ((hseen i).mp hi), fun i hi => h.absent i fun hs => hi ((hseen i).mpr hs)⟩

theorem Gathered.insert (h : Gathered t ps seen) (hb : ps[i]? = some b) :
    Gathered (t.insert i b) ps fun j => seen j ∨ j = i := by
  have hlt : i < ps.length := (List.getElem?_eq_some_iff.mp hb).1
  refine ⟨fun j hj => ?_, fun j hj => ?_⟩
  · rw [Maps.getElem?_insert_eq]
    split_ifs with hij
    · exact hij ▸ ⟨hlt, hb.symm⟩
    · exact h.held j (hj.resolve_right fun he => hij he.symm)
  · rw [Maps.getElem?_insert_eq, if_neg fun hij => hj (.inr hij.symm)]
    exact h.absent j fun hs => hj (.inl hs)

theorem Gathered.mem_iff (h : Gathered t ps seen) : i ∈ t ↔ seen i := by
  rw [← ExtTreeMap.isSome_getElem?_iff_mem]
  by_cases hs : seen i
  · obtain ⟨hlt, hget⟩ := h.held i hs
    rw [hget, List.getElem?_eq_getElem hlt]
    exact ⟨fun _ => hs, fun _ => rfl⟩
  · rw [h.absent i hs]
    exact ⟨nofun, fun h' => absurd h' hs⟩

theorem Gathered.keys_subset (h : Gathered t ps seen) : t.keys ⊆ List.range ps.length := by
  intro j hj
  rw [ExtTreeMap.mem_keys] at hj
  exact List.mem_range.mpr (h.held j (h.mem_iff.mp hj)).1

/-- the table is full when every number was seen -/
theorem Gathered.size_eq_iff (h : Gathered t ps seen) :
    t.size = ps.length ↔ ∀ i < ps.length, seen i := by
  have hsub : t.keys.Subperm (List.range ps.length) :=
    List.subperm_of_subset ExtTreeMap.nodup_keys h.keys_subset
  rw [← ExtTreeMap.length_keys]
  constructor
  · intro hsize i hi
    have hperm := hsub.perm_of_length_le (by rw [hsize, List.length_range])
    exact h.mem_iff.mp (ExtTreeMap.mem_keys.mp (hperm.mem_iff.mpr (List.mem_range.mpr hi)))
  · intro hall
    have hperm : t.keys.Perm (List.range ps.length) := by
      refine (List.perm_ext_iff_of_nodup ExtTreeMap.nodup_keys List.nodup_range).mpr fun j => ?_
      exact ⟨fun hj => h.keys_subset hj, fun hj =>
        ExtTreeMap.mem_keys.mpr (h.mem_iff.mpr (hall j (List.mem_range.mp hj)))⟩
    rw [hperm.length_eq, List.length_range]

theorem Gathered.filled (h : Gathered t ps seen) (hall : ∀ i < ps.length, seen i) :
    Filled t ps ps.length := by
  intro i
  split_ifs with hi
  · exact (h.held i (hall i hi)).2
  · exact h.absent i fun hs => hi (h.held i hs).1

end

/-! ## streams -/

section
variable {π ρ ρ' : Type*}

/-- the condition holds of every part after those before it -/
def Allowed (ok : List π → π → Prop) (history : List π) : List π → Prop
  | [] => True
  | part :: rest => ok history part ∧ Allowed ok (history ++ [part]) rest

instance Allowed.decidable (ok : List π → π → Prop) [∀ history part, Decidable (ok history part)] :
    ∀ history stream : List π, Decidable (Allowed ok history stream)
  | _, [] => isTrue trivial
  | history, part :: rest =>
    @instDecidableAnd _ _ _ (Allowed.decidable ok (history ++ [part]) rest)

/-- what the parts result in after those before them -/
def collect (result : List π → π → Option ρ) (history : List π) : List π → List ρ
  | [] => []
  | part :: rest => (result history part).toList ++ collect result (history ++ [part]) rest

theorem Allowed.and_forall {ok : List π → π → Prop} {good : π → Prop} {history stream : List π}
    (h : Allowed ok history stream) (hgood : ∀ part ∈ stream, good part) :
    Allowed (fun history part => good part ∧ ok history part) history stream := by
  induction stream generalizing history with
  | nil => trivial
  | cons part rest ih =>
    exact ⟨⟨hgood part List.mem_cons_self, h.1⟩,
      ih h.2 fun p hp => hgood p (List.mem_cons_of_mem _ hp)⟩

theorem Allowed.of_forall {good : π → Prop} {history stream : List π}
    (hgood : ∀ part ∈ stream, good part) : Allowed (fun _ part => good part) history stream := by
  induction stream generalizing history with
  | nil => trivial
  | cons part rest ih =>
    exact ⟨hgood part List.mem_cons_self, ih fun p hp => hgood p (List.mem_cons_of_mem _ hp)⟩

theorem collect_map (f : ρ → ρ') (result : List π → π → Option ρ) (history stream : List π) :
    collect (fun history part => (result history part).map f) history stream =
      (collect result history stream).map f := by
  induction stream generalizing history with
  | nil => rfl
  | cons part rest ih =>
    rw [collect, collect, ih, List.map_append]
    cases result history part <;> rfl

variable {σ ε : Type*}

/-- the results of a receiver that is fed a stream; it stops at the first error -/
def feed (add : σ → π → Except ε (Option ρ) × σ) (s : σ) : List π → Except ε (List ρ) × σ
  | [] => (.ok [], s)
  | part :: rest =>
    match add s part with
    | (.error e, s') => (.error e, s')
    | (.ok result, s') =>
      match feed add s' rest with
      | (.error e, s'') => (.error e, s'')
      | (.ok results, s'') => (.ok (result.toList ++ results), s'')

/-- a receiver that takes every allowed part with the result expected of it takes every allowed
stream, with the results of its parts -/
theorem feed_spec {add : σ → π → Except ε (Option ρ) × σ} {ok : List π → π → Prop}
    {result : List π → π → Option ρ} {Holds : σ → List π → Prop}
    (hstep : ∀ s history part, Holds s history → ok history part →
      ∃ s', add s part = (.ok (result history part), s') ∧ Holds s' (history ++ [part]))
    {s : σ} {history stream : List π} (hs : Holds s history) (hok : Allowed ok history stream) :
    ∃ s', feed add s stream = (.ok (collect result history stream), s') ∧
      Holds s' (history ++ stream) := by
  induction stream generalizing s history with
  | nil => exact ⟨s, rfl, by rwa [List.append_nil]⟩
  | cons part rest ih =>
    obtain ⟨s₁, hadd, hs₁⟩ := hstep s history part hs hok.1
    obtain ⟨s₂, hrest, hs₂⟩ := ih hs₁ hok.2
    refine ⟨s₂, ?_, by rwa [List.append_assoc] at hs₂⟩
    rw [feed, hadd]
    dsimp only
    rw [hrest, collect]

end

/-! ## messages -/

section
variable {κ : Type*} [DecidableEq κ] (count : κ → Nat)

/-- each part of the message was consumed -/
def Complete (history : List (κ × Nat)) (k : κ) : Prop := ∀ j < count k, (k, j) ∈ history

instance (history : List (κ × Nat)) (k : κ) : Decidable (Complete count history k) :=
  inferInstanceAs (Decidable (∀ j < count k, (k, j) ∈ history))

/-- the messages of which some parts were consumed and some not -/
def openKeys (history : List (κ × Nat)) : List κ :=
  (history.map Prod.fst).dedup.filter fun k => ¬Complete count history k

/-- a part that is numbered within its message, of a message that is not complete, and that opens
no more than `bound` messages -/
structure Sendable (bound : Nat) (history : List (κ × Nat)) (part : κ × Nat) : Prop where
  lt : part.2 < count part.1
  incomplete : ¬Complete count history part.1
  room : part.1 ∉ openKeys count history → (openKeys count history).length < bound

instance (bound : Nat) (history : List (κ × Nat)) (part : κ × Nat) :
    Decidable (Sendable count bound history part) :=
  decidable_of_iff (part.2 < count part.1 ∧ ¬Complete count history part.1 ∧
      (part.1 ∉ openKeys count history → (openKeys count history).length < bound))
    ⟨fun h => ⟨h.1, h.2.1, h.2.2⟩, fun h => ⟨h.lt, h.incomplete, h.room⟩⟩

def completed (history : List (κ × Nat)) (part : κ × Nat) : Option κ :=
  if Complete count (history ++ [part]) part.1 then some part.1 else none

/-- every part of the stream is sendable after those before it -/
def Fits (bound : Nat) (stream : List (κ × Nat)) : Prop := Allowed (Sendable count bound) [] stream

instance (bound : Nat) (stream : List (κ × Nat)) : Decidable (Fits count bound stream) :=
  inferInstanceAs (Decidable (Allowed _ [] stream))

/-- the messages that the stream completes, each with its last missing part -/
def completions (stream : List (κ × Nat)) : List κ := collect (completed count) [] stream

variable {count} {history : List (κ × Nat)} {part : κ × Nat} {k : κ}

theorem mem_openKeys : k ∈ openKeys count history ↔
    (∃ j, (k, j) ∈ history) ∧ ¬Complete count history k := by
  unfold openKeys
  rw [List.mem_filter, List.mem_dedup, List.mem_map, decide_eq_true_iff]
  exact and_congr_left fun _ =>
    ⟨fun ⟨p, hp, hk⟩ => ⟨p.2, hk ▸ hp⟩, fun ⟨j, hj⟩ => ⟨(k, j), hj, rfl⟩⟩

theorem nodup_openKeys : (openKeys count history).Nodup := (List.nodup_dedup _).filter _

omit [DecidableEq κ] in
/-- a part of one message leaves the others as they are -/
theorem complete_other (hne : k ≠ part.1) :
    Complete count (history ++ [part]) k ↔ Complete count history k := by
  refine forall₂_congr fun j _ => ?_
  rw [List.mem_append, List.mem_singleton]
  exact or_iff_left fun he => hne (congrArg Prod.fst he)

theorem mem_openKeys_other (hne : k ≠ part.1) :
    k ∈ openKeys count (history ++ [part]) ↔ k ∈ openKeys count history := by
  rw [mem_openKeys, mem_openKeys, complete_other hne]
  refine and_congr_left fun _ => exists_congr fun j => ?_
  rw [List.mem_append, List.mem_singleton]
  exact or_iff_left fun he => hne (congrArg Prod.fst he)

theorem mem_openKeys_self :
    part.1 ∈ openKeys count (history ++ [part]) ↔ ¬Complete count (history ++ [part]) part.1 := by
  rw [mem_openKeys]
  exact and_iff_right ⟨part.2, List.mem_append_right _ (List.mem_singleton_self _)⟩

/-- a message of which no part was consumed, or every part, is not open -/
theorem not_seen_of_not_open (hclosed : k ∉ openKeys count history)
    (hincomplete : ¬Complete count history k) (j : Nat) : (k, j) ∉ history :=
  fun hj => hclosed (mem_openKeys.mpr ⟨⟨j, hj⟩, hincomplete⟩)

end

end Parts

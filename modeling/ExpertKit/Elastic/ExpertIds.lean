import ExpertKit.Controller.Registration
import ExpertKit.Elastic.Capacity
import ExpertKit.Elastic.Lifecycle
import ExpertKit.Lib.Split

/-!
# Elasticity: identifiers of experts

`ExpertKey` of `ek-db/src/safetensor/mod.rs` writes an expert as `model/l3-e7` and reads it back by
splitting at `/l` and `-e`.  `build_targets` of `service/weight_control/database.rs` reads back the
assigned rows of a Worker.

* `StoredExpertKey.asObjectKey`, `StoredExpertKey.fromExpertId`   the two directions;
* `fromExpertId_of_mark`, `fromExpertId_of_not_mark`   what is read back, for every model name;
* `buildTargets`, `buildTargets_ok_iff`   the target list of a Worker;
* `Task.ids`, `Pool.Keys`    the identifiers that the background tasks write;
* `expert_ids_decode_iff`    the identifiers are read back exactly when the model name has no `/l`.
-/

set_option linter.unusedSectionVars false

namespace ExpertKit.Elastic
open Std ExpertKit.Controller

/-! ## numbers -/

inductive ParseIntError where
  | empty
  | invalidDigit
  | posOverflow
deriving DecidableEq, Repr

inductive EKError where
  | notFound (message : String)
  | invalidInput (message : String)
  | parseIntError (error : ParseIntError)
  | runtimeError (message : String)
deriving DecidableEq, Repr

/-- the text of the error -/
def EKError.toString : EKError → String
  | .notFound message => "NotFound `" ++ message ++ "`"
  | .invalidInput _ => "invalid input"
  | .parseIntError _ => "parse int error"
  | .runtimeError message => "runtime error: " ++ message

def parseDigits : List Char → Nat → Except ParseIntError Nat
  | [], value => .ok value
  | c :: rest, value =>
    if !c.isDigit then .error .invalidDigit
    else
      let value := 10 * value + (c.toNat - '0'.toNat)
      if value < 2 ^ 64 then parseDigits rest value else .error .posOverflow

/-- `str::parse::<usize>` -/
def parseUsize (text : List Char) : Except ParseIntError UInt64 :=
  match text with
  | [] => .error .empty
  | ['+'] => .error .invalidDigit
  | '+' :: rest => (parseDigits rest 0).map UInt64.ofNat
  | _ => (parseDigits text 0).map UInt64.ofNat

theorem le_ofDigitChars (text : List Char) (value : Nat) :
    value ≤ Nat.ofDigitChars 10 text value := by
  rw [Nat.ofDigitChars_eq_ofDigitChars_zero]
  exact (Nat.le_mul_of_pos_left _ (Nat.pow_pos (by decide))).trans (Nat.le_add_right _ _)

theorem parseDigits_eq {text : List Char} {value : Nat} (hdigits : ∀ c ∈ text, c.isDigit = true)
    (hfits : value < 2 ^ 64) :
    parseDigits text value =
      if Nat.ofDigitChars 10 text value < 2 ^ 64 then .ok (Nat.ofDigitChars 10 text value)
      else .error .posOverflow := by
  induction text generalizing value with
  | nil => rw [parseDigits, Nat.ofDigitChars_nil, if_pos hfits]
  | cons c rest ih =>
    rw [parseDigits, hdigits c List.mem_cons_self, Nat.ofDigitChars_cons]
    simp only [Bool.not_true, Bool.false_eq_true, if_false]
    split_ifs with hvalue htotal htotal
    · rw [ih (fun x hx => hdigits x (List.mem_cons_of_mem _ hx)) hvalue, if_pos htotal]
    · rw [ih (fun x hx => hdigits x (List.mem_cons_of_mem _ hx)) hvalue, if_neg htotal]
    · exact absurd ((le_ofDigitChars rest _).trans_lt htotal) hvalue
    · rfl

theorem isDigit_repr (n : Nat) : ∀ c ∈ (Nat.repr n).toList, c.isDigit = true := by
  intro c hc
  rw [Nat.repr, String.toList_ofList] at hc
  exact Nat.isDigit_of_mem_toDigits (b := 10) (by decide) (by decide) hc

theorem parseUsize_repr (n : Nat) :
    parseUsize (Nat.repr n).toList =
      if n < 2 ^ 64 then .ok (UInt64.ofNat n) else .error .posOverflow := by
  have hdigits := isDigit_repr n
  have hvalue : Nat.ofDigitChars 10 (Nat.repr n).toList 0 = n := by
    rw [Nat.repr, String.toList_ofList]
    exact Nat.ofDigitChars_toDigits (by decide) (by decide)
  have hne : (Nat.repr n).toList ≠ [] := by
    rw [Nat.repr, String.toList_ofList]
    exact Nat.toDigits_ne_nil
  have hparse : parseUsize (Nat.repr n).toList =
      (parseDigits (Nat.repr n).toList 0).map UInt64.ofNat := by
    cases htext : (Nat.repr n).toList with
    | nil => exact absurd htext hne
    | cons c rest =>
      rw [htext] at hdigits
      have hc : c ≠ '+' := by
        rintro rfl
        exact absurd (hdigits _ List.mem_cons_self) (by decide)
      unfold parseUsize
      split <;> simp_all
  rw [hparse, parseDigits_eq hdigits (by decide), hvalue]
  split_ifs <;> rfl

/-! ## the two directions -/

/-- `ExpertKey` -/
structure StoredExpertKey where
  model : String
  layer : UInt64
  idx : UInt64
deriving DecidableEq, Repr

namespace StoredExpertKey

def asObjectKey (key : StoredExpertKey) : String :=
  objectKey key.model key.layer.toNat key.idx.toNat

def fromExpertId (model id : String) : Except EKError StoredExpertKey :=
  match Split.splitOn "/l".toList id.toList with
  | [_, tail] =>
    match Split.splitOn "-e".toList tail with
    | [layer, expert] =>
      match parseUsize layer with
      | .error error => .error (.parseIntError error)
      | .ok layer =>
        match parseUsize expert with
        | .error error => .error (.parseIntError error)
        | .ok idx => .ok ⟨model, layer, idx⟩
    | _ => .error (.invalidInput ("invalid expert id: " ++ id))
  | _ => .error (.invalidInput ("invalid expert id: " ++ id))

end StoredExpertKey

/-- `/l` stands somewhere in the model name -/
def HasLayerMark (model : String) : Prop := "/l".toList <:+: model.toList

instance (model : String) : Decidable (HasLayerMark model) :=
  inferInstanceAs (Decidable ("/l".toList <:+: model.toList))

theorem not_infix_of_not_mem {c : Char} {rest text : List Char} (h : c ∉ text) :
    ¬ c :: rest <:+: text :=
  fun hin => h (hin.subset List.mem_cons_self)

/-- the text after the layer mark of an identifier -/
def keyTail (layer idx : Nat) : List Char :=
  (Nat.repr layer).toList ++ ("-e".toList ++ (Nat.repr idx).toList)

theorem objectKey_toList (model : String) (layer idx : Nat) :
    (objectKey model layer idx).toList = model.toList ++ ("/l".toList ++ keyTail layer idx) := by
  simp [objectKey, keyTail]

theorem not_mem_repr {c : Char} (hc : c.isDigit = false) (n : Nat) :
    c ∉ (Nat.repr n).toList := by
  intro hin
  rw [isDigit_repr n c hin] at hc
  cases hc

theorem splitOn_keyTail (layer idx : Nat) :
    Split.splitOn "-e".toList (keyTail layer idx) =
      [(Nat.repr layer).toList, (Nat.repr idx).toList] :=
  Split.splitOn_eq_pair (by decide)
    (not_infix_of_not_mem (not_mem_repr (by decide) layer))
    (not_infix_of_not_mem (not_mem_repr (by decide) idx))

theorem splitOn_objectKey {model : String} (h : ¬ HasLayerMark model) (layer idx : Nat) :
    Split.splitOn "/l".toList (objectKey model layer idx).toList =
      [model.toList, keyTail layer idx] := by
  have htail : '/' ∉ keyTail layer idx := by
    have hlayer := not_mem_repr (c := '/') (by decide) layer
    have hidx := not_mem_repr (c := '/') (by decide) idx
    have hdash : '/' ∉ "-e".toList := by decide
    simp only [keyTail, List.mem_append, not_or]
    exact ⟨hlayer, hdash, hidx⟩
  rw [objectKey_toList]
  exact Split.splitOn_eq_pair (by decide) h (not_infix_of_not_mem htail)

/-- a model name with a layer mark of its own leaves more than two pieces -/
theorem fromExpertId_of_mark (reader : String) {model : String} (h : HasLayerMark model)
    (layer idx : Nat) :
    StoredExpertKey.fromExpertId reader (objectKey model layer idx) =
      .error (.invalidInput ("invalid expert id: " ++ objectKey model layer idx)) := by
  have hlength : 2 < (Split.splitOn "/l".toList (objectKey model layer idx).toList).length := by
    rw [objectKey_toList]
    exact Split.length_splitOn_lt (by decide) _ h
  unfold StoredExpertKey.fromExpertId
  split
  · next hsplit =>
    rw [hsplit] at hlength
    exact absurd hlength (by simp)
  · rfl

theorem fromExpertId_of_not_mark (reader : String) {model : String} (h : ¬ HasLayerMark model)
    (layer idx : Nat) :
    StoredExpertKey.fromExpertId reader (objectKey model layer idx) =
      if layer < 2 ^ 64 ∧ idx < 2 ^ 64 then
        .ok ⟨reader, UInt64.ofNat layer, UInt64.ofNat idx⟩
      else .error (.parseIntError .posOverflow) := by
  unfold StoredExpertKey.fromExpertId
  rw [splitOn_objectKey h]
  dsimp only
  rw [splitOn_keyTail]
  dsimp only
  rw [parseUsize_repr, parseUsize_repr]
  by_cases hlayer : layer < 2 ^ 64
  · by_cases hidx : idx < 2 ^ 64
    · rw [if_pos hlayer, if_pos hidx, if_pos ⟨hlayer, hidx⟩]
    · rw [if_pos hlayer, if_neg hidx, if_neg fun hboth => hidx hboth.2]
  · rw [if_neg hlayer, if_neg (show ¬ (layer < 2 ^ 64 ∧ idx < 2 ^ 64) from
      fun hboth => hlayer hboth.1)]

/-- the layer and the index are read back exactly when the model name has no layer mark -/
theorem fromExpertId_asObjectKey_iff (key : StoredExpertKey) :
    StoredExpertKey.fromExpertId key.model key.asObjectKey = .ok key ↔
      ¬ HasLayerMark key.model := by
  constructor
  · intro hok hmark
    rw [StoredExpertKey.asObjectKey, fromExpertId_of_mark _ hmark] at hok
    cases hok
  · intro hmark
    rw [StoredExpertKey.asObjectKey, fromExpertId_of_not_mark _ hmark,
      if_pos ⟨key.layer.toNat_lt, key.idx.toNat_lt⟩]
    simp

/-! ## the targets of a Worker -/

/-- the weight endpoints of the other active nodes that have loaded an expert -/
def peerEndpoints (ownNodeId : Nat) (activeNodes : ExtTreeMap Nat Node) (observed : List Expert) :
    ExtTreeMap String (List String) :=
  observed.foldl (fun peers expert =>
    if expert.state ≠ .loaded ∨ expert.nodeId = ownNodeId then peers
    else
      match activeNodes[expert.nodeId]? with
      | none => peers
      | some node =>
        match node.config["wm_addr"]?.bind ConfigValue.asStr with
        | none => peers
        | some endpoint =>
          if endpoint.isEmpty then peers
          else peers.insert expert.expertId ((peers[expert.expertId]?.getD []) ++ [endpoint])) ∅

/-- the loop over the assignments; an entry of `peers` is used by the first row only -/
def collectTargets (targetDevice modelName : String) :
    List Expert → ExtTreeMap String (List String) → List TargetExpert →
      Except String (List TargetExpert)
  | [], _, targets => .ok targets
  | assignment :: rest, peers, targets =>
    match StoredExpertKey.fromExpertId modelName assignment.expertId with
    | .error error => .error error.toString
    | .ok key =>
      if 2 ^ 32 ≤ key.layer.toNat then .error "expert layer does not fit the v2 protocol"
      else if 2 ^ 32 ≤ key.idx.toNat then .error "expert index does not fit the v2 protocol"
      else
        let endpoints := (peers[assignment.expertId]?.getD []).mergeSort fun a b => decide (a ≤ b)
        collectTargets targetDevice modelName rest (peers.erase assignment.expertId)
          (targets ++ [⟨key.layer.toNat, key.idx.toNat, targetDevice,
            endpoints.destutter (· ≠ ·)⟩])

def buildTargets {p : EndpointParsers} (registration : ValidRegistration p) (modelName : String)
    (ownNodeId : Nat) (assignments : List Expert) (activeNodes : ExtTreeMap Nat Node)
    (observed : List Expert) : Except String (List TargetExpert) :=
  (collectTargets registration.device.device modelName assignments
      (peerEndpoints ownNodeId activeNodes observed) []).map fun targets =>
    (targets.mergeSort fun a b =>
      ((compare a.layerId b.layerId).then (compare a.expertId b.expertId)).isLE).destutter
        fun a b => (a.layerId, a.expertId) ≠ (b.layerId, b.expertId)

/-- the identifier of the row is read back and its numbers fit the protocol -/
def Readable (modelName : String) (assignment : Expert) : Prop :=
  ∃ key, StoredExpertKey.fromExpertId modelName assignment.expertId = .ok key ∧
    key.layer.toNat < 2 ^ 32 ∧ key.idx.toNat < 2 ^ 32

theorem collectTargets_ok_iff (targetDevice modelName : String) (assignments : List Expert)
    (peers : ExtTreeMap String (List String)) (targets : List TargetExpert) :
    (∃ out, collectTargets targetDevice modelName assignments peers targets = .ok out) ↔
      ∀ assignment ∈ assignments, Readable modelName assignment := by
  induction assignments generalizing peers targets with
  | nil => simp [collectTargets]
  | cons assignment rest ih =>
    rw [List.forall_mem_cons, collectTargets]
    cases hkey : StoredExpertKey.fromExpertId modelName assignment.expertId with
    | error error => simp [Readable, hkey]
    | ok key =>
      dsimp only
      split_ifs with hlayer hidx
      · simp only [Readable, hkey, Except.ok.injEq, exists_eq_left', exists_false, false_iff,
          not_and]
        exact fun hfits => absurd hfits.1 (by omega)
      · simp only [Readable, hkey, Except.ok.injEq, exists_eq_left', exists_false, false_iff,
          not_and]
        exact fun hfits => absurd hfits.2 (by omega)
      · rw [ih]
        exact ⟨fun hrest => ⟨⟨key, hkey, by omega, by omega⟩, hrest⟩, fun h => h.2⟩

theorem buildTargets_ok_iff {p : EndpointParsers} (registration : ValidRegistration p)
    (modelName : String) (ownNodeId : Nat) (assignments : List Expert)
    (activeNodes : ExtTreeMap Nat Node) (observed : List Expert) :
    (∃ targets, buildTargets registration modelName ownNodeId assignments activeNodes observed =
        .ok targets) ↔
      ∀ assignment ∈ assignments, Readable modelName assignment := by
  rw [← collectTargets_ok_iff registration.device.device modelName assignments
    (peerEndpoints ownNodeId activeNodes observed) [], buildTargets]
  cases collectTargets registration.device.device modelName assignments
    (peerEndpoints ownNodeId activeNodes observed) [] <;> simp [Except.map]

theorem readable_objectKey {modelName : String} {layer idx : Nat} {assignment : Expert}
    (h : assignment.expertId = objectKey modelName layer idx) :
    Readable modelName assignment ↔
      ¬ HasLayerMark modelName ∧ layer < 2 ^ 32 ∧ idx < 2 ^ 32 := by
  unfold Readable
  rw [h]
  by_cases hmark : HasLayerMark modelName
  · rw [fromExpertId_of_mark _ hmark]
    simp [hmark]
  · rw [fromExpertId_of_not_mark _ hmark]
    split_ifs with hfits
    · have hlayer : (UInt64.ofNat layer).toNat = layer := Nat.mod_eq_of_lt hfits.1
      have hidx : (UInt64.ofNat idx).toNat = idx := Nat.mod_eq_of_lt hfits.2
      simp [hmark, hlayer, hidx]
    · simp only [false_and, exists_false, false_iff]
      exact fun hbound => hfits ⟨by omega, by omega⟩

/-! ## the identifiers that are written -/

def Database.ids (db : Database) : List String := db.experts.map Expert.expertId

/-- the identifiers in the local variables of a recovery -/
def Recovery.ids : Recovery → List String
  | .readActive deadExperts => deadExperts.map Expert.expertId
  | .checkLoading deadExperts _ _ _ => deadExperts.map Expert.expertId
  | .findUnique _ _ rest unique => rest.map Expert.expertId ++ unique
  | .readInstance _ unique => unique
  | .readCapacity unique _ _ _ => unique
  | .evictActive e => e.unplaced ++ e.direct.map Expert.expertId
  | .evictRead e _ _ _ => e.unplaced ++ e.direct.map Expert.expertId
  | .evictCount e _ _ _ _ _ _ => e.unplaced ++ e.direct.map Expert.expertId
  | .deleting _ placements direct => placements.map Expert.expertId ++ direct.map Expert.expertId
  | .placing placements direct => placements.map Expert.expertId ++ direct.map Expert.expertId
  | .assigning direct => direct.map Expert.expertId
  | _ => []

def Progressive.ids : Progressive → List String
  | .inserting _ _ _ rest => rest.map Expert.expertId
  | _ => []

def Task.ids : Task → List String
  | .recovery _ phase => phase.ids
  | .progressive _ phase => phase.ids

theorem planDirect_ids (instanceId : Nat) (unique : List String) (capacity : List (Node × Nat)) :
    (planDirect instanceId unique capacity).2 ++
        (planDirect instanceId unique capacity).1.map Expert.expertId ⊆ unique := by
  induction unique generalizing capacity with
  | nil => exact List.nil_subset _
  | cons expertId rest ih =>
    rw [planDirect]
    split
    · exact List.subset_cons_of_subset _ (ih [])
    · next target rem others _ =>
      split_ifs
      · intro id hid
        simp only [List.map_cons, List.mem_append, List.mem_cons] at hid
        rcases hid with h | rfl | h
        · exact List.mem_cons_of_mem _ (ih _ (List.mem_append_left _ h))
        · exact List.mem_cons_self
        · exact List.mem_cons_of_mem _ (ih _ (List.mem_append_right _ h))
      · intro id hid
        simp only [List.cons_append, List.mem_cons] at hid
        rcases hid with rfl | h
        · exact List.mem_cons_self
        · exact List.mem_cons_of_mem _ (ih _ h)

theorem planEviction_ids (instanceId : Nat) (targets : List Node) (unplaced : List String)
    (index : EvictionIndex) (evicted : List (Nat × String)) :
    (planEviction instanceId targets unplaced index evicted).2.map Expert.expertId ⊆
      unplaced := by
  induction unplaced generalizing index evicted with
  | nil => exact List.nil_subset _
  | cons expertId rest ih =>
    rw [planEviction]
    split
    · exact List.subset_cons_of_subset _ (ih index evicted)
    · exact List.cons_subset_cons _ (ih _ _)

theorem Recovery.plan_ids (unique : List String) (instanceId : Nat)
    (capacity : List (Node × Nat)) : (Recovery.plan unique instanceId capacity).ids ⊆ unique := by
  have hdirect := planDirect_ids instanceId unique capacity
  unfold Recovery.plan
  dsimp only
  split_ifs
  · exact List.Subset.trans (List.subset_append_right _ _) hdirect
  · exact hdirect

theorem Recovery.evict_ids (e : Evicting) (index : EvictionIndex) :
    (Recovery.evict e index).ids ⊆ e.unplaced ++ e.direct.map Expert.expertId := by
  have hplaced := planEviction_ids e.instanceId e.targets e.unplaced index []
  unfold Recovery.evict
  dsimp only
  split_ifs
  · exact List.subset_append_right _ _
  · exact List.append_subset.mpr ⟨List.Subset.trans hplaced (List.subset_append_left _ _),
      List.subset_append_right _ _⟩

theorem Recovery.startFindUnique_ids (deadExperts : List Expert) (activeNodes targets : List Node) :
    (Recovery.startFindUnique deadExperts activeNodes targets).ids ⊆
      deadExperts.map Expert.expertId := by
  unfold Recovery.startFindUnique
  split_ifs
  · exact List.nil_subset _
  · exact List.append_subset.mpr ⟨fun id hid => hid, List.nil_subset _⟩

/-- a recovery learns of identifiers only from the rows of the lost node -/
theorem Recovery.step_ids {settings : Settings} {hostname : String} {loading : List String}
    {db db' : Database} {phase phase' : Recovery}
    (h : phase.step settings hostname loading db = some (db', phase')) :
    phase'.ids ⊆ phase.ids ++ db.ids := by
  cases phase with
  | lookup =>
    simp only [Recovery.step] at h
    split at h <;> cases h <;> exact List.nil_subset _
  | readExperts dead =>
    simp only [Recovery.step] at h
    split_ifs at h <;> cases h
    · exact List.nil_subset _
    · exact List.map_subset _ (List.filter_subset_self _)
  | readActive deadExperts =>
    simp only [Recovery.step] at h
    split_ifs at h <;> cases h
    · exact List.nil_subset _
    · exact List.subset_append_left _ _
  | checkLoading deadExperts activeNodes rest targets =>
    apply List.subset_append_of_subset_left
    cases rest with
    | nil =>
      cases h
      exact Recovery.startFindUnique_ids deadExperts activeNodes targets
    | cons node rest =>
      simp only [Recovery.step] at h
      split_ifs at h <;> cases h
      · exact Recovery.startFindUnique_ids deadExperts activeNodes _
      · exact Recovery.startFindUnique_ids deadExperts activeNodes _
      · exact fun id hid => hid
      · exact fun id hid => hid
  | findUnique activeNodes targets rest unique =>
    apply List.subset_append_of_subset_left
    cases rest with
    | nil =>
      simp only [Recovery.step] at h
      split_ifs at h <;> cases h
      · exact List.nil_subset _
      · exact List.subset_append_right _ _
    | cons expert rest =>
      simp only [Recovery.step] at h
      split_ifs at h <;> cases h
      · intro id hid
        simp only [Recovery.ids, List.map_cons, List.cons_append, List.mem_append,
          List.mem_cons, List.not_mem_nil, or_false] at hid ⊢
        tauto
      · exact List.subset_cons_of_subset _ fun id hid => hid
  | readInstance targets unique =>
    simp only [Recovery.step] at h
    split at h <;> cases h
    · exact List.nil_subset _
    · exact List.subset_append_left _ _
  | readCapacity unique instanceId rest capacity =>
    apply List.subset_append_of_subset_left
    cases rest <;> cases h
    · exact Recovery.plan_ids unique instanceId capacity
    · exact fun id hid => hid
  | evictActive e =>
    cases h
    exact List.subset_append_left _ _
  | evictRead e activeNodes rest index =>
    apply List.subset_append_of_subset_left
    cases rest <;> cases h
    · exact Recovery.evict_ids e index
    · exact fun id hid => hid
  | evictCount e activeNodes node experts restExperts rest index =>
    apply List.subset_append_of_subset_left
    cases restExperts with
    | nil =>
      cases h
      exact fun id hid => hid
    | cons expert restExperts =>
      simp only [Recovery.step] at h
      split_ifs at h <;> cases h <;> exact fun id hid => hid
  | deleting victims placements direct =>
    cases victims <;> cases h <;> exact List.subset_append_left _ _
  | placing placements direct =>
    cases h
    exact List.subset_append_of_subset_left _ (List.subset_append_right _ _)
  | assigning direct =>
    cases h
    exact List.nil_subset _
  | done => cases h

theorem ids_upsertBatch (db : Database) (experts : List Expert) :
    (db.expertUpsertBatch experts).ids ⊆ db.ids ++ experts.map Expert.expertId := by
  unfold Database.expertUpsertBatch
  induction experts generalizing db with
  | nil => exact List.subset_append_left _ _
  | cons expert experts ih =>
    intro id hid
    have hhead : (db.expertUpsert expert).ids ⊆ db.ids ++ [expert.expertId] := by
      unfold Database.expertUpsert
      split_ifs
      · exact List.subset_append_left _ _
      · simp [Database.ids]
    simp only [List.map_cons, List.mem_append, List.mem_cons]
    rcases List.mem_append.mp (ih _ hid) with h | h
    · rcases List.mem_append.mp (hhead h) with h | h
      · exact .inl h
      · exact .inr (.inl (List.mem_singleton.mp h))
    · exact .inr (.inr h)

theorem Recovery.write_ids (db : Database) (phase : Recovery) :
    (phase.write db).ids ⊆ db.ids ++ phase.ids := by
  cases phase with
  | deleting victims placements direct =>
    cases victims with
    | nil => exact List.subset_append_left _ _
    | cons victim victims =>
      exact List.subset_append_of_subset_left _ (List.map_subset _ (List.filter_subset_self _))
  | placing placements direct =>
    exact List.Subset.trans (ids_upsertBatch db placements)
      (List.append_subset.mpr ⟨List.subset_append_left _ _,
        List.subset_append_of_subset_right _ (List.subset_append_left _ _)⟩)
  | assigning direct => exact ids_upsertBatch db direct
  | _ => exact List.subset_append_left _ _

/-- an identifier of the served model -/
def Settings.Key (settings : Settings) (id : String) : Prop :=
  ∃ layer idx, id = objectKey settings.modelName layer idx

theorem key_assignedExperts (settings : Settings) (instanceId : Nat) (node : Node)
    (indices : List Nat) :
    ∀ id ∈ (assignedExperts settings instanceId node indices).map Expert.expertId,
      settings.Key id := by
  intro id hid
  simp only [assignedExperts, objectKeys, List.map_map, List.mem_map, List.mem_flatMap] at hid
  obtain ⟨_, ⟨idx, _, layer, _, rfl⟩, rfl⟩ := hid
  exact ⟨layer, idx, rfl⟩

theorem checkCapacity_ids (settings : Settings) (node : Node) (instanceId : Nat) :
    (Progressive.checkCapacity settings node instanceId).ids = [] := by
  unfold Progressive.checkCapacity
  dsimp only
  split_ifs <;> rfl

theorem Progressive.step_key {settings : Settings} {hostname : String} {x x' : Shared}
    {phase phase' : Progressive} (h : phase.step settings hostname x = some (x', phase'))
    (hphase : ∀ id ∈ phase.ids, settings.Key id) : ∀ id ∈ phase'.ids, settings.Key id := by
  have hnil : ∀ id ∈ ([] : List String), settings.Key id := fun id hid => by cases hid
  cases phase with
  | lookup =>
    simp only [Progressive.step] at h
    split at h <;> cases h <;> exact hnil
  | readStale node =>
    simp only [Progressive.step] at h
    split_ifs at h <;> cases h <;> exact hnil
  | readInstance node =>
    simp only [Progressive.step] at h
    split at h <;> cases h
    · rw [checkCapacity_ids]
      exact hnil
    · exact hnil
  | readModel node =>
    simp only [Progressive.step] at h
    split at h <;> cases h <;> exact hnil
  | createInstance node modelId =>
    simp only [Progressive.step] at h
    split at h <;> cases h
    · exact hnil
    · rw [checkCapacity_ids]
      exact hnil
  | acquire node instanceId target =>
    simp only [Progressive.step] at h
    split_ifs at h
    cases h
    exact hnil
  | countReplicas node instanceId target activeIds rest counts =>
    cases rest <;> cases h
    · exact key_assignedExperts settings instanceId node _
    · exact hnil
  | inserting node target indices rest =>
    cases rest with
    | nil =>
      cases h
      exact hnil
    | cons expert rest =>
      cases h
      exact fun id hid => hphase id (List.mem_cons_of_mem _ hid)
  | promote node target indices =>
    simp only [Progressive.step] at h
    split_ifs at h <;> cases h <;> exact hnil
  | done => cases h
  | _ =>
    cases h
    exact hnil

theorem Progressive.write_ids (settings : Settings) (db : Database) (phase : Progressive) :
    (phase.write settings db).ids ⊆ db.ids ++ phase.ids := by
  cases phase with
  | clearStale node =>
    exact List.subset_append_of_subset_left _ (List.map_subset _ (List.filter_subset_self _))
  | createInstance node modelId =>
    rw [Progressive.write, Database.ids, instanceUpsert_experts]
    exact List.subset_append_left _ _
  | inserting node target indices rest =>
    cases rest with
    | nil => exact List.subset_append_left _ _
    | cons expert rest =>
      exact List.Subset.trans (ids_upsertBatch db [expert])
        (List.append_subset.mpr ⟨List.subset_append_left _ _,
          List.subset_append_of_subset_right _ (List.cons_subset_cons _ (List.nil_subset _))⟩)
  | promote node target indices =>
    simp only [Progressive.write]
    split_ifs
    · exact List.subset_append_left _ _
    · intro id hid
      simp only [Database.ids, Database.promoteExpertsToPending, List.map_map, List.mem_map,
        Function.comp] at hid
      obtain ⟨expert, hexpert, rfl⟩ := hid
      refine List.mem_append_left _ (List.mem_map.mpr ⟨expert, hexpert, ?_⟩)
      split_ifs <;> rfl
  | _ => exact List.subset_append_left _ _

/-! ## every run -/

/-- all identifiers of the rows and of the tasks belong to the served model -/
structure Pool.Keys (settings : Settings) (x : Pool) : Prop where
  rows : ∀ id ∈ x.shared.db.ids, settings.Key id
  tasks : ∀ task ∈ x.tasks, ∀ id ∈ task.ids, settings.Key id

theorem Task.step_keys {settings : Settings} {x x' : Shared} {task task' : Task}
    (h : task.step settings x = some (x', task')) (hrows : ∀ id ∈ x.db.ids, settings.Key id)
    (htask : ∀ id ∈ task.ids, settings.Key id) :
    (∀ id ∈ x'.db.ids, settings.Key id) ∧ ∀ id ∈ task'.ids, settings.Key id := by
  cases task with
  | recovery hostname phase =>
    obtain ⟨⟨db', phase'⟩, hstep, heq⟩ := Option.map_eq_some_iff.mp h
    cases heq
    have hdb := Recovery.step_db hstep
    refine ⟨fun id hid => ?_, fun id hid => ?_⟩
    · rw [hdb] at hid
      exact (List.mem_append.mp (phase.write_ids x.db hid)).elim (hrows id) (htask id)
    · exact (List.mem_append.mp (Recovery.step_ids hstep hid)).elim (htask id) (hrows id)
  | progressive hostname phase =>
    obtain ⟨⟨x'', phase'⟩, hstep, heq⟩ := Option.map_eq_some_iff.mp h
    cases heq
    refine ⟨fun id hid => ?_, Progressive.step_key hstep htask⟩
    rw [Progressive.step_db hstep] at hid
    exact (List.mem_append.mp (phase.write_ids settings x.db hid)).elim (hrows id) (htask id)

theorem Pool.Keys.step {settings : Settings} {x x' : Pool} {l : PoolStep}
    (h : x.Keys settings) (hstep : x.step settings l = some x') : x'.Keys settings := by
  cases l with
  | run i =>
    obtain ⟨task, hi, hmap⟩ := Option.bind_eq_some_iff.mp hstep
    obtain ⟨⟨shared', task'⟩, htask, rfl⟩ := Option.map_eq_some_iff.mp hmap
    have hmem := List.mem_of_getElem? hi
    obtain ⟨hrows, htasks⟩ := Task.step_keys htask h.rows (h.tasks task hmem)
    refine ⟨hrows, fun other hother => ?_⟩
    rcases List.mem_or_eq_of_mem_set hother with hold | rfl
    · exact h.tasks other hold
    · exact htasks
  | tick seconds =>
    cases hstep
    exact ⟨h.rows, h.tasks⟩
  | seen hostname =>
    cases hstep
    exact ⟨h.rows, h.tasks⟩

theorem Task.Fresh.ids {task : Task} (h : task.Fresh) : task.ids = [] := by
  cases task <;> cases h <;> rfl

theorem Pool.Keys.start {settings : Settings} {start : Pool} (hempty : start.shared.db.experts = [])
    (hfresh : ∀ task ∈ start.tasks, task.Fresh) : start.Keys settings := by
  refine ⟨fun id hid => ?_, fun task htask id hid => ?_⟩
  · rw [Database.ids, hempty] at hid
    cases hid
  · rw [(hfresh task htask).ids] at hid
    cases hid

/-- every identifier of the model is read back, and every list of rows that the background tasks
wrote gives targets, exactly when the model name has no `/l` and the numbers fit the protocol -/
theorem expert_ids_decode_iff {settings : Settings} {start x : Pool}
    (hempty : start.shared.db.experts = []) (hfresh : ∀ task ∈ start.tasks, task.Fresh)
    (h : Steps.Reach (Pool.step settings) (fun _ _ => True) start x) :
    (∀ layer idx : UInt64,
      StoredExpertKey.fromExpertId settings.modelName
          (StoredExpertKey.asObjectKey ⟨settings.modelName, layer, idx⟩) =
        .ok ⟨settings.modelName, layer, idx⟩ ↔ ¬ HasLayerMark settings.modelName) ∧
    ∀ (p : EndpointParsers) (registration : ValidRegistration p) (ownNodeId : Nat)
      (assignments : List Expert) (activeNodes : ExtTreeMap Nat Node) (observed : List Expert),
      (∀ row ∈ assignments, row ∈ x.shared.db.experts) →
      ((∃ targets, buildTargets registration settings.modelName ownNodeId assignments activeNodes
          observed = .ok targets) ↔
        ∀ row ∈ assignments, ∀ layer idx, row.expertId = objectKey settings.modelName layer idx →
          ¬ HasLayerMark settings.modelName ∧ layer < 2 ^ 32 ∧ idx < 2 ^ 32) := by
  have hkeys : x.Keys settings :=
    h.invariant (Pool.Keys.start hempty hfresh) fun s l s' hs _ hstep => hs.step hstep
  refine ⟨fun layer idx => fromExpertId_asObjectKey_iff ⟨settings.modelName, layer, idx⟩, ?_⟩
  intro p registration ownNodeId assignments activeNodes observed hrows
  rw [buildTargets_ok_iff]
  constructor
  · exact fun hread row hrow layer idx hid => (readable_objectKey hid).mp (hread row hrow)
  · intro hall row hrow
    obtain ⟨layer, idx, hid⟩ := hkeys.rows _ (List.mem_map.mpr ⟨row, hrows row hrow, rfl⟩)
    exact (readable_objectKey hid).mpr (hall row hrow layer idx hid)

/-- a new worker of a deployment with one expert -/
def joinedWorker (modelName : String) : Pool where
  shared := ⟨{
    now := 100
    nodes := [exampleNode 1 "worker-a" 100]
    nextNodeId := 2
    experts := []
    instances := [⟨1, 1, "main"⟩]
    nextInstanceId := 2
    models := [⟨1, modelName⟩] }, false, []⟩
  tasks := [.progressive "worker-a" .lookup]

theorem joinedWorker_fresh (modelName : String) :
    ∀ task ∈ (joinedWorker modelName).tasks, task.Fresh := by
  intro task htask
  obtain rfl := List.mem_singleton.mp htask
  rfl

def joinedSettings (modelName : String) : Settings := ⟨10, "main", modelName, (0, 1), 1, 0⟩

def joinedRow (modelName : String) : Expert := ⟨1, 1, objectKey modelName 0 0, 1, .scheduled⟩

/-- an organisation in front of the model name does no harm -/
theorem expert_ids_decode_qwen :
    ∃ targets, buildTargets restarted "Qwen/Qwen3" 1 [joinedRow "Qwen/Qwen3"] ∅ [] =
      .ok targets := by
  have hrun : ∃ x : Pool, Steps.run (Pool.step (joinedSettings "Qwen/Qwen3")) (fun _ _ => true)
      (joinedWorker "Qwen/Qwen3") (List.replicate 8 (.run 0)) = some x ∧
        decide (x.shared.db.experts = [joinedRow "Qwen/Qwen3"]) :=
    (Option.any_eq_true _ _).mp (by decide +kernel)
  obtain ⟨x, hx, hrows⟩ := hrun
  have hreach := (Steps.Reach.refl.of_run hx).mono fun _ _ _ => trivial
  have hmark : ¬ HasLayerMark "Qwen/Qwen3" := by decide +kernel
  refine ((expert_ids_decode_iff rfl (joinedWorker_fresh _) hreach).2 _ restarted 1
    [joinedRow "Qwen/Qwen3"] ∅ [] ?_).mpr ?_
  · intro row hrow
    rwa [of_decide_eq_true hrows]
  · intro row hrow layer idx hid
    obtain rfl := List.mem_singleton.mp hrow
    obtain ⟨rfl, rfl⟩ := objectKey_inj hid
    exact ⟨hmark, by decide, by decide⟩

/-- the name `meta/llama` has a mark of its own: no identifier of the model is read back, and the
first row that is assigned ends the weight session -/
theorem llama_ids_refused :
    StoredExpertKey.fromExpertId "meta/llama" (StoredExpertKey.asObjectKey ⟨"meta/llama", 0, 0⟩) =
      .error (.invalidInput "invalid expert id: meta/llama/l0-e0") ∧
    ∃ x : Pool, Steps.Reach (Pool.step (joinedSettings "meta/llama")) (fun _ _ => True)
        (joinedWorker "meta/llama") x ∧
      buildTargets restarted "meta/llama" 1 x.shared.db.experts ∅ [] = .error "invalid input" := by
  refine ⟨by decide +kernel, ?_⟩
  have hrun : ∃ x : Pool, Steps.run (Pool.step (joinedSettings "meta/llama")) (fun _ _ => true)
      (joinedWorker "meta/llama") (List.replicate 8 (.run 0)) = some x ∧
        decide (x.shared.db.experts = [joinedRow "meta/llama"]) :=
    (Option.any_eq_true _ _).mp (by decide +kernel)
  obtain ⟨x, hx, hrows⟩ := hrun
  refine ⟨x, (Steps.Reach.refl.of_run hx).mono fun _ _ _ => trivial, ?_⟩
  rw [of_decide_eq_true hrows]
  decide +kernel

end ExpertKit.Elastic

import ExpertKit.Controller.Registration
import ExpertKit.Elastic.Capacity
import ExpertKit.Elastic.Rebalance
import ExpertKit.Lib.Fallible

/-!
# Elasticity: the manual schedule

`execute_manual_schedule` of `controller/service/control.rs`, with its layer string.  The rows of the
matched nodes are deleted before the layers are checked.  Every call to the database and to the weight
server succeeds; the inserts of the spawned tasks run in any order.

* `parseLayerRanges`              the layer string;
* `executeManualSchedule`         the request;
* `ManualPlacement`               what an accepted request leaves;
* `manual_schedule_atomic_iff`    when a refused request leaves the rows alone.
-/

set_option linter.unusedSectionVars false

namespace ExpertKit.Elastic
open Std ExpertKit.Controller

/-! ## the layer string -/

/-- `str::parse::<u32>`: the digits of a `usize` with a smaller bound -/
def parseU32 (text : List Char) : Option Nat :=
  match parseUsize text with
  | .ok value => if value.toNat < 2 ^ 32 then some value.toNat else none
  | .error _ => none

def parseNumber (text : List Char) : Except EKError Nat :=
  match parseU32 text with
  | some value => .ok value
  | none => .error (.invalidInput ("Invalid number: " ++ String.ofList text))

/-- the first and the last layer of one part -/
def parseRangePart (text : List Char) : Except EKError (Nat × Nat) := do
  let rangePart := (trim (String.ofList text)).toList
  if rangePart.contains '-' then
    match rangePart.splitOn '-' with
    | [first, last] =>
      let start ← parseNumber first
      let stop ← parseNumber last
      if stop < start then
        .error (.invalidInput ("Invalid range: " ++ Nat.repr start ++ " > " ++ Nat.repr stop ++
          ". Start must be <= end"))
      else .ok (start, stop)
    | _ => .error (.invalidInput ("Invalid range format: " ++ String.ofList rangePart ++
        ". Expected format like '1-5'"))
  else
    let layer ← parseNumber rangePart
    .ok (layer, layer)

/-- `Vec::dedup` -/
def dedup : List Nat → List Nat
  | [] => []
  | [x] => [x]
  | x :: y :: rest => if x = y then dedup (y :: rest) else x :: dedup (y :: rest)

def parseRanges (layersStr : String) : Except EKError (List (Nat × Nat)) :=
  (layersStr.toList.splitOn ',').mapM parseRangePart

def layersOf (ranges : List (Nat × Nat)) : List Nat :=
  dedup ((ranges.flatMap fun range => List.range' range.1 (range.2 + 1 - range.1)).mergeSort
    fun a b => decide (a ≤ b))

def parseLayerRanges (layersStr : String) : Except EKError (List Nat) :=
  (parseRanges layersStr).map layersOf

theorem mem_dedup {l : List Nat} {x : Nat} : x ∈ dedup l ↔ x ∈ l := by
  induction l using dedup.induct with
  | case1 => exact Iff.rfl
  | case2 y => exact Iff.rfl
  | case3 y rest ih =>
    rw [dedup, if_pos rfl, ih]
    simp
  | case4 y z rest hne ih => rw [dedup, if_neg hne, List.mem_cons, ih, List.mem_cons (b := y)]

theorem nodup_dedup {l : List Nat} (h : l.Pairwise (· ≤ ·)) : (dedup l).Nodup := by
  induction l using dedup.induct with
  | case1 => exact List.nodup_nil
  | case2 y => exact List.nodup_singleton y
  | case3 y rest ih =>
    rw [dedup, if_pos rfl]
    exact ih (List.pairwise_cons.mp h).2
  | case4 y z rest hne ih =>
    obtain ⟨hle, hrest⟩ := List.pairwise_cons.mp h
    rw [dedup, if_neg hne, List.nodup_cons, mem_dedup]
    refine ⟨fun hmem => ?_, ih hrest⟩
    have hyz : y ≤ z := hle z List.mem_cons_self
    rcases List.mem_cons.mp hmem with heq | hin
    · exact hne heq
    · exact hne (Nat.le_antisymm hyz ((List.pairwise_cons.mp hrest).1 y hin))

/-- the layers of the union of the ranges, each once -/
theorem layersOf_spec (ranges : List (Nat × Nat)) :
    (layersOf ranges).Nodup ∧ ∀ layer, layer ∈ layersOf ranges ↔
      ∃ range ∈ ranges, range.1 ≤ layer ∧ layer ≤ range.2 := by
  constructor
  · refine nodup_dedup ((List.pairwise_mergeSort ?_ ?_ _).imp of_decide_eq_true)
    · exact fun a b c hab hbc =>
        decide_eq_true ((of_decide_eq_true hab).trans (of_decide_eq_true hbc))
    · intro a b
      rw [Bool.or_eq_true, decide_eq_true_iff, decide_eq_true_iff]
      exact Nat.le_total a b
  · intro layer
    rw [layersOf, mem_dedup, List.mem_mergeSort, List.mem_flatMap]
    refine exists_congr fun range => and_congr_right fun _ => ?_
    rw [List.mem_range'_1]
    omega

/-! ## the request -/

def Database.delExpertsByNode (db : Database) (nodeId instanceId : Nat) : Database :=
  { db with experts := db.experts.filter fun expert =>
      !(expert.nodeId == nodeId && expert.instanceId == instanceId) }

/-- the row that `instance_upsert` returns -/
def Database.returnedInstance (db : Database) (modelId : Nat) (name : String) : Instance :=
  (db.instanceByName name).getD ⟨db.nextInstanceId, modelId, name⟩

def matchedNodes (settings : Settings) (db : Database) (hostnames : List String) : List Node :=
  (db.activeNodes settings.nodeActiveThreshold).filter fun node => hostnames.contains node.hostname

def layerInRange (settings : Settings) (layer : Nat) : Bool :=
  decide (settings.moeLayers.1 ≤ layer ∧ layer < settings.moeLayers.2)

/-- the experts of one layer; the bound in the message wraps around like `usize` -/
def expertsOfLayer (settings : Settings) (layer : Nat) : Except EKError (List String) :=
  if layerInRange settings layer then
    .ok ((List.range settings.routedExperts).map (objectKey settings.modelName layer))
  else
    .error (.invalidInput ("Layer " ++ Nat.repr layer ++
      " is out of bounds. Model supports layers " ++ Nat.repr settings.moeLayers.1 ++ "-" ++
      Nat.repr ((settings.moeLayers.2 + 2 ^ 64 - 1) % 2 ^ 64)))

def manualRow (instanceId : Nat) (expertId : String) (node : Node) : Expert :=
  ⟨instanceId, node.id, expertId, 1, .empty⟩

def clearNodes (db : Database) (instanceId : Nat) (nodes : List Node) : Database :=
  nodes.foldl (fun db node => db.delExpertsByNode node.id instanceId) db

def executeManualSchedule (settings : Settings) (order : List Expert → List Expert)
    (db : Database) (hostnames : List String) (layersStr : String) :
    Database × Except EKError Unit :=
  match parseLayerRanges layersStr with
  | .error error => (db, .error error)
  | .ok targetLayers =>
    match db.modelByName settings.modelName with
    | none => (db, .error (.notFound "model not found"))
    | some model =>
      let targetNodes := matchedNodes settings db hostnames
      if targetNodes.isEmpty then
        (db, .error (.notFound "No matching nodes found for the specified hostnames"))
      else
        let instanceId := (db.returnedInstance model.id settings.instanceName).id
        let cleared := clearNodes (db.instanceUpsert model.id settings.instanceName) instanceId
          targetNodes
        match targetLayers.mapM (expertsOfLayer settings) with
        | .error error => (cleared, .error error)
        | .ok experts =>
          let rows := experts.flatten.flatMap fun expertId =>
            targetNodes.map (manualRow instanceId expertId)
          (cleared.expertUpsertBatch (order rows), .ok ())

/-! ## the rows of a request -/

theorem clearNodes_eq (db : Database) (instanceId : Nat) (nodes : List Node) :
    clearNodes db instanceId nodes = { db with
      experts := db.experts.filter fun expert =>
        !((nodes.map Node.id).contains expert.nodeId && expert.instanceId == instanceId) } := by
  unfold clearNodes
  induction nodes generalizing db with
  | nil => simp
  | cons node nodes ih =>
    rw [List.foldl_cons, ih]
    unfold Database.delExpertsByNode
    simp only [List.filter_filter]
    congr 1
    refine List.filter_congr fun expert _ => ?_
    rw [List.map_cons, List.contains_cons, Bool.eq_iff_iff]
    simp only [Bool.and_eq_true, Bool.not_eq_true', Bool.and_eq_false_iff, Bool.or_eq_false_iff]
    tauto

/-- new rows are appended -/
theorem upsertBatch_append {db : Database} {rows : List Expert}
    (hnew : ∀ row ∈ rows, ∀ old ∈ db.experts, row.sameKey old = false)
    (hdistinct : rows.Pairwise fun a b => b.sameKey a = false) :
    (db.expertUpsertBatch rows).experts = db.experts ++ rows := by
  unfold Database.expertUpsertBatch
  induction rows generalizing db with
  | nil => rw [List.foldl_nil, List.append_nil]
  | cons row rows ih =>
    obtain ⟨hrow, hrest⟩ := List.pairwise_cons.mp hdistinct
    have hinsert : db.expertUpsert row = { db with experts := db.experts ++ [row] } := by
      unfold Database.expertUpsert
      rw [if_neg]
      rw [Bool.not_eq_true, List.any_eq_false]
      exact fun old hold => Bool.eq_false_iff.mp (hnew row List.mem_cons_self old hold)
    rw [List.foldl_cons, hinsert, ih ?_ hrest, List.append_assoc, List.singleton_append]
    intro other hother old hold
    rcases List.mem_append.mp hold with hold | hold
    · exact hnew other (List.mem_cons_of_mem _ hother) old hold
    · rw [List.mem_singleton.mp hold]
      exact hrow other hother

theorem mapM_expertsOfLayer (settings : Settings) (layers : List Nat) :
    ((∀ layer ∈ layers, layerInRange settings layer = true) ∧
      layers.mapM (expertsOfLayer settings) = .ok (layers.map fun layer =>
        (List.range settings.routedExperts).map (objectKey settings.modelName layer))) ∨
    ((∃ layer ∈ layers, layerInRange settings layer = false) ∧
      ∃ error, layers.mapM (expertsOfLayer settings) = .error error) := by
  induction layers with
  | nil => exact .inl ⟨fun _ h => absurd h List.not_mem_nil, rfl⟩
  | cons layer layers ih =>
    rw [List.mapM_cons, expertsOfLayer]
    cases hlayer : layerInRange settings layer with
    | false => exact .inr ⟨⟨layer, List.mem_cons_self, hlayer⟩, _, rfl⟩
    | true =>
      rcases ih with ⟨hall, hok⟩ | ⟨⟨bad, hbad, hout⟩, error, herror⟩
      · refine .inl ⟨fun l hl => ?_, by rw [hok]; rfl⟩
        rcases List.mem_cons.mp hl with rfl | hl
        · exact hlayer
        · exact hall l hl
      · exact .inr ⟨⟨bad, List.mem_cons_of_mem _ hbad, hout⟩, error, by rw [herror]; rfl⟩

/-- how a request can end -/
theorem executeManualSchedule_cases (settings : Settings) (order : List Expert → List Expert)
    (db : Database) (hostnames : List String) (layersStr : String) :
    (∃ error, executeManualSchedule settings order db hostnames layersStr = (db, .error error) ∧
      ∀ ranges model, parseRanges layersStr = .ok ranges →
        db.modelByName settings.modelName = some model → matchedNodes settings db hostnames = []) ∨
    ∃ ranges model, parseRanges layersStr = .ok ranges ∧
      db.modelByName settings.modelName = some model ∧
      matchedNodes settings db hostnames ≠ [] ∧
      (((∃ layer ∈ layersOf ranges, layerInRange settings layer = false) ∧
        ∃ error, executeManualSchedule settings order db hostnames layersStr =
          (clearNodes (db.instanceUpsert model.id settings.instanceName)
            (db.returnedInstance model.id settings.instanceName).id
            (matchedNodes settings db hostnames), .error error)) ∨
      ((∀ layer ∈ layersOf ranges, layerInRange settings layer = true) ∧
        executeManualSchedule settings order db hostnames layersStr =
          ((clearNodes (db.instanceUpsert model.id settings.instanceName)
            (db.returnedInstance model.id settings.instanceName).id
            (matchedNodes settings db hostnames)).expertUpsertBatch
              (order (((layersOf ranges).flatMap fun layer =>
                (List.range settings.routedExperts).map
                  (objectKey settings.modelName layer)).flatMap fun expertId =>
                    (matchedNodes settings db hostnames).map
                      (manualRow (db.returnedInstance model.id settings.instanceName).id expertId))),
            .ok ()))) := by
  unfold executeManualSchedule parseLayerRanges
  cases hranges : parseRanges layersStr with
  | error error => exact .inl ⟨error, rfl, fun _ _ h => by cases h⟩
  | ok ranges =>
    cases hmodel : db.modelByName settings.modelName with
    | none => exact .inl ⟨_, rfl, fun _ _ _ h => by cases h⟩
    | some model =>
      simp only [Except.map]
      by_cases hempty : (matchedNodes settings db hostnames).isEmpty = true
      · exact .inl ⟨_, if_pos hempty, fun _ _ _ _ => List.isEmpty_iff.mp hempty⟩
      · rw [if_neg hempty]
        refine .inr ⟨ranges, model, rfl, rfl, fun h => hempty (List.isEmpty_iff.mpr h), ?_⟩
        rcases mapM_expertsOfLayer settings (layersOf ranges) with
          ⟨hall, hok⟩ | ⟨hbad, error, herror⟩
        · refine .inr ⟨hall, ?_⟩
          rw [hok, List.flatMap_def (l := layersOf ranges)]
        · refine .inl ⟨hbad, error, ?_⟩
          rw [herror]

/-! ## what a request leaves -/

section
variable {settings : Settings} {db : Database}

/-- the expert of a requested layer -/
def Requested (settings : Settings) (ranges : List (Nat × Nat)) (expertId : String) : Prop :=
  ∃ range ∈ ranges, ∃ layer, range.1 ≤ layer ∧ layer ≤ range.2 ∧
    ∃ expert < settings.routedExperts, expertId = objectKey settings.modelName layer expert

/-- the matched nodes hold exactly the requested experts for the instance, and no other row changed -/
structure ManualPlacement (settings : Settings) (db db' : Database) (targets : List Node)
    (instanceId : Nat) (ranges : List (Nat × Nat)) : Prop where
  once : ∀ node ∈ targets, (((db'.expertsByNode node.id).filter fun expert =>
    expert.instanceId = instanceId).map Expert.expertId).Nodup
  placed : ∀ node ∈ targets, ∀ expertId, Requested settings ranges expertId ↔
    ∃ expert ∈ db'.expertsByNode node.id, expert.instanceId = instanceId ∧
      expert.expertId = expertId
  others : ∀ nodeId ∉ targets.map Node.id, db'.expertsByNode nodeId = db.expertsByNode nodeId
  instances : ∀ nodeId, ((db'.expertsByNode nodeId).filter fun expert =>
    expert.instanceId ≠ instanceId) =
      (db.expertsByNode nodeId).filter fun expert => expert.instanceId ≠ instanceId

def requestedKeys (settings : Settings) (layers : List Nat) : List String :=
  layers.flatMap fun layer =>
    (List.range settings.routedExperts).map (objectKey settings.modelName layer)

theorem nodup_requestedKeys {layers : List Nat} (h : layers.Nodup) :
    (requestedKeys settings layers).Nodup := by
  refine List.nodup_flatMap.mpr ⟨fun layer _ => ?_, ?_⟩
  · refine List.Nodup.map_on ?_ List.nodup_range
    exact fun a _ b _ hkey => (objectKey_inj hkey).2
  · refine h.imp fun hne => ?_
    intro key ha hb
    obtain ⟨a, _, rfl⟩ := List.mem_map.mp ha
    obtain ⟨b, _, hkey⟩ := List.mem_map.mp hb
    exact hne (objectKey_inj hkey).1.symm

theorem mem_requestedKeys {ranges : List (Nat × Nat)} {expertId : String} :
    expertId ∈ requestedKeys settings (layersOf ranges) ↔ Requested settings ranges expertId := by
  unfold requestedKeys Requested
  rw [List.mem_flatMap]
  constructor
  · rintro ⟨layer, hlayer, hmem⟩
    obtain ⟨range, hrange, hle, hge⟩ := ((layersOf_spec ranges).2 layer).mp hlayer
    obtain ⟨expert, hexpert, rfl⟩ := List.mem_map.mp hmem
    exact ⟨range, hrange, layer, hle, hge, expert, List.mem_range.mp hexpert, rfl⟩
  · rintro ⟨range, hrange, layer, hle, hge, expert, hexpert, rfl⟩
    exact ⟨layer, ((layersOf_spec ranges).2 layer).mpr ⟨range, hrange, hle, hge⟩,
      List.mem_map_of_mem (List.mem_range.mpr hexpert)⟩

/-- the rows of one node among the rows of a request -/
theorem filter_manualRows {targets : List Node} (hids : (targets.map Node.id).Nodup)
    (instanceId : Nat) (keys : List String) (nodeId : Nat) :
    (keys.flatMap fun expertId => targets.map (manualRow instanceId expertId)).filter
        (fun expert => expert.nodeId = nodeId) =
      if nodeId ∈ targets.map Node.id then
        keys.map fun expertId => ⟨instanceId, nodeId, expertId, 1, .empty⟩ else [] := by
  have hone : ∀ expertId, (targets.map (manualRow instanceId expertId)).filter
      (fun expert => expert.nodeId = nodeId) =
        if nodeId ∈ targets.map Node.id then [⟨instanceId, nodeId, expertId, 1, .empty⟩] else [] := by
    intro expertId
    have hrow : ∀ node : Node, (manualRow instanceId expertId node).nodeId = node.id := fun _ => rfl
    induction targets with
    | nil => rfl
    | cons node targets ih =>
      obtain ⟨hnode, hrest⟩ := List.nodup_cons.mp hids
      rw [List.map_cons, List.filter_cons, ih hrest, hrow]
      by_cases heq : node.id = nodeId
      · subst heq
        rw [if_neg hnode, if_pos (decide_eq_true rfl),
          if_pos (List.mem_map_of_mem List.mem_cons_self)]
        rfl
      · have hmem : nodeId ∈ (node :: targets).map Node.id ↔ nodeId ∈ targets.map Node.id := by
          rw [List.map_cons, List.mem_cons]
          exact or_iff_right (Ne.symm heq)
        rw [if_neg (by simpa using heq)]
        simp only [hmem]
  rw [List.filter_flatMap]
  simp only [hone]
  split_ifs
  · exact List.map_eq_flatMap.symm
  · simp

theorem manualRows_distinct {targets : List Node} (hids : (targets.map Node.id).Nodup)
    (instanceId : Nat) {keys : List String} (hkeys : keys.Nodup) :
    (keys.flatMap fun expertId => targets.map (manualRow instanceId expertId)).Pairwise
      fun a b => b.sameKey a = false := by
  have hpairs : ((keys.flatMap fun expertId => targets.map (manualRow instanceId expertId)).map
      fun expert => (expert.nodeId, expert.expertId)).Nodup := by
    rw [List.map_flatMap]
    refine List.nodup_flatMap.mpr ⟨fun expertId _ => ?_, hkeys.imp fun hne => ?_⟩
    · refine List.Nodup.of_map Prod.fst ?_
      rw [List.map_map, List.map_map]
      exact hids
    · intro pair ha hb
      obtain ⟨_, hrow, rfl⟩ := List.mem_map.mp ha
      obtain ⟨_, hrow', heq⟩ := List.mem_map.mp hb
      obtain ⟨_, _, rfl⟩ := List.mem_map.mp hrow
      obtain ⟨_, _, rfl⟩ := List.mem_map.mp hrow'
      exact hne (Prod.mk.inj heq).2.symm
  refine (List.pairwise_map.mp hpairs).imp fun hne => ?_
  rw [Bool.eq_false_iff]
  intro hsame
  simp only [Expert.sameKey, Bool.and_eq_true, beq_iff_eq] at hsame
  exact hne (Prod.ext hsame.1.2.symm hsame.2.symm)

theorem sameKey_comm (a b : Expert) : a.sameKey b = b.sameKey a := by
  unfold Expert.sameKey
  rw [Bool.beq_comm (a := a.instanceId), Bool.beq_comm (a := a.nodeId),
    Bool.beq_comm (a := a.expertId)]

/-- the rows after an accepted request -/
theorem placed_experts {targets : List Node} (hids : (targets.map Node.id).Nodup)
    (instanceId modelId : Nat) {keys : List String} (hkeys : keys.Nodup) {rows : List Expert}
    (hrows : rows.Perm (keys.flatMap fun expertId => targets.map (manualRow instanceId expertId))) :
    ((clearNodes (db.instanceUpsert modelId settings.instanceName) instanceId
        targets).expertUpsertBatch rows).experts =
      (db.experts.filter fun expert =>
        !((targets.map Node.id).contains expert.nodeId && expert.instanceId == instanceId)) ++
          rows := by
  have hcleared : (clearNodes (db.instanceUpsert modelId settings.instanceName) instanceId
      targets).experts = db.experts.filter fun expert =>
        !((targets.map Node.id).contains expert.nodeId && expert.instanceId == instanceId) := by
    rw [clearNodes_eq, instanceUpsert_experts]
  rw [upsertBatch_append, hcleared]
  · intro row hrow old hold
    rw [hcleared] at hold
    obtain ⟨_, hkept⟩ := List.mem_filter.mp hold
    obtain ⟨expertId, _, hmem⟩ := List.mem_flatMap.mp (hrows.mem_iff.mp hrow)
    obtain ⟨node, hnode, rfl⟩ := List.mem_map.mp hmem
    rw [Bool.eq_false_iff]
    intro hsame
    simp only [Expert.sameKey, manualRow, Bool.and_eq_true, beq_iff_eq] at hsame
    have htarget : (targets.map Node.id).contains old.nodeId = true :=
      List.contains_iff_mem.mpr (hsame.1.2 ▸ List.mem_map_of_mem hnode)
    rw [htarget, ← hsame.1.1, beq_self_eq_true] at hkept
    cases hkept
  · refine (hrows.pairwise_iff fun {a b} h => ?_).mpr (manualRows_distinct hids instanceId hkeys)
    rw [sameKey_comm]
    exact h

theorem manualPlacement_of_rows {targets : List Node} (hids : (targets.map Node.id).Nodup)
    (instanceId modelId : Nat) {ranges : List (Nat × Nat)} {rows : List Expert}
    (hrows : rows.Perm ((requestedKeys settings (layersOf ranges)).flatMap fun expertId =>
      targets.map (manualRow instanceId expertId))) :
    ManualPlacement settings db
      ((clearNodes (db.instanceUpsert modelId settings.instanceName) instanceId
        targets).expertUpsertBatch rows) targets instanceId ranges := by
  have hkeys := @nodup_requestedKeys settings _ (layersOf_spec ranges).1
  have hexperts := @placed_experts settings db _ hids instanceId modelId _ hkeys _ hrows
  have hfilter : ∀ nodeId, (rows.filter fun expert => expert.nodeId = nodeId).Perm
      (if nodeId ∈ targets.map Node.id then
        (requestedKeys settings (layersOf ranges)).map fun expertId =>
          ⟨instanceId, nodeId, expertId, 1, .empty⟩ else []) := by
    intro nodeId
    rw [← filter_manualRows hids]
    exact hrows.filter _
  have hinstance : ∀ row ∈ rows, row.instanceId = instanceId := by
    intro row hrow
    obtain ⟨_, _, hmem⟩ := List.mem_flatMap.mp (hrows.mem_iff.mp hrow)
    obtain ⟨_, _, rfl⟩ := List.mem_map.mp hmem
    rfl
  -- a matched node keeps none of its rows of the instance, and gets those of the request
  have hnode : ∀ node ∈ targets, ((((clearNodes (db.instanceUpsert modelId settings.instanceName)
      instanceId targets).expertUpsertBatch rows).expertsByNode node.id).filter fun expert =>
        expert.instanceId = instanceId).Perm
      ((requestedKeys settings (layersOf ranges)).map fun expertId =>
        ⟨instanceId, node.id, expertId, 1, .empty⟩) := by
    intro node hmem
    have htarget : node.id ∈ targets.map Node.id := List.mem_map_of_mem hmem
    have hold : ((db.experts.filter fun expert => !((targets.map Node.id).contains expert.nodeId &&
        expert.instanceId == instanceId)).filter fun expert => expert.nodeId = node.id).filter
          (fun expert => expert.instanceId = instanceId) = [] := by
      rw [List.filter_filter, List.filter_filter, List.filter_eq_nil_iff]
      intro expert _ htest
      simp only [Bool.and_eq_true, decide_eq_true_eq, Bool.not_eq_true'] at htest
      obtain ⟨⟨hinst, hid⟩, hkept⟩ := htest
      rw [hid, hinst, List.contains_iff_mem.mpr htarget, beq_self_eq_true] at hkept
      cases hkept
    have hnew : (rows.filter fun expert => expert.nodeId = node.id).filter
        (fun expert => expert.instanceId = instanceId) =
          rows.filter fun expert => expert.nodeId = node.id :=
      List.filter_eq_self.mpr fun row hrow =>
        decide_eq_true (hinstance row (List.mem_filter.mp hrow).1)
    unfold Database.expertsByNode
    rw [hexperts, List.filter_append, List.filter_append, hold, hnew, List.nil_append]
    have hperm := hfilter node.id
    rwa [if_pos htarget] at hperm
  refine ⟨fun node hmem => ?_, fun node hmem expertId => ?_, fun nodeId hother => ?_,
    fun nodeId => ?_⟩
  · refine ((hnode node hmem).map Expert.expertId).nodup_iff.mpr ?_
    rw [List.map_map]
    exact (List.map_id _).symm ▸ hkeys
  · rw [← mem_requestedKeys]
    constructor
    · intro hkey
      have hin := (hnode node hmem).mem_iff.mpr (List.mem_map_of_mem hkey)
      obtain ⟨hrow, hinst⟩ := List.mem_filter.mp hin
      exact ⟨_, hrow, of_decide_eq_true hinst, rfl⟩
    · rintro ⟨expert, hrow, hinst, rfl⟩
      have hin := (hnode node hmem).mem_iff.mp
        (List.mem_filter.mpr ⟨hrow, decide_eq_true hinst⟩)
      obtain ⟨expertId, hkey, rfl⟩ := List.mem_map.mp hin
      exact hkey
  · have hnone := hfilter nodeId
    rw [if_neg hother] at hnone
    unfold Database.expertsByNode
    rw [hexperts, List.filter_append, hnone.eq_nil, List.append_nil, List.filter_filter]
    refine List.filter_congr fun expert _ => ?_
    rw [Bool.and_eq_left_iff_imp, decide_eq_true_iff]
    rintro rfl
    rw [Bool.not_eq_true', Bool.and_eq_false_iff]
    exact .inl (Bool.eq_false_iff.mpr fun h => hother (List.contains_iff_mem.mp h))
  · have hnone : (rows.filter fun expert => expert.nodeId = nodeId).filter
        (fun expert => expert.instanceId ≠ instanceId) = [] := by
      rw [List.filter_eq_nil_iff]
      intro row hrow hne
      exact of_decide_eq_true hne (hinstance row (List.mem_filter.mp hrow).1)
    unfold Database.expertsByNode
    rw [hexperts, List.filter_append, List.filter_append, hnone, List.append_nil,
      List.filter_filter, List.filter_filter, List.filter_filter]
    refine List.filter_congr fun expert _ => ?_
    by_cases hinst : expert.instanceId = instanceId <;> simp [hinst]

/-- clearing the nodes keeps every row exactly when they hold none of the instance -/
theorem clearNodes_kept_iff {targets : List Node} (instanceId modelId : Nat) :
    (∀ nodeId, (clearNodes (db.instanceUpsert modelId settings.instanceName) instanceId
      targets).expertsByNode nodeId = db.expertsByNode nodeId) ↔
        ∀ node ∈ targets, ∀ expert ∈ db.expertsByNode node.id, expert.instanceId ≠ instanceId := by
  have hcleared : (clearNodes (db.instanceUpsert modelId settings.instanceName) instanceId
      targets).experts = db.experts.filter fun expert =>
        !((targets.map Node.id).contains expert.nodeId && expert.instanceId == instanceId) := by
    rw [clearNodes_eq, instanceUpsert_experts]
  unfold Database.expertsByNode
  rw [hcleared]
  constructor
  · intro hkept node hnode expert hexpert hinst
    obtain ⟨_, hid⟩ := List.mem_filter.mp hexpert
    rw [← hkept node.id] at hexpert
    have hout := (List.mem_filter.mp (List.mem_filter.mp hexpert).1).2
    have htarget : (targets.map Node.id).contains expert.nodeId = true :=
      List.contains_iff_mem.mpr (of_decide_eq_true hid ▸ List.mem_map_of_mem hnode)
    rw [htarget, hinst, beq_self_eq_true] at hout
    cases hout
  · intro hnone nodeId
    rw [List.filter_filter]
    refine List.filter_congr fun expert hexpert => ?_
    rw [Bool.and_eq_left_iff_imp, decide_eq_true_iff]
    rintro rfl
    rw [Bool.not_eq_true', Bool.eq_false_iff]
    intro hboth
    obtain ⟨hcontains, hinst⟩ := (Bool.and_eq_true _ _).mp hboth
    obtain ⟨node, hnode, hid⟩ := List.mem_map.mp (List.contains_iff_mem.mp hcontains)
    exact hnone node hnode expert (List.mem_filter.mpr ⟨hexpert, decide_eq_true hid.symm⟩)
      (eq_of_beq hinst)

/-- **Atomicity of the manual schedule.**  A refused request leaves every row alone, and an accepted
one places exactly the requested experts, if and only if every layer of a well-formed string lies in
the range of the model or the matched nodes hold no row of the instance. -/
theorem manual_schedule_atomic_iff {order : List Expert → List Expert} (hvalid : db.Valid)
    (horder : ∀ rows, (order rows).Perm rows) (hostnames : List String) (layersStr : String) :
    ((∀ error, (executeManualSchedule settings order db hostnames layersStr).2 = .error error →
        ∀ nodeId, (executeManualSchedule settings order db hostnames layersStr).1.expertsByNode
          nodeId = db.expertsByNode nodeId) ∧
      ((executeManualSchedule settings order db hostnames layersStr).2 = .ok () →
        ∃ ranges model, parseRanges layersStr = .ok ranges ∧
          db.modelByName settings.modelName = some model ∧
          ManualPlacement settings db
            (executeManualSchedule settings order db hostnames layersStr).1
            (matchedNodes settings db hostnames)
            (db.returnedInstance model.id settings.instanceName).id ranges)) ↔
    ∀ layers model, parseLayerRanges layersStr = .ok layers →
      db.modelByName settings.modelName = some model →
        (∀ layer ∈ layers, layerInRange settings layer = true) ∨
          ∀ node ∈ matchedNodes settings db hostnames, ∀ expert ∈ db.expertsByNode node.id,
            expert.instanceId ≠ (db.returnedInstance model.id settings.instanceName).id := by
  have hids : ((matchedNodes settings db hostnames).map Node.id).Nodup :=
    hvalid.ids.sublist ((List.filter_sublist.trans List.filter_sublist).map Node.id)
  have hlayers : ∀ layers, parseLayerRanges layersStr = .ok layers →
      ∃ ranges, parseRanges layersStr = .ok ranges ∧ layers = layersOf ranges := by
    intro layers hparse
    obtain ⟨ranges, hranges, rfl⟩ := Fallible.map_ok hparse
    exact ⟨ranges, hranges, rfl⟩
  rcases executeManualSchedule_cases settings order db hostnames layersStr with
    ⟨error, hrun, hnone⟩ | ⟨ranges, model, hranges, hmodel, _, ⟨hbad, error, hrun⟩ | ⟨hall, hrun⟩⟩
  · rw [hrun]
    refine iff_of_true ⟨fun _ _ _ => rfl, fun h => by cases h⟩ fun layers model hparse hmodel => ?_
    obtain ⟨ranges, hranges, rfl⟩ := hlayers layers hparse
    rw [hnone ranges model hranges hmodel]
    exact .inr fun _ h => absurd h List.not_mem_nil
  · rw [hrun]
    obtain ⟨bad, hmem, hout⟩ := hbad
    constructor
    · rintro ⟨hkept, _⟩ layers model' _ hmodel'
      rw [hmodel] at hmodel'
      cases hmodel'
      exact .inr ((clearNodes_kept_iff _ _).mp (hkept error rfl))
    · intro hcondition
      refine ⟨fun _ _ => (clearNodes_kept_iff _ _).mpr ?_, fun h => by cases h⟩
      have hparse : parseLayerRanges layersStr = .ok (layersOf ranges) := by
        rw [parseLayerRanges, hranges]
        rfl
      rcases hcondition _ model hparse hmodel with hin | hrows
      · rw [hin bad hmem] at hout
        cases hout
      · exact hrows
  · rw [hrun]
    refine iff_of_true ⟨fun _ h => ?_, fun _ => ⟨ranges, model, hranges, hmodel, ?_⟩⟩ ?_
    · cases h
    · exact manualPlacement_of_rows hids _ _ (horder _)
    · intro layers model' hparse _
      obtain ⟨ranges', hranges', rfl⟩ := hlayers layers hparse
      rw [hranges] at hranges'
      cases hranges'
      exact .inl hall

end

/-- one active worker with an expert of the instance -/
def manualDatabase : Database where
  now := 100
  nodes := [exampleNode 3 "worker-c" 100]
  nextNodeId := 4
  experts := [exampleRow 3 0]
  instances := [⟨1, 1, "main"⟩]
  nextInstanceId := 2
  models := [⟨1, "m"⟩]

theorem manual_schedule_atomic_worker :
    ∃ ranges model, parseRanges "1" = .ok ranges ∧
      manualDatabase.modelByName exampleSettings.modelName = some model ∧
      ManualPlacement exampleSettings manualDatabase
        (executeManualSchedule exampleSettings id manualDatabase ["worker-c"] "1").1
        (matchedNodes exampleSettings manualDatabase ["worker-c"])
        (manualDatabase.returnedInstance model.id exampleSettings.instanceName).id ranges := by
  have hlayers : parseLayerRanges "1" = .ok [1] := by decide +kernel
  have hvalid : manualDatabase.Valid := ⟨by decide, by decide, by decide⟩
  have hok : (executeManualSchedule exampleSettings id manualDatabase ["worker-c"] "1").2 = .ok () := by
    decide +kernel
  refine ((manual_schedule_atomic_iff hvalid (fun rows => .refl rows) ["worker-c"] "1").mpr ?_).2 hok
  intro layers model hparse _
  rw [hlayers] at hparse
  cases hparse
  exact .inl (by decide)

/-- a layer outside the model: the request is refused after the rows are gone -/
theorem manual_schedule_drops_rows :
    ¬ ∀ (settings : Settings) (order : List Expert → List Expert) (db : Database)
      (hostnames : List String) (layersStr : String), db.Valid →
      (∀ rows, (order rows).Perm rows) →
      ∀ error, (executeManualSchedule settings order db hostnames layersStr).2 = .error error →
        ∀ nodeId, (executeManualSchedule settings order db hostnames layersStr).1.expertsByNode
          nodeId = db.expertsByNode nodeId := by
  intro h
  have hrun : ((executeManualSchedule exampleSettings id manualDatabase ["worker-c"] "5").1.experts,
      (executeManualSchedule exampleSettings id manualDatabase ["worker-c"] "5").2) =
        ([], .error (.invalidInput "Layer 5 is out of bounds. Model supports layers 0-1")) := by
    decide +kernel
  obtain ⟨hexperts, herror⟩ := Prod.mk.inj hrun
  have hkept := h exampleSettings id manualDatabase ["worker-c"] "5"
    ⟨by decide, by decide, by decide⟩ (fun rows => .refl rows) _ herror 3
  rw [Database.expertsByNode, hexperts] at hkept
  cases hkept

end ExpertKit.Elastic

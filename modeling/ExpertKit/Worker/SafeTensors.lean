import ExpertKit.Lib.Bytes
import ExpertKit.Lib.Tiling
import ExpertKit.Lib.Assoc
import ExpertKit.Lib.Fallible

/-!
# Worker: SafeTensors files

`parse_safetensors` of `weights/format.py`.  A file is the length of a JSON header, the header, and the
data section; the header gives the type, the shape and the offsets of every tensor.  The JSON parser
is a parameter, and a view into the buffer is its offsets.

* `Json`, `Json.unique`          the values of the parser and the check of its object hook;
* `parseTensor`, `checkRanges`, `parseSafetensors`   the parser;
* `checkRanges_iff`              the loop over the sorted ranges accepts exactly the tilings;
* `Layout`, `Header`, `file`     tensors laid out one after the other behind a header;
* `safetensors_sound_complete`   the accepted regions tile the data section, and every layout of
                                 well-formed tensors is accepted.
-/

set_option linter.unusedSectionVars false

namespace ExpertKit.Worker.SafeTensors

/-! ## the header -/

def maxHeaderBytes : Nat := 16 * 1024 * 1024

def maxTensorBytes : Nat := 2 ^ 63 - 1

/-- a `SafeTensorFormatError` and its text, the quoted name apart -/
inductive FormatError where
  | message (text : String)
  | entry (name detail : String)
  | unsupportedDtype (name rawDtype : String)
  | duplicateKey (key : String)
deriving DecidableEq, Repr

/-- a decoded JSON value; an object is its members in order -/
inductive Json where
  | null
  | bool (value : Bool)
  | int (value : Int)
  | float (text : String)
  | str (text : String)
  | arr (items : List Json)
  | obj (members : List (String × Json))

mutual
/-- no object has a key twice: `_unique_object` raises otherwise -/
def Json.unique : Json → Bool
  | .arr items => Json.uniqueItems items
  | .obj members => decide (members.map Prod.fst).Nodup && Json.uniqueMembers members
  | _ => true

def Json.uniqueItems : List Json → Bool
  | [] => true
  | item :: rest => item.unique && Json.uniqueItems rest

def Json.uniqueMembers : List (String × Json) → Bool
  | [] => true
  | (_, value) :: rest => value.unique && Json.uniqueMembers rest
end

inductive SafeTensorDType where
  | fp16
  | bf16
  | fp32
deriving DecidableEq, Repr

def SafeTensorDType.name : SafeTensorDType → String
  | .fp16 => "F16"
  | .bf16 => "BF16"
  | .fp32 => "F32"

def SafeTensorDType.ofName : String → Option SafeTensorDType
  | "F16" => some .fp16
  | "BF16" => some .bf16
  | "F32" => some .fp32
  | _ => none

def SafeTensorDType.elementBytes : SafeTensorDType → Nat
  | .fp32 => 4
  | _ => 2

theorem SafeTensorDType.ofName_name (dtype : SafeTensorDType) : ofName dtype.name = some dtype := by
  cases dtype <;> rfl

/-- a tensor and its view into the data section -/
structure SafeTensorRegion where
  name : String
  dtype : SafeTensorDType
  shape : List Nat
  start : Nat
  stop : Nat
deriving DecidableEq, Repr

structure SafeTensorData where
  buffer : List UInt8
  dataStart : Nat
  tensors : List SafeTensorRegion
  metadata : List (String × String)

def SafeTensorRegion.range (r : SafeTensorRegion) : Nat × Nat := (r.start, r.stop)

def SafeTensorData.section (d : SafeTensorData) : List UInt8 := d.buffer.drop d.dataStart

/-- the bytes of the view -/
def SafeTensorData.bytes (d : SafeTensorData) (r : SafeTensorRegion) : List UInt8 :=
  Tiling.slice d.section r.range

/-! ## one entry -/

def requireInteger (name description : String) : Json → Except FormatError Int
  | .int value => .ok value
  | _ => .error (.entry name (description ++ " must be an integer"))

def requireIntegers (name description : String) : List Json → Except FormatError (List Int)
  | [] => .ok []
  | item :: rest =>
    (requireInteger name description item).bind fun value =>
      (requireIntegers name description rest).map (value :: ·)

def elementCountFrom (count : Nat) : List Int → Except FormatError Nat
  | [] => .ok count
  | dimension :: rest =>
    if dimension < 0 then
      .error (.message "SafeTensors shape dimensions must be nonnegative")
    else if dimension ≠ 0 ∧ maxTensorBytes / dimension.toNat < count then
      .error (.message "SafeTensors shape product overflows the supported range")
    else elementCountFrom (count * dimension.toNat) rest

def checkedElementCount (shape : List Int) : Except FormatError Nat := elementCountFrom 1 shape

def tensorFields : List String := ["dtype", "shape", "data_offsets"]

/-- `set(value) == {"dtype", "shape", "data_offsets"}` -/
def hasTensorFields (members : List (String × Json)) : Bool :=
  (members.all fun m => decide (m.1 ∈ tensorFields)) &&
    tensorFields.all fun field => decide (field ∈ members.map Prod.fst)

def parseOffsets (name : String) (offsets : Json) : Except FormatError (Int × Int) :=
  match offsets with
  | .arr [first, second] =>
    (requireInteger name "start offset" first).bind fun start =>
      (requireInteger name "end offset" second).map fun stop => (start, stop)
  | _ => .error (.entry name "data_offsets must contain two integers")

/-- the checks of the shape and the offsets -/
def parseRegion (name : String) (dtype : SafeTensorDType) (shape : List Int) (offsets : Json)
    (dataBytes : Nat) : Except FormatError SafeTensorRegion :=
  (checkedElementCount shape).bind fun elementCount =>
  if maxTensorBytes / dtype.elementBytes < elementCount then
    .error (.entry name "byte length overflows")
  else
    (parseOffsets name offsets).bind fun ends =>
    if ends.1 < 0 ∨ ends.2 < ends.1 ∨ dataBytes < ends.2 then
      .error (.entry name "offsets are out of bounds")
    else if ends.2 - ends.1 ≠ elementCount * dtype.elementBytes then
      .error (.entry name "byte length is inconsistent")
    else .ok ⟨name, dtype, shape.map Int.toNat, ends.1.toNat, ends.2.toNat⟩

/-- `_parse_tensor` -/
def parseTensor (name : String) (value : Json) (dataBytes : Nat) :
    Except FormatError SafeTensorRegion :=
  if name.isEmpty then .error (.message "SafeTensors Tensor names must not be empty")
  else
    match value with
    | .obj members =>
      if !hasTensorFields members then .error (.entry name "has invalid fields")
      else
        match members.lookup "dtype" with
        | some (.str rawDtype) =>
          match SafeTensorDType.ofName rawDtype with
          | none => .error (.unsupportedDtype name rawDtype)
          | some dtype =>
            match members.lookup "shape" with
            | some (.arr items) =>
              (requireIntegers name "shape dimension" items).bind fun shape =>
                parseRegion name dtype shape ((members.lookup "data_offsets").getD .null) dataBytes
            | _ => .error (.entry name "shape must be an array")
        | _ => .error (.entry name "dtype must be a string")
    | _ => .error (.entry name "must be an object")

/-! ## the file -/

def parseTexts : List (String × Json) → Option (List (String × String))
  | [] => some []
  | (key, .str text) :: rest => (parseTexts rest).map ((key, text) :: ·)
  | _ => none

/-- `_parse_metadata` -/
def parseMetadata : Option Json → Except FormatError (List (String × String))
  | none | some .null => .ok []
  | some (.obj members) =>
    match parseTexts members with
    | some texts => .ok texts
    | none => .error (.message "SafeTensors __metadata__ must map strings to strings")
  | some _ => .error (.message "SafeTensors __metadata__ must map strings to strings")

def metadataKey : String := "__metadata__"

def parseTensors (dataBytes : Nat) : List (String × Json) → Except FormatError (List SafeTensorRegion)
  | [] => .ok []
  | (name, value) :: rest =>
    (parseTensor name value dataBytes).bind fun region =>
      (parseTensors dataBytes rest).map (region :: ·)

/-- `sorted(ranges)`: by start, end and name -/
def sortedRegions (regions : List SafeTensorRegion) : List SafeTensorRegion :=
  regions.mergeSort fun a b =>
    decide (toLex (a.start, toLex (a.stop, a.name)) ≤ toLex (b.start, toLex (b.stop, b.name)))

/-- the loop over the sorted ranges -/
def checkRanges (dataBytes : Nat) : Nat → List SafeTensorRegion → Except FormatError Unit
  | cursor, [] =>
    if cursor ≠ dataBytes then
      .error (.message "SafeTensors data leaves unexplained trailing bytes")
    else .ok ()
  | cursor, r :: rest =>
    if r.start ≠ cursor then
      .error (.entry r.name (if r.start < cursor then "overlaps another Tensor"
        else "leaves an unexplained hole"))
    else checkRanges dataBytes r.stop rest

/-- the header is an object whose keys are distinct -/
def parseHeader (loads : String → Option Json) (text : String) :
    Except FormatError (List (String × Json)) :=
  if !text.startsWith "\x7b" then .error (.message "SafeTensors header must begin with a JSON object")
  else
    match loads text with
    | none => .error (.message "SafeTensors header is not valid JSON")
    | some header =>
      if !header.unique then .error (.duplicateKey text)
      else
        match header with
        | .obj members => .ok members
        | _ => .error (.message "SafeTensors header must be a JSON object")

def parseSafetensors (loads : String → Option Json) (buffer : List UInt8) :
    Except FormatError SafeTensorData :=
  if buffer.length < 8 then
    .error (.message "SafeTensors input is shorter than its length prefix")
  else
    let headerBytes := Bytes.ofLittleEndian (buffer.take 8)
    if ¬ (2 ≤ headerBytes ∧ headerBytes ≤ maxHeaderBytes) then
      .error (.message "SafeTensors header length is outside the supported bound")
    else
      let dataStart := 8 + headerBytes
      if buffer.length < dataStart then
        .error (.message "SafeTensors header length exceeds the input buffer")
      else
        match Bytes.readText ((buffer.drop 8).take headerBytes) with
        | none => .error (.message "SafeTensors header is not valid UTF-8")
        | some text =>
          (parseHeader loads text).bind fun members =>
          (parseMetadata (members.lookup metadataKey)).bind fun metadata =>
          let dataBytes := buffer.length - dataStart
          (parseTensors dataBytes (members.filter fun m => m.1 ≠ metadataKey)).bind fun tensors =>
          if tensors.isEmpty then .error (.message "SafeTensors input contains no Tensors")
          else
            (checkRanges dataBytes 0 (sortedRegions tensors)).map fun _ =>
              ⟨buffer, dataStart, tensors, metadata⟩

/-! ## what is accepted -/

/-- the view has the length that the shape and the type say, and lies in the data section -/
structure SafeTensorRegion.Sized (dataBytes : Nat) (r : SafeTensorRegion) : Prop where
  ordered : r.start ≤ r.stop
  bounded : r.stop ≤ dataBytes
  length : r.stop - r.start = r.shape.prod * r.dtype.elementBytes

theorem elementCountFrom_ok {count n : Nat} {shape : List Int}
    (h : elementCountFrom count shape = .ok n) : n = count * (shape.map Int.toNat).prod := by
  induction shape generalizing count with
  | nil =>
    cases h
    simp
  | cons dimension rest ih =>
    unfold elementCountFrom at h
    split_ifs at h
    rw [ih h, List.map_cons, List.prod_cons, Nat.mul_assoc]

theorem parseRegion_ok {name : String} {dtype : SafeTensorDType} {shape : List Int} {offsets : Json}
    {dataBytes : Nat} {r : SafeTensorRegion}
    (h : parseRegion name dtype shape offsets dataBytes = .ok r) : r.Sized dataBytes := by
  obtain ⟨count, hcount, h⟩ := Fallible.bind_ok h
  split_ifs at h
  obtain ⟨⟨start, stop⟩, _, h⟩ := Fallible.bind_ok h
  split_ifs at h with hbounds hlength
  cases h
  have hprod := elementCountFrom_ok hcount
  rw [Nat.one_mul] at hprod
  simp only [not_or, Int.not_lt] at hbounds
  obtain ⟨hstart, hstop, hdata⟩ := hbounds
  have hspan : stop - start = (count * dtype.elementBytes : Nat) := by
    rw [not_not.mp hlength]
    push_cast
    rfl
  refine ⟨Int.toNat_le_toNat hstop, Int.toNat_le.mpr hdata, ?_⟩
  show stop.toNat - start.toNat = (shape.map Int.toNat).prod * dtype.elementBytes
  rw [← hprod]
  omega

theorem parseTensor_ok {name : String} {value : Json} {dataBytes : Nat} {r : SafeTensorRegion}
    (h : parseTensor name value dataBytes = .ok r) : r.Sized dataBytes := by
  unfold parseTensor at h
  split_ifs at h
  cases value with
  | obj members =>
    simp only at h
    split_ifs at h
    split at h
    · split at h
      · cases h
      · split at h
        · obtain ⟨shape, _, h⟩ := Fallible.bind_ok h
          exact parseRegion_ok h
        · cases h
    · cases h
  | _ => cases h

theorem parseTensors_ok {dataBytes : Nat} {members : List (String × Json)}
    {regions : List SafeTensorRegion} (h : parseTensors dataBytes members = .ok regions) :
    ∀ r ∈ regions, r.Sized dataBytes := by
  induction members generalizing regions with
  | nil =>
    cases h
    exact fun r hr => absurd hr List.not_mem_nil
  | cons m rest ih =>
    obtain ⟨region, hregion, h⟩ := Fallible.bind_ok h
    obtain ⟨others, hothers, rfl⟩ := Fallible.map_ok h
    intro r hr
    rcases List.mem_cons.mp hr with rfl | hr
    · exact parseTensor_ok hregion
    · exact ih hothers r hr

theorem parseTensors_eq {dataBytes : Nat} {members : List (String × Json)}
    {regions : List SafeTensorRegion}
    (h : List.Forall₂ (fun m r => parseTensor m.1 m.2 dataBytes = .ok r) members regions) :
    parseTensors dataBytes members = .ok regions := by
  induction h with
  | nil => rfl
  | cons hregion _ ih =>
    rw [parseTensors, hregion, ih]
    rfl

/-- the loop accepts exactly the tilings -/
theorem checkRanges_iff {dataBytes cursor : Nat} {regions : List SafeTensorRegion}
    (h : ∀ r ∈ regions, r.start ≤ r.stop) :
    checkRanges dataBytes cursor regions = .ok () ↔
      Tiling.Tiles dataBytes cursor (regions.map SafeTensorRegion.range) := by
  induction regions generalizing cursor with
  | nil =>
    unfold checkRanges
    rw [List.map_nil, Tiling.Tiles]
    split_ifs with hcursor
    · exact ⟨fun h => (nomatch h), fun h => absurd h hcursor⟩
    · exact ⟨fun _ => Decidable.not_not.mp hcursor, fun _ => rfl⟩
  | cons r rest ih =>
    have hrest := @ih r.stop fun s hs => h s (List.mem_cons_of_mem _ hs)
    rw [List.map_cons, Tiling.Tiles, checkRanges]
    split_ifs with hstart
    · exact ⟨fun h => (nomatch h), fun h => absurd h.1 hstart⟩
    · rw [hrest]
      exact ⟨fun ht => ⟨not_not.mp hstart, h r List.mem_cons_self, ht⟩, fun ht => ht.2.2⟩

theorem sortedRegions_perm (regions : List SafeTensorRegion) :
    (sortedRegions regions).Perm regions := List.mergeSort_perm _ _

theorem sortedRegions_before (regions : List SafeTensorRegion) :
    ((sortedRegions regions).map SafeTensorRegion.range).Pairwise Tiling.Before := by
  rw [List.pairwise_map]
  refine (List.pairwise_mergeSort ?_ ?_ regions).imp ?_
  · intro a b c hab hbc
    exact decide_eq_true ((of_decide_eq_true hab).trans (of_decide_eq_true hbc))
  · intro a b
    rw [Bool.or_eq_true, decide_eq_true_iff, decide_eq_true_iff]
    exact le_total _ _
  · intro a b hab
    have hle := of_decide_eq_true hab
    rw [Prod.Lex.toLex_le_toLex, Prod.Lex.toLex_le_toLex] at hle
    rcases hle with hlt | ⟨heq, hlt | ⟨hstop, _⟩⟩
    · exact .inl hlt
    · exact .inr ⟨heq, Nat.le_of_lt hlt⟩
    · exact .inr ⟨heq, Nat.le_of_eq hstop⟩

/-- what the parser returns: the regions tile the data section -/
structure SafeTensorData.Sound (d : SafeTensorData) : Prop where
  nonempty : d.tensors ≠ []
  sized : ∀ r ∈ d.tensors, r.Sized d.section.length
  tiles : Tiling.Tiles d.section.length 0 ((sortedRegions d.tensors).map SafeTensorRegion.range)

theorem parseSafetensors_ok {loads : String → Option Json} {buffer : List UInt8}
    {d : SafeTensorData} (h : parseSafetensors loads buffer = .ok d) :
    d.buffer = buffer ∧ d.dataStart = 8 + Bytes.ofLittleEndian (buffer.take 8) ∧
      d.dataStart ≤ buffer.length ∧ d.Sound := by
  unfold parseSafetensors at h
  split_ifs at h
  simp only at h
  split_ifs at h with _ hshort
  split at h
  · cases h
  · obtain ⟨members, _, h⟩ := Fallible.bind_ok h
    obtain ⟨metadata, _, h⟩ := Fallible.bind_ok h
    obtain ⟨tensors, htensors, h⟩ := Fallible.bind_ok h
    split_ifs at h with hempty
    obtain ⟨_, hranges, rfl⟩ := Fallible.map_ok h
    have hsized := parseTensors_ok htensors
    have hlength : (buffer.drop (8 + Bytes.ofLittleEndian (buffer.take 8))).length =
        buffer.length - (8 + Bytes.ofLittleEndian (buffer.take 8)) := List.length_drop
    refine ⟨rfl, rfl, Nat.not_lt.mp hshort, by simpa using hempty, ?_, ?_⟩
    · intro r hr
      rw [SafeTensorData.section, hlength]
      exact hsized r hr
    · rw [SafeTensorData.section, hlength]
      exact (checkRanges_iff fun r hr =>
        (hsized r ((sortedRegions_perm tensors).mem_iff.mp hr)).ordered).mp hranges

/-! ## layouts -/

/-- a tensor to lay out -/
structure Tensor where
  name : String
  dtype : SafeTensorDType
  shape : List Nat
  bytes : List UInt8
deriving DecidableEq, Repr

/-- the bytes are the elements, and no product of leading dimensions overflows -/
structure Tensor.WellFormed (t : Tensor) : Prop where
  length : t.bytes.length = t.shape.prod * t.dtype.elementBytes
  bounded : t.bytes.length < 2 ^ 63
  products : ∀ k, (t.shape.take k).prod < 2 ^ 63

/-- one tensor after the other -/
def ranges (tensors : List Tensor) : List (Nat × Nat) :=
  Tiling.place 0 ((tensors.map Tensor.bytes).map List.length)

def dataSection (tensors : List Tensor) : List UInt8 := (tensors.map Tensor.bytes).flatten

def entryFields (t : Tensor) (range : Nat × Nat) : List (String × Json) :=
  [("dtype", .str t.dtype.name), ("shape", .arr (t.shape.map fun n : Nat => .int n)),
    ("data_offsets", .arr [.int range.1, .int range.2])]

/-- the member of the header describes the tensor, the fields in any order -/
def Describes (member : String × Json) (t : Tensor × (Nat × Nat)) : Prop :=
  member.1 = t.1.name ∧ ∃ fields, member.2 = .obj fields ∧ fields.Perm (entryFields t.1 t.2)

def metadataMembers : Option (List (String × String)) → List (String × Json)
  | none => []
  | some texts => [(metadataKey, .obj (texts.map fun e => (e.1, .str e.2)))]

/-- a header of the layout: an object with one member for each tensor, in any order -/
structure Header (loads : String → Option Json) (tensors : List Tensor)
    (metadata : Option (List (String × String))) (text : String) : Prop where
  opens : text.startsWith "\x7b" = true
  least : 2 ≤ (Bytes.textBytes text).length
  most : (Bytes.textBytes text).length ≤ maxHeaderBytes
  keys : ((metadata.getD []).map Prod.fst).Nodup
  reads : ∃ members entries, loads text = some (.obj members) ∧
    members.Perm (metadataMembers metadata ++ entries) ∧
    List.Forall₂ Describes entries (tensors.zip (ranges tensors))

def file (text : String) (tensors : List Tensor) : List UInt8 :=
  Bytes.littleEndian 8 (Bytes.textBytes text).length ++ Bytes.textBytes text ++ dataSection tensors

/-! ## the entry of a tensor -/

theorem requireIntegers_map (name description : String) (shape : List Nat) :
    requireIntegers name description (shape.map fun n : Nat => .int n) =
      .ok (shape.map fun n : Nat => (n : Int)) := by
  induction shape with
  | nil => rfl
  | cons n rest ih =>
    rw [List.map_cons, requireIntegers, ih]
    rfl

theorem elementCountFrom_eq {count : Nat} {shape : List Nat}
    (h : ∀ k, count * (shape.take k).prod < 2 ^ 63) :
    elementCountFrom count (shape.map fun n : Nat => (n : Int)) = .ok (count * shape.prod) := by
  induction shape generalizing count with
  | nil =>
    rw [List.prod_nil, Nat.mul_one]
    rfl
  | cons n rest ih =>
    have hone := h 1
    rw [List.take_succ_cons, List.take_zero, List.prod_cons, List.prod_nil, Nat.mul_one] at hone
    have hguard : ¬ ((n : Int) ≠ 0 ∧ maxTensorBytes / (n : Int).toNat < count) := by
      rintro ⟨hzero, hlt⟩
      have hpos : 0 < n := Nat.pos_of_ne_zero fun heq => hzero (by rw [heq]; rfl)
      have hle : count ≤ maxTensorBytes / n :=
        (Nat.le_div_iff_mul_le hpos).mpr (Nat.le_sub_one_of_lt hone)
      exact absurd hlt (Nat.not_lt.mpr hle)
    have hrest := @ih (count * n) fun k => by
      have hk := h (k + 1)
      rwa [List.take_succ_cons, List.prod_cons, ← Nat.mul_assoc] at hk
    rw [List.map_cons, elementCountFrom, if_neg (Int.not_lt.mpr (Int.natCast_nonneg n)),
      if_neg hguard, Int.toNat_natCast, hrest, List.prod_cons, Nat.mul_assoc]

theorem parseRegion_eq {t : Tensor} (h : t.WellFormed) {start dataBytes : Nat}
    (hfits : start + t.bytes.length ≤ dataBytes) :
    parseRegion t.name t.dtype (t.shape.map fun n : Nat => (n : Int))
      (.arr [.int start, .int (start + t.bytes.length : Nat)]) dataBytes =
      .ok ⟨t.name, t.dtype, t.shape, start, start + t.bytes.length⟩ := by
  have hcount : checkedElementCount (t.shape.map fun n : Nat => (n : Int)) = .ok t.shape.prod := by
    have heq := @elementCountFrom_eq 1 t.shape
      fun k => by rw [Nat.one_mul]; exact h.products k
    rwa [Nat.one_mul] at heq
  have hpos : 0 < t.dtype.elementBytes := by cases t.dtype <;> decide
  have hbytes : t.shape.prod ≤ maxTensorBytes / t.dtype.elementBytes :=
    (Nat.le_div_iff_mul_le hpos).mpr (by rw [← h.length]; exact Nat.le_sub_one_of_lt h.bounded)
  have hbounds : ¬ ((start : Int) < 0 ∨ ((start + t.bytes.length : Nat) : Int) < start ∨
      (dataBytes : Int) < (start + t.bytes.length : Nat)) := by omega
  have hlength : ((start + t.bytes.length : Nat) : Int) - start =
      (t.shape.prod : Int) * t.dtype.elementBytes := by
    rw [← Nat.cast_mul, ← h.length]
    omega
  have hshape : (t.shape.map fun n : Nat => (n : Int)).map Int.toNat = t.shape := by
    rw [List.map_map]
    exact List.map_id'' (fun n => Int.toNat_natCast n) t.shape
  unfold parseRegion
  rw [hcount]
  show (if maxTensorBytes / t.dtype.elementBytes < t.shape.prod then _ else _) = _
  rw [if_neg (Nat.not_lt.mpr hbytes)]
  show (if (start : Int) < 0 ∨ _ then _ else _) = _
  rw [if_neg hbounds, if_neg (not_not.mpr hlength), hshape, Int.toNat_natCast, Int.toNat_natCast]

theorem entryFields_keys (t : Tensor) (range : Nat × Nat) :
    (entryFields t range).map Prod.fst = tensorFields := rfl

theorem parseTensor_eq {t : Tensor} (h : t.WellFormed) (hname : t.name ≠ "")
    {start dataBytes : Nat} (hfits : start + t.bytes.length ≤ dataBytes) {m : String × Json}
    (hm : Describes m (t, (start, start + t.bytes.length))) :
    parseTensor m.1 m.2 dataBytes =
      .ok ⟨t.name, t.dtype, t.shape, start, start + t.bytes.length⟩ := by
  obtain ⟨name, value⟩ := m
  obtain ⟨rfl, fields, rfl, hperm⟩ := hm
  have hkeys : (fields.map Prod.fst).Perm tensorFields :=
    (hperm.map Prod.fst).trans (.of_eq (entryFields_keys _ _))
  have hnd : (fields.map Prod.fst).Nodup := hkeys.nodup_iff.mpr (by decide)
  have hlookup : ∀ e ∈ entryFields t (start, start + t.bytes.length),
      fields.lookup e.1 = some e.2 := fun e he =>
    Assoc.lookup_of_mem hnd (hperm.mem_iff.mpr he)
  have hfields : hasTensorFields fields = true := by
    rw [hasTensorFields, Bool.and_eq_true, List.all_eq_true, List.all_eq_true]
    exact ⟨fun e he => decide_eq_true (hkeys.mem_iff.mp (List.mem_map_of_mem he)),
      fun field hf => decide_eq_true (hkeys.mem_iff.mpr hf)⟩
  have hdtype : fields.lookup "dtype" = some (.str t.dtype.name) :=
    hlookup ("dtype", _) (by simp [entryFields])
  have hshape : fields.lookup "shape" = some (.arr (t.shape.map fun n : Nat => .int n)) :=
    hlookup ("shape", _) (by simp [entryFields])
  have hoffsets : fields.lookup "data_offsets" =
      some (.arr [.int start, .int (start + t.bytes.length : Nat)]) :=
    hlookup ("data_offsets", _) (by simp [entryFields])
  unfold parseTensor
  have hempty : t.name.isEmpty = false := by simpa using hname
  simp only [hempty, hfields, hdtype, hshape, hoffsets, SafeTensorDType.ofName_name,
    requireIntegers_map, Bool.false_eq_true, Bool.not_true, if_false, Option.getD_some]
  exact parseRegion_eq h hfits

/-! ## the header of a layout -/

theorem uniqueMembers_of {members : List (String × Json)} (h : ∀ m ∈ members, m.2.unique = true) :
    Json.uniqueMembers members = true := by
  induction members with
  | nil => rfl
  | cons m rest ih =>
    obtain ⟨key, value⟩ := m
    rw [Json.uniqueMembers, h (key, value) List.mem_cons_self,
      ih fun m hm => h m (List.mem_cons_of_mem _ hm)]
    rfl

theorem uniqueItems_ints (ns : List Nat) :
    Json.uniqueItems (ns.map fun n : Nat => .int n) = true := by
  induction ns with
  | nil => rfl
  | cons n rest ih =>
    rw [List.map_cons, Json.uniqueItems, ih]
    rfl

theorem unique_obj {members : List (String × Json)} (hnd : (members.map Prod.fst).Nodup)
    (h : ∀ m ∈ members, m.2.unique = true) : (Json.obj members).unique = true := by
  rw [Json.unique, decide_eq_true hnd, uniqueMembers_of h]
  rfl

theorem Describes.unique {m : String × Json} {t : Tensor × (Nat × Nat)} (h : Describes m t) :
    m.2.unique = true := by
  obtain ⟨_, fields, hvalue, hperm⟩ := h
  have hkeys : (fields.map Prod.fst).Perm tensorFields :=
    (hperm.map Prod.fst).trans (.of_eq (entryFields_keys _ _))
  rw [hvalue]
  refine unique_obj (hkeys.nodup_iff.mpr (by decide)) fun field hfield => ?_
  have hmem := hperm.mem_iff.mp hfield
  simp only [entryFields, List.mem_cons, List.not_mem_nil, or_false] at hmem
  rcases hmem with rfl | rfl | rfl
  · rfl
  · exact uniqueItems_ints t.1.shape
  · rfl

theorem describes_unique {entries : List (String × Json)} {placed : List (Tensor × (Nat × Nat))}
    (h : List.Forall₂ Describes entries placed) : ∀ m ∈ entries, m.2.unique = true := by
  induction h with
  | nil => exact fun m hm => absurd hm List.not_mem_nil
  | cons hm _ ih =>
    intro m hmem
    rcases List.mem_cons.mp hmem with rfl | hmem
    · exact hm.unique
    · exact ih m hmem

theorem metadataMembers_unique {metadata : Option (List (String × String))}
    (h : ((metadata.getD []).map Prod.fst).Nodup) :
    ∀ m ∈ metadataMembers metadata, m.2.unique = true := by
  cases metadata with
  | none => exact fun m hm => absurd hm List.not_mem_nil
  | some texts =>
    intro m hm
    rw [List.mem_singleton.mp hm]
    refine unique_obj ?_ ?_
    · rw [List.map_map]
      exact h
    · intro e he
      obtain ⟨x, _, rfl⟩ := List.mem_map.mp he
      rfl

theorem parseTexts_map (texts : List (String × String)) :
    parseTexts (texts.map fun e => (e.1, .str e.2)) = some texts := by
  induction texts with
  | nil => rfl
  | cons e rest ih =>
    rw [List.map_cons, parseTexts, ih]
    rfl

theorem map_name {entries : List (String × Json)} {placed : List (Tensor × (Nat × Nat))}
    (h : List.Forall₂ Describes entries placed) :
    entries.map Prod.fst = placed.map fun t => t.1.name := by
  induction h with
  | nil => rfl
  | cons hm _ ih => rw [List.map_cons, List.map_cons, ih, hm.1]

theorem length_ranges (tensors : List Tensor) : (ranges tensors).length = tensors.length := by
  rw [ranges, Tiling.length_place, List.length_map, List.length_map]

theorem placed_fst (tensors : List Tensor) :
    (tensors.zip (ranges tensors)).map Prod.fst = tensors :=
  List.map_fst_zip (Nat.le_of_eq (length_ranges tensors).symm)

theorem placed_snd (tensors : List Tensor) :
    (tensors.zip (ranges tensors)).map Prod.snd = ranges tensors :=
  List.map_snd_zip (Nat.le_of_eq (length_ranges tensors))

theorem length_dataSection (tensors : List Tensor) :
    (dataSection tensors).length = ((tensors.map Tensor.bytes).map List.length).sum :=
  List.length_flatten

theorem ranges_tiles (tensors : List Tensor) :
    Tiling.Tiles (dataSection tensors).length 0 (ranges tensors) := by
  have htiles := Tiling.place_tiles 0 ((tensors.map Tensor.bytes).map List.length)
  rwa [Nat.zero_add, ← length_dataSection] at htiles

theorem placed_spec {tensors : List Tensor} {t : Tensor} {r : Nat × Nat}
    (h : (t, r) ∈ tensors.zip (ranges tensors)) :
    r = (r.1, r.1 + t.bytes.length) ∧ r.1 + t.bytes.length ≤ (dataSection tensors).length := by
  have hmem : (t.bytes.length, r) ∈
      ((tensors.map Tensor.bytes).map List.length).zip (ranges tensors) := by
    rw [List.map_map, List.zip_map_left]
    exact List.mem_map.mpr ⟨(t, r), h, rfl⟩
  have hstop := Tiling.mem_zip_place hmem
  have hle := ((ranges_tiles tensors).bounds r (List.of_mem_zip h).2).2.2
  exact ⟨Prod.ext rfl hstop, hstop ▸ hle⟩

theorem Header.members {loads : String → Option Json} {tensors : List Tensor}
    {metadata : Option (List (String × String))} {text : String}
    (h : Header loads tensors metadata text) (hnd : (tensors.map Tensor.name).Nodup)
    (hkey : ∀ t ∈ tensors, t.name ≠ metadataKey) :
    ∃ members entries, parseHeader loads text = .ok members ∧
      parseMetadata (members.lookup metadataKey) = .ok (metadata.getD []) ∧
      (members.filter fun m => m.1 ≠ metadataKey).Perm entries ∧
      List.Forall₂ Describes entries (tensors.zip (ranges tensors)) := by
  obtain ⟨members, entries, hloads, hperm, hentries⟩ := h.reads
  have hnames : entries.map Prod.fst = tensors.map Tensor.name := by
    have hplaced := congrArg (List.map Tensor.name) (placed_fst tensors)
    rw [List.map_map] at hplaced
    rw [map_name hentries]
    exact hplaced
  have hother : ∀ m ∈ entries, m.1 ≠ metadataKey := by
    intro m hm
    have hname : m.1 ∈ tensors.map Tensor.name := hnames ▸ List.mem_map_of_mem hm
    obtain ⟨t, ht, heq⟩ := List.mem_map.mp hname
    exact heq ▸ hkey t ht
  have hmeta : ∀ m ∈ metadataMembers metadata, m.1 = metadataKey := by
    cases metadata with
    | none => exact fun m hm => absurd hm List.not_mem_nil
    | some texts => exact fun m hm => by rw [List.mem_singleton.mp hm]
  have hkeys : (members.map Prod.fst).Nodup := by
    rw [(hperm.map Prod.fst).nodup_iff, List.map_append, hnames, List.nodup_append]
    refine ⟨?_, hnd, ?_⟩
    · cases metadata <;> simp [metadataMembers]
    · intro a ha b hb heq
      obtain ⟨m, hm, rfl⟩ := List.mem_map.mp ha
      obtain ⟨t, ht, rfl⟩ := List.mem_map.mp hb
      exact hkey t ht (heq ▸ hmeta m hm)
  have hvalues : ∀ m ∈ members, m.2.unique = true := by
    intro m hm
    rcases List.mem_append.mp (hperm.mem_iff.mp hm) with hm | hm
    · exact metadataMembers_unique h.keys m hm
    · exact describes_unique hentries m hm
  refine ⟨members, entries, ?_, ?_, ?_, hentries⟩
  · unfold parseHeader
    rw [h.opens, hloads]
    simp only [unique_obj hkeys hvalues, Bool.not_true, Bool.false_eq_true, if_false]
  · cases metadata with
    | none =>
      have hnone : members.lookup metadataKey = none := by
        rw [Assoc.lookup_none_iff]
        intro hmem
        obtain ⟨m, hm, heq⟩ := List.mem_map.mp hmem
        exact hother m (hperm.mem_iff.mp hm) heq
      rw [hnone]
      rfl
    | some texts =>
      have hsome : members.lookup metadataKey =
          some (.obj (texts.map fun e => (e.1, .str e.2))) :=
        Assoc.lookup_of_mem hkeys
          (hperm.mem_iff.mpr (List.mem_append_left _ (List.mem_singleton_self _)))
      rw [hsome, parseMetadata, parseTexts_map]
      rfl
  · refine (hperm.filter _).trans (.of_eq ?_)
    rw [List.filter_append, List.filter_eq_nil_iff.mpr (by simpa using hmeta),
      List.filter_eq_self.mpr (by simpa using hother), List.nil_append]

/-! ## layouts are accepted -/

/-- the region of a placed tensor -/
def regionOf (t : Tensor × (Nat × Nat)) : SafeTensorRegion :=
  ⟨t.1.name, t.1.dtype, t.1.shape, t.2.1, t.2.2⟩

/-- what the region gives back -/
def SafeTensorData.content (d : SafeTensorData) (r : SafeTensorRegion) : Tensor :=
  ⟨r.name, r.dtype, r.shape, d.bytes r⟩

/-- the tensors can be laid out: names apart, well-formed, at least one -/
structure Layout (tensors : List Tensor) : Prop where
  nonempty : tensors ≠ []
  names : (tensors.map Tensor.name).Nodup
  wellFormed : ∀ t ∈ tensors, t.WellFormed

theorem map_content (tensors : List Tensor) :
    (tensors.zip (ranges tensors)).map (fun t => ({ t.1 with
      bytes := Tiling.slice (dataSection tensors) t.2 } : Tensor)) = tensors := by
  have hslices : (ranges tensors).map (Tiling.slice (dataSection tensors)) =
      tensors.map Tensor.bytes := by
    have hplace := Tiling.slice_place [] (tensors.map Tensor.bytes)
    rwa [List.nil_append] at hplace
  have hself : List.zipWith (fun (t : Tensor) bytes => ({ t with bytes } : Tensor)) tensors
      (tensors.map Tensor.bytes) = tensors := by
    rw [List.zipWith_map_right, List.zipWith_self]
    exact List.map_id _
  rw [List.map_zip_eq_zipWith]
  rw [← hslices, List.zipWith_map_right] at hself
  exact hself

theorem parseTensors_layout {tensors : List Tensor} (h : Layout tensors)
    (hname : ∀ t ∈ tensors, t.name ≠ "") {entries : List (String × Json)}
    (hentries : List.Forall₂ Describes entries (tensors.zip (ranges tensors))) :
    List.Forall₂ (fun m r => parseTensor m.1 m.2 (dataSection tensors).length = .ok r) entries
      ((tensors.zip (ranges tensors)).map regionOf) := by
  rw [List.forall₂_map_right_iff, List.forall₂_iff_zip]
  obtain ⟨hlen, hall⟩ := List.forall₂_iff_zip.mp hentries
  refine ⟨hlen, ?_⟩
  rintro m ⟨t, r⟩ hm
  have hplaced := (List.of_mem_zip hm).2
  obtain ⟨hrange, hfits⟩ := placed_spec hplaced
  have ht := (List.of_mem_zip hplaced).1
  have hdescribes := hall hm
  rw [hrange] at hdescribes ⊢
  exact parseTensor_eq (h.wellFormed t ht) (hname t ht) hfits hdescribes

theorem file_spec {text : String} (tensors : List Tensor)
    (hmost : (Bytes.textBytes text).length ≤ maxHeaderBytes) :
    Bytes.ofLittleEndian ((file text tensors).take 8) = (Bytes.textBytes text).length ∧
      ((file text tensors).drop 8).take (Bytes.textBytes text).length = Bytes.textBytes text ∧
      (file text tensors).drop (8 + (Bytes.textBytes text).length) = dataSection tensors ∧
      (file text tensors).length =
        8 + (Bytes.textBytes text).length + (dataSection tensors).length := by
  have height : (Bytes.littleEndian 8 (Bytes.textBytes text).length).length = 8 :=
    Bytes.length_littleEndian _ _
  have hnumber : (Bytes.textBytes text).length < 256 ^ 8 :=
    Nat.lt_of_le_of_lt hmost (by decide)
  refine ⟨?_, ?_, ?_, ?_⟩
  · rw [file, List.append_assoc, List.take_append_of_le_length height.ge,
      List.take_of_length_le height.le, Bytes.ofLittleEndian_littleEndian hnumber]
  · rw [file, List.append_assoc, List.drop_append_of_le_length height.ge,
      List.drop_of_length_le height.le, List.nil_append, List.take_left]
  · rw [file, List.append_assoc, ← List.drop_drop, List.drop_append_of_le_length height.ge,
      List.drop_of_length_le height.le, List.nil_append, List.drop_left]
  · rw [file, List.length_append, List.length_append, height]

theorem layout_accepted {loads : String → Option Json} {tensors : List Tensor}
    (h : Layout tensors) (hname : ∀ t ∈ tensors, t.name ≠ "" ∧ t.name ≠ metadataKey)
    {metadata : Option (List (String × String))} {text : String}
    (hh : Header loads tensors metadata text) :
    ∃ d, parseSafetensors loads (file text tensors) = .ok d ∧
      (d.tensors.map d.content).Perm tensors ∧ d.metadata = metadata.getD [] := by
  obtain ⟨hnumber, htext, hdata, hlength⟩ := file_spec tensors hh.most
  obtain ⟨members, entries, hheader, hmetadata, hfilter, hentries⟩ :=
    hh.members h.names fun t ht => (hname t ht).2
  obtain ⟨regions, hregions, hperm⟩ := List.perm_comp_forall₂ hfilter
    (parseTensors_layout h (fun t ht => (hname t ht).1) hentries)
  have hordered : ∀ r ∈ sortedRegions regions, r.start ≤ r.stop := by
    intro r hr
    obtain ⟨⟨t, range⟩, ht, rfl⟩ :=
      List.mem_map.mp (hperm.mem_iff.mp ((sortedRegions_perm regions).mem_iff.mp hr))
    have hrange := (placed_spec ht).1
    show range.1 ≤ range.2
    rw [hrange]
    exact Nat.le_add_right _ _
  have hranges : ((sortedRegions regions).map SafeTensorRegion.range).Perm (ranges tensors) := by
    refine (((sortedRegions_perm regions).trans hperm).map _).trans (.of_eq ?_)
    rw [List.map_map]
    exact placed_snd tensors
  have hcheck : checkRanges (dataSection tensors).length 0 (sortedRegions regions) = .ok () :=
    (checkRanges_iff hordered).mpr
      ((ranges_tiles tensors).perm_sorted hranges (sortedRegions_before regions))
  have hsome : regions ≠ [] := by
    intro hnil
    have hlen := hperm.length_eq
    rw [hnil, List.length_map, List.length_zip, length_ranges, Nat.min_self] at hlen
    exact h.nonempty (List.length_eq_zero_iff.mp hlen.symm)
  refine ⟨⟨file text tensors, 8 + (Bytes.textBytes text).length, regions, metadata.getD []⟩,
    ?_, ?_, rfl⟩
  · unfold parseSafetensors
    rw [if_neg (by omega), hnumber]
    simp only
    rw [if_neg (not_not_intro ⟨hh.least, hh.most⟩), if_neg (by omega), htext,
      Bytes.readText_textBytes]
    simp only [hheader, hmetadata, Except.bind]
    rw [hlength, Nat.add_sub_cancel_left, parseTensors_eq hregions]
    simp only
    rw [if_neg (by simpa using hsome), hcheck]
    rfl
  · refine (hperm.map _).trans (.of_eq ?_)
    rw [List.map_map]
    refine (List.map_congr_left fun t _ => ?_).trans (map_content tensors)
    show (⟨t.1.name, t.1.dtype, t.1.shape, Tiling.slice (List.drop _ _) t.2⟩ : Tensor) = _
    rw [hdata]

/-! ## sound and complete -/

theorem SafeTensorData.Sound.length_bytes {d : SafeTensorData} (h : d.Sound) :
    ∀ r ∈ d.tensors, (d.bytes r).length = r.shape.prod * r.dtype.elementBytes := by
  intro r hr
  have hsized := h.sized r hr
  have hstop := hsized.bounded
  rw [← hsized.length, SafeTensorData.bytes, Tiling.slice, List.length_take, List.length_drop]
  show min (r.stop - r.start) (d.section.length - r.start) = r.stop - r.start
  omega

/-- the regions in the order of their offsets: apart, and every byte in one of them -/
theorem SafeTensorData.Sound.partition {d : SafeTensorData} (h : d.Sound) :
    (sortedRegions d.tensors).Pairwise (fun r s => r.stop ≤ s.start) ∧
      (∀ i < d.section.length, ∃ r ∈ d.tensors, r.start ≤ i ∧ i < r.stop) ∧
      ((sortedRegions d.tensors).map d.bytes).flatten = d.section := by
  refine ⟨List.pairwise_map.mp h.tiles.disjoint, ?_, ?_⟩
  · intro i hi
    obtain ⟨range, hrange, hlow, hhigh⟩ := h.tiles.covers (Nat.zero_le i) hi
    obtain ⟨r, hr, rfl⟩ := List.mem_map.mp hrange
    exact ⟨r, (sortedRegions_perm d.tensors).mem_iff.mp hr, hlow, hhigh⟩
  · have hflatten := h.tiles.flatten
    rwa [List.map_map, List.drop_zero] at hflatten

/-- **Sound and complete parsing.**  The regions of an accepted buffer tile its data section, which is
what follows the length prefix and the header, and have the lengths that their shapes and types say;
and every layout of well-formed tensors, whose names are
neither empty nor the key of the metadata, is accepted and gives back its tensors. -/
theorem safetensors_sound_complete (loads : String → Option Json) :
    (∀ (buffer : List UInt8) (d : SafeTensorData), parseSafetensors loads buffer = .ok d →
      d.buffer = buffer ∧ d.dataStart = 8 + Bytes.ofLittleEndian (buffer.take 8) ∧
      d.dataStart ≤ buffer.length ∧ d.tensors ≠ [] ∧
      Tiling.Tiles d.section.length 0 ((sortedRegions d.tensors).map SafeTensorRegion.range) ∧
      (sortedRegions d.tensors).Pairwise (fun r s => r.stop ≤ s.start) ∧
      (∀ i < d.section.length, ∃ r ∈ d.tensors, r.start ≤ i ∧ i < r.stop) ∧
      ((sortedRegions d.tensors).map d.bytes).flatten = d.section ∧
      ∀ r ∈ d.tensors, (d.bytes r).length = r.shape.prod * r.dtype.elementBytes) ∧
    ∀ (tensors : List Tensor) (metadata : Option (List (String × String))) (text : String),
      Layout tensors → (∀ t ∈ tensors, t.name ≠ "" ∧ t.name ≠ metadataKey) →
      Header loads tensors metadata text →
      ∃ d, parseSafetensors loads (file text tensors) = .ok d ∧
        (d.tensors.map d.content).Perm tensors ∧ d.metadata = metadata.getD [] := by
  constructor
  · intro buffer d hparse
    obtain ⟨hbuffer, hstart, hlength, hsound⟩ := parseSafetensors_ok hparse
    obtain ⟨hapart, hcovers, hflatten⟩ := hsound.partition
    exact ⟨hbuffer, hstart, hlength, hsound.nonempty, hsound.tiles, hapart, hcovers, hflatten,
      hsound.length_bytes⟩
  · intro tensors metadata text hlayout hnames hheader
    exact layout_accepted hlayout hnames hheader

/-- a scalar before an empty tensor -/
def exampleTensors : List Tensor := [⟨"b", .fp16, [], [1, 2]⟩, ⟨"a", .fp32, [3, 0], []⟩]

def exampleText : String :=
  "\x7b\"a\":\x7b\"dtype\":\"F32\",\"shape\":[3,0],\"data_offsets\":[2,2]\x7d," ++
    "\"b\":\x7b\"data_offsets\":[0,2],\"dtype\":\"F16\",\"shape\":[]\x7d\x7d"

def exampleMembers : List (String × Json) :=
  [("a", .obj [("dtype", .str "F32"), ("shape", .arr [.int 3, .int 0]),
      ("data_offsets", .arr [.int 2, .int 2])]),
    ("b", .obj [("data_offsets", .arr [.int 0, .int 2]), ("dtype", .str "F16"),
      ("shape", .arr [])])]

def readExample (text : String) : Option Json :=
  if text = exampleText then some (.obj exampleMembers) else none

theorem exampleTensors_layout : Layout exampleTensors where
  nonempty := by decide
  names := by decide
  wellFormed := by
    intro t ht
    simp only [exampleTensors, List.mem_cons, List.not_mem_nil, or_false] at ht
    rcases ht with rfl | rfl
    · exact ⟨rfl, by decide, fun k => by simp⟩
    · refine ⟨rfl, by decide, fun k => ?_⟩
      match k with
      | 0 => decide
      | 1 => decide
      | k + 2 => simp

theorem exampleText_header : Header readExample exampleTensors none exampleText where
  opens := by decide +kernel
  least := by decide +kernel
  most := by decide +kernel
  keys := List.nodup_nil
  reads := by
    refine ⟨exampleMembers, exampleMembers.reverse, if_pos rfl, (List.reverse_perm _).symm, ?_⟩
    refine .cons ⟨rfl, _, rfl, ?_⟩ (.cons ⟨rfl, _, rfl, .refl _⟩ .nil)
    exact (List.Perm.swap _ _ _).trans ((List.Perm.swap _ _ _).cons _)

theorem safetensors_sound_complete_example :
    ∃ d, parseSafetensors readExample (file exampleText exampleTensors) = .ok d ∧
      (d.tensors.map d.content).Perm exampleTensors ∧
      ((sortedRegions d.tensors).map d.bytes).flatten = d.section := by
  obtain ⟨hsound, hcomplete⟩ := safetensors_sound_complete readExample
  obtain ⟨d, hparse, hcontent, _⟩ := hcomplete exampleTensors none exampleText
    exampleTensors_layout (by decide) exampleText_header
  obtain ⟨_, _, _, _, _, _, _, hflatten, _⟩ := hsound _ d hparse
  exact ⟨d, hparse, hcontent, hflatten⟩

/-! ## names that are refused -/

def named (name : String) : Tensor := ⟨name, .fp16, [], [0, 0]⟩

def namedText (name : String) : String :=
  "\x7b\"" ++ name ++ "\":\x7b\"dtype\":\"F16\",\"shape\":[],\"data_offsets\":[0,2]\x7d\x7d"

def readNamed (name text : String) : Option Json :=
  if text = namedText name then some (.obj [(name, .obj (entryFields (named name) (0, 2)))])
  else none

theorem named_layout (name : String) : Layout [named name] :=
  ⟨List.cons_ne_nil _ _, List.nodup_singleton _, fun t ht => by
    rw [List.mem_singleton.mp ht]
    exact ⟨rfl, by simp [named], fun k => by simp [named]⟩⟩

theorem named_header {name : String} (h : name ∈ ["", metadataKey]) :
    Header (readNamed name) [named name] none (namedText name) where
  opens := by
    revert name
    decide +kernel
  least := by
    revert name
    decide +kernel
  most := by
    revert name
    decide +kernel
  keys := List.nodup_nil
  reads := ⟨_, _, if_pos rfl, .refl _, .cons ⟨rfl, _, rfl, .refl _⟩ .nil⟩

/-- a tensor without a name, and one under the key of the metadata, are laid out legally and refused -/
theorem unnamed_tensor_refused :
    (¬ ∀ (loads : String → Option Json) (tensors : List Tensor)
      (metadata : Option (List (String × String))) (text : String),
      Layout tensors → Header loads tensors metadata text →
      ∃ d, parseSafetensors loads (file text tensors) = .ok d ∧
        (d.tensors.map d.content).Perm tensors) ∧
    ∀ name ∈ ["", metadataKey], Layout [named name] ∧
      Header (readNamed name) [named name] none (namedText name) ∧
      (parseSafetensors (readNamed name) (file (namedText name) [named name])).isOk = false := by
  have hrefused : ∀ name ∈ ["", metadataKey],
      (parseSafetensors (readNamed name) (file (namedText name) [named name])).isOk = false := by
    decide +kernel
  constructor
  · intro h
    obtain ⟨d, hparse, _⟩ := h (readNamed "") [named ""] none (namedText "") (named_layout "")
      (named_header List.mem_cons_self)
    have hno := hrefused "" List.mem_cons_self
    rw [hparse] at hno
    cases hno
  · intro name hname
    exact ⟨named_layout name, named_header hname, hrefused name hname⟩

end ExpertKit.Worker.SafeTensors

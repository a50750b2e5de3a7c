import ExpertKit.Lib.Wire

/-!
# The bytes of protocol buffer messages

A message is a sequence of fields, each a tag and a varint or a length and that many bytes; a varint
holds seven bits a byte, the lowest first, and has at most ten bytes.  A varint of a repeated field
may be packed with others in one field.

* `varint`, `readVarint`, `readVarint_append`   a number and its bytes;
* `packed`, `readPacked_packed`                 a list of numbers;
* `Field`, `fields`, `readFields`, `readFields_fields`   a message, as its fields;
* `length_varint`, `length_field_number`, `length_field_bytes`   the sizes of `Wire`;
* `Codec`, `Codec.Lawful`, `Codec.ofFields_lawful`   the messages of one type.
-/

namespace Protobuf

/-! ## numbers -/

/-- at most `fuel` bytes -/
def varintBytes : Nat → Nat → List UInt8
  | 0, _ => []
  | fuel + 1, n =>
    if n < 128 then [UInt8.ofNat n]
    else UInt8.ofNat (n % 128 + 128) :: varintBytes fuel (n / 128)

def varint (n : Nat) : List UInt8 := varintBytes 10 n

/-- the number at the start and the bytes after it -/
def readVarintBytes : Nat → List UInt8 → Option (Nat × List UInt8)
  | 0, _ => none
  | _, [] => none
  | fuel + 1, b :: rest =>
    if b.toNat < 128 then some (b.toNat, rest)
    else (readVarintBytes fuel rest).map fun r => (b.toNat - 128 + 128 * r.1, r.2)

def readVarint (bytes : List UInt8) : Option (Nat × List UInt8) := readVarintBytes 10 bytes

theorem readVarintBytes_append {fuel n : Nat} (h : n < 128 ^ (fuel + 1)) (rest : List UInt8) :
    readVarintBytes (fuel + 1) (varintBytes (fuel + 1) n ++ rest) = some (n, rest) := by
  induction fuel generalizing n with
  | zero =>
    have hn : n < 128 := by simpa using h
    rw [varintBytes, if_pos hn]
    simp [readVarintBytes, Nat.mod_eq_of_lt (show n < 256 by omega), hn]
  | succ fuel ih =>
    rw [varintBytes]
    split_ifs with hn
    · simp [readVarintBytes, Nat.mod_eq_of_lt (show n < 256 by omega), hn]
    · have hdiv : n / 128 < 128 ^ (fuel + 1) :=
        Nat.div_lt_of_lt_mul (by rwa [Nat.pow_succ, Nat.mul_comm] at h)
      have hbyte : (UInt8.ofNat (n % 128 + 128)).toNat = n % 128 + 128 := by
        rw [UInt8.toNat_ofNat']
        omega
      rw [List.cons_append, readVarintBytes, hbyte, if_neg (by omega), ih hdiv]
      simp only [Option.map_some, Option.some.injEq, Prod.mk.injEq, and_true]
      omega

theorem readVarint_append {n : Nat} (h : n < 2 ^ 64) (rest : List UInt8) :
    readVarint (varint n ++ rest) = some (n, rest) :=
  readVarintBytes_append (h.trans (by norm_num)) rest

theorem varintSize_step {n : Nat} (h : 128 ≤ n) :
    Wire.varintSize n = Wire.varintSize (n / 128) + 1 := by
  have hlog : Nat.log2 (n / 128) + 7 = Nat.log2 n := by
    apply Eq.symm
    rw [Nat.log2_eq_iff (by omega)]
    have hpos : n / 128 ≠ 0 := by omega
    obtain ⟨hlow, hhigh⟩ := (Nat.log2_eq_iff hpos).mp rfl
    constructor
    · rw [Nat.pow_add]
      omega
    · rw [show (n / 128).log2 + 7 + 1 = (n / 128).log2 + 1 + 7 by omega, Nat.pow_add]
      omega
  unfold Wire.varintSize
  omega

theorem varintSize_small {n : Nat} (h : n < 128) : Wire.varintSize n = 1 := by
  unfold Wire.varintSize
  rcases Nat.eq_zero_or_pos n with rfl | hpos
  · decide
  · have hlog : Nat.log2 n < 7 := (Nat.log2_lt hpos.ne').mpr (by omega)
    omega

theorem length_varintBytes {fuel n : Nat} (h : n < 128 ^ (fuel + 1)) :
    (varintBytes (fuel + 1) n).length = Wire.varintSize n := by
  induction fuel generalizing n with
  | zero =>
    have hn : n < 128 := by simpa using h
    rw [varintBytes, if_pos hn, varintSize_small hn]
    rfl
  | succ fuel ih =>
    rw [varintBytes]
    split_ifs with hn
    · rw [varintSize_small hn]
      rfl
    · have hdiv : n / 128 < 128 ^ (fuel + 1) :=
        Nat.div_lt_of_lt_mul (by rwa [Nat.pow_succ, Nat.mul_comm] at h)
      rw [List.length_cons, ih hdiv, varintSize_step (n := n) (by omega)]

theorem length_varint {n : Nat} (h : n < 2 ^ 64) : (varint n).length = Wire.varintSize n :=
  length_varintBytes (h.trans (by norm_num))

/-! ## packed lists -/

def packed (ns : List Nat) : List UInt8 := ns.flatMap varint

def packedSize (ns : List Nat) : Nat := (ns.map Wire.varintSize).sum

/-- reads at most `fuel` numbers -/
def readPackedBytes : Nat → List UInt8 → Option (List Nat)
  | _, [] => some []
  | 0, _ => none
  | fuel + 1, bytes =>
    (readVarint bytes).bind fun r => (readPackedBytes fuel r.2).map (r.1 :: ·)

theorem readPackedBytes_succ {bytes : List UInt8} (h : bytes ≠ []) (fuel : Nat) :
    readPackedBytes (fuel + 1) bytes =
      (readVarint bytes).bind fun r => (readPackedBytes fuel r.2).map (r.1 :: ·) := by
  cases bytes with
  | nil => exact absurd rfl h
  | cons b rest => rfl

def readPacked (bytes : List UInt8) : Option (List Nat) := readPackedBytes bytes.length bytes

theorem varintBytes_pos (fuel n : Nat) : 0 < (varintBytes (fuel + 1) n).length := by
  rw [varintBytes]
  split_ifs <;> simp

theorem varint_ne_nil (n : Nat) : varint n ≠ [] :=
  List.ne_nil_of_length_pos (varintBytes_pos 9 n)

theorem length_packed {ns : List Nat} (h : ∀ n ∈ ns, n < 2 ^ 64) :
    (packed ns).length = packedSize ns := by
  rw [packed, packedSize, List.length_flatMap]
  congr 1
  exact List.map_congr_left fun n hn => length_varint (h n hn)

theorem readPackedBytes_packed {ns : List Nat} (h : ∀ n ∈ ns, n < 2 ^ 64) {fuel : Nat}
    (hfuel : (packed ns).length ≤ fuel) : readPackedBytes fuel (packed ns) = some ns := by
  induction ns generalizing fuel with
  | nil => cases fuel <;> rfl
  | cons n ns ih =>
    have hpos := varintBytes_pos 9 n
    have hlength : (packed (n :: ns)).length = (varint n).length + (packed ns).length := by
      simp [packed]
    rw [hlength] at hfuel
    change 0 < (varint n).length at hpos
    obtain ⟨fuel, rfl⟩ : ∃ k, fuel = k + 1 := ⟨fuel - 1, by omega⟩
    have hcons : packed (n :: ns) = varint n ++ packed ns := rfl
    have hne : varint n ++ packed ns ≠ [] := by simp [varint_ne_nil]
    rw [hcons, readPackedBytes_succ hne, readVarint_append (h n List.mem_cons_self),
      Option.bind_some, ih (fun m hm => h m (List.mem_cons_of_mem _ hm)) (by omega)]
    rfl

theorem readPacked_packed {ns : List Nat} (h : ∀ n ∈ ns, n < 2 ^ 64) :
    readPacked (packed ns) = some ns :=
  readPackedBytes_packed h (Nat.le_refl _)

/-! ## fields -/

inductive Value where
  | number (n : Nat)
  | bytes (content : List UInt8)
deriving DecidableEq, Repr

structure Field where
  number : Nat
  value : Value
deriving DecidableEq, Repr

/-- a field whose tag, number and length have encodings -/
structure Field.Fits (f : Field) : Prop where
  tag : f.number < 2 ^ 29
  number : ∀ n, f.value = .number n → n < 2 ^ 64
  length : ∀ content, f.value = .bytes content → content.length < 2 ^ 64

def field (f : Field) : List UInt8 :=
  match f.value with
  | .number n => varint (8 * f.number) ++ varint n
  | .bytes content => varint (8 * f.number + 2) ++ varint content.length ++ content

theorem field_number (number n : Nat) :
    field ⟨number, .number n⟩ = varint (8 * number) ++ varint n := rfl

theorem field_bytes (number : Nat) (content : List UInt8) :
    field ⟨number, .bytes content⟩ =
      varint (8 * number + 2) ++ varint content.length ++ content := rfl

def fields (fs : List Field) : List UInt8 := fs.flatMap field

/-- the first field and the bytes after it -/
def readField (bytes : List UInt8) : Option (Field × List UInt8) :=
  (readVarint bytes).bind fun tag =>
    (readVarint tag.2).bind fun r =>
      if tag.1 % 8 = 0 then some (⟨tag.1 / 8, .number r.1⟩, r.2)
      else if tag.1 % 8 = 2 ∧ r.1 ≤ r.2.length then
        some (⟨tag.1 / 8, .bytes (r.2.take r.1)⟩, r.2.drop r.1)
      else none

/-- reads at most `fuel` fields -/
def readFieldsBytes : Nat → List UInt8 → Option (List Field)
  | _, [] => some []
  | 0, _ => none
  | fuel + 1, bytes =>
    (readField bytes).bind fun r => (readFieldsBytes fuel r.2).map (r.1 :: ·)

theorem readFieldsBytes_succ {bytes : List UInt8} (h : bytes ≠ []) (fuel : Nat) :
    readFieldsBytes (fuel + 1) bytes =
      (readField bytes).bind fun r => (readFieldsBytes fuel r.2).map (r.1 :: ·) := by
  cases bytes with
  | nil => exact absurd rfl h
  | cons b rest => rfl

def readFields (bytes : List UInt8) : Option (List Field) := readFieldsBytes bytes.length bytes

theorem readField_append {f : Field} (h : f.Fits) (rest : List UInt8) :
    readField (field f ++ rest) = some (f, rest) := by
  obtain ⟨number, value⟩ := f
  have htag := h.tag
  dsimp only at htag
  cases value with
  | number n =>
    rw [field_number, List.append_assoc, readField, readVarint_append (by omega), Option.bind_some]
    dsimp only
    rw [readVarint_append (h.number n rfl), Option.bind_some, if_pos (by omega)]
    simp
  | bytes content =>
    rw [field_bytes, List.append_assoc, List.append_assoc, readField,
      readVarint_append (by omega), Option.bind_some]
    dsimp only
    rw [readVarint_append (h.length content rfl), Option.bind_some, if_neg (by omega),
      if_pos ⟨by omega, by simp⟩]
    have hdiv : (8 * number + 2) / 8 = number := by omega
    simp [hdiv]

theorem field_ne_nil (f : Field) : field f ≠ [] := by
  obtain ⟨number, value⟩ := f
  cases value <;> simp [field, varint_ne_nil]

theorem readFieldsBytes_fields {fs : List Field} (h : ∀ f ∈ fs, f.Fits) {fuel : Nat}
    (hfuel : (fields fs).length ≤ fuel) : readFieldsBytes fuel (fields fs) = some fs := by
  induction fs generalizing fuel with
  | nil => cases fuel <;> rfl
  | cons f fs ih =>
    have hpos := List.length_pos_of_ne_nil (field_ne_nil f)
    have hcons : fields (f :: fs) = field f ++ fields fs := rfl
    rw [hcons, List.length_append] at hfuel
    obtain ⟨fuel, rfl⟩ : ∃ k, fuel = k + 1 := ⟨fuel - 1, by omega⟩
    have hne : field f ++ fields fs ≠ [] := by simp [field_ne_nil]
    rw [hcons, readFieldsBytes_succ hne, readField_append (h f List.mem_cons_self),
      Option.bind_some, ih (fun g hg => h g (List.mem_cons_of_mem _ hg)) (by omega)]
    rfl

/-- a message is read back as it was written -/
theorem readFields_fields {fs : List Field} (h : ∀ f ∈ fs, f.Fits) :
    readFields (fields fs) = some fs :=
  readFieldsBytes_fields h (Nat.le_refl _)

/-! ## sizes -/

/-- a field number below 16 has a one-byte tag -/
theorem length_field_number {number n : Nat} (hnumber : number < 16) (hn : n < 2 ^ 64) :
    (field ⟨number, .number n⟩).length = 1 + Wire.varintSize n := by
  rw [field_number, List.length_append, length_varint (by omega), length_varint hn,
    varintSize_small (by omega)]

theorem length_field_bytes {number : Nat} {content : List UInt8} (hnumber : number < 16)
    (hlength : content.length < 2 ^ 64) :
    (field ⟨number, .bytes content⟩).length = Wire.lenField content.length := by
  rw [field_bytes, List.length_append, List.length_append, length_varint (by omega),
    length_varint hlength, varintSize_small (by omega), Wire.lenField]

/-! ## the fields of a message -/

/-- a field that may be left out -/
def numberField (number : Nat) (n : Option Nat) : List Field :=
  n.toList.map fun n => ⟨number, .number n⟩

def bytesField (number : Nat) (content : Option (List UInt8)) : List Field :=
  content.toList.map fun content => ⟨number, .bytes content⟩

def Field.numberAt (number : Nat) (f : Field) : Option Nat :=
  if f.number = number then
    match f.value with
    | .number n => some n
    | .bytes _ => none
  else none

def Field.bytesAt (number : Nat) (f : Field) : Option (List UInt8) :=
  if f.number = number then
    match f.value with
    | .number _ => none
    | .bytes content => some content
  else none

/-- the last value of a field counts -/
def numberOf (number : Nat) (fs : List Field) : Option Nat :=
  (fs.filterMap (Field.numberAt number)).getLast?

def bytesOf (number : Nat) (fs : List Field) : Option (List UInt8) :=
  (fs.filterMap (Field.bytesAt number)).getLast?

def Field.numbersAt (number : Nat) (f : Field) : Option (List Nat) :=
  if f.number = number then
    match f.value with
    | .number n => some [n]
    | .bytes content => readPacked content
  else some []

/-- all entries of a repeated field, packed or not -/
def numbersOf (number : Nat) : List Field → Option (List Nat)
  | [] => some []
  | f :: fs => (f.numbersAt number).bind fun front => (numbersOf number fs).map (front ++ ·)

section
variable {number k : Nat}

theorem numberOf_append (fs gs : List Field) :
    numberOf k (fs ++ gs) = (numberOf k gs).or (numberOf k fs) := by
  simp [numberOf, List.getLast?_append]

theorem bytesOf_append (fs gs : List Field) :
    bytesOf k (fs ++ gs) = (bytesOf k gs).or (bytesOf k fs) := by
  simp [bytesOf, List.getLast?_append]

theorem numberOf_numberField (n : Option Nat) :
    numberOf k (numberField number n) = if number = k then n else none := by
  cases n with
  | none => split_ifs <;> rfl
  | some n =>
    simp only [numberOf, numberField, Option.toList_some, List.map_cons, List.map_nil,
      List.filterMap_cons, List.filterMap_nil, Field.numberAt]
    split_ifs <;> rfl

theorem numberOf_bytesField (content : Option (List UInt8)) :
    numberOf k (bytesField number content) = none := by
  cases content with
  | none => rfl
  | some content =>
    simp only [numberOf, bytesField, Option.toList_some, List.map_cons, List.map_nil,
      List.filterMap_cons, List.filterMap_nil, Field.numberAt]
    split_ifs <;> rfl

theorem bytesOf_bytesField (content : Option (List UInt8)) :
    bytesOf k (bytesField number content) = if number = k then content else none := by
  cases content with
  | none => split_ifs <;> rfl
  | some content =>
    simp only [bytesOf, bytesField, Option.toList_some, List.map_cons, List.map_nil,
      List.filterMap_cons, List.filterMap_nil, Field.bytesAt]
    split_ifs <;> rfl

theorem bytesOf_numberField (n : Option Nat) : bytesOf k (numberField number n) = none := by
  cases n with
  | none => rfl
  | some n =>
    simp only [bytesOf, numberField, Option.toList_some, List.map_cons, List.map_nil,
      List.filterMap_cons, List.filterMap_nil, Field.bytesAt]
    split_ifs <;> rfl

theorem numbersOf_append (fs gs : List Field) :
    numbersOf k (fs ++ gs) =
      (numbersOf k fs).bind fun front => (numbersOf k gs).map (front ++ ·) := by
  induction fs with
  | nil => simp [numbersOf]
  | cons f fs ih =>
    rw [List.cons_append, numbersOf, numbersOf, ih]
    cases f.numbersAt k <;> cases numbersOf k fs <;> cases numbersOf k gs <;> simp

theorem numbersOf_numberField (h : number ≠ k) (n : Option Nat) :
    numbersOf k (numberField number n) = some [] := by
  cases n <;> simp [numbersOf, numberField, Field.numbersAt, h]

theorem numbersOf_bytesField (h : number ≠ k) (content : Option (List UInt8)) :
    numbersOf k (bytesField number content) = some [] := by
  cases content <;> simp [numbersOf, bytesField, Field.numbersAt, h]

end

theorem numbersOf_packed {number : Nat} {ns : List Nat} (h : ∀ n ∈ ns, n < 2 ^ 64) :
    numbersOf number (bytesField number (if ns = [] then none else some (packed ns))) =
      some ns := by
  split_ifs with hempty
  · rw [hempty]
    rfl
  · simp [numbersOf, bytesField, Field.numbersAt, readPacked_packed h]

/-- the size of a list of fields -/
def fieldsSize (fs : List Field) : Nat := (fs.map fun f => (field f).length).sum

theorem fieldsSize_append (fs gs : List Field) :
    fieldsSize (fs ++ gs) = fieldsSize fs + fieldsSize gs := by
  simp [fieldsSize]

section
variable {number : Nat} (hnumber : number < 16)
include hnumber

theorem fits_numberField {n : Option Nat} (h : ∀ v, n = some v → v < 2 ^ 64) :
    ∀ f ∈ numberField number n, f.Fits := by
  intro f hf
  obtain ⟨v, hv, rfl⟩ := List.mem_map.mp hf
  refine ⟨by dsimp only; omega, fun w hw => ?_, fun content hc => by cases hc⟩
  cases hw
  exact h v (Option.mem_toList.mp hv)

theorem fits_bytesField {content : Option (List UInt8)}
    (h : ∀ c, content = some c → c.length < 2 ^ 64) : ∀ f ∈ bytesField number content, f.Fits := by
  intro f hf
  obtain ⟨c, hc, rfl⟩ := List.mem_map.mp hf
  refine ⟨by dsimp only; omega, fun w hw => (by cases hw), fun d hd => ?_⟩
  cases hd
  exact h c (Option.mem_toList.mp hc)

theorem fieldsSize_numberField {n : Option Nat} (h : ∀ v, n = some v → v < 2 ^ 64) :
    fieldsSize (numberField number n) = (n.map fun v => 1 + Wire.varintSize v).getD 0 := by
  cases n with
  | none => rfl
  | some v => simp [fieldsSize, numberField, length_field_number hnumber (h v rfl)]

theorem fieldsSize_bytesField {content : Option (List UInt8)}
    (h : ∀ c, content = some c → c.length < 2 ^ 64) :
    fieldsSize (bytesField number content) =
      (content.map fun c => Wire.lenField c.length).getD 0 := by
  cases content with
  | none => rfl
  | some c => simp [fieldsSize, bytesField, length_field_bytes hnumber (h c rfl)]

end

/-! ## messages of one type -/

/-- the size of the largest message -/
def maxMessageBytes : Nat := 2 ^ 31 - 1

/-- what a program uses of the library: `SerializeToString`, which fails on messages that are too
large, and `ParseFromString`, which fails on bytes that are no message -/
structure Codec (M : Type*) where
  serialize : M → Option (List UInt8)
  parse : List UInt8 → Option M

/-- the messages whose fields are in range have the size of the wire format and are read back -/
structure Codec.Lawful {M : Type*} (codec : Codec M) (valid : M → Prop) (size : M → Nat) :
    Prop where
  total : ∀ m, valid m → size m ≤ maxMessageBytes → (codec.serialize m).isSome
  parse : ∀ m bytes, valid m → codec.serialize m = some bytes → codec.parse bytes = some m
  length : ∀ m bytes, valid m → codec.serialize m = some bytes → bytes.length = size m

/-- the codec of a message that is written as fields and rebuilt from them -/
def Codec.ofFields {M : Type*} (size : M → Nat) (write : M → List Field)
    (read : List Field → Option M) : Codec M where
  serialize m := if size m ≤ maxMessageBytes then some (fields (write m)) else none
  parse bytes := (readFields bytes).bind read

theorem Codec.ofFields_lawful {M : Type*} {write : M → List Field} {read : List Field → Option M}
    {valid : M → Prop} {size : M → Nat}
    (hfits : ∀ m, valid m → size m ≤ maxMessageBytes → ∀ f ∈ write m, f.Fits)
    (hread : ∀ m, valid m → size m ≤ maxMessageBytes → read (write m) = some m)
    (hsize : ∀ m, valid m → size m ≤ maxMessageBytes → fieldsSize (write m) = size m) :
    (Codec.ofFields size write read).Lawful valid size where
  total m _ hm := by simp [Codec.ofFields, hm]
  parse m bytes hm hbytes := by
    obtain ⟨hmax, heq⟩ := Option.ite_none_right_eq_some.mp hbytes
    cases heq
    have hfields := readFields_fields (hfits m hm hmax)
    simp only [Codec.ofFields, hfields, Option.bind_some, hread m hm hmax]
  length m bytes hm hbytes := by
    obtain ⟨hmax, heq⟩ := Option.ite_none_right_eq_some.mp hbytes
    cases heq
    rw [← hsize m hm hmax]
    simp [fields, fieldsSize, List.length_flatMap]

end Protobuf

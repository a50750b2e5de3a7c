import Mathlib

/-!
# Numbers, tables and texts as bytes

* `reshape`, `reshape_flatten`   a table of fixed width and its rows one after the other;
* `littleEndian`, `ofLittleEndian`   a number and its lowest bytes;
* `numberBytes`, `ofNumberBytes`     a list of numbers of fixed width;
* `textBytes`, `readText`            a text in UTF-8.
-/

namespace Bytes

/-! ## tables -/

def reshape {α : Type*} (rows cols : Nat) (l : List α) : List (List α) :=
  (List.range rows).map fun i => (l.drop (i * cols)).take cols

section
variable {α : Type*}

theorem length_reshape (rows cols : Nat) (l : List α) : (reshape rows cols l).length = rows := by
  simp [reshape]

theorem reshape_succ (rows cols : Nat) (l : List α) :
    reshape (rows + 1) cols l = l.take cols :: reshape rows cols (l.drop cols) := by
  unfold reshape
  rw [List.range_succ_eq_map, List.map_cons, List.map_map]
  congr 1
  · simp
  · apply List.map_congr_left
    intro i _
    have hindex : i.succ * cols = cols + i * cols := by rw [Nat.succ_mul, Nat.add_comm]
    simp only [Function.comp_apply, List.drop_drop, hindex]

theorem reshape_flatten {cols : Nat} {table : List (List α)}
    (h : ∀ row ∈ table, row.length = cols) : reshape table.length cols table.flatten = table := by
  induction table with
  | nil => rfl
  | cons row table ih =>
    have hrow := h row List.mem_cons_self
    rw [List.length_cons, reshape_succ, List.flatten_cons, List.take_append_of_le_length hrow.ge,
      List.drop_append_of_le_length hrow.ge, List.take_of_length_le hrow.le,
      List.drop_of_length_le hrow.le, List.nil_append,
      ih fun other hother => h other (List.mem_cons_of_mem _ hother)]

theorem length_of_mem_reshape {rows cols : Nat} {l row : List α} (h : l.length = rows * cols)
    (hrow : row ∈ reshape rows cols l) : row.length = cols := by
  obtain ⟨i, hi, rfl⟩ := List.mem_map.mp hrow
  have hlt := List.mem_range.mp hi
  have hle : (i + 1) * cols ≤ rows * cols := Nat.mul_le_mul_right _ hlt
  rw [List.length_take, List.length_drop, h]
  rw [Nat.succ_mul] at hle
  omega

theorem length_flatten_of {cols : Nat} {table : List (List α)}
    (h : ∀ row ∈ table, row.length = cols) : table.flatten.length = table.length * cols := by
  rw [List.length_flatten, List.map_congr_left h]
  simp

end

/-! ## numbers -/

def littleEndian (width n : Nat) : List UInt8 :=
  (List.range width).map fun i => UInt8.ofNat (n / 256 ^ i)

def ofLittleEndian (bytes : List UInt8) : Nat := Nat.ofDigits 256 (bytes.map UInt8.toNat)

theorem length_littleEndian (width n : Nat) : (littleEndian width n).length = width := by
  simp [littleEndian]

theorem littleEndian_succ (width n : Nat) :
    littleEndian (width + 1) n = UInt8.ofNat n :: littleEndian width (n / 256) := by
  unfold littleEndian
  rw [List.range_succ_eq_map, List.map_cons, List.map_map]
  congr 1
  · simp
  · apply List.map_congr_left
    intro i _
    have hpow : 256 ^ i.succ = 256 * 256 ^ i := pow_succ' 256 i
    simp only [Function.comp_apply, Nat.div_div_eq_div_mul, hpow]

theorem ofLittleEndian_littleEndian {width n : Nat} (h : n < 256 ^ width) :
    ofLittleEndian (littleEndian width n) = n := by
  induction width generalizing n with
  | zero =>
    have hn : n = 0 := by simpa using h
    rw [hn]
    rfl
  | succ width ih =>
    have hdiv : n / 256 < 256 ^ width :=
      Nat.div_lt_of_lt_mul (by rwa [pow_succ, Nat.mul_comm] at h)
    have hrest := ih hdiv
    unfold ofLittleEndian at hrest ⊢
    rw [littleEndian_succ, List.map_cons, Nat.ofDigits_cons, hrest, UInt8.toNat_ofNat']
    omega

theorem ofLittleEndian_lt (bytes : List UInt8) : ofLittleEndian bytes < 256 ^ bytes.length := by
  have hdigits : ∀ n ∈ bytes.map UInt8.toNat, n < 256 := by
    intro n hn
    obtain ⟨b, _, rfl⟩ := List.mem_map.mp hn
    exact b.toNat_lt
  have hlt := Nat.ofDigits_lt_base_pow_length (by norm_num) hdigits
  rwa [List.length_map] at hlt

/-! ## lists of numbers -/

def numberBytes (width : Nat) (ns : List Nat) : List UInt8 := ns.flatMap (littleEndian width)

def ofNumberBytes (width count : Nat) (bytes : List UInt8) : List Nat :=
  (reshape count width bytes).map ofLittleEndian

theorem length_numberBytes (width : Nat) (ns : List Nat) :
    (numberBytes width ns).length = ns.length * width := by
  simp [numberBytes, List.length_flatMap, length_littleEndian]

theorem ofNumberBytes_numberBytes {width : Nat} {ns : List Nat} (h : ∀ n ∈ ns, n < 256 ^ width) :
    ofNumberBytes width ns.length (numberBytes width ns) = ns := by
  have htable : ∀ row ∈ ns.map (littleEndian width), row.length = width := by
    intro row hrow
    obtain ⟨n, _, rfl⟩ := List.mem_map.mp hrow
    exact length_littleEndian width n
  have hreshape := reshape_flatten htable
  rw [List.length_map] at hreshape
  unfold ofNumberBytes numberBytes
  rw [List.flatMap_def, hreshape, List.map_map]
  exact (List.map_congr_left fun n hn => ofLittleEndian_littleEndian (h n hn)).trans
    (List.map_id _)

theorem length_ofNumberBytes (width count : Nat) (bytes : List UInt8) :
    (ofNumberBytes width count bytes).length = count := by
  simp [ofNumberBytes, length_reshape]

theorem ofNumberBytes_lt {width count : Nat} {bytes : List UInt8}
    (h : bytes.length = count * width) : ∀ n ∈ ofNumberBytes width count bytes, n < 256 ^ width := by
  intro n hn
  obtain ⟨row, hrow, rfl⟩ := List.mem_map.mp hn
  have hlt := ofLittleEndian_lt row
  rwa [length_of_mem_reshape h hrow] at hlt

theorem mem_of_mem_reshape {α : Type*} {rows cols : Nat} {l row : List α}
    (hrow : row ∈ reshape rows cols l) : row ⊆ l := by
  obtain ⟨i, _, rfl⟩ := List.mem_map.mp hrow
  exact List.Subset.trans (List.take_subset _ _) (List.drop_subset _ _)

/-! ## texts -/

def textBytes (text : String) : List UInt8 := text.toByteArray.data.toList

def readText (bytes : List UInt8) : Option String := String.fromUTF8? ⟨bytes.toArray⟩

theorem readText_textBytes (text : String) : readText (textBytes text) = some text := by
  have hbytes : (⟨text.toByteArray.data.toList.toArray⟩ : ByteArray) = text.toByteArray := by
    rw [Array.toArray_toList]
  unfold readText textBytes
  rw [hbytes, String.fromUTF8?, dif_pos text.isValidUTF8]
  rfl

theorem length_textBytes (text : String) : (textBytes text).length = text.utf8ByteSize := by
  rfl

end Bytes

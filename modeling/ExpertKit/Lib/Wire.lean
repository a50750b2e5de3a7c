import Mathlib

/-!
# Encoded sizes of protocol buffer messages

The proto3 wire format: an integer field is a one-byte tag (field numbers below 16) and a varint of
seven bits a byte, a field with its default value is left out, an embedded message or string is
preceded by its length.

* `varintSize`, `uintField`, `boolField`, `lenField`   the sizes;
* `uintField_le`        an integer field of width `w` takes at most `w / 7 + 2` bytes.
-/

namespace Wire

def varintSize (n : Nat) : Nat := Nat.log2 n / 7 + 1

/-- an unsigned field of the given width -/
def uintField (width value : Nat) : Nat :=
  if value % 2 ^ width = 0 then 0 else 1 + varintSize (value % 2 ^ width)

def boolField (b : Bool) : Nat := if b then 2 else 0

/-- one entry of a repeated message or string field, whose content has `size` bytes -/
def lenField (size : Nat) : Nat := 1 + varintSize size + size

theorem varintSize_le {n width : Nat} (h : n < 2 ^ width) : varintSize n ≤ width / 7 + 1 := by
  unfold varintSize
  by_cases hn : n = 0
  · subst hn
    simp
  · have hlog : Nat.log2 n < width := (Nat.log2_lt hn).mpr h
    have hdiv : Nat.log2 n / 7 ≤ width / 7 := Nat.div_le_div_right (Nat.le_of_lt hlog)
    omega

theorem uintField_le (width value : Nat) : uintField width value ≤ width / 7 + 2 := by
  unfold uintField
  have hlt : value % 2 ^ width < 2 ^ width := Nat.mod_lt _ (Nat.two_pow_pos width)
  have hsize := varintSize_le hlt
  split_ifs <;> omega

theorem boolField_le (b : Bool) : boolField b ≤ 2 := by
  cases b <;> simp [boolField]

/-- a short embedded message has a one-byte length -/
theorem lenField_le (bound : Nat) {size : Nat} (h : size ≤ bound) (hb : bound < 2 ^ 7) :
    lenField size ≤ 3 + bound := by
  unfold lenField
  have hsize : varintSize size ≤ 7 / 7 + 1 := varintSize_le (by omega)
  omega

end Wire

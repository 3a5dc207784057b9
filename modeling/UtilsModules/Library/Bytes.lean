import Mathlib.Algebra.GroupWithZero.Nat
import Mathlib.Algebra.Ring.Int.Defs
import Mathlib.Data.List.Basic

/-!
Little-endian numbers in byte strings.

Reading past the end of a string yields zero, as in a buffer that was cleared
before it was filled.
-/

namespace Bytes

def byteAt (bytes : List UInt8) (offset : Nat) : Nat := (bytes.getD offset 0).toNat

def ushortAt (bytes : List UInt8) (offset : Nat) : Nat :=
  byteAt bytes offset + 256 * byteAt bytes (offset + 1)

def ushortBytes (value : Nat) : List UInt8 := [UInt8.ofNat value, UInt8.ofNat (value / 256)]

/-- The 16-bit numbers packed in a string; an odd last byte is not read. -/
def ushorts : List UInt8 → List Nat
  | low :: high :: rest => (low.toNat + 256 * high.toNat) :: ushorts rest
  | _ => []

def longBytes (value : Int) : List UInt8 :=
  (List.range 8).map fun place => UInt8.ofNat ((value % 2 ^ 64).toNat / 256 ^ place)

def longAt (bytes : List UInt8) (offset : Nat) : Int :=
  let magnitude := (List.range 8).foldr (fun place high => byteAt bytes (offset + place) + 256 * high) 0
  if magnitude < 2 ^ 63 then magnitude else magnitude - 2 ^ 64

def intBytes (value : Nat) : List UInt8 :=
  [UInt8.ofNat value, UInt8.ofNat (value / 256), UInt8.ofNat (value / 65536),
    UInt8.ofNat (value / 16777216)]

def intAt (bytes : List UInt8) (offset : Nat) : Int :=
  let magnitude := byteAt bytes offset + 256 * byteAt bytes (offset + 1) +
    65536 * byteAt bytes (offset + 2) + 16777216 * byteAt bytes (offset + 3)
  if magnitude < 2 ^ 31 then magnitude else magnitude - 2 ^ 32

@[simp]
theorem length_intBytes (value : Nat) : (intBytes value).length = 4 := rfl

theorem intAt_intBytes {front back : List UInt8} {value : Nat} (small : value < 2 ^ 31) :
    intAt (front ++ intBytes value ++ back) front.length = value := by
  have byte : ∀ index < 4, byteAt (front ++ intBytes value ++ back) (front.length + index) =
      byteAt (intBytes value) index := by
    intro index inside
    unfold byteAt
    congr 1
    rw [List.append_assoc, List.getD_eq_getElem?_getD, List.getElem?_append_right (by omega),
      Nat.add_sub_cancel_left, List.getElem?_append_left (by simpa using inside),
      List.getD_eq_getElem?_getD]
  have low := byte 0 (by omega)
  rw [Nat.add_zero] at low
  unfold intAt
  rw [low, byte 1 (by omega), byte 2 (by omega), byte 3 (by omega)]
  simp only [intBytes, byteAt, List.getD_cons_zero, List.getD_cons_succ, UInt8.toNat_ofNat']
  rw [if_pos (by omega)]
  omega

theorem byteAt_behind {front bytes : List UInt8} {offset : Nat} (behind : front.length ≤ offset) :
    byteAt (front ++ bytes.drop front.length) offset = byteAt bytes offset := by
  unfold byteAt
  rw [List.getD_eq_getElem?_getD, List.getElem?_append_right behind, List.getElem?_drop,
    Nat.add_sub_cancel' behind, List.getD_eq_getElem?_getD]

theorem intAt_behind {front bytes : List UInt8} {offset : Nat} (behind : front.length ≤ offset) :
    intAt (front ++ bytes.drop front.length) offset = intAt bytes offset := by
  unfold intAt
  rw [byteAt_behind behind, byteAt_behind (by omega), byteAt_behind (by omega),
    byteAt_behind (by omega)]

@[simp]
theorem length_ushortBytes (value : Nat) : (ushortBytes value).length = 2 := rfl

@[simp]
theorem length_longBytes (value : Int) : (longBytes value).length = 8 := by
  simp [longBytes]

theorem ushort_bytes_value {value : Nat} (bounded : value < 65536) :
    (UInt8.ofNat value).toNat + 256 * (UInt8.ofNat (value / 256)).toNat = value := by
  simp only [UInt8.toNat_ofNat']
  omega

/-- Packing 16-bit numbers and reading them back is the identity. -/
theorem ushorts_flatMap {values : List Nat} (bounded : ∀ value ∈ values, value < 65536) :
    ushorts (values.flatMap ushortBytes) = values := by
  induction values with
  | nil => rfl
  | cons value rest inductionHypothesis =>
      simp only [List.flatMap_cons, ushortBytes, List.cons_append, List.nil_append, ushorts]
      rw [ushort_bytes_value (bounded value (by simp)),
        inductionHypothesis fun other membership => bounded other (by simp [membership])]

theorem length_flatMap_ushortBytes (values : List Nat) :
    (values.flatMap ushortBytes).length = 2 * values.length := by
  induction values with
  | nil => rfl
  | cons value rest inductionHypothesis =>
      simp only [List.flatMap_cons, List.length_append, length_ushortBytes, List.length_cons,
        inductionHypothesis]
      omega

end Bytes

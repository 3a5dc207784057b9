import Mathlib.Data.List.Basic

/-!
Arrays with a signed index.

`read` and `write` refuse an index outside the array (`none`).  The lemmas look
at an array as the part before the index, the cell and the part behind it.
-/

namespace Cells

variable {α : Type*}

def read (cells : List α) (index : Int) : Option α :=
  if 0 ≤ index then cells[index.toNat]? else none

def write (cells : List α) (index : Int) (value : α) : Option (List α) :=
  if 0 ≤ index ∧ index < cells.length then some (cells.set index.toNat value) else none

theorem read_middle {front back : List α} {value : α} {index : Int} (place : index = front.length) :
    read (front ++ value :: back) index = some value := by
  subst place
  simp [read]

theorem write_middle {front back : List α} {old : α} {index : Int} (place : index = front.length)
    (value : α) : write (front ++ old :: back) index value = some (front ++ value :: back) := by
  subst place
  have inside : (front.length : Int) < (front ++ old :: back).length := by
    rw [List.length_append, List.length_cons]
    omega
  simp only [write]
  rw [if_pos ⟨by omega, inside⟩]
  simp

end Cells

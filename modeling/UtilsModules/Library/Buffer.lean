import Mathlib.Data.List.Basic

/-!
A buffer of fixed size with writes that are checked.

`write` refuses a write that does not fit (`none`), so a program that comes back
with `some` has stayed inside its buffer.
-/

namespace Buffer

variable {α : Type*}

def write (buffer : List α) (offset : Nat) (values : List α) : Option (List α) :=
  if offset + values.length ≤ buffer.length then
    some (buffer.take offset ++ values ++ buffer.drop (offset + values.length))
  else
    none

theorem write_of_fits {buffer values : List α} {offset : Nat}
    (fits : offset + values.length ≤ buffer.length) :
    write buffer offset values =
      some (buffer.take offset ++ values ++ buffer.drop (offset + values.length)) :=
  if_pos fits

/-- The part that has been filled grows by the values written behind it. -/
theorem exists_write {buffer filled values : List α} {offset : Nat}
    (front : buffer.take offset = filled) (fits : offset + values.length ≤ buffer.length) :
    ∃ after, write buffer offset values = some after ∧ after.length = buffer.length ∧
      after.take (offset + values.length) = filled ++ values ∧
      after.drop (offset + values.length) = buffer.drop (offset + values.length) := by
  have length : (filled ++ values).length = offset + values.length := by
    rw [← front, List.length_append, List.length_take]
    omega
  refine ⟨filled ++ values ++ buffer.drop (offset + values.length), ?_, ?_, ?_, ?_⟩
  · rw [write_of_fits fits, front]
  · rw [List.length_append, length, List.length_drop]
    omega
  · rw [← length, List.take_left]
  · rw [← length, List.drop_left]

end Buffer

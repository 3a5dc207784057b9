import Mathlib.Data.List.Basic
import Mathlib.Data.Nat.Bitwise

/-!
The exclusive or of a list of numbers.

It detects a change of one entry, whatever the entry and the change.
-/

namespace XorSum

def xorAll : List Nat → Nat
  | [] => 0
  | value :: rest => value ^^^ xorAll rest

theorem xor_left_cancel {value first second : Nat} (same : value ^^^ first = value ^^^ second) :
    first = second := by
  have both := congrArg (value ^^^ ·) same
  simpa only [Nat.xor_xor_cancel_left] using both

theorem xor_right_cancel {value first second : Nat} (same : first ^^^ value = second ^^^ value) :
    first = second := by
  rw [Nat.xor_comm first, Nat.xor_comm second] at same
  exact xor_left_cancel same

theorem xorAll_append (first second : List Nat) :
    xorAll (first ++ second) = xorAll first ^^^ xorAll second := by
  induction first with
  | nil => exact (Nat.zero_xor _).symm
  | cons value rest inductionHypothesis =>
      rw [List.cons_append, xorAll, xorAll, inductionHypothesis, Nat.xor_assoc]

/-- Replacing one entry by another number changes the sum. -/
theorem xorAll_set_ne {values : List Nat} {index value : Nat} (inside : index < values.length)
    (different : value ≠ values[index]) : xorAll (values.set index value) ≠ xorAll values := by
  induction values generalizing index with
  | nil => exact absurd inside (Nat.not_lt_zero index)
  | cons head rest inductionHypothesis =>
      intro same
      cases index with
      | zero => exact different (xor_right_cancel same)
      | succ index =>
          exact inductionHypothesis (Nat.lt_of_succ_lt_succ inside) different (xor_left_cancel same)

end XorSum

import Mathlib.Algebra.GroupWithZero.Nat
import Mathlib.Data.Nat.Basic

/-!
Numbers below the positions of a tree of fixed width.

At height zero every number is its own position; a position of the next height
stands for `width` positions below it.
-/

namespace Radix

def Full (width : Nat) (present : Nat → Prop) (height position : Nat) : Prop :=
  ∀ number, number / width ^ height = position → present number

variable {width height position number digit : Nat} {present changed : Nat → Prop}

theorem full_zero : Full width present 0 position ↔ present position := by
  simp [Full]

theorem div_pow_succ (number width height : Nat) :
    number / width ^ (height + 1) = number / width ^ height / width := by
  rw [Nat.pow_succ, Nat.div_div_eq_div_mul]

theorem div_eq_of_le {other low high : Nat} (same : number / width ^ low = other / width ^ low)
    (higher : low ≤ high) : number / width ^ high = other / width ^ high := by
  obtain ⟨more, rfl⟩ := Nat.exists_eq_add_of_le higher
  rw [Nat.pow_add, ← Nat.div_div_eq_div_mul, ← Nat.div_div_eq_div_mul, same]

/-- The first position below another begins with the same number. -/
theorem first_child (width position height : Nat) :
    width * position * width ^ height = position * width ^ (height + 1) := by
  rw [Nat.pow_succ', Nat.mul_comm width, Nat.mul_assoc]

theorem position_eq (position width : Nat) :
    width * (position / width) + position % width = position :=
  Nat.div_add_mod position width

theorem child_div (small : digit < width) : (width * position + digit) / width = position := by
  rw [Nat.mul_add_div (Nat.lt_of_le_of_lt (Nat.zero_le _) small), Nat.div_eq_of_lt small,
    Nat.add_zero]

theorem child_mod (small : digit < width) : (width * position + digit) % width = digit := by
  rw [Nat.mul_add_mod, Nat.mod_eq_of_lt small]

theorem full_succ (positive : 0 < width) :
    Full width present (height + 1) position ↔
      ∀ digit < width, Full width present height (width * position + digit) := by
  constructor
  · intro full digit small number here
    apply full
    rw [div_pow_succ, here, child_div small]
  · intro full number here
    rw [div_pow_succ] at here
    apply full (number / width ^ height % width) (Nat.mod_lt _ positive)
    rw [← here, position_eq]

theorem not_full (missing : ¬ present number) (height : Nat) :
    ¬ Full width present height (number / width ^ height) := fun full => missing (full number rfl)

theorem full_congr (same : ∀ other, other ≠ number → (changed other ↔ present other))
    (apart : position ≠ number / width ^ height) :
    Full width changed height position ↔ Full width present height position := by
  refine forall_congr' fun other => imp_congr_right fun here => same other ?_
  rintro rfl
  exact apart here.symm

theorem first_div (positive : 0 < width) : position * width ^ height / width ^ height = position :=
  Nat.mul_div_cancel _ (Nat.pow_pos positive)

/-- Below a position lie the numbers up to the first one of the next. -/
theorem full_of_before (positive : 0 < width)
    (before : ∀ number < (position + 1) * width ^ height, present number) :
    Full width present height position := by
  intro number here
  apply before
  rw [← Nat.div_lt_iff_lt_mul (Nat.pow_pos positive), here]
  exact Nat.lt_succ_self _

theorem before_of_full {start stop : Nat} (positive : 0 < width)
    (before : ∀ number < start * width ^ height, present number)
    (full : ∀ position, start ≤ position → position < stop → Full width present height position) :
    ∀ number < stop * width ^ height, present number := by
  intro number below
  by_cases early : number < start * width ^ height
  · exact before number early
  · have positivePow := Nat.pow_pos (n := height) positive
    refine full (number / width ^ height) ?_ ?_ number rfl
    · exact (Nat.le_div_iff_mul_le positivePow).mpr (Nat.le_of_not_lt early)
    · exact (Nat.div_lt_iff_lt_mul positivePow).mpr below

end Radix

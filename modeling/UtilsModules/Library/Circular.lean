import Mathlib.Tactic.Ring
import Mathlib.Data.Nat.ModEq

/-!
Circular numbers: natural numbers read modulo a space `M`.

`ahead M a b` is the number of steps from `b` forward to `a`.  Two unbounded
numbers that stay within one turn of each other can be compared through their
residues alone; `ahead_mod` and `ahead_mod_behind` say how.
-/

namespace Circular

/-- Steps needed to walk forward from `b` to `a` in a space of size `M`. -/
def ahead (M a b : Nat) : Nat := (a + M - b) % M

theorem ahead_lt {M : Nat} (positive : 0 < M) (a b : Nat) : ahead M a b < M :=
  Nat.mod_lt _ positive

@[simp]
theorem ahead_self (M a : Nat) : ahead M a a = 0 := by
  simp [ahead]

theorem ahead_of_le {M a b : Nat} (ordered : b ≤ a) (bounded : a < M) :
    ahead M a b = a - b := by
  unfold ahead
  have rearranged : a + M - b = (a - b) + M := by omega
  rw [rearranged, Nat.add_mod_right, Nat.mod_eq_of_lt (by omega)]

theorem ahead_of_lt {M a b : Nat} (ordered : a < b) (bounded : b ≤ M) :
    ahead M a b = a + M - b := by
  unfold ahead
  exact Nat.mod_eq_of_lt (by omega)

/-- An unbounded number less than one turn ahead of another is found at the
same distance on the circle. -/
theorem ahead_mod {M n r : Nat} (ordered : r ≤ n) (near : n < r + M) :
    ahead M (n % M) (r % M) = n - r := by
  have positive : 0 < M := by omega
  have residue : r % M < M := Nat.mod_lt _ positive
  have split : n % M = (r % M + (n - r)) % M := by
    conv_lhs => rw [show n = r + (n - r) by omega]
    rw [Nat.add_mod, Nat.add_mod (r % M)]
    simp
  rw [split]
  by_cases wraps : r % M + (n - r) < M
  · rw [Nat.mod_eq_of_lt wraps, ahead_of_le (by omega) wraps]
    omega
  · have reduced : (r % M + (n - r)) % M = r % M + (n - r) - M := by
      rw [Nat.mod_eq_sub_mod (by omega), Nat.mod_eq_of_lt (by omega)]
    rw [reduced, ahead_of_lt (by omega) (by omega)]
    omega

/-- A number that has been passed is met again after the rest of the turn. -/
theorem ahead_mod_behind {M n r : Nat} (passed : n < r) (near : r ≤ n + M) :
    ahead M (n % M) (r % M) = n + M - r := by
  rw [← Nat.add_mod_right n M]
  exact ahead_mod near (by omega)

theorem add_ahead_mod {M a b : Nat} (aBound : a < M) (bBound : b < M) :
    (b + ahead M a b) % M = a := by
  by_cases ordered : b ≤ a
  · rw [ahead_of_le ordered aBound, Nat.mod_eq_of_lt (by omega)]
    omega
  · rw [ahead_of_lt (by omega) (by omega)]
    have wrapped : b + (a + M - b) = a + M := by omega
    rw [wrapped, Nat.add_mod_right, Nat.mod_eq_of_lt aBound]

theorem ahead_succ_mod {M a b : Nat} (aBound : a < M) (bBound : b < M) (different : a ≠ b) :
    ahead M a ((b + 1) % M) + 1 = ahead M a b := by
  have walked := ahead_mod (M := M) (n := b + ahead M a b) (r := b + 1)
  have near := ahead_lt (by omega : 0 < M) a b
  have apart : ahead M a b ≠ 0 := by
    intro zero
    have same := add_ahead_mod aBound bBound
    rw [zero, Nat.add_zero, Nat.mod_eq_of_lt bBound] at same
    exact different same.symm
  rw [add_ahead_mod aBound bBound] at walked
  have := walked (by omega) (by omega)
  omega

theorem natCast_ahead {M a b : Nat} (bBound : b ≤ M) :
    (ahead M a b : Int) = ((a : Int) - b) % M := by
  have unreduced : ((a + M - b : Nat) : Int) = ((a : Int) - b) + M := by omega
  rw [ahead, Int.natCast_emod, unreduced, Int.add_emod_right]

end Circular

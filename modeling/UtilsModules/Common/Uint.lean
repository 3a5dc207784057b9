import Mathlib.Algebra.GroupWithZero.Nat

/-!
Arithmetic of `unsigned int`, which wraps.
-/

namespace UtilsModules

def uintSpace : Nat := 2 ^ 32

def uintSub (first second : Nat) : Nat := (first + uintSpace - second) % uintSpace

def uintAdd (first second : Nat) : Nat := (first + second) % uintSpace

end UtilsModules

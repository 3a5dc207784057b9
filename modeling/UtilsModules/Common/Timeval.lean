import UtilsModules.Library.Bytes

/-!
`struct timeval` as the modules use it: seconds and microseconds in `long`s.
-/

namespace UtilsModules

structure Timeval where
  tvSec : Int
  tvUsec : Int
  deriving DecidableEq, Repr

namespace Timeval

def zero : Timeval := ⟨0, 0⟩

/-- What `gettimeofday` delivers: the microseconds are a proper fraction of a
second. -/
def Normalised (time : Timeval) : Prop := 0 ≤ time.tvUsec ∧ time.tvUsec < 1000000

instance (time : Timeval) : Decidable time.Normalised :=
  inferInstanceAs (Decidable (_ ∧ _))

def micros (time : Timeval) : Int := time.tvSec * 1000000 + time.tvUsec

/-- The memory image of the structure: two 64-bit `long`s. -/
def bytes (time : Timeval) : List UInt8 := Bytes.longBytes time.tvSec ++ Bytes.longBytes time.tvUsec

def ofBytes (buffer : List UInt8) : Timeval := ⟨Bytes.longAt buffer 0, Bytes.longAt buffer 8⟩

@[simp]
theorem length_bytes (time : Timeval) : time.bytes.length = 16 := by
  simp [bytes]

end Timeval

end UtilsModules

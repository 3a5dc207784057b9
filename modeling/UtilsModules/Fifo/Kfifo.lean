import UtilsModules.Common.Uint
import UtilsModules.Library.Ring
import UtilsModules.Library.Transition

/-!
The byte ring of `kfifo.c` and `kfifo.h`.

The counters `in` and `out` are `unsigned int`s that run freely and wrap.  Every
`memcpy` checks its bounds here: `none` says that a copy would leave a buffer.
-/

namespace UtilsModules.Fifo

structure Kfifo where
  buffer : List UInt8
  size : Nat
  in_ : Nat
  out : Nat
  deriving DecidableEq, Repr

def kfifoPut (fifo : Kfifo) (buffer : List UInt8) (len : Nat) : Option (Kfifo × Nat) :=
  let len := min len (uintAdd (uintSub fifo.size fifo.in_) fifo.out)
  let place := fifo.in_ &&& uintSub fifo.size 1
  let l := min len (uintSub fifo.size place)
  (Ring.copy? fifo.buffer place buffer 0 l).bind fun first =>
    (Ring.copy? first 0 buffer l (uintSub len l)).map fun second =>
      ({ fifo with buffer := second, in_ := uintAdd fifo.in_ len }, len)

/-- `__kfifo_get`; the answer is the buffer of the caller and the number of bytes
copied into it. -/
def kfifoGet (fifo : Kfifo) (buffer : List UInt8) (len : Nat) :
    Option (Kfifo × List UInt8 × Nat) :=
  let len := min len (uintSub fifo.in_ fifo.out)
  let place := fifo.out &&& uintSub fifo.size 1
  let l := min len (uintSub fifo.size place)
  (Ring.copy? buffer 0 fifo.buffer place l).bind fun first =>
    (Ring.copy? first l fifo.buffer 0 (uintSub len l)).map fun second =>
      ({ fifo with out := uintAdd fifo.out len }, second, len)

def kfifoReset (fifo : Kfifo) : Kfifo := { fifo with in_ := 0, out := 0 }

def kfifoLen (fifo : Kfifo) : Nat := uintSub fifo.in_ fifo.out

/-- `kfifo_get`: an empty ring starts again at zero. -/
def kfifoGetLocked (fifo : Kfifo) (buffer : List UInt8) (len : Nat) :
    Option (Kfifo × List UInt8 × Nat) :=
  (kfifoGet fifo buffer len).map fun (fifo, buffer, ret) =>
    (if fifo.in_ = fifo.out then kfifoReset fifo else fifo, buffer, ret)

def Kfifo.empty (buffer : List UInt8) : Kfifo := ⟨buffer, buffer.length, 0, 0⟩

namespace Kfifo

/-- The ring holds the given bytes, oldest first. -/
structure Stores (fifo : Kfifo) (stored : List UInt8) : Prop where
  power : ∃ exponent ≤ 31, fifo.size = 2 ^ exponent
  allocated : fifo.buffer.length = fifo.size
  inBound : fifo.in_ < uintSpace
  outBound : fifo.out < uintSpace
  place : fifo.in_ = (fifo.out + stored.length) % uintSpace
  fits : stored.length ≤ fifo.size
  content : Ring.window fifo.buffer fifo.out stored.length = stored

variable {fifo : Kfifo} {stored : List UInt8}

namespace Stores

theorem positive (stores : fifo.Stores stored) : 0 < fifo.size := by
  obtain ⟨exponent, -, size⟩ := stores.power
  rw [size]
  exact Nat.pos_of_ne_zero (by simp)

theorem size_le (stores : fifo.Stores stored) : fifo.size ≤ 2 ^ 31 := by
  obtain ⟨exponent, small, size⟩ := stores.power
  rw [size]
  exact Nat.pow_le_pow_right (by decide) small

theorem divides (stores : fifo.Stores stored) : fifo.buffer.length ∣ uintSpace := by
  obtain ⟨exponent, small, size⟩ := stores.power
  rw [stores.allocated, size]
  exact Nat.pow_dvd_pow 2 (by omega)

theorem mask (stores : fifo.Stores stored) (counter : Nat) :
    counter &&& uintSub fifo.size 1 = counter % fifo.buffer.length := by
  have positive := stores.positive
  have small := stores.size_le
  have predecessor : uintSub fifo.size 1 = fifo.size - 1 := by
    unfold uintSub uintSpace
    omega
  obtain ⟨exponent, -, size⟩ := stores.power
  rw [predecessor, stores.allocated, size, Nat.and_two_pow_sub_one_eq_mod]

theorem length_eq (stores : fifo.Stores stored) :
    uintSub fifo.in_ fifo.out = stored.length := by
  have small := stores.size_le
  have fits := stores.fits
  have bound := stores.outBound
  rw [stores.place]
  unfold uintSub uintSpace at *
  omega

theorem room_eq (stores : fifo.Stores stored) :
    uintAdd (uintSub fifo.size fifo.in_) fifo.out = fifo.size - stored.length := by
  have small := stores.size_le
  have fits := stores.fits
  have bound := stores.outBound
  rw [stores.place]
  unfold uintAdd uintSub uintSpace at *
  omega

theorem piece_eq (stores : fifo.Stores stored) (counter : Nat) :
    uintSub fifo.size (counter % fifo.buffer.length) =
      fifo.buffer.length - counter % fifo.buffer.length := by
  have small := stores.size_le
  have allocated := stores.allocated
  have inside := Nat.mod_lt counter stores.positive
  rw [← allocated] at inside
  unfold uintSub uintSpace
  omega

theorem empty {buffer : List UInt8} {exponent : Nat} (small : exponent ≤ 31)
    (sized : buffer.length = 2 ^ exponent) : (Kfifo.empty buffer).Stores [] where
  power := ⟨exponent, small, sized⟩
  allocated := rfl
  inBound := Nat.two_pow_pos 32
  outBound := Nat.two_pow_pos 32
  place := rfl
  fits := Nat.zero_le _
  content := rfl

theorem reset (stores : fifo.Stores stored) : (kfifoReset fifo).Stores [] where
  power := stores.power
  allocated := stores.allocated
  inBound := Nat.two_pow_pos 32
  outBound := Nat.two_pow_pos 32
  place := rfl
  fits := Nat.zero_le _
  content := rfl

theorem put (stores : fifo.Stores stored) {buffer : List UInt8} {len : Nat}
    (available : len ≤ buffer.length) :
    ∃ after, kfifoPut fifo buffer len = some (after, min len (fifo.size - stored.length)) ∧
      after.size = fifo.size ∧
      after.Stores (stored ++ buffer.take (min len (fifo.size - stored.length))) := by
  have small := stores.size_le
  have fits := stores.fits
  have allocated := stores.allocated
  have positive := stores.positive
  set taken := min len (fifo.size - stored.length) with takenEq
  set first := min taken (fifo.buffer.length - fifo.in_ % fifo.buffer.length) with firstEq
  have takenLength : (buffer.take taken).length = taken := by
    rw [List.length_take]
    omega
  have rest : uintSub taken first = taken - first := by
    unfold uintSub uintSpace
    omega
  have copied := @Ring.copy_write _ fifo.buffer buffer fifo.in_ taken (by omega) (by omega)
    (by omega) first firstEq
  obtain ⟨halfway, firstCopy, secondCopy⟩ := Option.bind_eq_some_iff.mp copied
  refine ⟨{ fifo with
      buffer := Ring.write fifo.buffer fifo.in_ (buffer.take taken)
      in_ := uintAdd fifo.in_ taken }, ?_, rfl, ?_⟩
  · simp only [kfifoPut, stores.room_eq, stores.mask, stores.piece_eq, ← takenEq, ← firstEq,
      firstCopy, Option.bind_some, rest, secondCopy, Option.map_some]
  · have total : (stored ++ buffer.take taken).length = stored.length + taken := by
      rw [List.length_append, takenLength]
    constructor
    case power => exact stores.power
    case allocated => exact (Ring.length_write (by omega)).trans allocated
    case inBound => exact Nat.mod_lt _ (by decide)
    case outBound => exact stores.outBound
    case place =>
      simp only [uintAdd]
      rw [total, stores.place, Nat.mod_add_mod, Nat.add_assoc]
    case fits =>
      rw [total]
      simp only
      omega
    case content =>
      have prolonged := @Ring.window_write _ fifo.buffer (buffer.take taken) fifo.out stored.length
        (by omega)
      simp only
      rw [total, stores.place, Ring.write_mod stores.divides]
      rw [takenLength, stores.content] at prolonged
      exact prolonged

theorem passed (stores : fifo.Stores stored) (len : Nat) :
    Stores { fifo with out := uintAdd fifo.out (min len stored.length) } (stored.drop len) := by
  have fits := stores.fits
  have allocated := stores.allocated
  set taken := min len stored.length with takenEq
  have left : (stored.drop len).length = stored.length - taken := by
    rw [List.length_drop]
    omega
  constructor
  case power => exact stores.power
  case allocated => exact allocated
  case inBound => exact stores.inBound
  case outBound => exact Nat.mod_lt _ (Nat.two_pow_pos 32)
  case place =>
    simp only [uintAdd]
    rw [left, stores.place, Nat.mod_add_mod]
    congr 1
    omega
  case fits =>
    rw [left]
    simp only
    omega
  case content =>
    have behind := @Ring.window_drop _ fifo.buffer fifo.out stored.length taken (by omega)
      (by omega)
    simp only [uintAdd]
    rw [left, Ring.window_mod stores.divides, ← behind, stores.content]
    rcases Nat.le_total len stored.length with within | beyond
    · rw [takenEq, Nat.min_eq_left within]
    · rw [takenEq, Nat.min_eq_right beyond, List.drop_length, List.drop_of_length_le beyond]

theorem get (stores : fifo.Stores stored) {buffer : List UInt8} {len : Nat}
    (available : len ≤ buffer.length) :
    ∃ after filled, kfifoGet fifo buffer len = some (after, filled, min len stored.length) ∧
      after.size = fifo.size ∧ filled.length = buffer.length ∧
      filled.take (min len stored.length) = stored.take len ∧ after.Stores (stored.drop len) := by
  have small := stores.size_le
  have fits := stores.fits
  have allocated := stores.allocated
  have positive := stores.positive
  have remaining := stores.passed len
  set taken := min len stored.length with takenEq
  set first := min taken (fifo.buffer.length - fifo.out % fifo.buffer.length) with firstEq
  have rest : uintSub taken first = taken - first := by
    unfold uintSub uintSpace
    omega
  obtain ⟨filled, copied, sameLength, front⟩ := @Ring.copy_window _ fifo.buffer fifo.out taken
    buffer (by omega) (by omega) (by omega) first firstEq
  obtain ⟨halfway, firstCopy, secondCopy⟩ := Option.bind_eq_some_iff.mp copied
  have oldest : filled.take taken = stored.take len := by
    have shorter := @Ring.window_take _ fifo.buffer fifo.out stored.length taken (by omega)
    rw [front, ← shorter, stores.content, takenEq, ← List.take_eq_take_min]
  refine ⟨{ fifo with out := uintAdd fifo.out taken }, filled, ?_, rfl, sameLength, oldest,
    remaining⟩
  simp only [kfifoGet, stores.length_eq, stores.mask, stores.piece_eq, ← takenEq, ← firstEq,
    firstCopy, Option.bind_some, rest, secondCopy, Option.map_some]

end Stores

end Kfifo

end UtilsModules.Fifo

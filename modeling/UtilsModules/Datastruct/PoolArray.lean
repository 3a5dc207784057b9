import UtilsModules.Common.Uint
import UtilsModules.Library.Memory
import UtilsModules.Pool.Pool

/-!
The growable arrays of `module_array.c`.

Sums of addresses and sizes are taken modulo the range of `size_t`, counts modulo
that of `uint`.  The allocator `mdl_palloc` with its `last` and `end` is not part
of the modules: what it answers is an argument, `none` being `NULL`, and
`PallocPool.Serves` says what a bump allocator may answer.
-/

namespace UtilsModules.Datastruct

open Pool

def sizeofArray : Nat := 40

/-- The fields `last` and `end` of a pool: the memory from `last` to `end` is free. -/
structure PallocPool where
  last : Nat
  end_ : Nat
  deriving DecidableEq, Repr

/-- What `mdl_palloc` returns, and the pool it leaves.  A block that is new to the
pool is given with it. -/
structure Answer where
  address : Nat
  pool : PallocPool
  block : Option Region
  deriving DecidableEq, Repr

namespace PallocPool

def window (pool : PallocPool) : Region := ⟨pool.last, pool.end_ - pool.last⟩

/-- The limits of the free memory are in order and in the address space. -/
structure Sound (pool : PallocPool) : Prop where
  ordered : pool.last ≤ pool.end_
  bounded : pool.end_ < sizeSpace

/-- An answer to a request for `size` bytes that is not `NULL`.  Either the bytes
are taken off the free memory, or they lie in a new block, which is apart from the
free memory and from all that has been taken; the free memory is then as before,
or it is in the new block behind the bytes. -/
def Serves (pool : PallocPool) (taken : List Region) (size : Nat) (answer : Answer) : Prop :=
  answer.address ≠ 0 ∧
    match answer.block with
    | none =>
        pool.last ≤ answer.address ∧ answer.address + size ≤ answer.pool.last ∧
          answer.pool.last ≤ answer.pool.end_ ∧ answer.pool.end_ = pool.end_
    | some block =>
        block.stop < sizeSpace ∧ block.Separate pool.window ∧
          (∀ region ∈ taken, block.Separate region) ∧
          Region.Within ⟨answer.address, size⟩ block ∧
          (answer.pool = pool ∨
            answer.address + size ≤ answer.pool.last ∧ answer.pool.last ≤ answer.pool.end_ ∧
              answer.pool.end_ ≤ block.stop)

instance (pool : PallocPool) (taken : List Region) (size : Nat) (answer : Answer) :
    Decidable (pool.Serves taken size answer) := by
  unfold Serves
  cases answer.block <;> infer_instance

end PallocPool

/-- `struct mdl_array_s`; its pool is kept beside it. -/
structure MdlArray where
  elts : Nat
  nelts : Nat
  size : Nat
  nalloc : Nat
  deriving DecidableEq, Repr

structure ArrayState where
  pool : PallocPool
  array : MdlArray
  memory : Nat → UInt8

def mdlCreateArray (memory : Nat → UInt8) (n size : Nat) (header elts : Option Answer) :
    Option ArrayState :=
  match header with
  | none => none
  | some _ =>
      match elts with
      | none => none
      | some elts => some ⟨elts.pool, ⟨elts.address, 0, size, n⟩, memory⟩

def createRequest (n size : Nat) : Nat := n * size % sizeSpace

namespace MdlArray

/-- `(char *) a->elts + a->size * a->nelts`. -/
def behind (array : MdlArray) : Nat :=
  (array.elts + array.size * array.nelts % sizeSpace) % sizeSpace

def request (array : MdlArray) : Nat := 2 * array.nalloc % uintSpace * array.size % sizeSpace

end MdlArray

namespace ArrayState

/-- The array is the last allocation of the pool, and there is room for one more
element behind it. -/
def LastInPool (state : ArrayState) : Prop :=
  state.array.behind = state.pool.last ∧
    (state.pool.end_ + sizeSpace - state.pool.last) % uintSpace ≥ state.array.size

instance (state : ArrayState) : Decidable state.LastInPool := inferInstanceAs (Decidable (_ ∧ _))

/-- `p->last += a->size; a->nalloc++`. -/
def extend (state : ArrayState) : ArrayState :=
  { state with
    pool := { state.pool with last := (state.pool.last + state.array.size) % sizeSpace }
    array := { state.array with nalloc := (state.array.nalloc + 1) % uintSpace } }

/-- `memcpy(new, a->elts, ...); a->elts = new; a->nalloc *= 2`. -/
def relocate (state : ArrayState) (new : Answer) : ArrayState where
  pool := new.pool
  array := { state.array with elts := new.address, nalloc := 2 * state.array.nalloc % uintSpace }
  memory := Memory.copy state.memory new.address state.array.elts
    (state.array.nalloc * state.array.size % sizeSpace)

def takeSlot (state : ArrayState) : ArrayState × Option Nat :=
  ({ state with array := { state.array with nelts := (state.array.nelts + 1) % uintSpace } },
    some state.array.behind)

def mdlPushArray (state : ArrayState) (answer : Option Answer) : ArrayState × Option Nat :=
  if state.array.nelts = state.array.nalloc then
    if state.LastInPool then
      state.extend.takeSlot
    else
      match answer with
      | none => (state, none)
      | some new => (state.relocate new).takeSlot
  else
    state.takeSlot

theorem mdlPushArray_null {state after : ArrayState} {answer : Option Answer}
    (pushed : state.mdlPushArray answer = (after, none)) : after = state := by
  unfold mdlPushArray takeSlot at pushed
  split at pushed
  · split at pushed
    · cases pushed
    · split at pushed
      · exact (Prod.mk.inj pushed).1.symm
      · cases pushed
  · cases pushed

end ArrayState

namespace PallocPool

variable {pool : PallocPool} {taken : List Region} {size : Nat} {answer : Answer}

/-- The bytes that are returned, and the free memory that is left, have nothing in
common with each other or with what has been taken. -/
structure Fresh (taken : List Region) (size : Nat) (answer : Answer) : Prop where
  bounded : answer.address + size < sizeSpace
  sound : answer.pool.Sound
  given : ∀ region ∈ taken, Region.Separate ⟨answer.address, size⟩ region
  left : ∀ region ∈ taken, answer.pool.window.Separate region
  behind : answer.pool.window.Separate ⟨answer.address, size⟩

theorem Sound.fresh (sound : pool.Sound)
    (apart : ∀ region ∈ taken, pool.window.Separate region)
    (serves : pool.Serves taken size answer) : Fresh taken size answer := by
  obtain ⟨ordered, bounded⟩ := sound
  obtain ⟨-, serves⟩ := serves
  split at serves
  · obtain ⟨above, below, inside, same⟩ := serves
    have given : Region.Within ⟨answer.address, size⟩ pool.window := by
      simp only [Region.Within, Region.stop, window]
      omega
    have left : answer.pool.window.Within pool.window := by
      simp only [Region.Within, Region.stop, window]
      omega
    refine ⟨by omega, ⟨inside, by omega⟩, ?_, ?_, ?_⟩
    · exact fun region listed => (apart region listed).mono given (.refl region)
    · exact fun region listed => (apart region listed).mono left (.refl region)
    · simp only [Region.Separate, Region.Apart, Region.stop, window]
      omega
  · next block _ =>
    obtain ⟨inside, fromWindow, fromTaken, given, same | ⟨below, window, within⟩⟩ := serves
    · have limit := given.2
      simp only [Region.stop] at limit inside
      refine ⟨by omega, same ▸ ⟨ordered, bounded⟩, ?_, ?_, ?_⟩
      · exact fun region listed => (fromTaken region listed).mono given (.refl region)
      · exact fun region listed => same ▸ apart region listed
      · rw [same]
        exact (fromWindow.mono given (.refl _)).symm
    · have lower := given.1
      have left : answer.pool.window.Within block := by
        simp only [Region.Within, Region.stop, PallocPool.window] at *
        omega
      refine ⟨by omega, ⟨window, by omega⟩, ?_, ?_, ?_⟩
      · exact fun region listed => (fromTaken region listed).mono given (.refl region)
      · exact fun region listed => (fromTaken region listed).mono left (.refl region)
      · simp only [Region.Separate, Region.Apart, Region.stop, PallocPool.window]
        omega

end PallocPool

end UtilsModules.Datastruct

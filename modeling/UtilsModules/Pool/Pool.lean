import UtilsModules.Library.Region

/-!
Memory pools: the blocks of a pool and the allocation functions of `pool.c`.

Addresses and sizes are numbers of the 64-bit `size_t`, and every sum is taken
modulo its range.  A mask with a power of two is written as a remainder or a
quotient.  What `block_alloc` answers is an argument, `none` being `NULL`; a
result `none` of a function says that an assertion failed.  The callback for
failures, which does nothing in the default policy, is left out.
-/

namespace UtilsModules.Pool

def sizeSpace : Nat := 2 ^ 64

theorem sizeSpace_eq : sizeSpace = 18446744073709551616 := rfl

def poolAlignment : Nat := 4

def sizeofPoolBlock : Nat := 40

def sizeofPool : Nat := 104

structure MdlPoolBlock where
  address : Nat
  start : Nat
  current : Nat
  end_ : Nat
  deriving DecidableEq, Repr

/-- `mdl_pool_t`, with the address it lies at and its blocks in list order. -/
structure MdlPool where
  address : Nat
  capacity : Nat
  incrementSize : Nat
  blockHeadList : List MdlPoolBlock
  deriving DecidableEq, Repr

def alignPtr (ptr alignment : Nat) : Nat :=
  (ptr + (sizeSpace - ptr % sizeSpace) % alignment) % sizeSpace

/-- The size `mdl_pool_alloc_from_block` takes off the block. -/
def roundSize (size : Nat) : Nat :=
  if size % poolAlignment ≠ 0 then (size + poolAlignment) % sizeSpace / poolAlignment * poolAlignment
  else size

def mdlPoolAllocFromBlock (block : MdlPoolBlock) (size : Nat) : MdlPoolBlock × Option Nat :=
  let size := roundSize size
  if (block.end_ + sizeSpace - block.current) % sizeSpace ≥ size then
    ({ block with current := (block.current + size) % sizeSpace }, some block.current)
  else
    (block, none)

def newBlock (address end_ : Nat) : MdlPoolBlock where
  address := address
  start := (address + sizeofPoolBlock) % sizeSpace
  current := alignPtr ((address + sizeofPoolBlock) % sizeSpace) poolAlignment
  end_ := end_

def mdlPoolCreateBlock (pool : MdlPool) (size : Nat) (memory : Option Nat) :
    Option (Option MdlPool) :=
  if size ≥ sizeofPoolBlock then
    some (memory.map fun address =>
      { pool with
        capacity := (pool.capacity + size) % sizeSpace
        blockHeadList := newBlock address ((address + size) % sizeSpace) :: pool.blockHeadList })
  else
    none

def allocFromBlocks : List MdlPoolBlock → Nat → List MdlPoolBlock × Option Nat
  | [], _ => ([], none)
  | block :: rest, size =>
      match mdlPoolAllocFromBlock block size with
      | (block, some p) => (block :: rest, some p)
      | (_, none) =>
          let (rest, p) := allocFromBlocks rest size
          (block :: rest, p)

def allocFromFirst (pool : MdlPool) (size : Nat) : MdlPool × Option Nat :=
  match pool.blockHeadList with
  | [] => (pool, none)
  | block :: rest =>
      let (block, p) := mdlPoolAllocFromBlock block size
      ({ pool with blockHeadList := block :: rest }, p)

def blockSize (incrementSize size : Nat) : Nat :=
  if incrementSize < (size + sizeofPoolBlock + poolAlignment) % sizeSpace then
    let count :=
      (size + incrementSize + sizeofPoolBlock + poolAlignment) % sizeSpace / incrementSize
    count * incrementSize % sizeSpace
  else
    incrementSize

def mdlPoolAllocateFind (pool : MdlPool) (size : Nat) (memory : Option Nat) :
    Option (MdlPool × Option Nat) :=
  match allocFromBlocks pool.blockHeadList size with
  | (blocks, some p) => some ({ pool with blockHeadList := blocks }, some p)
  | (_, none) =>
      if pool.incrementSize = 0 then
        some (pool, none)
      else
        match mdlPoolCreateBlock pool (blockSize pool.incrementSize size) memory with
        | none => none
        | some none => some (pool, none)
        | some (some pool) =>
            match allocFromFirst pool size with
            | (pool, some p) => some (pool, some p)
            | (_, none) => none

def mdlPoolAlloc (pool : MdlPool) (size : Nat) (memory : Option Nat) :
    Option (MdlPool × Option Nat) :=
  match allocFromFirst pool size with
  | (pool, some p) => some (pool, some p)
  | (pool, none) => mdlPoolAllocateFind pool size memory

def mdlPoolCalloc (pool : MdlPool) (count size : Nat) (memory : Option Nat) :
    Option (MdlPool × Option Nat) :=
  mdlPoolAlloc pool (size * count % sizeSpace) memory

/-- `mdl_pool_create_int`: the pool lies at the beginning of its first block's
memory; `some none` when `block_alloc` fails. -/
def mdlPoolCreateInt (initialSize incrementSize : Nat) (memory : Option Nat) :
    Option (Option MdlPool) :=
  if initialSize ≥ sizeofPool + sizeofPoolBlock then
    some (memory.map fun buffer =>
      { address := buffer
        capacity := initialSize
        incrementSize := incrementSize
        blockHeadList :=
          [newBlock ((buffer + sizeofPool) % sizeSpace) ((buffer + initialSize) % sizeSpace)] })
  else
    none

end UtilsModules.Pool

import UtilsModules.Pool.Blocks

/-!
The caching factory of pools, with the default policy.

The factory keeps the pools it has given out on `used_list`, and the pools that
came back on one `free_list` for each class of sizes.  `Factory` is the memory it
works on, with what its users and `malloc` have been given.  A call that does
not return leaves the factory stopped, as it is at that point.
-/

namespace UtilsModules.Pool

open Datastruct Linked

def cachingPoolArraySize : Nat := 16

def poolSizes : List Nat :=
  [256, 512, 1024, 2048, 4096, 8192, 12288, 16384,
    20480, 24576, 28672, 32768, 40960, 49152, 57344, 65536]

def poolSize (idx : Nat) : Nat := poolSizes.getD idx 0

def startSize : Nat := 5

def searchDown (initialSize : Nat) : Nat → Nat
  | 0 => 0
  | idx + 1 => if poolSize idx ≥ initialSize then searchDown initialSize idx else idx + 1

/-- The search above `START_SIZE`; the argument is the number of classes left. -/
def searchUp (initialSize : Nat) : Nat → Nat
  | 0 => cachingPoolArraySize
  | left + 1 =>
      let idx := cachingPoolArraySize - (left + 1)
      if poolSize idx < initialSize then searchUp initialSize left else idx

/-- The value of `idx` behind the searches of `cpool_create_pool`. -/
def sizeClass (initialSize : Nat) : Nat :=
  if initialSize ≤ poolSize startSize then
    searchDown initialSize startSize
  else
    searchUp initialSize (cachingPoolArraySize - (startSize + 1))

/-- `&cp->used_list`, `&cp->free_list[i]`, and `&pool->pool_node_list` of a pool. -/
inductive PoolNode where
  | usedList
  | freeList (i : Nat)
  | pool (address : Nat)
  deriving DecidableEq, Repr

structure MdlCachingPool where
  capacity : Nat
  maxCapacity : Nat
  usedCount : Nat
  usedSize : Nat
  peakUsedSize : Nat
  deriving DecidableEq, Repr

structure CachedPool where
  pool : MdlPool
  dataFactory : Nat
  deriving DecidableEq, Repr

namespace CachedPool

def address (cached : CachedPool) : Nat := cached.pool.address

def node (cached : CachedPool) : PoolNode := .pool cached.address

end CachedPool

inductive Stop where
  | fault
  | endless
  | poolAssertion
  /-- `assert(i < CACHING_POOL_ARRAY_SIZE)`. -/
  | classAssertion
  deriving DecidableEq, Repr

structure Factory where
  cp : MdlCachingPool
  links : PoolNode → Option (LinkPair PoolNode)
  pools : Nat → Option CachedPool
  stopped : Option Stop
  /-- What `malloc` has given and has not got back. -/
  held : List Region
  /-- What `free` has been called with that was not held as it was. -/
  astray : List Region
  /-- The pools that have been created and not been released. -/
  out : List Nat

namespace Factory

def stop (factory : Factory) (why : Stop) : Factory := { factory with stopped := some why }

def setPool (factory : Factory) (address : Nat) (cached : CachedPool) : Factory :=
  { factory with pools := Function.update factory.pools address (some cached) }

end Factory

def cpoolOnBlockAlloc (cp : MdlCachingPool) (sz : Nat) : MdlCachingPool :=
  let usedSize := (cp.usedSize + sz) % sizeSpace
  { cp with
    usedSize := usedSize
    peakUsedSize := if usedSize > cp.peakUsedSize then usedSize else cp.peakUsedSize }

def cpoolOnBlockFree (cp : MdlCachingPool) (sz : Nat) : MdlCachingPool :=
  { cp with usedSize := (cp.usedSize + (sizeSpace - sz % sizeSpace)) % sizeSpace }

def defaultBlockAlloc (factory : Factory) (size : Nat) (memory : Option Nat) : Factory :=
  let cp := cpoolOnBlockAlloc factory.cp size
  match memory with
  | none => { factory with cp := cpoolOnBlockFree cp size }
  | some address => { factory with cp := cp, held := ⟨address, size⟩ :: factory.held }

def blockAllocs (factory : Factory) (asked memory : Option Nat) : Factory :=
  match asked with
  | none => factory
  | some size => defaultBlockAlloc factory size memory

def defaultBlockFree (factory : Factory) (region : Region) : Factory :=
  { factory with
    cp := cpoolOnBlockFree factory.cp region.size
    links := fun
      | .pool address => if region.Covers address then none else factory.links (.pool address)
      | head => factory.links head
    pools := fun address => if region.Covers address then none else factory.pools address
    held := factory.held.erase region
    astray := if region ∈ factory.held then factory.astray else factory.astray ++ [region] }

/-- The calls of `block_free` that a function of `pool.c` has made. -/
def blockFrees (factory : Factory) (freed : List Region) : Factory :=
  freed.foldl defaultBlockFree factory

def mdlCachingPoolInit (maxCapacity : Nat) : Factory where
  cp := ⟨0, maxCapacity, 0, 0, 0⟩
  links := fun
    | .usedList => some ⟨some .usedList, some .usedList⟩
    | .freeList i =>
        if i < cachingPoolArraySize then some ⟨some (.freeList i), some (.freeList i)⟩ else none
    | .pool _ => none
  pools := fun _ => none
  stopped := none
  held := []
  astray := []
  out := []

/-- The end of `cpool_create_pool`: the pool goes on the used list. -/
def handOut (factory : Factory) (cached : CachedPool) (idx : Nat) : Factory × Option Nat :=
  match listAdd factory.links cached.node .usedList with
  | none => (factory.stop .fault, none)
  | some links =>
      ({ factory with
          cp := { factory.cp with usedCount := (factory.cp.usedCount + 1) % sizeSpace }
          links := links
          pools := Function.update factory.pools cached.address
            (some { cached with dataFactory := idx })
          out := cached.address :: factory.out },
        some cached.address)

def createSize (initialSize : Nat) : Nat :=
  let idx := sizeClass initialSize
  if idx < cachingPoolArraySize then poolSize idx else initialSize

def createNew (factory : Factory) (initialSize incrementSize : Nat) (memory : Option Nat) :
    Factory × Option Nat :=
  match mdlPoolCreateInt (createSize initialSize) incrementSize memory with
  | none => (factory.stop .poolAssertion, none)
  | some none => (defaultBlockAlloc factory (createSize initialSize) memory, none)
  | some (some pool) =>
      let factory := defaultBlockAlloc factory (createSize initialSize) memory
      let links := Function.update factory.links (.pool pool.address) (some ⟨none, none⟩)
      handOut { factory with links := links } ⟨pool, 0⟩ (sizeClass initialSize)

def reuse (factory : Factory) (idx incrementSize : Nat) : Factory × Option Nat :=
  match nextOf factory.links (.freeList idx) with
  | some (some (.pool address)) =>
      match factory.pools address, listDel factory.links (.pool address) with
      | some cached, some links =>
          let cached := { cached with
            pool := { cached.pool with incrementSize := incrementSize } }
          let capacity :=
            if factory.cp.capacity > cached.pool.capacity then
              factory.cp.capacity - cached.pool.capacity
            else
              0
          handOut { factory with cp := { factory.cp with capacity := capacity }, links := links }
            cached idx
      | _, _ => (factory.stop .fault, none)
  | _ => (factory.stop .fault, none)

def cpoolCreatePool (factory : Factory) (initialSize incrementSize : Nat) (memory : Option Nat) :
    Factory × Option Nat :=
  let idx := sizeClass initialSize
  if idx = cachingPoolArraySize ∨ listEmpty factory.links (.freeList idx) then
    createNew factory initialSize incrementSize memory
  else
    reuse factory idx incrementSize

def destroyPool (factory : Factory) (cached : CachedPool) : Factory :=
  match mdlPoolDestroyInt cached.pool with
  | (freed, .returned _) => blockFrees factory freed
  | (freed, .faulted) => (blockFrees factory freed).stop .fault
  | (freed, .unfinished) => (blockFrees factory freed).stop .endless

/-- The end of `cpool_release_pool`: the pool goes on its free list. -/
def recycle (factory : Factory) (cached : CachedPool) : Factory :=
  match mdlPoolReset cached.pool with
  | (freed, .faulted) => (blockFrees factory freed).stop .fault
  | (freed, .unfinished) => (blockFrees factory freed).stop .endless
  | (freed, .returned pool) =>
      let factory := blockFrees factory freed
      let i := cached.dataFactory % 2 ^ 32
      if i < cachingPoolArraySize then
        match listAdd factory.links cached.node (.freeList i) with
        | none => factory.stop .fault
        | some links =>
            { factory with
              cp := { factory.cp with
                capacity := (factory.cp.capacity + pool.capacity) % sizeSpace }
              links := links
              pools := Function.update factory.pools cached.address
                (some { cached with pool := pool }) }
      else
        factory.stop .classAssertion

/-- The beginning of `cpool_release_pool`, with the links `list_del` has left. -/
def takeBack (factory : Factory) (links : PoolNode → Option (LinkPair PoolNode))
    (address : Nat) : Factory :=
  { factory with
    cp := { factory.cp with
      usedCount := if factory.cp.usedCount = 0 then sizeSpace - 1 else factory.cp.usedCount - 1 }
    links := links
    out := factory.out.erase address }

def cpoolReleasePool (factory : Factory) (address : Nat) : Factory :=
  match factory.pools address, listDel factory.links (.pool address) with
  | some cached, some links =>
      let factory := takeBack factory links address
      let poolCapacity := cached.pool.capacity
      if poolCapacity > poolSize (cachingPoolArraySize - 1) ∨
          (factory.cp.capacity + poolCapacity) % sizeSpace > factory.cp.maxCapacity then
        destroyPool factory cached
      else
        recycle factory cached
  | _, _ => factory.stop .fault

def poolAlloc (factory : Factory) (address : Nat) (request : Request) : Factory :=
  match factory.pools address with
  | none => factory.stop .fault
  | some cached =>
      match request.perform cached.pool with
      | none => factory.stop .poolAssertion
      | some (pool, _) =>
          (blockAllocs factory (request.asked cached.pool) request.memory).setPool address
            { cached with pool := pool }

inductive Operation where
  | createPool (initialSize incrementSize : Nat) (memory : Option Nat)
  | alloc (pool : Nat) (request : Request)
  | releasePool (pool : Nat)

namespace Factory

/-- `malloc` answers with memory inside the address space that it has not given
away. -/
def Offers (factory : Factory) (size : Nat) (memory : Option Nat) : Prop :=
  ∀ address ∈ memory, address + size < sizeSpace ∧
    ∀ region ∈ factory.held, Region.Apart ⟨address, size⟩ region

instance (factory : Factory) (size : Nat) (memory : Option Nat) :
    Decidable (factory.Offers size memory) :=
  inferInstanceAs (Decidable (∀ address ∈ memory, _ ∧ _))

/-- Users name pools that they have got and have not released. -/
def Allowed (factory : Factory) : Operation → Prop
  | .createPool initialSize _ memory => factory.Offers (createSize initialSize) memory
  | .alloc pool request => pool ∈ factory.out ∧ ∀ cached ∈ factory.pools pool,
      ∀ asked ∈ request.asked cached.pool, factory.Offers asked request.memory
  | .releasePool pool => pool ∈ factory.out

instance (factory : Factory) : (operation : Operation) → Decidable (factory.Allowed operation)
  | .createPool initialSize _ memory =>
      inferInstanceAs (Decidable (factory.Offers (createSize initialSize) memory))
  | .alloc pool request => inferInstanceAs (Decidable (pool ∈ factory.out ∧
      ∀ cached ∈ factory.pools pool, ∀ asked ∈ request.asked cached.pool,
        factory.Offers asked request.memory))
  | .releasePool pool => inferInstanceAs (Decidable (pool ∈ factory.out))

def perform (factory : Factory) : Operation → Factory
  | .createPool initialSize incrementSize memory =>
      (cpoolCreatePool factory initialSize incrementSize memory).1
  | .alloc pool request => poolAlloc factory pool request
  | .releasePool pool => cpoolReleasePool factory pool

def step (factory : Factory) (operation : Operation) : Option Factory :=
  if factory.stopped = none ∧ factory.Allowed operation then
    some (factory.perform operation)
  else
    none

end Factory

end UtilsModules.Pool

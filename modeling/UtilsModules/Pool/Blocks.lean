import UtilsModules.Pool.Allocation
import UtilsModules.Pool.Reset

/-!
The blocks of a pool from its creation on, and what a reset makes of them.

An allocation moves the `current` of a block; the places and the limits of the
blocks only change when a block is added.  Nothing is asked of the sizes here:
of an allocation it matters that it returns, and of `block_alloc` that it
answers with memory that is not in use.
-/

namespace UtilsModules.Pool

structure Frame where
  address : Nat
  start : Nat
  end_ : Nat
  deriving DecidableEq, Repr

def Frame.extent (frame : Frame) : Region := ⟨frame.address, frame.end_ - frame.address⟩

def MdlPoolBlock.frame (block : MdlPoolBlock) : Frame := ⟨block.address, block.start, block.end_⟩

def MdlPool.frames (pool : MdlPool) : List Frame := pool.blockHeadList.map MdlPoolBlock.frame

def blockAsked (pool : MdlPool) (size : Nat) : Option Nat :=
  match allocFromFirst pool size with
  | (_, some _) => none
  | (pool, none) =>
      match allocFromBlocks pool.blockHeadList size with
      | (_, some _) => none
      | (_, none) =>
          let asked := blockSize pool.incrementSize size
          if pool.incrementSize ≠ 0 ∧ asked ≥ sizeofPoolBlock then some asked else none

theorem allocFromBlock_frame (block : MdlPoolBlock) (size : Nat) :
    (∃ after p, mdlPoolAllocFromBlock block size = (after, some p) ∧ after.frame = block.frame) ∨
      mdlPoolAllocFromBlock block size = (block, none) := by
  unfold mdlPoolAllocFromBlock
  dsimp only
  split
  · exact .inl ⟨_, _, rfl, rfl⟩
  · exact .inr rfl

theorem allocFromBlocks_frames (blocks : List MdlPoolBlock) (size : Nat) :
    (allocFromBlocks blocks size).1.map MdlPoolBlock.frame = blocks.map MdlPoolBlock.frame := by
  induction blocks with
  | nil => rfl
  | cons block rest inductionHypothesis =>
      simp only [allocFromBlocks]
      rcases allocFromBlock_frame block size with ⟨after, p, served, frame⟩ | refused
      · simp [served, frame]
      · simp [refused, inductionHypothesis]

/-- The front block serves the request, or the pool stays as it is. -/
theorem allocFromFirst_frames (pool : MdlPool) (size : Nat) :
    (∃ blocks p, allocFromFirst pool size = ({ pool with blockHeadList := blocks }, some p) ∧
      blocks.map MdlPoolBlock.frame = pool.frames) ∨
      allocFromFirst pool size = (pool, none) := by
  unfold allocFromFirst MdlPool.frames
  cases blocks : pool.blockHeadList with
  | nil => exact .inr rfl
  | cons block rest =>
      rcases allocFromBlock_frame block size with ⟨after, p, served, frame⟩ | refused
      · exact .inl ⟨after :: rest, p, by simp only [served], by simp [frame]⟩
      · refine .inr ?_
        simp only [refused]
        rw [← blocks]

inductive Growth (pool : MdlPool) (size : Nat) (memory : Option Nat) (after : MdlPool) : Prop where
  | kept : after.capacity = pool.capacity → after.frames = pool.frames →
      blockAsked pool size = none ∨ memory = none → Growth pool size memory after
  | grown (asked address : Nat) : blockAsked pool size = some asked → memory = some address →
      after.capacity = (pool.capacity + asked) % sizeSpace →
      after.frames = (newBlock address ((address + asked) % sizeSpace)).frame :: pool.frames →
      Growth pool size memory after

theorem mdlPoolAlloc_growth {pool after : MdlPool} {size : Nat} {memory p : Option Nat}
    (performed : mdlPoolAlloc pool size memory = some (after, p)) :
    after.address = pool.address ∧ after.incrementSize = pool.incrementSize ∧
      Growth pool size memory after := by
  unfold mdlPoolAlloc at performed
  rcases allocFromFirst_frames pool size with ⟨blocks, place, served, frames⟩ | refused
  · simp only [served, Option.some.injEq, Prod.mk.injEq] at performed
    obtain ⟨rfl, -⟩ := performed
    exact ⟨rfl, rfl, .kept rfl frames (.inl (by simp only [blockAsked, served]))⟩
  · simp only [refused, mdlPoolAllocateFind] at performed
    have frames := allocFromBlocks_frames pool.blockHeadList size
    split at performed
    · next blocks place found =>
      rw [found] at frames
      simp only [Option.some.injEq, Prod.mk.injEq] at performed
      obtain ⟨rfl, -⟩ := performed
      refine ⟨rfl, rfl, .kept rfl frames (.inl ?_)⟩
      simp only [blockAsked, refused, found]
    · next blocks full =>
      split at performed
      · next fixed =>
        obtain ⟨rfl, -⟩ := Prod.mk.inj (Option.some.inj performed)
        refine ⟨rfl, rfl, .kept rfl rfl (.inl ?_)⟩
        simp [blockAsked, refused, full, fixed]
      · next expands =>
        by_cases large : blockSize pool.incrementSize size ≥ sizeofPoolBlock
        · have asked : blockAsked pool size = some (blockSize pool.incrementSize size) := by
            simp only [blockAsked, refused, full, if_pos (And.intro expands large)]
          rw [mdlPoolCreateBlock, if_pos large] at performed
          cases memory with
          | none =>
              obtain ⟨rfl, -⟩ := Prod.mk.inj (Option.some.inj performed)
              exact ⟨rfl, rfl, .kept rfl rfl (.inr rfl)⟩
          | some address =>
              simp only [Option.map_some] at performed
              split at performed
              · next grown place first =>
                obtain ⟨rfl, -⟩ := Prod.mk.inj (Option.some.inj performed)
                rcases allocFromFirst_frames _ size with ⟨blocks, other, served, frames⟩ | nothing
                · obtain ⟨rfl, -⟩ := Prod.mk.inj (served.symm.trans first)
                  exact ⟨rfl, rfl, .grown _ address asked rfl rfl frames⟩
                · cases nothing.symm.trans first
              · cases performed
        · rw [mdlPoolCreateBlock, if_neg large] at performed
          cases performed

namespace Request

def wanted : Request → Nat
  | alloc size _ => size
  | calloc count size _ => size * count % sizeSpace

def asked (request : Request) (pool : MdlPool) : Option Nat := blockAsked pool request.wanted

theorem perform_eq (request : Request) (pool : MdlPool) :
    request.perform pool = mdlPoolAlloc pool request.wanted request.memory := by
  cases request with
  | alloc => rfl
  | calloc => rfl

end Request

theorem large_of_blockAsked {pool : MdlPool} {size asked : Nat}
    (isAsked : blockAsked pool size = some asked) : sizeofPoolBlock ≤ asked := by
  unfold blockAsked at isAsked
  split at isAsked
  · cases isAsked
  · split at isAsked
    · cases isAsked
    · dsimp only at isAsked
      split at isAsked
      · next expands =>
        obtain rfl := Option.some.inj isAsked
        exact expands.2
      · cases isAsked

/-- The frame of the block that lies behind the pool's own structure. -/
def initialFrame (buffer initialSize : Nat) : Frame where
  address := buffer + sizeofPool
  start := buffer + sizeofPool + sizeofPoolBlock
  end_ := buffer + initialSize

def freshPool (buffer initialSize incrementSize : Nat) : MdlPool where
  address := buffer
  capacity := initialSize
  incrementSize := incrementSize
  blockHeadList := [{
    address := buffer + sizeofPool
    start := buffer + sizeofPool + sizeofPoolBlock
    current := alignPtr (buffer + sizeofPool + sizeofPoolBlock) poolAlignment
    end_ := buffer + initialSize }]

theorem large_of_created {initialSize incrementSize : Nat} {memory : Option Nat}
    {pool : Option MdlPool} (made : mdlPoolCreateInt initialSize incrementSize memory = some pool) :
    sizeofPool + sizeofPoolBlock ≤ initialSize := by
  unfold mdlPoolCreateInt at made
  split at made
  · assumption
  · cases made

theorem mdlPoolCreateInt_fresh {initialSize buffer : Nat} (incrementSize : Nat)
    (large : sizeofPool + sizeofPoolBlock ≤ initialSize)
    (bounded : buffer + initialSize < sizeSpace) :
    mdlPoolCreateInt initialSize incrementSize (some buffer) =
      some (some (freshPool buffer initialSize incrementSize)) := by
  have structured : (buffer + sizeofPool) % sizeSpace = buffer + sizeofPool :=
    Nat.mod_eq_of_lt (by omega)
  have started : (buffer + sizeofPool + sizeofPoolBlock) % sizeSpace =
      buffer + sizeofPool + sizeofPoolBlock := Nat.mod_eq_of_lt (by omega)
  rw [mdlPoolCreateInt, if_pos large]
  simp only [Option.map_some, newBlock, structured, started, Nat.mod_eq_of_lt bounded]
  rfl

/-- A pool whose first block was made with `initialSize` bytes, and any number
of blocks that were added in front of it. -/
structure MdlPool.Framed (pool : MdlPool) (initialSize : Nat) : Prop where
  large : sizeofPool + sizeofPoolBlock ≤ initialSize
  bounded : pool.address + initialSize < sizeSpace
  based : ∃ expansions, pool.frames = expansions ++ [initialFrame pool.address initialSize]
  distinct : (pool.frames.map Frame.address).Nodup
  sized : ∀ frame ∈ pool.frames, frame.address < frame.end_
  unexpanded : pool.frames.length = 1 → pool.capacity = initialSize

theorem framed_fresh {buffer initialSize : Nat} (incrementSize : Nat)
    (large : sizeofPool + sizeofPoolBlock ≤ initialSize)
    (bounded : buffer + initialSize < sizeSpace) :
    (freshPool buffer initialSize incrementSize).Framed initialSize where
  large := large
  bounded := bounded
  based := ⟨[], rfl⟩
  distinct := by simp [freshPool, MdlPool.frames]
  sized := by
    simp only [freshPool, MdlPool.frames, List.map_cons, List.map_nil, List.mem_singleton, forall_eq]
    simp only [MdlPoolBlock.frame, sizeofPoolBlock] at *
    omega
  unexpanded := fun _ => rfl

namespace MdlPool.Framed

variable {pool after : MdlPool} {initialSize : Nat}

theorem grow (framed : pool.Framed initialSize) {asked address : Nat}
    (sameAddress : after.address = pool.address)
    (frames : after.frames = (newBlock address ((address + asked) % sizeSpace)).frame :: pool.frames)
    (large : sizeofPoolBlock ≤ asked) (bounded : address + asked < sizeSpace)
    (fresh : ∀ frame ∈ pool.frames, Region.Apart ⟨address, asked⟩ frame.extent) :
    after.Framed initialSize := by
  rw [Nat.mod_eq_of_lt bounded] at frames
  have positive : 0 < asked := Nat.lt_of_lt_of_le (by decide) large
  obtain ⟨expansions, based⟩ := framed.based
  refine ⟨framed.large, sameAddress ▸ framed.bounded, ?_, ?_, ?_, ?_⟩
  · exact ⟨_ :: expansions, by rw [frames, based, sameAddress, List.cons_append]⟩
  · rw [frames, List.map_cons, List.nodup_cons]
    refine ⟨fun again => ?_, framed.distinct⟩
    obtain ⟨frame, here, same⟩ := List.mem_map.mp again
    have sized := framed.sized frame here
    have apart := fresh frame here
    simp only [MdlPoolBlock.frame, newBlock] at same
    simp only [Region.Apart, Region.stop, Frame.extent] at apart
    omega
  · rw [frames]
    intro frame here
    rcases List.mem_cons.mp here with rfl | old
    · simp only [MdlPoolBlock.frame, newBlock]
      omega
    · exact framed.sized frame old
  · rw [frames, based]
    simp

/-- A request that returns, with memory from `block_alloc` that is not in use. -/
theorem perform (framed : pool.Framed initialSize) {request : Request} {p : Option Nat}
    (performed : request.perform pool = some (after, p))
    (bounded : ∀ asked ∈ request.asked pool, ∀ address ∈ request.memory,
      address + asked < sizeSpace)
    (fresh : ∀ asked ∈ request.asked pool, ∀ address ∈ request.memory, ∀ frame ∈ pool.frames,
      Region.Apart ⟨address, asked⟩ frame.extent) : after.Framed initialSize := by
  rw [Request.perform_eq] at performed
  obtain ⟨sameAddress, -, growth⟩ := mdlPoolAlloc_growth performed
  cases growth with
  | kept capacity frames _ =>
      exact ⟨framed.large, sameAddress ▸ framed.bounded, by rw [frames, sameAddress]; exact framed.based,
        frames ▸ framed.distinct, frames ▸ framed.sized, by rw [frames, capacity]; exact framed.unexpanded⟩
  | grown asked address isAsked given capacity frames =>
      exact framed.grow sameAddress frames (large_of_blockAsked isAsked)
        (bounded asked isAsked address given) (fresh asked isAsked address given)

theorem blocks (framed : pool.Framed initialSize) :
    ∃ front block, pool.blockHeadList = front ++ [block] ∧
      block.frame = initialFrame pool.address initialSize := by
  obtain ⟨expansions, based⟩ := framed.based
  obtain ⟨front, back, split, -, last⟩ := List.map_eq_append_iff.mp based
  obtain ⟨block, rfl, frame⟩ := List.map_eq_singleton_iff.mp last
  exact ⟨front, block, split, frame⟩

theorem addresses_distinct (framed : pool.Framed initialSize) :
    (pool.blockHeadList.map MdlPoolBlock.address).Nodup := by
  have distinct := framed.distinct
  rwa [MdlPool.frames, List.map_map] at distinct

theorem block_of_single (framed : pool.Framed initialSize)
    (single : pool.blockHeadList.length = 1) :
    ∃ block, pool.blockHeadList = [block] ∧
      block.frame = initialFrame pool.address initialSize := by
  obtain ⟨front, block, split, frame⟩ := framed.blocks
  have short : front = [] := by
    rw [split, List.length_append, List.length_singleton] at single
    exact List.length_eq_zero_iff.mp (Nat.succ.inj single)
  exact ⟨block, by rw [split, short, List.nil_append], frame⟩

theorem size_of_frame (framed : pool.Framed initialSize) {block : MdlPoolBlock}
    (frame : block.frame = initialFrame pool.address initialSize) :
    (block.end_ + sizeSpace - pool.address) % sizeSpace = initialSize := by
  have bounded := framed.bounded
  have ends : block.end_ = pool.address + initialSize := congrArg Frame.end_ frame
  rw [ends]
  rw [sizeSpace_eq] at *
  omega

theorem reset_single (framed : pool.Framed initialSize)
    (single : pool.blockHeadList.length = 1) :
    resetPool pool =
      ([], .returned (freshPool pool.address initialSize pool.incrementSize)) := by
  obtain ⟨block, only, frame⟩ := framed.block_of_single single
  rw [resetPool_single only, framed.size_of_frame frame]
  have address : block.address = pool.address + sizeofPool := congrArg Frame.address frame
  have start : block.start = pool.address + sizeofPool + sizeofPoolBlock :=
    congrArg Frame.start frame
  have ends : block.end_ = pool.address + initialSize := congrArg Frame.end_ frame
  simp only [freshPool, MdlPoolBlock.rewind, address, start, ends]

/-- The reset of an expanded pool gives the inside of the first block back and
does not return. -/
theorem reset_expanded (framed : pool.Framed initialSize)
    (expanded : pool.blockHeadList.length ≠ 1) :
    resetPool pool =
      ([⟨pool.address + sizeofPool, initialSize - sizeofPool⟩], .faulted) := by
  obtain ⟨front, block, split, frame⟩ := framed.blocks
  have more : front ≠ [] := by
    rintro rfl
    exact expanded (by rw [split]; rfl)
  rw [resetPool_many split more framed.addresses_distinct]
  have bounded := framed.bounded
  have large := framed.large
  have address : block.address = pool.address + sizeofPool := congrArg Frame.address frame
  have ends : block.end_ = pool.address + initialSize := congrArg Frame.end_ frame
  have size : (block.end_ + sizeSpace - block.address) % sizeSpace = initialSize - sizeofPool := by
    rw [address, ends]
    rw [sizeSpace_eq] at *
    omega
  rw [MdlPoolBlock.freeCall, size, address]

theorem destroy_single (framed : pool.Framed initialSize)
    (single : pool.blockHeadList.length = 1) :
    mdlPoolDestroyInt pool = ([⟨pool.address, initialSize⟩], .returned ()) := by
  obtain ⟨block, only, frame⟩ := framed.block_of_single single
  rw [mdlPoolDestroyInt_single only, framed.size_of_frame frame]

theorem destroy_expanded (framed : pool.Framed initialSize)
    (expanded : pool.blockHeadList.length ≠ 1) :
    mdlPoolDestroyInt pool =
      ([⟨pool.address + sizeofPool, initialSize - sizeofPool⟩], .faulted) := by
  simp only [mdlPoolDestroyInt, framed.reset_expanded expanded]

end MdlPool.Framed

/-- `block_alloc` answers with memory inside the address space that is not in
use by the pool. -/
structure Heap.Provided (heap : Heap) (request : Request) : Prop where
  bounded : ∀ asked ∈ request.asked heap.pool, ∀ address ∈ request.memory,
    address + asked < sizeSpace
  fresh : ∀ asked ∈ request.asked heap.pool, ∀ address ∈ request.memory,
    ∀ region ∈ heap.pool.memory, Region.Apart ⟨address, asked⟩ region

instance (heap : Heap) (request : Request) : Decidable (heap.Provided request) :=
  decidable_of_iff
    ((∀ asked ∈ request.asked heap.pool, ∀ address ∈ request.memory, address + asked < sizeSpace) ∧
      ∀ asked ∈ request.asked heap.pool, ∀ address ∈ request.memory,
        ∀ region ∈ heap.pool.memory, Region.Apart ⟨address, asked⟩ region)
    ⟨fun ⟨bounded, fresh⟩ => ⟨bounded, fresh⟩, fun ⟨bounded, fresh⟩ => ⟨bounded, fresh⟩⟩

structure Heap.Descends (buffer initialSize incrementSize : Nat) (heap : Heap) : Prop where
  framed : heap.pool.Framed initialSize
  address : heap.pool.address = buffer
  increment : heap.pool.incrementSize = incrementSize

theorem Heap.Descends.step {buffer initialSize incrementSize : Nat} {heap next : Heap}
    {request : Request} (descends : heap.Descends buffer initialSize incrementSize)
    (provided : heap.Provided request) (stepped : heap.step request = some next) :
    next.Descends buffer initialSize incrementSize := by
  obtain ⟨⟨after, p⟩, performed, rfl⟩ := Option.map_eq_some_iff.mp stepped
  obtain ⟨address, increment, -⟩ :=
    mdlPoolAlloc_growth ((Request.perform_eq request heap.pool).symm.trans performed)
  refine ⟨?_, address.trans descends.address, increment.trans descends.increment⟩
  refine descends.framed.perform performed provided.bounded ?_
  intro asked isAsked address given frame here
  apply provided.fresh asked isAsked address given
  obtain ⟨block, listed, rfl⟩ := List.mem_map.mp here
  exact List.mem_cons_of_mem _ (List.mem_map_of_mem listed)

/-- What a reset is for: the blocks that were added are given back and the first
one is not, and the pool is as good as the one that was created. -/
def Restores (pool created : MdlPool) : Prop :=
  ∃ freed after, mdlPoolReset pool = (freed, .returned after) ∧
    freed.Perm (pool.blockHeadList.dropLast.map MdlPoolBlock.extent) ∧
    (∀ region ∈ freed, region.address ≠ pool.address + sizeofPool) ∧
    after.frames = [initialFrame created.address created.capacity] ∧
    (∀ block ∈ after.blockHeadList, block.current = alignPtr block.start poolAlignment) ∧
    after.capacity = created.capacity ∧
    ∀ requests, Transition.run Heap.step ⟨after, []⟩ requests =
      Transition.run Heap.step ⟨created, []⟩ requests

/-- After every run of allocations, a reset restores the pool exactly if no
block has been added to it. -/
theorem reset_restores_iff_single {initialSize incrementSize buffer : Nat} {created : MdlPool}
    {requests : List Request} {heap : Heap} (bounded : buffer + initialSize < sizeSpace)
    (made : mdlPoolCreateInt initialSize incrementSize (some buffer) = some (some created))
    (provided : Transition.Guarded Heap.step Heap.Provided ⟨created, []⟩ requests)
    (ran : Transition.run Heap.step ⟨created, []⟩ requests = some heap) :
    Restores heap.pool created ↔ heap.pool.blockHeadList.length = 1 := by
  have large := large_of_created made
  rw [mdlPoolCreateInt_fresh incrementSize large bounded] at made
  obtain rfl := Option.some.inj (Option.some.inj made)
  have descends : heap.Descends buffer initialSize incrementSize :=
    Transition.run_invariant_of_guarded Heap.step
      (fun _ _ _ descends provided stepped => descends.step provided stepped) provided
      ⟨framed_fresh incrementSize large bounded, rfl, rfl⟩ ran
  have framed := descends.framed
  constructor
  · rintro ⟨freed, after, reset, -⟩
    by_contra expanded
    rw [mdlPoolReset, framed.reset_expanded expanded] at reset
    cases reset
  · intro single
    have reset := framed.reset_single single
    rw [descends.address, descends.increment] at reset
    refine ⟨[], _, reset, ?_, by simp, rfl, by simp [freshPool], rfl, fun requests => rfl⟩
    obtain ⟨block, only, -⟩ := framed.block_of_single single
    simp [only]

/-- A pool that has served requests from its first block, and has been refused
memory for a larger one. -/
theorem reset_restores_iff_single_used :
    ∃ heap, Transition.run Heap.step ⟨freshPool 4096 256 100, []⟩
        [.alloc 50 none, .alloc 300 none, .calloc 2 10 none] = some heap ∧
      Restores heap.pool (freshPool 4096 256 100) := by
  have single : (Transition.run Heap.step ⟨freshPool 4096 256 100, []⟩
      [.alloc 50 none, .alloc 300 none, .calloc 2 10 none]).map
        (fun heap => heap.pool.blockHeadList.length) = some 1 := by
    decide +kernel
  obtain ⟨heap, ran, one⟩ := Option.map_eq_some_iff.mp single
  exact ⟨heap, ran, (@reset_restores_iff_single 256 100 4096 _ _ _ (by decide) (by decide +kernel)
    (by decide +kernel) ran).mpr one⟩

/-- A request that does not fit into the first block adds one.  The reset then
passes the inside of the first block to `block_free`, never the block that was
added, and does not return. -/
theorem reset_frees_embedded_block :
    ∃ heap, Transition.Guarded Heap.step Heap.Provided ⟨freshPool 4096 256 100, []⟩
        [.alloc 300 (some 8192)] ∧
      Transition.run Heap.step ⟨freshPool 4096 256 100, []⟩ [.alloc 300 (some 8192)] = some heap ∧
      mdlPoolReset heap.pool = ([⟨4200, 152⟩], .faulted) ∧
      heap.pool.memory.tail = [⟨8192, 400⟩, ⟨4200, 152⟩] ∧
      ¬ Restores heap.pool (freshPool 4096 256 100) := by
  have view : (Transition.run Heap.step ⟨freshPool 4096 256 100, []⟩
      [.alloc 300 (some 8192)]).map (fun heap => (mdlPoolReset heap.pool, heap.pool.memory.tail)) =
        some (([⟨4200, 152⟩], .faulted), [⟨8192, 400⟩, ⟨4200, 152⟩]) := by
    decide +kernel
  obtain ⟨heap, ran, equal⟩ := Option.map_eq_some_iff.mp view
  obtain ⟨reset, memory⟩ := Prod.mk.inj equal
  refine ⟨heap, by decide +kernel, ran, reset, memory, ?_⟩
  rintro ⟨freed, after, returned, -⟩
  cases reset.symm.trans returned

end UtilsModules.Pool

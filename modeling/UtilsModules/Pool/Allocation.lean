import Mathlib.Data.List.Pairwise
import UtilsModules.Library.Transition
import UtilsModules.Pool.Pool

/-!
Allocation from a pool over whole runs.

`Heap` is a pool with the regions it has returned since it was made.  Requests
are allowed when their size arithmetic stays inside `size_t` and `block_alloc`
answers with `NULL` or fresh aligned memory.
-/

namespace UtilsModules.Pool

namespace MdlPoolBlock

def extent (block : MdlPoolBlock) : Region := ⟨block.address, block.end_ - block.address⟩

structure Sound (block : MdlPoolBlock) : Prop where
  headed : block.address + sizeofPoolBlock = block.start
  started : block.start ≤ block.current
  within : block.current ≤ block.end_
  bounded : block.end_ < sizeSpace
  aligned : block.current % poolAlignment = 0

/-- The block after a request has been taken off it. -/
def advance (block : MdlPoolBlock) (size : Nat) : MdlPoolBlock :=
  { block with current := block.current + roundSize size }

end MdlPoolBlock

theorem roundSize_spec {size : Nat} (fits : size + poolAlignment < sizeSpace) :
    size ≤ roundSize size ∧ roundSize size < size + poolAlignment ∧
      roundSize size % poolAlignment = 0 := by
  unfold roundSize
  rw [Nat.mod_eq_of_lt fits]
  split
  · simp only [poolAlignment] at *
    omega
  · simp only [poolAlignment] at *
    omega

theorem alignPtr_of_aligned {ptr : Nat} (aligned : ptr % poolAlignment = 0)
    (bounded : ptr < sizeSpace) : alignPtr ptr poolAlignment = ptr := by
  unfold alignPtr
  simp only [poolAlignment, sizeSpace_eq] at *
  omega

theorem allocFromBlock_cases {block : MdlPoolBlock} (sound : block.Sound) (size : Nat) :
    (block.current + roundSize size ≤ block.end_ ∧
      mdlPoolAllocFromBlock block size = (block.advance size, some block.current)) ∨
    (block.end_ < block.current + roundSize size ∧
      mdlPoolAllocFromBlock block size = (block, none)) := by
  have room : (block.end_ + sizeSpace - block.current) % sizeSpace = block.end_ - block.current := by
    have := sound.within
    have := sound.bounded
    rw [sizeSpace_eq] at *
    omega
  unfold mdlPoolAllocFromBlock
  dsimp only
  rw [room]
  have within := sound.within
  have bounded := sound.bounded
  by_cases enough : block.current + roundSize size ≤ block.end_
  · rw [if_pos (by omega), Nat.mod_eq_of_lt (by omega)]
    exact .inl ⟨enough, rfl⟩
  · rw [if_neg (by omega)]
    exact .inr ⟨by omega, rfl⟩

namespace MdlPoolBlock.Sound

variable {block : MdlPoolBlock}

theorem advance (sound : block.Sound) {size : Nat} (fits : size + poolAlignment < sizeSpace)
    (room : block.current + roundSize size ≤ block.end_) : (block.advance size).Sound := by
  obtain ⟨-, -, rounded⟩ := roundSize_spec fits
  have aligned := sound.aligned
  refine ⟨sound.headed, Nat.le_add_right_of_le sound.started, room, sound.bounded, ?_⟩
  simp only [MdlPoolBlock.advance, poolAlignment] at *
  omega

theorem within_extent (sound : block.Sound) {size : Nat}
    (room : block.current + size ≤ block.end_) :
    Region.Within ⟨block.current, size⟩ block.extent := by
  have headed := sound.headed
  have started := sound.started
  simp only [Region.Within, Region.stop, MdlPoolBlock.extent]
  omega

theorem given_within_extent (sound : block.Sound) {region : Region}
    (above : block.start ≤ region.address) (below : region.stop ≤ block.current) :
    region.Within block.extent := by
  have headed := sound.headed
  have started := sound.started
  have within := sound.within
  simp only [Region.Within, Region.stop, MdlPoolBlock.extent] at *
  omega

end MdlPoolBlock.Sound

theorem newBlock_eq {address end_ : Nat} (aligned : address % poolAlignment = 0)
    (bounded : address + sizeofPoolBlock < sizeSpace) :
    newBlock address end_ =
      ⟨address, address + sizeofPoolBlock, address + sizeofPoolBlock, end_⟩ := by
  have start : (address + sizeofPoolBlock) % sizeSpace = address + sizeofPoolBlock :=
    Nat.mod_eq_of_lt bounded
  simp only [newBlock, start]
  rw [alignPtr_of_aligned _ bounded]
  simp only [poolAlignment, sizeofPoolBlock] at *
  omega

/-- The block that is added for a request has room for it, and its size does
not wrap. -/
theorem blockSize_spec {incrementSize size : Nat} (expands : incrementSize ≠ 0)
    (fits : size + incrementSize + sizeofPoolBlock + poolAlignment < sizeSpace) :
    size + sizeofPoolBlock + poolAlignment ≤ blockSize incrementSize size ∧
      blockSize incrementSize size < sizeSpace := by
  unfold blockSize
  rw [Nat.mod_eq_of_lt (by omega), Nat.mod_eq_of_lt fits]
  split
  · set total := size + incrementSize + sizeofPoolBlock + poolAlignment with totalEqual
    have quotient := Nat.div_add_mod total incrementSize
    have remainder := Nat.mod_lt total (Nat.pos_of_ne_zero expands)
    have below : total / incrementSize * incrementSize < sizeSpace :=
      Nat.lt_of_le_of_lt (Nat.div_mul_le_self total incrementSize) fits
    dsimp only
    rw [Nat.mod_eq_of_lt below, Nat.mul_comm]
    exact ⟨by omega, by omega⟩
  · exact ⟨by omega, by omega⟩

theorem mem_of_mem_replaced {before rest : List MdlPoolBlock} {old other : MdlPoolBlock}
    (new : MdlPoolBlock) (membership : other ∈ before ++ old :: rest) :
    other = old ∨ other ∈ before ++ new :: rest := by
  rw [List.mem_append, List.mem_cons] at membership
  rcases membership with inBefore | same | inRest
  · exact .inr (by simp [inBefore])
  · exact .inl same
  · exact .inr (by simp [inRest])

structure Advances (blocks after : List MdlPoolBlock) (size p : Nat) : Prop where
  found : ∃ before block rest, blocks = before ++ block :: rest ∧
    after = before ++ block.advance size :: rest ∧
    p = block.current ∧ block.current + roundSize size ≤ block.end_

theorem Advances.cons {blocks after : List MdlPoolBlock} {size p : Nat}
    (advances : Advances blocks after size p) (block : MdlPoolBlock) :
    Advances (block :: blocks) (block :: after) size p := by
  obtain ⟨before, found, rest, rfl, rfl, here⟩ := advances.found
  exact ⟨block :: before, found, rest, rfl, rfl, here⟩

theorem allocFromBlocks_cases {blocks : List MdlPoolBlock}
    (sound : ∀ block ∈ blocks, block.Sound) (size : Nat) :
    (∃ after p, allocFromBlocks blocks size = (after, some p) ∧ Advances blocks after size p) ∨
      allocFromBlocks blocks size = (blocks, none) := by
  induction blocks with
  | nil => exact .inr rfl
  | cons block rest inductionHypothesis =>
      simp only [allocFromBlocks]
      rcases allocFromBlock_cases (sound block (by simp)) size with ⟨room, equal⟩ | ⟨-, equal⟩
      · rw [equal]
        exact .inl ⟨_, _, rfl, [], block, rest, rfl, rfl, rfl, room⟩
      · rw [equal]
        rcases inductionHypothesis fun other membership => sound other (by simp [membership]) with
          ⟨after, p, found, advances⟩ | nothing
        · simp only [found]
          exact .inl ⟨_, _, rfl, advances.cons block⟩
        · simp only [nothing]
          exact .inr trivial

theorem allocFromFirst_cases {pool : MdlPool} {block : MdlPoolBlock} {rest : List MdlPoolBlock}
    (blocks : pool.blockHeadList = block :: rest) (sound : block.Sound) (size : Nat) :
    (∃ after p, allocFromFirst pool size = ({ pool with blockHeadList := after }, some p) ∧
      Advances pool.blockHeadList after size p) ∨
      block.end_ < block.current + roundSize size ∧ allocFromFirst pool size = (pool, none) := by
  simp only [allocFromFirst, blocks]
  rcases allocFromBlock_cases sound size with ⟨room, equal⟩ | ⟨full, equal⟩
  · rw [equal]
    exact .inl ⟨_, _, rfl, [], block, rest, rfl, rfl, rfl, room⟩
  · rw [equal]
    refine .inr ⟨full, ?_⟩
    cases pool
    simp_all

/-- A pool and the regions it has returned since it was made. -/
structure Heap where
  pool : MdlPool
  given : List Region

/-- The memory a pool has got from `block_alloc`: its own structure and its
blocks. -/
def MdlPool.memory (pool : MdlPool) : List Region :=
  ⟨pool.address, sizeofPool⟩ :: pool.blockHeadList.map MdlPoolBlock.extent

/-- A request, with what `block_alloc` answers if it is asked. -/
inductive Request where
  | alloc (size : Nat) (memory : Option Nat)
  | calloc (count size : Nat) (memory : Option Nat)

namespace Request

def bytes : Request → Nat
  | alloc size _ => size
  | calloc count size _ => size * count

def memory : Request → Option Nat
  | alloc _ memory => memory
  | calloc _ _ memory => memory

def perform (request : Request) (pool : MdlPool) : Option (MdlPool × Option Nat) :=
  match request with
  | alloc size memory => mdlPoolAlloc pool size memory
  | calloc count size memory => mdlPoolCalloc pool count size memory

end Request

namespace Heap

/-- The size of the block that would be added for a request. -/
def growth (heap : Heap) (request : Request) : Nat :=
  blockSize heap.pool.incrementSize request.bytes

def step (heap : Heap) (request : Request) : Option Heap :=
  (request.perform heap.pool).map fun (after, p) =>
    ⟨after, p.toList.map (fun address => ⟨address, request.bytes⟩) ++ heap.given⟩

/-- The size arithmetic of the request stays inside `size_t`, and `block_alloc`
answers with `NULL` or with aligned memory that the pool does not have yet. -/
structure Allowed (heap : Heap) (request : Request) : Prop where
  fits : request.bytes + heap.pool.incrementSize + sizeofPoolBlock + poolAlignment < sizeSpace
  aligned : ∀ address ∈ request.memory, address % poolAlignment = 0
  bounded : ∀ address ∈ request.memory, address + heap.growth request < sizeSpace
  fresh : ∀ address ∈ request.memory, ∀ region ∈ heap.pool.memory,
    Region.Apart ⟨address, heap.growth request⟩ region

instance (heap : Heap) (request : Request) : Decidable (heap.Allowed request) :=
  decidable_of_iff
    (request.bytes + heap.pool.incrementSize + sizeofPoolBlock + poolAlignment < sizeSpace ∧
      (∀ address ∈ request.memory, address % poolAlignment = 0) ∧
      (∀ address ∈ request.memory, address + heap.growth request < sizeSpace) ∧
      ∀ address ∈ request.memory, ∀ region ∈ heap.pool.memory,
        Region.Apart ⟨address, heap.growth request⟩ region)
    ⟨fun ⟨fits, aligned, bounded, fresh⟩ => ⟨fits, aligned, bounded, fresh⟩,
      fun ⟨fits, aligned, bounded, fresh⟩ => ⟨fits, aligned, bounded, fresh⟩⟩

structure Sound (heap : Heap) : Prop where
  nonempty : heap.pool.blockHeadList ≠ []
  blocks : ∀ block ∈ heap.pool.blockHeadList, block.Sound
  apart : (heap.pool.blockHeadList.map MdlPoolBlock.extent).Pairwise Region.Apart
  placed : ∀ region ∈ heap.given, region.address % poolAlignment = 0 ∧
    ∃ block ∈ heap.pool.blockHeadList,
      block.start ≤ region.address ∧ region.stop ≤ block.current
  disjoint : heap.given.Pairwise Region.Apart

theorem Sound.blocks_apart {heap : Heap} (sound : heap.Sound) {first second : MdlPoolBlock}
    (firstHere : first ∈ heap.pool.blockHeadList) (secondHere : second ∈ heap.pool.blockHeadList)
    (different : first ≠ second) : first.extent.Apart second.extent := by
  have : Std.Symm fun first second : MdlPoolBlock => first.extent.Apart second.extent :=
    ⟨fun _ _ apart => apart.symm⟩
  exact (List.pairwise_map.mp sound.apart).forall firstHere secondHere different

theorem Sound.apart_given {heap : Heap} (sound : heap.Sound) {block : MdlPoolBlock} {size : Nat}
    (here : block ∈ heap.pool.blockHeadList) (room : block.current + size ≤ block.end_) :
    ∀ region ∈ heap.given, Region.Apart ⟨block.current, size⟩ region := by
  intro region old
  obtain ⟨-, owner, ownerHere, above, below⟩ := sound.placed region old
  by_cases same : owner = block
  · subst same
    exact .inr below
  · have separate := sound.blocks_apart here ownerHere (Ne.symm same)
    have started := (sound.blocks block here).within_extent room
    have inOwner := (sound.blocks owner ownerHere).given_within_extent above below
    exact separate.mono started inOwner

theorem Sound.place {heap : Heap} (sound : heap.Sound) {after : List MdlPoolBlock}
    {size p : Nat} (fits : size + poolAlignment < sizeSpace)
    (advances : Advances heap.pool.blockHeadList after size p) :
    Sound ⟨{ heap.pool with blockHeadList := after }, ⟨p, size⟩ :: heap.given⟩ := by
  obtain ⟨before, block, rest, blocks, rfl, rfl, room⟩ := advances.found
  obtain ⟨covers, -, -⟩ := roundSize_spec fits
  have here : block ∈ heap.pool.blockHeadList := by simp [blocks]
  have blockSound := sound.blocks block here
  refine ⟨by simp, ?_, ?_, ?_, ?_⟩
  · intro other membership
    rcases mem_of_mem_replaced block membership with rfl | old
    · exact blockSound.advance fits room
    · exact sound.blocks other (blocks ▸ old)
  · have apart := sound.apart
    rw [blocks] at apart
    simpa [MdlPoolBlock.extent, MdlPoolBlock.advance] using apart
  · intro region membership
    rcases List.mem_cons.mp membership with rfl | old
    · refine ⟨blockSound.aligned, block.advance size, by simp, blockSound.started, ?_⟩
      exact Nat.add_le_add_left covers block.current
    · obtain ⟨aligned, owner, ownerHere, above, below⟩ := sound.placed region old
      refine ⟨aligned, ?_⟩
      rcases mem_of_mem_replaced (block.advance size) (blocks ▸ ownerHere) with rfl | kept
      · exact ⟨owner.advance size, by simp, above, Nat.le_add_right_of_le below⟩
      · exact ⟨owner, kept, above, below⟩
  · have enough : block.current + size ≤ block.end_ :=
      Nat.le_trans (Nat.add_le_add_left covers block.current) room
    exact List.pairwise_cons.mpr ⟨sound.apart_given here enough, sound.disjoint⟩

theorem Sound.grow {heap : Heap} (sound : heap.Sound) {address size capacity : Nat}
    (large : sizeofPoolBlock ≤ size) (aligned : address % poolAlignment = 0)
    (bounded : address + size < sizeSpace)
    (fresh : ∀ region ∈ heap.pool.memory, Region.Apart ⟨address, size⟩ region) :
    Sound ⟨{ heap.pool with
      capacity := capacity
      blockHeadList := newBlock address (address + size) :: heap.pool.blockHeadList },
      heap.given⟩ := by
  have made : newBlock address (address + size) =
      ⟨address, address + sizeofPoolBlock, address + sizeofPoolBlock, address + size⟩ :=
    newBlock_eq aligned (by omega)
  rw [made]
  refine ⟨by simp, ?_, ?_, ?_, sound.disjoint⟩
  · intro block membership
    rcases List.mem_cons.mp membership with rfl | old
    · refine ⟨rfl, Nat.le_refl _, Nat.add_le_add_left large address, bounded, ?_⟩
      simp only [poolAlignment, sizeofPoolBlock] at *
      omega
    · exact sound.blocks block old
  · rw [List.map_cons, List.pairwise_cons]
    refine ⟨?_, sound.apart⟩
    intro region membership
    have extent : MdlPoolBlock.extent ⟨address, address + sizeofPoolBlock,
        address + sizeofPoolBlock, address + size⟩ = ⟨address, size⟩ := by
      simp [MdlPoolBlock.extent]
    rw [extent]
    exact fresh region (List.mem_cons_of_mem _ membership)
  · intro region membership
    obtain ⟨regionAligned, block, here, inside⟩ := sound.placed region membership
    exact ⟨regionAligned, block, List.mem_cons_of_mem _ here, inside⟩

/-- What a request comes to: `NULL` and an unchanged pool, when the pool does
not expand or gets no memory, or a new region. -/
inductive Outcome (heap : Heap) (request : Request) : MdlPool → Option Nat → Prop where
  | refused : heap.pool.incrementSize = 0 ∨ request.memory = none →
      Outcome heap request heap.pool none
  | returned (after : MdlPool) (p : Nat) :
      Sound ⟨after, ⟨p, request.bytes⟩ :: heap.given⟩ → Outcome heap request after (some p)

/-- Expansion: the assertions hold, and the new block serves the request. -/
theorem Sound.expand {heap : Heap} (sound : heap.Sound) {request : Request}
    (allowed : heap.Allowed request)
    (full : allocFromBlocks heap.pool.blockHeadList request.bytes =
      (heap.pool.blockHeadList, none)) :
    ∃ after p, mdlPoolAllocateFind heap.pool request.bytes request.memory = some (after, p) ∧
      Outcome heap request after p := by
  have fits := allowed.fits
  simp only [mdlPoolAllocateFind, full]
  split
  · next fixed => exact ⟨_, _, rfl, .refused (.inl fixed)⟩
  · next expands =>
    obtain ⟨large, small⟩ := blockSize_spec expands fits
    rw [mdlPoolCreateBlock, if_pos (by omega)]
    cases memory : request.memory with
    | none => exact ⟨_, _, rfl, .refused (.inr memory)⟩
    | some address =>
        have aligned := allowed.aligned address memory
        have bounded : address + blockSize heap.pool.incrementSize request.bytes < sizeSpace :=
          allowed.bounded address memory
        simp only [Option.map_some]
        rw [Nat.mod_eq_of_lt bounded]
        have grown := @Sound.grow heap sound address
          (blockSize heap.pool.incrementSize request.bytes)
          ((heap.pool.capacity + blockSize heap.pool.incrementSize request.bytes) % sizeSpace)
          (by omega) aligned bounded (allowed.fresh address memory)
        have made := @newBlock_eq address
          (address + blockSize heap.pool.incrementSize request.bytes) aligned (by omega)
        obtain ⟨-, rounded, -⟩ := @roundSize_spec request.bytes (by omega)
        have served := @allocFromFirst_cases { heap.pool with
          capacity :=
            (heap.pool.capacity + blockSize heap.pool.incrementSize request.bytes) % sizeSpace
          blockHeadList := newBlock address
            (address + blockSize heap.pool.incrementSize request.bytes) ::
              heap.pool.blockHeadList } _ _ rfl (grown.blocks _ (by simp)) request.bytes
        rcases served with ⟨after, p, equal, advances⟩ | ⟨noRoom, -⟩
        · rw [equal]
          exact ⟨_, _, rfl, .returned _ _ (grown.place (by omega) advances)⟩
        · rw [made] at noRoom
          dsimp only at noRoom
          omega

theorem Sound.alloc {heap : Heap} (sound : heap.Sound) {request : Request}
    (allowed : heap.Allowed request) :
    ∃ after p, mdlPoolAlloc heap.pool request.bytes request.memory = some (after, p) ∧
      Outcome heap request after p := by
  have fits := allowed.fits
  obtain ⟨block, rest, blocks⟩ := List.exists_cons_of_ne_nil sound.nonempty
  unfold mdlPoolAlloc
  rcases allocFromFirst_cases blocks (sound.blocks block (by simp [blocks])) request.bytes with
    ⟨after, p, equal, advances⟩ | ⟨-, equal⟩
  · rw [equal]
    exact ⟨_, _, rfl, .returned _ _ (sound.place (by omega) advances)⟩
  · rw [equal]
    dsimp only
    rcases allocFromBlocks_cases sound.blocks request.bytes with
      ⟨after, p, found, advances⟩ | nothing
    · simp only [mdlPoolAllocateFind, found]
      exact ⟨_, _, rfl, .returned _ _ (sound.place (by omega) advances)⟩
    · exact sound.expand allowed nothing

theorem Sound.perform {heap : Heap} (sound : heap.Sound) {request : Request}
    (allowed : heap.Allowed request) :
    ∃ after p, request.perform heap.pool = some (after, p) ∧ Outcome heap request after p := by
  cases request with
  | alloc size memory => exact sound.alloc allowed
  | calloc count size memory =>
      have exactProduct : size * count % sizeSpace = size * count := by
        have fits := allowed.fits
        simp only [Request.bytes] at fits
        exact Nat.mod_eq_of_lt (by omega)
      simp only [Request.perform, mdlPoolCalloc, exactProduct]
      exact sound.alloc allowed

theorem Sound.step {heap : Heap} {request : Request} (sound : heap.Sound)
    (allowed : heap.Allowed request) : ∃ next, heap.step request = some next ∧ next.Sound := by
  obtain ⟨after, p, performed, outcome⟩ := sound.perform allowed
  refine ⟨_, by rw [Heap.step, performed, Option.map_some], ?_⟩
  cases outcome with
  | refused => exact sound
  | returned after p kept => exact kept

end Heap

/-- The pool `mdl_pool_create_int` makes has one empty block. -/
theorem sound_created {initialSize incrementSize buffer : Nat} {pool : MdlPool}
    (aligned : buffer % poolAlignment = 0) (bounded : buffer + initialSize < sizeSpace)
    (made : mdlPoolCreateInt initialSize incrementSize (some buffer) = some (some pool)) :
    Heap.Sound ⟨pool, []⟩ := by
  unfold mdlPoolCreateInt at made
  split at made
  · next large =>
    have inside : buffer + sizeofPool < sizeSpace := by omega
    simp only [Option.map_some, Option.some.injEq] at made
    subst made
    have block : newBlock ((buffer + sizeofPool) % sizeSpace) ((buffer + initialSize) % sizeSpace) =
        ⟨buffer + sizeofPool, buffer + sizeofPool + sizeofPoolBlock,
          buffer + sizeofPool + sizeofPoolBlock, buffer + initialSize⟩ := by
      rw [Nat.mod_eq_of_lt inside, Nat.mod_eq_of_lt bounded]
      refine newBlock_eq ?_ (by omega)
      simp only [poolAlignment, sizeofPool] at *
      omega
    rw [block]
    refine ⟨by simp, ?_, by simp, by simp, by simp⟩
    simp only [List.mem_singleton, forall_eq]
    refine ⟨rfl, Nat.le_refl _, by dsimp only; omega, bounded, ?_⟩
    simp only [poolAlignment, sizeofPool, sizeofPoolBlock] at *
    omega
  · cases made

/-- Every run of allowed requests comes to its end with no failed assertion,
and what the pool has returned by then is aligned, inside its blocks and
disjoint; a further request that gets `NULL` changes nothing. -/
theorem pool_allocation_safe {initialSize incrementSize buffer : Nat} {pool : MdlPool}
    {requests : List Request}
    (aligned : buffer % poolAlignment = 0) (bounded : buffer + initialSize < sizeSpace)
    (made : mdlPoolCreateInt initialSize incrementSize (some buffer) = some (some pool))
    (allowed : Transition.Guarded Heap.step Heap.Allowed ⟨pool, []⟩ requests) :
    ∃ heap, Transition.run Heap.step ⟨pool, []⟩ requests = some heap ∧
      (∀ block ∈ heap.pool.blockHeadList,
        block.start ≤ block.current ∧ block.current ≤ block.end_) ∧
      (∀ region ∈ heap.given, region.address % poolAlignment = 0 ∧
        ∃ block ∈ heap.pool.blockHeadList,
          block.start ≤ region.address ∧ region.stop ≤ block.end_) ∧
      heap.given.Pairwise Region.Apart ∧
      ∀ request, heap.Allowed request → ∃ after p,
        request.perform heap.pool = some (after, p) ∧
          (p = none → after = heap.pool ∧
            (heap.pool.incrementSize = 0 ∨ request.memory = none)) := by
  obtain ⟨heap, ran, sound⟩ := Transition.run_defined_of_guarded Heap.step
    (fun _ _ sound allowed => Heap.Sound.step sound allowed) allowed
    (sound_created aligned bounded made)
  refine ⟨heap, ran, ?_, ?_, sound.disjoint, ?_⟩
  · intro block membership
    exact ⟨(sound.blocks block membership).started, (sound.blocks block membership).within⟩
  · intro region membership
    obtain ⟨regionAligned, block, here, above, below⟩ := sound.placed region membership
    exact ⟨regionAligned, block, here, above, Nat.le_trans below (sound.blocks block here).within⟩
  · intro request requestAllowed
    obtain ⟨after, p, performed, outcome⟩ := sound.perform requestAllowed
    refine ⟨after, p, performed, ?_⟩
    rintro rfl
    cases outcome with
    | refused why => exact ⟨rfl, why⟩

/-- A pool of 256 bytes that serves a request from its first block, expands for
a larger one and for a `calloc`, and is refused memory in between. -/
theorem pool_allocation_safe_expanding :
    ∃ heap, Transition.run Heap.step
        ⟨⟨4096, 256, 100, [⟨4200, 4240, 4240, 4352⟩]⟩, []⟩
        [.alloc 50 none, .alloc 300 (some 8192), .alloc 90 none, .calloc 7 11 (some 12288)] =
          some heap ∧
      heap.given.length = 3 := by
  obtain ⟨heap, ran, -⟩ := @pool_allocation_safe 256 100 4096
    ⟨4096, 256, 100, [⟨4200, 4240, 4240, 4352⟩]⟩
    [.alloc 50 none, .alloc 300 (some 8192), .alloc 90 none, .calloc 7 11 (some 12288)]
    (by decide) (by decide) (by decide +kernel) (by decide +kernel)
  have returned : (Transition.run Heap.step ⟨⟨4096, 256, 100, [⟨4200, 4240, 4240, 4352⟩]⟩, []⟩
      [.alloc 50 none, .alloc 300 (some 8192), .alloc 90 none, .calloc 7 11 (some 12288)]).map
        (fun heap => heap.given.length) = some 3 := by
    decide +kernel
  rw [ran] at returned
  exact ⟨heap, ran, Option.some.inj returned⟩

end UtilsModules.Pool

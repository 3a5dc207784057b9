import UtilsModules.Pool.Blocks

/-!
Requests whose sizes wrap.

Nothing is asked of a request here.  The product of `mdl_pool_calloc`, the size
rounded up to the alignment, the sum that is compared with `increment_size` and
the size of a new block are all taken modulo the range of `size_t`; `Sized` says
for which requests the result is as it should be nevertheless.
-/

namespace UtilsModules.Pool

open Linked

def mdlPoolZalloc (pool : MdlPool) (size : Nat) (memory : Option Nat) :
    Option (MdlPool × Option Nat) :=
  mdlPoolCalloc pool 1 size memory

/-- What a request for a number of bytes should come to: `NULL`, or a region of
that many bytes inside the used part of a block. -/
def Serves (bytes : Nat) : Option (MdlPool × Option Nat) → Prop
  | none => False
  | some (_, none) => True
  | some (after, some p) => ∃ block ∈ after.blockHeadList,
      block.start ≤ p ∧ p + bytes ≤ block.current ∧ block.current ≤ block.end_

/-- `block_alloc`, if it is asked, answers with `NULL` or with aligned memory of
the size it was asked for. -/
structure Honest (pool : MdlPool) (wanted : Nat) (memory : Option Nat) : Prop where
  nonnull : ∀ asked ∈ blockAsked pool wanted, ∀ address ∈ memory, address ≠ 0
  aligned : ∀ asked ∈ blockAsked pool wanted, ∀ address ∈ memory, address % poolAlignment = 0
  bounded : ∀ asked ∈ blockAsked pool wanted, ∀ address ∈ memory, address + asked < sizeSpace

instance (pool : MdlPool) (wanted : Nat) (memory : Option Nat) :
    Decidable (Honest pool wanted memory) :=
  decidable_of_iff
    ((∀ asked ∈ blockAsked pool wanted, ∀ address ∈ memory, address ≠ 0) ∧
      (∀ asked ∈ blockAsked pool wanted, ∀ address ∈ memory, address % poolAlignment = 0) ∧
      ∀ asked ∈ blockAsked pool wanted, ∀ address ∈ memory, address + asked < sizeSpace)
    ⟨fun ⟨nonnull, aligned, bounded⟩ => ⟨nonnull, aligned, bounded⟩,
      fun ⟨nonnull, aligned, bounded⟩ => ⟨nonnull, aligned, bounded⟩⟩

/-- The bytes a new block has on top of the request it is made for. -/
def blockOverhead : Nat := sizeofPoolBlock + poolAlignment

/-- A new block for so many bytes can be expressed: the request with its
overhead stays in `size_t`, and so does the multiple of the increment. -/
def Expressible (incrementSize bytes : Nat) : Prop :=
  bytes + blockOverhead < sizeSpace ∧
    (bytes + blockOverhead ≤ incrementSize ∨ bytes + blockOverhead + incrementSize < sizeSpace)

instance (incrementSize bytes : Nat) : Decidable (Expressible incrementSize bytes) :=
  inferInstanceAs (Decidable (_ ∧ _))

/-- The request with its overhead wraps, and the multiple of the increment that
is made for what is left of it has room for a header. -/
def WrapsToHeader (incrementSize wanted : Nat) : Prop :=
  sizeSpace ≤ wanted + blockOverhead ∧
    let left := wanted + blockOverhead - sizeSpace
    if incrementSize < left then sizeofPoolBlock ≤ (left / incrementSize + 1) * incrementSize
    else sizeofPoolBlock ≤ incrementSize

instance (incrementSize wanted : Nat) : Decidable (WrapsToHeader incrementSize wanted) := by
  unfold WrapsToHeader
  infer_instance

/-- Some block of the pool has room for the size as `mdl_pool_alloc_from_block`
rounds it. -/
def MdlPool.HasRoom (pool : MdlPool) (wanted : Nat) : Prop :=
  ∃ block ∈ pool.blockHeadList, block.current + roundSize wanted ≤ block.end_

instance (pool : MdlPool) (wanted : Nat) : Decidable (pool.HasRoom wanted) :=
  inferInstanceAs (Decidable (∃ _ ∈ _, _))

/-- The condition on a request for `bytes` bytes.  What the code sees of it is
`bytes` modulo the range of `size_t`. -/
def Sized (pool : MdlPool) (bytes : Nat) (memory : Option Nat) : Prop :=
  let wanted := bytes % sizeSpace
  if pool.HasRoom wanted then
    bytes + poolAlignment ≤ sizeSpace
  else
    pool.incrementSize = 0 ∨ Expressible pool.incrementSize bytes ∨
      memory = none ∧
        (Expressible pool.incrementSize wanted ∨ WrapsToHeader pool.incrementSize wanted)

instance (pool : MdlPool) (bytes : Nat) (memory : Option Nat) :
    Decidable (Sized pool bytes memory) := by
  unfold Sized
  infer_instance

theorem roundSize_aligned (size : Nat) : roundSize size % poolAlignment = 0 := by
  unfold roundSize
  split
  · exact Nat.mul_mod_left _ _
  · omega

theorem le_roundSize {size : Nat} (small : size + poolAlignment ≤ sizeSpace) :
    size ≤ roundSize size ∧ roundSize size < size + poolAlignment := by
  unfold roundSize
  split
  · simp only [poolAlignment, sizeSpace_eq] at *
    omega
  · simp only [poolAlignment, sizeSpace_eq] at *
    omega

theorem roundSize_of_large {size : Nat} (bounded : size < sizeSpace)
    (large : sizeSpace < size + poolAlignment) : roundSize size = 0 := by
  unfold roundSize
  split
  · simp only [poolAlignment, sizeSpace_eq] at *
    omega
  · simp only [poolAlignment, sizeSpace_eq] at *
    omega

theorem le_blockSize {incrementSize size : Nat} (expands : incrementSize ≠ 0)
    (expressible : Expressible incrementSize size) :
    size + blockOverhead ≤ blockSize incrementSize size := by
  obtain ⟨small, inside⟩ := expressible
  unfold blockOverhead at *
  by_cases multiple : incrementSize < size + sizeofPoolBlock + poolAlignment
  · have := blockSize_spec expands (by omega : size + incrementSize + sizeofPoolBlock +
      poolAlignment < sizeSpace)
    omega
  · rw [blockSize, Nat.mod_eq_of_lt (by omega), if_neg multiple]
    omega

theorem blockSize_eq_zero {incrementSize size : Nat} (small : size + blockOverhead < sizeSpace)
    (wraps : ¬ Expressible incrementSize size) :
    blockSize incrementSize size = 0 := by
  unfold Expressible blockOverhead at *
  have reduced : (size + incrementSize + sizeofPoolBlock + poolAlignment) % sizeSpace =
      size + incrementSize + sizeofPoolBlock + poolAlignment - sizeSpace := by
    rw [Nat.mod_eq_sub_mod (by omega), Nat.mod_eq_of_lt (by omega)]
  rw [blockSize, Nat.mod_eq_of_lt (by omega), if_pos (by omega), reduced]
  dsimp only
  rw [Nat.div_eq_of_lt (by omega), Nat.zero_mul, Nat.zero_mod]

theorem blockSize_of_wrapped {incrementSize wanted : Nat} (bounded : wanted < sizeSpace)
    (wraps : sizeSpace ≤ wanted + blockOverhead) (expands : incrementSize ≠ 0) :
    blockSize incrementSize wanted =
      if incrementSize < wanted + blockOverhead - sizeSpace then
        ((wanted + blockOverhead - sizeSpace) / incrementSize + 1) * incrementSize
      else
        incrementSize := by
  set left := wanted + blockOverhead - sizeSpace with leftEqual
  have reduced : (wanted + sizeofPoolBlock + poolAlignment) % sizeSpace = left := by
    unfold blockOverhead at *
    rw [Nat.mod_eq_sub_mod (by omega), Nat.mod_eq_of_lt]
    · omega
    · simp only [sizeofPoolBlock, poolAlignment, sizeSpace_eq] at *
      omega
  rw [blockSize, reduced]
  split
  · next larger =>
    have short : left < 44 := by
      unfold blockOverhead at leftEqual
      simp only [sizeofPoolBlock, poolAlignment, sizeSpace_eq] at *
      omega
    have total : (wanted + incrementSize + sizeofPoolBlock + poolAlignment) % sizeSpace =
        left + incrementSize := by
      unfold blockOverhead at *
      rw [Nat.mod_eq_sub_mod (by omega), Nat.mod_eq_of_lt]
      · omega
      · rw [sizeSpace_eq] at *
        omega
    have positive : 0 < incrementSize := Nat.pos_of_ne_zero expands
    dsimp only
    rw [total, Nat.add_div_right _ positive]
    apply Nat.mod_eq_of_lt
    calc (left / incrementSize + 1) * incrementSize
        = left / incrementSize * incrementSize + incrementSize := Nat.add_one_mul _ _
      _ ≤ left + incrementSize := Nat.add_le_add_right (Nat.div_mul_le_self _ _) _
      _ < sizeSpace := by
        rw [sizeSpace_eq]
        omega
  · rfl

/-- The blocks of a pool that has been created: there is one, and the pointers
of all of them are in order. -/
structure MdlPool.Ordered (pool : MdlPool) : Prop where
  nonempty : pool.blockHeadList ≠ []
  blocks : ∀ block ∈ pool.blockHeadList, block.Sound
  starts : ∀ block ∈ pool.blockHeadList, block.start % poolAlignment = 0

theorem MdlPoolBlock.Sound.advanced {block : MdlPoolBlock} (sound : block.Sound) {size : Nat}
    (room : block.current + roundSize size ≤ block.end_) : (block.advance size).Sound := by
  have aligned := sound.aligned
  have rounded := roundSize_aligned size
  refine ⟨sound.headed, Nat.le_add_right_of_le sound.started, room, sound.bounded, ?_⟩
  simp only [MdlPoolBlock.advance, poolAlignment] at *
  omega

theorem allocFromBlocks_full {blocks : List MdlPoolBlock} (sound : ∀ block ∈ blocks, block.Sound)
    {size : Nat} (refused : allocFromBlocks blocks size = (blocks, none)) :
    ∀ block ∈ blocks, block.end_ < block.current + roundSize size := by
  induction blocks with
  | nil => simp
  | cons block rest inductionHypothesis =>
      simp only [allocFromBlocks] at refused
      rcases allocFromBlock_cases (sound block (by simp)) size with ⟨-, equal⟩ | ⟨full, equal⟩
      · rw [equal] at refused
        cases congrArg Prod.snd refused
      · rw [equal] at refused
        have later : allocFromBlocks rest size = (rest, none) := by
          have tail := congrArg Prod.fst refused
          have answer := congrArg Prod.snd refused
          exact Prod.ext (List.cons.inj tail).2 answer
        intro other membership
        rcases List.mem_cons.mp membership with rfl | inRest
        · exact full
        · exact inductionHypothesis (fun other inRest => sound other (by simp [inRest])) later other
            inRest

def givenBlock (address asked : Nat) : MdlPoolBlock where
  address := address
  start := address + sizeofPoolBlock
  current := address + sizeofPoolBlock
  end_ := address + asked

theorem aligned_givenBlock {address : Nat} (aligned : address % poolAlignment = 0) (asked : Nat) :
    (givenBlock address asked).start % poolAlignment = 0 := by
  simp only [givenBlock, poolAlignment, sizeofPoolBlock] at *
  omega

theorem sound_givenBlock {address asked : Nat} (aligned : address % poolAlignment = 0)
    (bounded : address + asked < sizeSpace) (large : sizeofPoolBlock ≤ asked) :
    (givenBlock address asked).Sound := by
  refine ⟨rfl, Nat.le_refl _, Nat.add_le_add_left large address, bounded, ?_⟩
  simp only [givenBlock, poolAlignment, sizeofPoolBlock] at *
  omega

inductive AllocCase (pool : MdlPool) (size : Nat) (memory : Option Nat) :
    Option (MdlPool × Option Nat) → Prop where
  | served (blocks : List MdlPoolBlock) (p : Nat) : Advances pool.blockHeadList blocks size p →
      AllocCase pool size memory (some ({ pool with blockHeadList := blocks }, some p))
  | fixed : ¬ pool.HasRoom size → pool.incrementSize = 0 →
      AllocCase pool size memory (some (pool, none))
  | headless : ¬ pool.HasRoom size → pool.incrementSize ≠ 0 →
      blockSize pool.incrementSize size < sizeofPoolBlock → AllocCase pool size memory none
  | refused : ¬ pool.HasRoom size → pool.incrementSize ≠ 0 →
      sizeofPoolBlock ≤ blockSize pool.incrementSize size → memory = none →
      AllocCase pool size memory (some (pool, none))
  | expanded (address asked capacity : Nat) : ¬ pool.HasRoom size → pool.incrementSize ≠ 0 →
      asked = blockSize pool.incrementSize size → memory = some address → address ≠ 0 →
      (givenBlock address asked).Sound → (givenBlock address asked).start % poolAlignment = 0 →
      sizeofPoolBlock + roundSize size ≤ asked →
      AllocCase pool size memory (some ({ pool with
        capacity := capacity
        blockHeadList := (givenBlock address asked).advance size :: pool.blockHeadList },
        some (address + sizeofPoolBlock)))
  | short (address asked : Nat) : ¬ pool.HasRoom size → pool.incrementSize ≠ 0 →
      asked = blockSize pool.incrementSize size → memory = some address → address ≠ 0 →
      (givenBlock address asked).Sound → asked < sizeofPoolBlock + roundSize size →
      AllocCase pool size memory none

namespace MdlPool.Ordered

variable {pool : MdlPool}

theorem alloc_cases (ordered : pool.Ordered) {size : Nat} {memory : Option Nat}
    (honest : Honest pool size memory) :
    AllocCase pool size memory (mdlPoolAlloc pool size memory) := by
  obtain ⟨block, rest, blocks⟩ := List.exists_cons_of_ne_nil ordered.nonempty
  unfold mdlPoolAlloc
  rcases allocFromFirst_cases blocks (ordered.blocks block (by simp [blocks])) size with
    ⟨after, p, equal, advances⟩ | ⟨-, first⟩
  · rw [equal]
    exact .served after p advances
  · rw [first]
    simp only [mdlPoolAllocateFind]
    rcases allocFromBlocks_cases ordered.blocks size with ⟨after, p, found, advances⟩ | nothing
    · simp only [found]
      exact .served after p advances
    · have full : ¬ pool.HasRoom size := by
        rintro ⟨other, here, room⟩
        have := allocFromBlocks_full ordered.blocks nothing other here
        omega
      simp only [nothing]
      by_cases fixed : pool.incrementSize = 0
      · rw [if_pos fixed]
        exact .fixed full fixed
      · rw [if_neg fixed, mdlPoolCreateBlock]
        by_cases large : sizeofPoolBlock ≤ blockSize pool.incrementSize size
        · rw [if_pos large]
          have isAsked : blockAsked pool size = some (blockSize pool.incrementSize size) := by
            simp only [blockAsked, first, nothing, if_pos (And.intro fixed large)]
          cases memory with
          | none => exact .refused full fixed large rfl
          | some address =>
              have nonnull := honest.nonnull _ isAsked address rfl
              have aligned := honest.aligned _ isAsked address rfl
              have bounded := honest.bounded _ isAsked address rfl
              have sound := sound_givenBlock aligned bounded large
              have made := @newBlock_eq address
                (address + blockSize pool.incrementSize size) aligned (by omega)
              simp only [Option.map_some]
              rw [Nat.mod_eq_of_lt bounded, made]
              simp only [allocFromFirst]
              rcases allocFromBlock_cases sound size with ⟨room, equal⟩ | ⟨noRoom, equal⟩
              · rw [givenBlock] at equal
                rw [equal]
                apply AllocCase.expanded address _ _ full fixed rfl rfl nonnull sound
                  (aligned_givenBlock aligned _)
                simp only [givenBlock] at room
                omega
              · rw [givenBlock] at equal
                rw [equal]
                apply AllocCase.short address _ full fixed rfl rfl nonnull sound
                simp only [givenBlock] at noRoom
                omega
        · rw [if_neg large]
          exact .headless full fixed (Nat.lt_of_not_le large)

theorem alloc (ordered : pool.Ordered) {size : Nat} {memory p : Option Nat} {after : MdlPool}
    (honest : Honest pool size memory)
    (performed : mdlPoolAlloc pool size memory = some (after, p)) : after.Ordered := by
  have effect := ordered.alloc_cases honest
  rw [performed] at effect
  cases effect with
  | served blocks p advances =>
      obtain ⟨before, block, rest, split, rfl, -, room⟩ := advances.found
      have here : block ∈ pool.blockHeadList := by simp [split]
      refine ⟨by simp, fun other membership => ?_, fun other membership => ?_⟩
      · rcases mem_of_mem_replaced block membership with rfl | old
        · exact (ordered.blocks block here).advanced room
        · exact ordered.blocks other (split ▸ old)
      · rcases mem_of_mem_replaced block membership with rfl | old
        · exact ordered.starts block here
        · exact ordered.starts other (split ▸ old)
  | fixed => exact ordered
  | refused => exact ordered
  | expanded address asked capacity _ _ _ _ _ sound aligned room =>
      refine ⟨by simp, fun other membership => ?_, fun other membership => ?_⟩
      · rcases List.mem_cons.mp membership with rfl | old
        · apply sound.advanced
          simp only [givenBlock]
          omega
        · exact ordered.blocks other old
      · rcases List.mem_cons.mp membership with rfl | old
        · exact aligned
        · exact ordered.starts other old

/-- A region of the address space is shorter than the largest sizes. -/
theorem bytes_le_of_serves (ordered : pool.Ordered) {bytes p : Nat}
    (serves : Serves bytes (some (pool, some p))) : bytes + poolAlignment ≤ sizeSpace := by
  obtain ⟨block, here, above, below, within⟩ := serves
  have headed := (ordered.blocks block here).headed
  have bounded := (ordered.blocks block here).bounded
  simp only [sizeofPoolBlock, poolAlignment] at *
  omega

end MdlPool.Ordered

/-- What is taken off a block covers a request whose rounding does not wrap. -/
theorem serves_advance {after : MdlPool} {block : MdlPoolBlock} {bytes : Nat}
    (sound : block.Sound) (fits : bytes + poolAlignment ≤ sizeSpace)
    (room : block.current + roundSize bytes ≤ block.end_)
    (here : block.advance bytes ∈ after.blockHeadList) :
    Serves bytes (some (after, some block.current)) :=
  ⟨block.advance bytes, here, sound.started,
    Nat.add_le_add_left (le_roundSize fits).1 block.current, room⟩

theorem MdlPoolBlock.Sound.small_of_nonnull {address asked : Nat}
    (sound : (givenBlock address asked).Sound) (nonnull : address ≠ 0) :
    asked + poolAlignment < sizeSpace := by
  have aligned := sound.aligned
  have bounded := sound.bounded
  simp only [givenBlock, sizeofPoolBlock, poolAlignment] at *
  omega

theorem MdlPool.Ordered.small_of_full {pool : MdlPool} (ordered : pool.Ordered) {wanted : Nat}
    (bounded : wanted < sizeSpace) (full : ¬ pool.HasRoom wanted) :
    wanted + poolAlignment ≤ sizeSpace := by
  by_contra large
  obtain ⟨block, here⟩ := List.exists_mem_of_ne_nil _ ordered.nonempty
  apply full
  refine ⟨block, here, ?_⟩
  rw [roundSize_of_large bounded (by omega), Nat.add_zero]
  exact (ordered.blocks block here).within

theorem room_iff_expressible {incrementSize wanted : Nat} (expands : incrementSize ≠ 0)
    (fits : wanted + poolAlignment ≤ sizeSpace)
    (small : blockSize incrementSize wanted + poolAlignment < sizeSpace) :
    sizeofPoolBlock + roundSize wanted ≤ blockSize incrementSize wanted ↔
      Expressible incrementSize wanted := by
  obtain ⟨above, below⟩ := le_roundSize fits
  constructor
  · intro room
    by_contra wraps
    rw [blockSize_eq_zero (by unfold blockOverhead; omega) wraps] at room
    simp only [sizeofPoolBlock] at room
    omega
  · intro expressible
    have enough := le_blockSize expands expressible
    unfold blockOverhead at enough
    omega

/-- The size a new block would have has room for a header. -/
theorem headed_iff {incrementSize wanted : Nat} (expands : incrementSize ≠ 0)
    (bounded : wanted < sizeSpace) :
    sizeofPoolBlock ≤ blockSize incrementSize wanted ↔
      Expressible incrementSize wanted ∨ WrapsToHeader incrementSize wanted := by
  by_cases wraps : sizeSpace ≤ wanted + blockOverhead
  · have wide : ¬ Expressible incrementSize wanted := fun expressible => by
      have := expressible.1
      omega
    rw [blockSize_of_wrapped bounded wraps expands, or_iff_right wide, WrapsToHeader,
      and_iff_right wraps]
    dsimp only
    split
    · rfl
    · rfl
  · rw [or_iff_left fun wrapping => wraps wrapping.1]
    constructor
    · intro large
      by_contra narrow
      rw [blockSize_eq_zero (by omega) narrow] at large
      exact absurd large (by decide)
    · intro expressible
      have enough := le_blockSize expands expressible
      unfold blockOverhead at enough
      omega

theorem mod_of_fits {bytes : Nat} (fits : bytes + poolAlignment ≤ sizeSpace) :
    bytes % sizeSpace = bytes :=
  Nat.mod_eq_of_lt (Nat.lt_of_lt_of_le (Nat.lt_add_of_pos_right (by decide)) fits)

theorem expressible_of_mod {incrementSize bytes : Nat}
    (expressible : Expressible incrementSize bytes) : bytes % sizeSpace = bytes :=
  Nat.mod_eq_of_lt (Nat.lt_of_le_of_lt (Nat.le_add_right _ _) expressible.1)

/-- One call of `mdl_pool_alloc` on what is left of `bytes` in a `size_t`. -/
theorem MdlPool.Ordered.serves_iff {pool : MdlPool} (ordered : pool.Ordered) {bytes : Nat}
    {memory : Option Nat} (honest : Honest pool (bytes % sizeSpace) memory) :
    Serves bytes (mdlPoolAlloc pool (bytes % sizeSpace) memory) ↔ Sized pool bytes memory := by
  have bounded : bytes % sizeSpace < sizeSpace := Nat.mod_lt _ (by decide)
  have kept : ∀ after p, mdlPoolAlloc pool (bytes % sizeSpace) memory = some (after, p) →
      after.Ordered := fun after p => ordered.alloc honest
  have effect := ordered.alloc_cases honest
  generalize mdlPoolAlloc pool (bytes % sizeSpace) memory = result at kept effect
  unfold Sized
  cases effect with
  | served blocks p advances =>
      obtain ⟨before, block, rest, split, rfl, rfl, room⟩ := advances.found
      have here : block ∈ pool.blockHeadList := by simp [split]
      rw [if_pos ⟨block, here, room⟩]
      constructor
      · exact (kept _ _ rfl).bytes_le_of_serves
      · intro fits
        rw [mod_of_fits fits] at room ⊢
        exact serves_advance (ordered.blocks block here) fits room (by simp)
  | fixed full fixed =>
      rw [if_neg full]
      exact iff_of_true trivial (.inl fixed)
  | headless full expands small =>
      rw [if_neg full]
      have unheaded := mt (headed_iff expands bounded).mpr (Nat.not_le_of_lt small)
      refine iff_of_false id ?_
      rintro (fixed | expressible | ⟨-, headed⟩)
      · exact expands fixed
      · have same := expressible_of_mod expressible
        exact unheaded (.inl (same.symm ▸ expressible))
      · exact unheaded headed
  | refused full expands large nothing =>
      rw [if_neg full]
      exact iff_of_true trivial (.inr (.inr ⟨nothing, (headed_iff expands bounded).mp large⟩))
  | expanded address asked capacity full expands isAsked given nonnull sound _ room =>
      rw [if_neg full]
      subst isAsked
      have small := sound.small_of_nonnull nonnull
      have expressible :=
        (room_iff_expressible expands (ordered.small_of_full bounded full) small).mp room
      constructor
      · intro serves
        have fits := (kept _ _ rfl).bytes_le_of_serves serves
        rw [mod_of_fits fits] at expressible
        exact .inr (.inl expressible)
      · rintro (fixed | fitting | ⟨nothing, -⟩)
        · exact absurd fixed expands
        · have same := expressible_of_mod fitting
          have fits := ordered.small_of_full bounded full
          rw [same] at sound room fits ⊢
          apply serves_advance sound fits ?_ List.mem_cons_self
          simp only [givenBlock]
          omega
        · cases given.symm.trans nothing
  | short address asked full expands isAsked given nonnull sound noRoom =>
      rw [if_neg full]
      subst isAsked
      have small := sound.small_of_nonnull nonnull
      refine iff_of_false id ?_
      rintro (fixed | fitting | ⟨nothing, -⟩)
      · exact expands fixed
      · have same := expressible_of_mod fitting
        have room := (room_iff_expressible expands (ordered.small_of_full bounded full) small).mpr
          (same.symm ▸ fitting)
        omega
      · cases given.symm.trans nothing

theorem mem_of_resetLoop {rounds : Nat} {node : Option BlockNode} {current found : Option Nat}
    {blocks left : List MdlPoolBlock} {links : BlockNode → Option (LinkPair BlockNode)}
    {freed given : List Region}
    (ran : resetLoop rounds node current blocks links freed = (given, .returned (found, left))) :
    ∀ block ∈ left, block ∈ blocks := by
  induction rounds generalizing node current blocks links freed with
  | zero => cases ran
  | succ rounds inductionHypothesis =>
      unfold resetLoop at ran
      split at ran
      · cases ran
      · cases ran
        exact fun _ membership => membership
      · split at ran
        · split at ran
          · cases ran
            exact fun _ membership => membership
          · split at ran
            · cases ran
            · simp only at ran
              split at ran
              · cases ran
              · intro block membership
                exact List.mem_of_mem_filter (inductionHypothesis ran block membership)
        · cases ran

theorem MdlPoolBlock.Sound.rewound {block : MdlPoolBlock} (sound : block.Sound)
    (aligned : block.start % poolAlignment = 0) : block.rewind.Sound := by
  have inside : block.start ≤ block.end_ := Nat.le_trans sound.started sound.within
  have start : block.rewind = { block with current := block.start } := by
    rw [MdlPoolBlock.rewind, alignPtr_of_aligned aligned (Nat.lt_of_le_of_lt inside sound.bounded)]
  rw [start]
  exact ⟨sound.headed, Nat.le_refl _, inside, sound.bounded, aligned⟩

namespace MdlPool.Ordered

variable {pool after : MdlPool} {blocks : List MdlPoolBlock} {address : Option Nat}

theorem resetRest (ordered : pool.Ordered) (kept : ∀ block ∈ blocks, block ∈ pool.blockHeadList)
    (returned : Pool.resetRest pool address blocks = .returned after) : after.Ordered := by
  unfold Pool.resetRest at returned
  split at returned
  · cases returned
  · next found =>
      have here := List.mem_of_find?_eq_some found
      cases returned
      refine ⟨?_, ?_, ?_⟩
      · exact List.map_eq_nil_iff.not.mpr (List.ne_nil_of_mem here)
      · rw [List.forall_mem_map]
        intro block membership
        have sound := ordered.blocks block (kept block membership)
        split
        · exact sound.rewound (ordered.starts block (kept block membership))
        · exact sound
      · rw [List.forall_mem_map]
        intro block membership
        have aligned := ordered.starts block (kept block membership)
        split
        · exact aligned
        · exact aligned

theorem reset (ordered : pool.Ordered) {freed : List Region}
    (returned : mdlPoolReset pool = (freed, .returned after)) : after.Ordered := by
  unfold mdlPoolReset resetPool at returned
  split at returned
  · cases returned
  · split at returned
    · cases returned
      exact ordered
    · split at returned
      · cases returned
      · split at returned
        · next looped =>
            exact ordered.resetRest (mem_of_resetLoop looped) (Prod.ext_iff.mp returned).2
        · cases returned
        · cases returned

end MdlPool.Ordered

inductive PoolUse where
  | request (request : Request)
  | reset

/-- A call on the pool.  After one that fails its assertion, or does not come
back, there is no pool any more. -/
def MdlPool.use (pool : MdlPool) : PoolUse → Option MdlPool
  | .request request => (request.perform pool).map Prod.fst
  | .reset =>
      match (mdlPoolReset pool).2 with
      | .returned after => some after
      | .faulted => none
      | .unfinished => none

/-- `block_alloc` keeps to its part when a request asks it for a block. -/
def MdlPool.Supplied (pool : MdlPool) : PoolUse → Prop
  | .request request => Honest pool request.wanted request.memory
  | .reset => True

instance (pool : MdlPool) (use : PoolUse) : Decidable (pool.Supplied use) :=
  match use with
  | .request request => inferInstanceAs (Decidable (Honest pool request.wanted request.memory))
  | .reset => inferInstanceAs (Decidable True)

theorem ordered_use {pool next : MdlPool} {use : PoolUse} (ordered : pool.Ordered)
    (supplied : pool.Supplied use) (used : pool.use use = some next) : next.Ordered := by
  cases use with
  | request request =>
      obtain ⟨⟨after, p⟩, performed, rfl⟩ := Option.map_eq_some_iff.mp used
      rw [Request.perform_eq] at performed
      exact ordered.alloc supplied performed
  | reset =>
      simp only [MdlPool.use] at used
      split at used
      · next returned =>
          cases used
          exact ordered.reset (Prod.ext rfl returned)
      · cases used
      · cases used

theorem ordered_created {initialSize incrementSize buffer : Nat} {created : MdlPool}
    (aligned : buffer % poolAlignment = 0) (bounded : buffer + initialSize < sizeSpace)
    (made : mdlPoolCreateInt initialSize incrementSize (some buffer) = some (some created)) :
    created.Ordered := by
  have sound := sound_created aligned bounded made
  refine ⟨sound.nonempty, sound.blocks, ?_⟩
  rw [mdlPoolCreateInt_fresh incrementSize (large_of_created made) bounded] at made
  cases made
  rw [freshPool, List.forall_mem_singleton]
  simp only [poolAlignment, sizeofPool, sizeofPoolBlock] at *
  omega

/-- After every run of requests of any sizes and of resets, a request is served
or refused as it should be exactly if its sizes are among those that do not go
wrong. -/
theorem request_served_iff_sized {initialSize incrementSize buffer : Nat}
    {created pool : MdlPool} {uses : List PoolUse} (aligned : buffer % poolAlignment = 0)
    (bounded : buffer + initialSize < sizeSpace)
    (made : mdlPoolCreateInt initialSize incrementSize (some buffer) = some (some created))
    (supplied : Transition.Guarded MdlPool.use MdlPool.Supplied created uses)
    (ran : Transition.run MdlPool.use created uses = some pool) :
    (∀ count size memory, Honest pool (count * size % sizeSpace) memory →
      (Serves (count * size) (mdlPoolCalloc pool count size memory) ↔
        Sized pool (count * size) memory)) ∧
    (∀ size memory, size < sizeSpace → Honest pool size memory →
      (Serves size (mdlPoolZalloc pool size memory) ↔ Sized pool size memory)) ∧
    ∀ size memory, size < sizeSpace → Honest pool size memory →
      (Serves size (mdlPoolAlloc pool size memory) ↔ Sized pool size memory) := by
  have ordered : pool.Ordered :=
    Transition.run_invariant_of_guarded MdlPool.use
      (fun _ _ _ ordered supplied used => ordered_use ordered supplied used) supplied
      (ordered_created aligned bounded made) ran
  refine ⟨?_, ?_, ?_⟩
  · intro count size memory honest
    rw [mdlPoolCalloc, Nat.mul_comm size count]
    exact ordered.serves_iff honest
  · intro size memory small honest
    rw [← Nat.mod_eq_of_lt small] at honest
    rw [mdlPoolZalloc, mdlPoolCalloc, Nat.mul_one]
    exact ordered.serves_iff honest
  · intro size memory small honest
    have whole := Nat.mod_eq_of_lt small
    rw [← whole] at honest
    have exactly := ordered.serves_iff honest
    rwa [whole] at exactly

/-- A pool that has been asked for the largest size, has been reset and has
expanded, and is then asked for a product that fits, for one that does not and is
refused, and for zeroed memory. -/
theorem request_served_iff_sized_expanding :
    ∃ pool, Transition.run MdlPool.use (freshPool 4096 256 100)
        [.request (.alloc (2 ^ 64 - 1) none), .request (.alloc 30 none), .reset,
          .request (.alloc 300 (some 8192))] = some pool ∧
      Serves (7 * 11) (mdlPoolCalloc pool 7 11 none) ∧
      Serves (2 ^ 63 * 3) (mdlPoolCalloc pool (2 ^ 63) 3 none) ∧
      Serves 150 (mdlPoolZalloc pool 150 (some 12288)) := by
  have ran : Transition.run MdlPool.use (freshPool 4096 256 100)
      [.request (.alloc (2 ^ 64 - 1) none), .request (.alloc 30 none), .reset,
        .request (.alloc 300 (some 8192))] =
        some ⟨4096, 656, 100, [⟨8192, 8232, 8532, 8592⟩, ⟨4200, 4240, 4240, 4352⟩]⟩ := by
    decide +kernel
  obtain ⟨calloc, zalloc, -⟩ := @request_served_iff_sized 256 100 4096 _ _ _ (by decide)
    (by decide) (by decide +kernel) (by decide +kernel) ran
  refine ⟨_, ran, ?_, ?_, ?_⟩
  · exact (calloc 7 11 none (by decide +kernel)).mpr (by decide +kernel)
  · exact (calloc (2 ^ 63) 3 none (by decide +kernel)).mpr (by decide +kernel)
  · exact (zalloc 150 (some 12288) (by decide) (by decide +kernel)).mpr (by decide +kernel)

/-- On a pool that has just been created, a product of `2 ^ 64` bytes and a size
of `2 ^ 64 - 1` are answered with memory of which nothing is taken, and a size
of `2 ^ 64 - 8` fails the assertion on what the new block gives. -/
theorem wrapped_sizes_are_served :
    mdlPoolCreateInt 256 100 (some 4096) = some (some (freshPool 4096 256 100)) ∧
    mdlPoolCalloc (freshPool 4096 256 100) (2 ^ 32) (2 ^ 32) none =
      some (freshPool 4096 256 100, some 4240) ∧
    ¬ Serves (2 ^ 32 * 2 ^ 32) (mdlPoolCalloc (freshPool 4096 256 100) (2 ^ 32) (2 ^ 32) none) ∧
    mdlPoolAlloc (freshPool 4096 256 100) (2 ^ 64 - 1) none =
      some (freshPool 4096 256 100, some 4240) ∧
    ¬ Serves (2 ^ 64 - 1) (mdlPoolAlloc (freshPool 4096 256 100) (2 ^ 64 - 1) none) ∧
    mdlPoolAlloc (freshPool 4096 256 100) (2 ^ 64 - 8) (some 8192) = none := by
  have whole : ∀ bytes, 200 < bytes →
      ¬ Serves bytes (some (freshPool 4096 256 100, some 4240)) := by
    rintro bytes large ⟨block, here, -, below, within⟩
    obtain rfl := List.mem_singleton.mp here
    simp only at below within
    omega
  have product : mdlPoolCalloc (freshPool 4096 256 100) (2 ^ 32) (2 ^ 32) none =
      some (freshPool 4096 256 100, some 4240) := by
    decide +kernel
  have largest : mdlPoolAlloc (freshPool 4096 256 100) (2 ^ 64 - 1) none =
      some (freshPool 4096 256 100, some 4240) := by
    decide +kernel
  refine ⟨by decide +kernel, product, ?_, largest, ?_, by decide +kernel⟩
  · rw [product]
    exact whole _ (by decide)
  · rw [largest]
    exact whole _ (by decide)

end UtilsModules.Pool

import UtilsModules.Pool.Account
import UtilsModules.Pool.Overflow

/-!
Capacity and usage of pools, and the percentages that are logged of them.

The capacity is added up while blocks are added; the usage is found by walking
the blocks.  Any number of pools live side by side here, each created with any
sizes and used by any requests.
-/

namespace UtilsModules.Pool

def mdlPoolGetCapacity (pool : MdlPool) : Nat := pool.capacity

/-- `used_size` after a block, `used_size += (current - start) + sizeof(...)`. -/
def addUsed (usedSize : Nat) (block : MdlPoolBlock) : Nat :=
  (usedSize + ((block.current + sizeSpace - block.start) % sizeSpace + sizeofPoolBlock)) % sizeSpace

def mdlPoolGetUsedSize (pool : MdlPool) : Nat := pool.blockHeadList.foldl addUsed sizeofPool

structure Usage where
  used : Nat
  capacity : Nat
  percent : Nat
  deriving DecidableEq, Repr

/-- `used * 100 / capacity`; `none` is the division by zero. -/
def usageOf (used capacity : Nat) : Option Usage :=
  if capacity = 0 then none else some ⟨used, capacity, used * 100 % sizeSpace / capacity⟩

/-- The usage of one pool, as `cpool_release_pool` and `cpool_dump_status` log it. -/
def poolUsage (pool : MdlPool) : Option Usage :=
  usageOf (mdlPoolGetUsedSize pool) (mdlPoolGetCapacity pool)

def dumpLoop : List MdlPool → Nat → Nat → Option (List Usage × Nat × Nat)
  | [], totalUsed, totalCapacity => some ([], totalUsed, totalCapacity)
  | pool :: rest, totalUsed, totalCapacity =>
      match poolUsage pool with
      | none => none
      | some usage =>
          match dumpLoop rest ((totalUsed + mdlPoolGetUsedSize pool) % sizeSpace)
              ((totalCapacity + mdlPoolGetCapacity pool) % sizeSpace) with
          | none => none
          | some (usages, totals) => some (usage :: usages, totals)

def cpoolDumpStatus (usedList : List MdlPool) (detail : Bool) :
    Option (List Usage × Option Usage) :=
  if detail then
    match dumpLoop usedList 0 0 with
    | none => none
    | some (usages, totalUsed, totalCapacity) =>
        if totalCapacity ≠ 0 then
          (usageOf totalUsed totalCapacity).map fun total => (usages, some total)
        else
          some (usages, none)
  else
    some ([], none)

/-- The bytes of a block up to `current`, its header included. -/
def MdlPoolBlock.filled (block : MdlPoolBlock) : Nat := block.current - block.address

namespace MdlPoolBlock.Sound

variable {block : MdlPoolBlock}

theorem filled_le (sound : block.Sound) : block.filled ≤ block.end_ - block.address :=
  Nat.sub_le_sub_right sound.within block.address

theorem filled_eq (sound : block.Sound) :
    (block.current + sizeSpace - block.start) % sizeSpace + sizeofPoolBlock = block.filled := by
  obtain ⟨headed, started, within, bounded, -⟩ := sound
  have distance : (block.current + sizeSpace - block.start) % sizeSpace =
      block.current - block.start := by
    rw [sizeSpace_eq] at *
    omega
  rw [distance, filled]
  omega

end MdlPoolBlock.Sound

theorem foldl_addUsed {blocks : List MdlPoolBlock} {usedSize : Nat}
    (sound : ∀ block ∈ blocks, block.Sound)
    (fits : usedSize + (blocks.map MdlPoolBlock.filled).sum < sizeSpace) :
    blocks.foldl addUsed usedSize = usedSize + (blocks.map MdlPoolBlock.filled).sum := by
  induction blocks generalizing usedSize with
  | nil => rfl
  | cons block rest inductionHypothesis =>
      rw [List.map_cons, List.sum_cons] at fits ⊢
      rw [List.foldl_cons, addUsed, (sound block List.mem_cons_self).filled_eq,
        Nat.mod_eq_of_lt (by omega)]
      rw [inductionHypothesis (fun other listed => sound other (List.mem_cons_of_mem _ listed))
        (by omega)]
      omega

theorem sum_filled_le {blocks : List MdlPoolBlock} (sound : ∀ block ∈ blocks, block.Sound) :
    (blocks.map MdlPoolBlock.filled).sum ≤
      (blocks.map fun block => block.end_ - block.address).sum := by
  induction blocks with
  | nil => exact Nat.le_refl _
  | cons block rest inductionHypothesis =>
      have later := inductionHypothesis fun other listed => sound other (List.mem_cons_of_mem _ listed)
      have here := (sound block List.mem_cons_self).filled_le
      simp only [List.map_cons, List.sum_cons]
      omega

/-- The product may wrap; that only makes the percentage smaller. -/
theorem usageOf_of_le {used capacity : Nat} (positive : 0 < capacity) (within : used ≤ capacity) :
    ∃ usage, usageOf used capacity = some usage ∧ usage.percent ≤ 100 := by
  refine ⟨_, if_neg (Nat.pos_iff_ne_zero.mp positive), ?_⟩
  calc used * 100 % sizeSpace / capacity ≤ used * 100 / capacity :=
        Nat.div_le_div_right (Nat.mod_le _ _)
    _ ≤ capacity * 100 / capacity := Nat.div_le_div_right (Nat.mul_le_mul_right 100 within)
    _ = 100 := Nat.mul_div_cancel_left 100 positive

structure MeasuredPool where
  pool : MdlPool
  initialSize : Nat

namespace MeasuredPool

/-- What is promised of the capacity and the usage of a pool.  The expansion
blocks are those in front of the block that the pool was created with. -/
structure Metered (measured : MeasuredPool) : Prop where
  capacity : ∃ expansions first, measured.pool.blockHeadList = expansions ++ [first] ∧
    first.address = measured.pool.address + sizeofPool ∧
    mdlPoolGetCapacity measured.pool =
      measured.initialSize + (expansions.map fun block => block.end_ - block.address).sum
  covers : sizeofPool ≤ mdlPoolGetUsedSize measured.pool
  within : mdlPoolGetUsedSize measured.pool ≤ mdlPoolGetCapacity measured.pool
  nonzero : mdlPoolGetCapacity measured.pool ≠ 0
  percent : ∃ usage, poolUsage measured.pool = some usage ∧ usage.percent ≤ 100

structure Sound (measured : MeasuredPool) : Prop where
  framed : measured.pool.Framed measured.initialSize
  ordered : measured.pool.Ordered
  capacity : measured.pool.capacity = (measured.pool.obtained.map Region.size).sum

end MeasuredPool

/-- The memory of a pool: that of the blocks that were added, and what it was
created in. -/
theorem MdlPool.obtained_eq {pool : MdlPool} {initialSize : Nat} {expansions : List MdlPoolBlock}
    {first : MdlPoolBlock} (split : pool.blockHeadList = expansions ++ [first])
    (frame : first.frame = initialFrame pool.address initialSize) :
    pool.obtained = expansions.map MdlPoolBlock.extent ++ [⟨pool.address, initialSize⟩] := by
  have extents : (expansions.map MdlPoolBlock.frame).map Frame.extent =
      expansions.map MdlPoolBlock.extent := by
    rw [List.map_map]
    rfl
  rw [MdlPool.obtained, MdlPool.frames, split, List.map_append, List.map_singleton, frame,
    List.dropLast_concat, List.getLast?_concat, extents]
  simp [initialFrame]

theorem MeasuredPool.Sound.metered {measured : MeasuredPool} (sound : measured.Sound)
    (bounded : (measured.pool.obtained.map Region.size).sum < sizeSpace) : measured.Metered := by
  obtain ⟨framed, ordered, capacity⟩ := sound
  obtain ⟨expansions, first, split, frame⟩ := framed.blocks
  have large := framed.large
  have sizes : (measured.pool.obtained.map Region.size).sum =
      measured.initialSize + (expansions.map fun block => block.end_ - block.address).sum := by
    rw [MdlPool.obtained_eq split frame, List.map_append, List.map_map, List.sum_append,
      List.map_singleton, List.sum_singleton, Nat.add_comm]
    rfl
  have addressed : first.address = measured.pool.address + sizeofPool :=
    congrArg Frame.address frame
  have firstFilled : sizeofPool + first.filled ≤ measured.initialSize := by
    have ends : first.end_ = measured.pool.address + measured.initialSize :=
      congrArg Frame.end_ frame
    have inside := (ordered.blocks first (by simp [split])).filled_le
    rw [addressed, ends] at inside
    omega
  have othersFilled : (expansions.map MdlPoolBlock.filled).sum ≤
      (expansions.map fun block => block.end_ - block.address).sum :=
    sum_filled_le fun block listed => ordered.blocks block (by simp [split, listed])
  have filled : (measured.pool.blockHeadList.map MdlPoolBlock.filled).sum =
      (expansions.map MdlPoolBlock.filled).sum + first.filled := by
    rw [split, List.map_append, List.sum_append, List.map_singleton, List.sum_singleton]
  have used : mdlPoolGetUsedSize measured.pool =
      sizeofPool + (measured.pool.blockHeadList.map MdlPoolBlock.filled).sum :=
    foldl_addUsed ordered.blocks (by omega)
  have within : mdlPoolGetUsedSize measured.pool ≤ mdlPoolGetCapacity measured.pool := by
    rw [mdlPoolGetCapacity, capacity]
    omega
  have positive : 0 < mdlPoolGetCapacity measured.pool := by
    rw [mdlPoolGetCapacity, capacity, sizes]
    simp only [sizeofPool] at large
    omega
  refine ⟨⟨expansions, first, split, addressed, capacity.trans sizes⟩, ?_, within,
    Nat.pos_iff_ne_zero.mp positive, usageOf_of_le positive within⟩
  rw [used]
  exact Nat.le_add_right _ _

theorem dumpLoop_metered {pools : List MeasuredPool} {totalUsed totalCapacity : Nat}
    (metered : ∀ measured ∈ pools, measured.Metered) (proportion : totalUsed ≤ totalCapacity)
    (bounded : totalCapacity + (pools.map (·.pool.capacity)).sum < sizeSpace) :
    ∃ usages used capacity,
      dumpLoop (pools.map MeasuredPool.pool) totalUsed totalCapacity =
        some (usages, used, capacity) ∧
      usages.length = pools.length ∧ (∀ usage ∈ usages, usage.percent ≤ 100) ∧
      used ≤ capacity := by
  induction pools generalizing totalUsed totalCapacity with
  | nil => exact ⟨[], totalUsed, totalCapacity, rfl, rfl, by simp, proportion⟩
  | cons measured rest inductionHypothesis =>
      rw [List.map_cons, List.sum_cons] at bounded
      have here := metered measured List.mem_cons_self
      obtain ⟨usage, logged, percent⟩ := here.percent
      have within := here.within
      rw [mdlPoolGetCapacity] at within
      obtain ⟨usages, used, capacity, dumped, length, percents, kept⟩ :=
        @inductionHypothesis (totalUsed + mdlPoolGetUsedSize measured.pool)
          (totalCapacity + measured.pool.capacity)
          (fun other listed => metered other (List.mem_cons_of_mem _ listed))
          (Nat.add_le_add proportion within) (by omega)
      refine ⟨usage :: usages, used, capacity, ?_, by simp [length], ?_, kept⟩
      · simp only [List.map_cons, dumpLoop, logged]
        rw [mdlPoolGetCapacity, Nat.mod_eq_of_lt (by omega), Nat.mod_eq_of_lt (by omega), dumped]
      · exact List.forall_mem_cons.mpr ⟨percent, percents⟩

def DumpBounded (pools : List MeasuredPool) (detail : Bool) : Prop :=
  ∃ usages total, cpoolDumpStatus (pools.map MeasuredPool.pool) detail = some (usages, total) ∧
    (detail = true → usages.length = pools.length) ∧ (∀ usage ∈ usages, usage.percent ≤ 100) ∧
    ∀ usage ∈ total, usage.percent ≤ 100

theorem dumpBounded_of_metered {pools : List MeasuredPool}
    (metered : ∀ measured ∈ pools, measured.Metered)
    (bounded : (pools.map (·.pool.capacity)).sum < sizeSpace) (detail : Bool) :
    DumpBounded pools detail := by
  cases detail with
  | false => exact ⟨[], none, rfl, by simp, by simp, by simp⟩
  | true =>
      obtain ⟨usages, used, capacity, dumped, length, percents, proportion⟩ :=
        dumpLoop_metered metered (Nat.le_refl 0) (by omega)
      by_cases empty : capacity = 0
      · refine ⟨usages, none, ?_, fun _ => length, percents, by simp⟩
        simp [cpoolDumpStatus, dumped, empty]
      · obtain ⟨total, logged, percent⟩ := usageOf_of_le (Nat.pos_of_ne_zero empty) proportion
        refine ⟨usages, some total, ?_, fun _ => length, percents, by simpa using percent⟩
        simp [cpoolDumpStatus, dumped, empty, logged]

structure Inventory where
  pools : List MeasuredPool

inductive PoolStep where
  | create (initialSize incrementSize : Nat) (memory : Option Nat)
  | request (index : Nat) (request : Request)

namespace Inventory

/-- A call that fails its assertion ends the run. -/
def step (inventory : Inventory) : PoolStep → Option Inventory
  | .create initialSize incrementSize memory =>
      (mdlPoolCreateInt initialSize incrementSize memory).map fun made =>
        ⟨made.toList.map (⟨·, initialSize⟩) ++ inventory.pools⟩
  | .request index request =>
      match inventory.pools[index]? with
      | none => none
      | some measured =>
          (request.perform measured.pool).map fun (after, _) =>
            ⟨inventory.pools.set index ⟨after, measured.initialSize⟩⟩

def obtained (inventory : Inventory) : List Region :=
  inventory.pools.flatMap (·.pool.obtained)

/-- An answer of `block_alloc`: aligned memory that is not in use, or `NULL`. -/
def Gives (inventory : Inventory) (size : Nat) (memory : Option Nat) : Prop :=
  ∀ address ∈ memory, address ≠ 0 ∧ address % poolAlignment = 0 ∧ address + size < sizeSpace ∧
    ∀ region ∈ inventory.obtained, Region.Apart ⟨address, size⟩ region

instance (inventory : Inventory) (size : Nat) (memory : Option Nat) :
    Decidable (inventory.Gives size memory) :=
  inferInstanceAs (Decidable (∀ _ ∈ _, _))

/-- `block_alloc` keeps to its part whenever it is asked. -/
def Supplied (inventory : Inventory) : PoolStep → Prop
  | .create initialSize _ memory => inventory.Gives initialSize memory
  | .request index request =>
      ∀ measured ∈ inventory.pools[index]?, ∀ asked ∈ request.asked measured.pool,
        inventory.Gives asked request.memory

instance (inventory : Inventory) (label : PoolStep) : Decidable (inventory.Supplied label) :=
  match label with
  | .create initialSize _ memory => inferInstanceAs (Decidable (inventory.Gives initialSize memory))
  | .request index request => inferInstanceAs (Decidable (∀ _ ∈ inventory.pools[index]?,
      ∀ _ ∈ _, inventory.Gives _ request.memory))

structure Sound (inventory : Inventory) : Prop where
  pools : ∀ measured ∈ inventory.pools, measured.Sound
  apart : inventory.obtained.Pairwise Region.Apart
  bounded : ∀ region ∈ inventory.obtained, region.stop < sizeSpace

namespace Sound

variable {inventory : Inventory} {measured : MeasuredPool}

theorem joined (sound : inventory.Sound) {size address : Nat}
    (gives : inventory.Gives size (some address)) {next : Inventory}
    (pools : ∀ measured ∈ next.pools, measured.Sound)
    (grown : next.obtained.Perm (⟨address, size⟩ :: inventory.obtained)) : next.Sound := by
  obtain ⟨-, -, inside, fresh⟩ := gives address rfl
  refine ⟨pools, ?_, fun region listed => ?_⟩
  · exact (grown.pairwise_iff fun apart => apart.symm).mpr
      (List.pairwise_cons.mpr ⟨fresh, sound.apart⟩)
  · rcases List.mem_cons.mp (grown.mem_iff.mp listed) with rfl | old
    · exact inside
    · exact sound.bounded region old

theorem create (sound : inventory.Sound) {initialSize buffer : Nat} (incrementSize : Nat)
    (large : sizeofPool + sizeofPoolBlock ≤ initialSize)
    (gives : inventory.Gives initialSize (some buffer)) :
    Sound ⟨⟨freshPool buffer initialSize incrementSize, initialSize⟩ :: inventory.pools⟩ := by
  obtain ⟨-, aligned, inside, -⟩ := gives buffer rfl
  have made := mdlPoolCreateInt_fresh incrementSize large inside
  apply sound.joined gives
  · intro measured listed
    rcases List.mem_cons.mp listed with rfl | old
    · refine ⟨framed_fresh incrementSize large inside, ordered_created aligned inside made, ?_⟩
      rw [obtained_freshPool]
      rfl
    · exact sound.pools measured old
  · simp [Inventory.obtained, obtained_freshPool]

theorem obtained_apart (sound : inventory.Sound) (listed : measured ∈ inventory.pools) :
    measured.pool.obtained.Pairwise Region.Apart ∧
      ∀ region ∈ measured.pool.obtained, region ∈ inventory.obtained :=
  ⟨(List.pairwise_flatMap.mp sound.apart).1 measured listed,
    fun _ its => List.mem_flatMap.mpr ⟨measured, listed, its⟩⟩

theorem metered (sound : inventory.Sound) (listed : measured ∈ inventory.pools) :
    measured.Metered := by
  obtain ⟨apart, its⟩ := sound.obtained_apart listed
  exact (sound.pools measured listed).metered
    (sum_lt_of_bounded apart fun region here => sound.bounded region (its region here))

theorem sum_capacity_lt (sound : inventory.Sound) :
    (inventory.pools.map (·.pool.capacity)).sum < sizeSpace := by
  have total := sum_lt_of_bounded sound.apart sound.bounded
  rw [Inventory.obtained, List.map_flatMap, List.flatMap_def, List.sum_flatten, List.map_map]
    at total
  have same : inventory.pools.map (·.pool.capacity) =
      inventory.pools.map fun measured => (measured.pool.obtained.map Region.size).sum :=
    List.map_congr_left fun measured listed => (sound.pools measured listed).capacity
  rw [same]
  exact total

theorem replaced (sound : inventory.Sound) {after : MeasuredPool}
    {before behind : List MeasuredPool} (split : inventory.pools = before ++ measured :: behind)
    (good : after.Sound) : ∀ other ∈ before ++ after :: behind, other.Sound := by
  intro other membership
  rcases List.mem_append.mp membership with front | back
  · apply sound.pools other
    rw [split]
    exact List.mem_append_left _ front
  · rcases List.mem_cons.mp back with rfl | rest
    · exact good
    · apply sound.pools other
      rw [split]
      exact List.mem_append_right _ (List.mem_cons_of_mem _ rest)

/-- The memory of a pool and new memory fit into the address space together. -/
theorem sum_given_lt (sound : inventory.Sound) (listed : measured ∈ inventory.pools)
    {size address : Nat} (gives : inventory.Gives size (some address)) :
    size + (measured.pool.obtained.map Region.size).sum < sizeSpace := by
  obtain ⟨apart, its⟩ := sound.obtained_apart listed
  obtain ⟨-, -, inside, fresh⟩ := gives address rfl
  have pairwise : (⟨address, size⟩ :: measured.pool.obtained).Pairwise Region.Apart :=
    List.pairwise_cons.mpr ⟨fun region held => fresh region (its region held), apart⟩
  have bounded : ∀ region ∈ (⟨address, size⟩ : Region) :: measured.pool.obtained,
      region.stop < sizeSpace :=
    List.forall_mem_cons.mpr ⟨inside, fun region held => sound.bounded region (its region held)⟩
  exact sum_lt_of_bounded pairwise bounded

theorem request (sound : inventory.Sound) {request : Request} {after : MdlPool} {p : Option Nat}
    {before behind : List MeasuredPool} (split : inventory.pools = before ++ measured :: behind)
    (gives : ∀ asked ∈ request.asked measured.pool, inventory.Gives asked request.memory)
    (performed : request.perform measured.pool = some (after, p)) :
    Sound ⟨before ++ ⟨after, measured.initialSize⟩ :: behind⟩ := by
  have listed : measured ∈ inventory.pools := by simp [split]
  obtain ⟨framed, ordered, capacity⟩ := sound.pools measured listed
  have its := (sound.obtained_apart listed).2
  have honest : Honest measured.pool request.wanted request.memory :=
    ⟨fun asked isAsked address given => (gives asked isAsked address given).1,
      fun asked isAsked address given => (gives asked isAsked address given).2.1,
      fun asked isAsked address given => (gives asked isAsked address given).2.2.1⟩
  have framedAfter : after.Framed measured.initialSize := by
    refine framed.perform performed honest.bounded fun asked isAsked address given frame here => ?_
    obtain ⟨region, held, within⟩ := framed.frame_within here
    have fresh := (gives asked isAsked address given).2.2.2 region (its region held)
    exact fresh.mono ⟨Nat.le_refl _, Nat.le_refl _⟩ within
  rw [Request.perform_eq] at performed
  have orderedAfter : after.Ordered := ordered.alloc honest performed
  obtain ⟨address, -, growth⟩ := mdlPoolAlloc_growth performed
  cases growth with
  | kept keptCapacity frames _ =>
      have same : after.obtained = measured.pool.obtained := by
        rw [MdlPool.obtained, MdlPool.obtained, frames, address]
      have whole : Inventory.obtained ⟨before ++ ⟨after, measured.initialSize⟩ :: behind⟩ =
          inventory.obtained := by
        simp only [Inventory.obtained, split, List.flatMap_append, List.flatMap_cons, same]
      refine ⟨sound.replaced split ⟨framedAfter, orderedAfter, ?_⟩, whole ▸ sound.apart,
        whole ▸ sound.bounded⟩
      rw [keptCapacity, same, capacity]
  | grown asked place isAsked given grownCapacity frames =>
      have answered := gives asked isAsked
      rw [given] at answered
      have inside : place + asked < sizeSpace := (answered place rfl).2.2.1
      have extent : (newBlock place ((place + asked) % sizeSpace)).frame.extent =
          ⟨place, asked⟩ := by
        simp [Frame.extent, MdlPoolBlock.frame, newBlock, Nat.mod_eq_of_lt inside]
      have more := framed.obtained_grown address frames
      rw [extent] at more
      apply sound.joined answered
      · apply sound.replaced split
        refine ⟨framedAfter, orderedAfter, ?_⟩
        rw [grownCapacity, more, List.map_cons, List.sum_cons, capacity, Nat.add_comm,
          Nat.mod_eq_of_lt (sound.sum_given_lt listed answered)]
      · simp only [Inventory.obtained, split, List.flatMap_append, List.flatMap_cons, more,
          List.cons_append]
        exact List.perm_middle

theorem step (sound : inventory.Sound) {label : PoolStep} {next : Inventory}
    (supplied : inventory.Supplied label) (stepped : inventory.step label = some next) :
    next.Sound := by
  cases label with
  | create initialSize incrementSize memory =>
      obtain ⟨made, created, rfl⟩ := Option.map_eq_some_iff.mp stepped
      have large := large_of_created created
      cases memory with
      | none =>
          rw [mdlPoolCreateInt, if_pos large] at created
          obtain rfl := Option.some.inj created
          exact sound
      | some buffer =>
          rw [mdlPoolCreateInt_fresh incrementSize large (supplied buffer rfl).2.2.1] at created
          obtain rfl := Option.some.inj created
          exact sound.create incrementSize large supplied
  | request index request =>
      simp only [Inventory.step] at stepped
      split at stepped
      · cases stepped
      · next measured found =>
        obtain ⟨⟨after, p⟩, performed, rfl⟩ := Option.map_eq_some_iff.mp stepped
        obtain ⟨inside, here⟩ := List.getElem?_eq_some_iff.mp found
        have split : inventory.pools =
            inventory.pools.take index ++ measured :: inventory.pools.drop (index + 1) := by
          rw [← here, ← List.drop_eq_getElem_cons inside, List.take_append_drop]
        rw [List.set_eq_take_append_cons_drop, if_pos inside]
        exact sound.request split (supplied measured found) performed

end Sound

end Inventory

theorem sound_nothing : Inventory.Sound ⟨[]⟩ where
  pools := by simp
  apart := List.Pairwise.nil
  bounded := by simp [Inventory.obtained]

/-- Whatever pools are created and whatever they are asked for: the capacity of a
pool is that of its memory, its usage stays within it, and no percentage is over
a hundred. -/
theorem usage_within_capacity {labels : List PoolStep} {inventory : Inventory}
    (supplied : Transition.Guarded Inventory.step Inventory.Supplied ⟨[]⟩ labels)
    (ran : Transition.run Inventory.step ⟨[]⟩ labels = some inventory) :
    (∀ measured ∈ inventory.pools, measured.Metered) ∧
      ∀ detail, DumpBounded inventory.pools detail := by
  have sound : inventory.Sound :=
    Transition.run_invariant_of_guarded Inventory.step
      (fun _ _ _ sound supplied stepped => sound.step supplied stepped) supplied sound_nothing ran
  have metered : ∀ measured ∈ inventory.pools, measured.Metered :=
    fun measured listed => sound.metered listed
  exact ⟨metered, dumpBounded_of_metered metered sound.sum_capacity_lt⟩

/-- Two pools; one expands twice and is refused memory once, the other has no
room and is told the largest size. -/
theorem usage_within_capacity_expanded :
    ∃ inventory, Transition.run Inventory.step ⟨[]⟩
        [.create 256 100 (some 4096), .create 512 0 none, .create 200 0 (some 1024),
          .request 1 (.alloc 300 (some 8192)), .request 1 (.calloc 30 40 none),
          .request 0 (.alloc 300 none), .request 0 (.alloc (2 ^ 64 - 1) none),
          .request 1 (.alloc 500 (some 16384))] = some inventory ∧
      inventory.pools.map (fun measured => poolUsage measured.pool) =
        [some ⟨144, 200, 72⟩, some ⟨1024, 1256, 81⟩] ∧
      (∀ measured ∈ inventory.pools, measured.Metered) ∧ DumpBounded inventory.pools true := by
  have view : (Transition.run Inventory.step ⟨[]⟩
      [.create 256 100 (some 4096), .create 512 0 none, .create 200 0 (some 1024),
        .request 1 (.alloc 300 (some 8192)), .request 1 (.calloc 30 40 none),
        .request 0 (.alloc 300 none), .request 0 (.alloc (2 ^ 64 - 1) none),
        .request 1 (.alloc 500 (some 16384))]).map
        (fun inventory => inventory.pools.map fun measured => poolUsage measured.pool) =
          some [some ⟨144, 200, 72⟩, some ⟨1024, 1256, 81⟩] := by
    decide +kernel
  obtain ⟨inventory, ran, usages⟩ := Option.map_eq_some_iff.mp view
  obtain ⟨metered, dumped⟩ := usage_within_capacity (by decide +kernel) ran
  exact ⟨inventory, ran, usages, metered, dumped true⟩

end UtilsModules.Pool

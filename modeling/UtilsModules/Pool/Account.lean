import Mathlib.Data.List.Perm.Basic
import UtilsModules.Pool.Cache

/-!
The memory the pools of the factory hold, and the account the factory keeps of
it in `used_size`.
-/

namespace UtilsModules.Pool

/-- What a pool has got from `block_alloc`: the blocks that were added, and the
memory with its own structure and its first block. -/
def MdlPool.obtained (pool : MdlPool) : List Region :=
  pool.frames.dropLast.map Frame.extent ++
    (pool.frames.getLast?.map fun frame => ⟨pool.address, frame.end_ - pool.address⟩).toList

theorem obtained_freshPool (buffer initialSize incrementSize : Nat) :
    (freshPool buffer initialSize incrementSize).obtained = [⟨buffer, initialSize⟩] := by
  simp [MdlPool.obtained, freshPool, MdlPool.frames, MdlPoolBlock.frame]

namespace MdlPool.Framed

variable {pool after : MdlPool} {initialSize : Nat}

theorem mem_obtained (framed : pool.Framed initialSize) :
    ⟨pool.address, initialSize⟩ ∈ pool.obtained := by
  obtain ⟨expansions, based⟩ := framed.based
  simp [MdlPool.obtained, based, initialFrame]

theorem obtained_single (framed : pool.Framed initialSize)
    (single : pool.blockHeadList.length = 1) : pool.obtained = [⟨pool.address, initialSize⟩] := by
  obtain ⟨block, only, frame⟩ := framed.block_of_single single
  simp [MdlPool.obtained, MdlPool.frames, only, frame, initialFrame]

theorem obtained_grown (framed : pool.Framed initialSize) {frame : Frame}
    (sameAddress : after.address = pool.address) (frames : after.frames = frame :: pool.frames) :
    after.obtained = frame.extent :: pool.obtained := by
  obtain ⟨expansions, based⟩ := framed.based
  have grown : after.frames = (frame :: expansions) ++ [initialFrame pool.address initialSize] := by
    rw [frames, based, List.cons_append]
  rw [MdlPool.obtained, MdlPool.obtained, grown, based, sameAddress, List.dropLast_concat,
    List.dropLast_concat, List.getLast?_concat, List.getLast?_concat, List.map_cons,
    List.cons_append]

theorem covers (framed : pool.Framed initialSize) :
    Region.Covers ⟨pool.address, initialSize⟩ pool.address := by
  have large := framed.large
  simp only [Region.Covers, Region.stop, sizeofPool] at large ⊢
  omega

theorem frame_within (framed : pool.Framed initialSize) {frame : Frame}
    (here : frame ∈ pool.frames) : ∃ region ∈ pool.obtained, frame.extent.Within region := by
  obtain ⟨expansions, based⟩ := framed.based
  have large := framed.large
  rw [based, List.mem_append, List.mem_singleton] at here
  rcases here with added | rfl
  · refine ⟨frame.extent, ?_, Nat.le_refl _, Nat.le_refl _⟩
    simp only [MdlPool.obtained, based, List.dropLast_concat]
    exact List.mem_append_left _ (List.mem_map_of_mem added)
  · refine ⟨_, framed.mem_obtained, ?_⟩
    simp only [Region.Within, Region.stop, Frame.extent, initialFrame]
    omega

end MdlPool.Framed

/-- The pool was made for its class; `CACHING_POOL_ARRAY_SIZE` marks the pools
that are larger than all classes. -/
structure CachedPool.Fits (cached : CachedPool) (initialSize : Nat) : Prop where
  framed : cached.pool.Framed initialSize
  classed : cached.dataFactory < cachingPoolArraySize ∧ initialSize = poolSize cached.dataFactory ∨
    cached.dataFactory = cachingPoolArraySize ∧ poolSize (cachingPoolArraySize - 1) < initialSize

/-- The pool is empty, and its class is one of the table. -/
structure CachedPool.Idle (cached : CachedPool) : Prop where
  inside : cached.dataFactory < cachingPoolArraySize
  empty : cached.pool =
    freshPool cached.address (poolSize cached.dataFactory) cached.pool.incrementSize

structure Cache.Sound (cache : Cache) : Prop where
  fits : ∀ cached ∈ cache.all, ∃ initialSize, cached.Fits initialSize
  idle : ∀ cached ∈ cache.free, cached.Idle

def Cache.obtained (cache : Cache) : List Region := cache.all.flatMap (·.pool.obtained)

theorem Cache.obtained_perm {cache rest : Cache} {cached : CachedPool}
    (split : cache.all.Perm (cached :: rest.all)) :
    cache.obtained.Perm (cached.pool.obtained ++ rest.obtained) :=
  split.flatMap_right _

theorem Cache.Sound.mem_obtained {cache : Cache} (sound : cache.Sound) {address : Nat}
    (here : address ∈ cache.addresses) :
    ∃ initialSize, 0 < initialSize ∧ ⟨address, initialSize⟩ ∈ cache.obtained := by
  obtain ⟨cached, listed, rfl⟩ := List.mem_map.mp here
  obtain ⟨initialSize, fits⟩ := sound.fits cached listed
  refine ⟨initialSize, Nat.lt_of_lt_of_le (by decide) fits.framed.large, ?_⟩
  exact List.mem_flatMap.mpr ⟨cached, listed, fits.framed.mem_obtained⟩

structure Factory.Accounts (factory : Factory) (cache : Cache) : Prop where
  held : factory.held.Perm cache.obtained
  apart : factory.held.Pairwise Region.Apart
  bounded : ∀ region ∈ factory.held, region.stop < sizeSpace
  usedSize : factory.cp.usedSize = (factory.held.map Region.size).sum
  astray : factory.astray = []

theorem accounts_init (maxCapacity : Nat) :
    (mdlCachingPoolInit maxCapacity).Accounts ⟨[], []⟩ where
  held := List.Perm.refl _
  apart := List.Pairwise.nil
  bounded := by simp [mdlCachingPoolInit]
  usedSize := rfl
  astray := rfl

theorem sum_lt_of_bounded {regions : List Region} (apart : regions.Pairwise Region.Apart)
    (bounded : ∀ region ∈ regions, region.stop < sizeSpace) :
    (regions.map Region.size).sum < sizeSpace := by
  have total := @Region.sum_size_le regions (sizeSpace - 1) apart fun region listed =>
    Nat.le_sub_one_of_lt (bounded region listed)
  exact Nat.lt_of_le_of_lt total (Nat.sub_lt (Nat.two_pow_pos 64) Nat.one_pos)

theorem mod_add_sub_mod {space used size : Nat} (below : used < space) :
    ((used + size) % space + (space - size % space)) % space = used := by
  have remainder : size % space < space := Nat.mod_lt _ (Nat.zero_lt_of_lt below)
  have parts := Nat.mod_add_div size space
  have whole : used + size + (space - size % space) = used + space * (size / space + 1) := by
    rw [Nat.mul_add, Nat.mul_one]
    omega
  rw [Nat.mod_add_mod, whole, Nat.add_mul_mod_self_left, Nat.mod_eq_of_lt below]

theorem add_sub_mod_of_le {space used size : Nat} (enough : size ≤ used) (below : used < space) :
    (used + (space - size % space)) % space = used - size := by
  have back : used + (space - size) = used - size + space := by omega
  rw [Nat.mod_eq_of_lt (Nat.lt_of_le_of_lt enough below), back, Nat.add_mod_right,
    Nat.mod_eq_of_lt (by omega)]

namespace Factory.Accounts

variable {factory after : Factory} {cache next : Cache}

theorem congr (accounts : factory.Accounts cache) (same : next.obtained.Perm cache.obtained)
    (held : after.held = factory.held) (usedSize : after.cp.usedSize = factory.cp.usedSize)
    (astray : after.astray = factory.astray) : after.Accounts next where
  held := held ▸ accounts.held.trans same.symm
  apart := held ▸ accounts.apart
  bounded := held ▸ accounts.bounded
  usedSize := by rw [usedSize, held, accounts.usedSize]
  astray := astray.trans accounts.astray

theorem mem_held (accounts : factory.Accounts cache) {cached : CachedPool}
    (listed : cached ∈ cache.all) {region : Region} (its : region ∈ cached.pool.obtained) :
    region ∈ factory.held :=
  accounts.held.mem_iff.mpr (List.mem_flatMap.mpr ⟨cached, listed, its⟩)

theorem obtained_lt (accounts : factory.Accounts cache) :
    (cache.obtained.map Region.size).sum < sizeSpace := by
  rw [← (accounts.held.map Region.size).sum_eq]
  exact sum_lt_of_bounded accounts.apart accounts.bounded

theorem obtained_apart (accounts : factory.Accounts cache) :
    cache.obtained.Pairwise Region.Apart :=
  (accounts.held.pairwise_iff fun apart => apart.symm).mp accounts.apart

theorem gain (accounts : factory.Accounts cache) {size address : Nat}
    (offered : factory.Offers size (some address))
    (grown : next.obtained.Perm (⟨address, size⟩ :: cache.obtained)) :
    (defaultBlockAlloc factory size (some address)).Accounts next := by
  obtain ⟨inside, fresh⟩ := offered address rfl
  have apart : (⟨address, size⟩ :: factory.held).Pairwise Region.Apart :=
    List.pairwise_cons.mpr ⟨fresh, accounts.apart⟩
  have bounded : ∀ region ∈ (⟨address, size⟩ : Region) :: factory.held,
      region.stop < sizeSpace := by
    simpa [Region.stop] using And.intro inside accounts.bounded
  refine ⟨?_, apart, bounded, ?_, accounts.astray⟩
  · exact ((accounts.held.cons _).trans grown.symm)
  · have total := sum_lt_of_bounded apart bounded
    simp only [List.map_cons, List.sum_cons] at total
    simp only [defaultBlockAlloc, cpoolOnBlockAlloc, List.map_cons, List.sum_cons,
      accounts.usedSize]
    rw [Nat.add_comm, Nat.mod_eq_of_lt total]

/-- `malloc` has no memory: the size is taken off again. -/
theorem refused (accounts : factory.Accounts cache) (size : Nat) :
    (defaultBlockAlloc factory size none).Accounts cache := by
  refine accounts.congr (List.Perm.refl _) rfl ?_ rfl
  have total := sum_lt_of_bounded accounts.apart accounts.bounded
  rw [← accounts.usedSize] at total
  simp only [defaultBlockAlloc, cpoolOnBlockAlloc, cpoolOnBlockFree]
  rw [mod_add_sub_mod total]

theorem unanswered (accounts : factory.Accounts cache) {asked memory : Option Nat}
    (none_ : asked = none ∨ memory = none) : (blockAllocs factory asked memory).Accounts cache := by
  cases asked with
  | none => exact accounts
  | some size =>
      obtain rfl : memory = none := none_.resolve_left (by simp)
      exact accounts.refused size

theorem lose (accounts : factory.Accounts cache) {region : Region}
    (shrunk : cache.obtained.Perm (region :: next.obtained)) :
    (defaultBlockFree factory region).Accounts next := by
  have here : region ∈ factory.held :=
    accounts.held.mem_iff.mpr (shrunk.mem_iff.mpr List.mem_cons_self)
  have parted : factory.held.Perm (region :: factory.held.erase region) :=
    List.perm_cons_erase here
  refine ⟨?_, accounts.apart.sublist List.erase_sublist, fun other listed =>
    accounts.bounded other (List.mem_of_mem_erase listed), ?_, ?_⟩
  · exact (List.perm_cons region).mp (parted.symm.trans (accounts.held.trans shrunk))
  · have total := sum_lt_of_bounded accounts.apart accounts.bounded
    have sum := (parted.map Region.size).sum_eq
    rw [List.map_cons, List.sum_cons] at sum
    rw [sum] at total
    simp only [defaultBlockFree, cpoolOnBlockFree, accounts.usedSize, sum]
    rw [add_sub_mod_of_le (Nat.le_add_right _ _) total, Nat.add_sub_cancel_left]
  · simp only [defaultBlockFree, if_pos here, accounts.astray]

theorem fresh_address (accounts : factory.Accounts cache) (sound : cache.Sound)
    {size address : Nat} (positive : 0 < size) (offered : factory.Offers size (some address)) :
    address ∉ cache.addresses := by
  intro again
  obtain ⟨initialSize, largeEnough, listed⟩ := sound.mem_obtained again
  have apart := (offered address rfl).2 _ (accounts.held.mem_iff.mpr listed)
  simp only [Region.Apart, Region.stop] at apart
  omega

theorem not_covers (accounts : factory.Accounts cache) {rest : Cache} {cached : CachedPool}
    (split : cache.all.Perm (cached :: rest.all)) (sound : rest.Sound) {region : Region}
    (its : region ∈ cached.pool.obtained) : ∀ address ∈ rest.addresses, ¬ region.Covers address := by
  intro address other covers
  obtain ⟨initialSize, positive, listed⟩ := sound.mem_obtained other
  have apart := (((Cache.obtained_perm split).pairwise_iff fun apart => apart.symm).mp
    accounts.obtained_apart)
  have separate := (List.pairwise_append.mp apart).2.2 region its _ listed
  simp only [Region.Apart, Region.Covers, Region.stop] at separate covers
  omega

end Factory.Accounts

end UtilsModules.Pool

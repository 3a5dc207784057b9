import Mathlib.Algebra.Order.BigOperators.Group.List
import Mathlib.Algebra.Order.Group.Nat
import UtilsModules.Library.Transition
import UtilsModules.Pool.Account

/-!
What every operation does to the factory.

`Consistent` ties the memory of the factory to a cache.  It is kept by every
operation that returns; the release of an expanded pool does not return.
-/

namespace UtilsModules.Pool

open Datastruct Linked

/-- The numbers of the factory, and what its users have, are those of the
cache. -/
structure Factory.Counts (factory : Factory) (cache : Cache) : Prop where
  usedCount : factory.cp.usedCount = cache.used.length
  capacity : factory.cp.capacity = (cache.free.map (·.pool.capacity)).sum
  within : factory.cp.capacity ≤ factory.cp.maxCapacity
  out : factory.out = cache.used.map CachedPool.address

structure Factory.Consistent (factory : Factory) (cache : Cache) : Prop where
  shown : factory.Shows cache
  sound : cache.Sound
  accounts : factory.Accounts cache
  counts : factory.Counts cache

theorem consistent_init (maxCapacity : Nat) :
    (mdlCachingPoolInit maxCapacity).Consistent ⟨[], []⟩ where
  shown := shows_init maxCapacity
  sound := ⟨by simp [Cache.all], by simp⟩
  accounts := accounts_init maxCapacity
  counts := ⟨rfl, rfl, Nat.zero_le _, rfl⟩

theorem Factory.Consistent.stop {factory : Factory} {cache : Cache}
    (consistent : factory.Consistent cache) (why : Stop) : (factory.stop why).Consistent cache where
  shown := ⟨consistent.shown.rings, consistent.shown.pools, consistent.shown.distinct⟩
  sound := consistent.sound
  accounts := consistent.accounts.congr (List.Perm.refl _) rfl rfl rfl
  counts := ⟨consistent.counts.usedCount, consistent.counts.capacity, consistent.counts.within,
    consistent.counts.out⟩

theorem length_le_obtained {pools : List CachedPool}
    (fits : ∀ cached ∈ pools, ∃ initialSize, cached.Fits initialSize) :
    pools.length ≤ ((pools.flatMap (·.pool.obtained)).map Region.size).sum := by
  induction pools with
  | nil => simp
  | cons cached rest inductionHypothesis =>
      have later := inductionHypothesis fun other listed => fits other (List.mem_cons_of_mem _ listed)
      obtain ⟨initialSize, fit⟩ := fits cached List.mem_cons_self
      have here : initialSize ≤ (cached.pool.obtained.map Region.size).sum :=
        List.le_sum_of_mem (List.mem_map_of_mem fit.framed.mem_obtained)
      have large := fit.framed.large
      simp only [List.flatMap_cons, List.map_append, List.sum_append, List.length_cons]
      simp only [sizeofPool] at large
      omega

theorem Factory.Accounts.length_lt {factory : Factory} {cache : Cache}
    (accounts : factory.Accounts cache) (sound : cache.Sound) : cache.all.length < sizeSpace :=
  Nat.lt_of_le_of_lt (length_le_obtained sound.fits) accounts.obtained_lt

def Cache.lend (cache : Cache) (cached : CachedPool) (idx : Nat) : Cache :=
  { cache with used := { cached with dataFactory := idx } :: cache.used }

theorem handOut_consistent {factory : Factory} {cache : Cache} {cached : CachedPool} {idx : Nat}
    (shown : ShowsBut factory.links factory.pools cache cached.address)
    (sound : (cache.lend cached idx).Sound) (accounts : factory.Accounts (cache.lend cached idx))
    (counts : factory.Counts cache) :
    ∃ after, handOut factory cached idx = (after, some cached.address) ∧
      after.Consistent (cache.lend cached idx) ∧ after.stopped = factory.stopped := by
  obtain ⟨links, added, joins⟩ := @ShowsBut.use _ _ cache { cached with dataFactory := idx } shown
  have few : cache.used.length + 1 < sizeSpace := by
    have total := accounts.length_lt sound
    simp only [Cache.all, Cache.lend, List.length_append, List.length_cons] at total
    omega
  refine ⟨{ factory with
    cp := { factory.cp with usedCount := (factory.cp.usedCount + 1) % sizeSpace }
    links := links
    pools := Function.update factory.pools cached.address (some { cached with dataFactory := idx })
    out := cached.address :: factory.out }, ?_, ⟨?_, sound, ?_, ?_⟩, rfl⟩
  · have sameNode : cached.node = CachedPool.node { cached with dataFactory := idx } := rfl
    rw [handOut, sameNode, added]
  · exact joins _ rfl rfl
  · exact accounts.congr (List.Perm.refl _) rfl rfl rfl
  · refine ⟨?_, counts.capacity, counts.within, ?_⟩
    · simp only [Cache.lend, List.length_cons, counts.usedCount]
      exact Nat.mod_eq_of_lt few
    · simp [Cache.lend, CachedPool.address, counts.out]

theorem fits_created {initialSize buffer : Nat} (incrementSize : Nat)
    (bounded : buffer + createSize initialSize < sizeSpace) :
    CachedPool.Fits ⟨freshPool buffer (createSize initialSize) incrementSize, sizeClass initialSize⟩
      (createSize initialSize) := by
  obtain ⟨below, short, -⟩ := sizeClass_spec initialSize
  refine ⟨framed_fresh incrementSize (createSize_spec initialSize).2 bounded, ?_⟩
  rcases Nat.lt_or_eq_of_le below with inside | same
  · exact .inl ⟨inside, by simp only [createSize, if_pos inside]⟩
  · refine .inr ⟨same, ?_⟩
    have outside : ¬ sizeClass initialSize < cachingPoolArraySize := by omega
    simp only [createSize, if_neg outside]
    exact short (cachingPoolArraySize - 1) (by rw [same]; decide)

theorem Cache.Sound.lend {cache : Cache} (sound : cache.Sound) {cached : CachedPool} {idx : Nat}
    {initialSize : Nat} (fits : CachedPool.Fits { cached with dataFactory := idx } initialSize) :
    (cache.lend cached idx).Sound := by
  refine ⟨fun other listed => ?_, sound.idle⟩
  rcases List.mem_cons.mp listed with rfl | old
  · exact ⟨initialSize, fits⟩
  · exact sound.fits other old

theorem Cache.obtained_lend (cache : Cache) (cached : CachedPool) (idx : Nat) :
    (cache.lend cached idx).obtained = cached.pool.obtained ++ cache.obtained := by
  simp [Cache.obtained, Cache.lend, Cache.all]

theorem Cache.Sound.without {cache rest : Cache} {cached : CachedPool} (sound : cache.Sound)
    (split : cache.all.Perm (cached :: rest.all))
    (free : ∀ other ∈ rest.free, other ∈ cache.free) : rest.Sound where
  fits := fun other listed =>
    sound.fits other (split.mem_iff.mpr (List.mem_cons_of_mem _ listed))
  idle := fun other listed => sound.idle other (free other listed)

theorem CachedPool.Idle.obtained {cached : CachedPool} (idle : cached.Idle) :
    cached.pool.obtained = [⟨cached.address, poolSize cached.dataFactory⟩] := by
  rw [idle.empty, obtained_freshPool]

def CachedPool.renew (cached : CachedPool) (incrementSize : Nat) : CachedPool :=
  ⟨freshPool cached.address (poolSize cached.dataFactory) incrementSize, cached.dataFactory⟩

theorem CachedPool.Idle.renewed {cached : CachedPool} (idle : cached.Idle) (incrementSize : Nat) :
    { cached.pool with incrementSize := incrementSize } =
      freshPool cached.address (poolSize cached.dataFactory) incrementSize :=
  calc { cached.pool with incrementSize := incrementSize }
      = { freshPool cached.address (poolSize cached.dataFactory) cached.pool.incrementSize with
          incrementSize := incrementSize } := by rw [← idle.empty]
    _ = freshPool cached.address (poolSize cached.dataFactory) incrementSize := rfl

namespace Factory.Consistent

variable {factory : Factory} {cache : Cache}

theorem createNew (consistent : factory.Consistent cache) {initialSize : Nat} (incrementSize : Nat)
    {memory : Option Nat} (offered : factory.Offers (createSize initialSize) memory) :
    ∃ after, after.stopped = factory.stopped ∧
      (memory = none ∧ createNew factory initialSize incrementSize memory = (after, none) ∧
        after.Consistent cache ∨
      ∃ buffer, memory = some buffer ∧
        createNew factory initialSize incrementSize memory = (after, some buffer) ∧
        after.Consistent (cache.lend
          ⟨freshPool buffer (createSize initialSize) incrementSize, 0⟩ (sizeClass initialSize))) := by
  have large := (createSize_spec initialSize).2
  cases memory with
  | none =>
      refine ⟨defaultBlockAlloc factory (createSize initialSize) none, rfl, .inl ⟨rfl, ?_, ?_⟩⟩
      · simp only [Pool.createNew, mdlPoolCreateInt, if_pos large, Option.map_none]
      · exact ⟨⟨consistent.shown.rings, consistent.shown.pools, consistent.shown.distinct⟩,
          consistent.sound, consistent.accounts.refused _, consistent.counts.usedCount,
          consistent.counts.capacity, consistent.counts.within, consistent.counts.out⟩
  | some buffer =>
      have bounded := (offered buffer rfl).1
      have outside : buffer ∉ cache.addresses :=
        consistent.accounts.fresh_address consistent.sound
          (Nat.lt_of_lt_of_le (by decide) large) offered
      have sound : (cache.lend ⟨freshPool buffer (createSize initialSize) incrementSize, 0⟩
          (sizeClass initialSize)).Sound :=
        consistent.sound.lend (fits_created incrementSize bounded)
      have grown : (cache.lend ⟨freshPool buffer (createSize initialSize) incrementSize, 0⟩
          (sizeClass initialSize)).obtained.Perm (⟨buffer, createSize initialSize⟩ :: cache.obtained) := by
        rw [Cache.obtained_lend, obtained_freshPool]
        exact List.Perm.refl _
      have accounts := consistent.accounts.gain offered grown
      obtain ⟨after, handed, kept, running⟩ := @handOut_consistent
        { defaultBlockAlloc factory (createSize initialSize) (some buffer) with
          links := Function.update factory.links (.pool buffer) (some ⟨none, none⟩) }
        cache ⟨freshPool buffer (createSize initialSize) incrementSize, 0⟩ (sizeClass initialSize)
        (consistent.shown.place outside) sound
        (accounts.congr (List.Perm.refl _) rfl rfl rfl)
        ⟨consistent.counts.usedCount, consistent.counts.capacity, consistent.counts.within,
          consistent.counts.out⟩
      refine ⟨after, running, .inr ⟨buffer, rfl, ?_, kept⟩⟩
      simp only [Pool.createNew, mdlPoolCreateInt_fresh incrementSize large bounded]
      exact handed

theorem waiting (consistent : factory.Consistent cache) {idx : Nat}
    (inside : idx < cachingPoolArraySize) (nonempty : cache.on (.freeList idx) ≠ []) :
    ∃ cached used before behind, cache = ⟨used, before ++ cached :: behind⟩ ∧
      cached.dataFactory = idx ∧ cached.Idle ∧ factory.pools cached.address = some cached ∧
      nextOf factory.links (.freeList idx) = some (some cached.node) := by
  obtain ⟨cached, rest, listed⟩ := List.exists_cons_of_ne_nil nonempty
  obtain ⟨before, behind, split, -, classed, -⟩ := List.filter_eq_cons_iff.mp listed
  have free : cached ∈ cache.free := by simp [split]
  have isHead : IsHead (.freeList idx) := inside
  refine ⟨cached, cache.used, before, behind, by rw [← split], by simpa using classed,
    consistent.sound.idle cached free, ?_, ?_⟩
  · exact (consistent.shown.pools _ _).mpr ⟨List.mem_append_right _ free, rfl⟩
  · rw [consistent.shown.rings.next_head isHead]
    simp [Cache.nodes, listed]

theorem counts_taken {used before behind : List CachedPool} {cached : CachedPool}
    {links : PoolNode → Option (LinkPair PoolNode)}
    (consistent : factory.Consistent ⟨used, before ++ cached :: behind⟩) :
    Factory.Counts { factory with
      cp := { factory.cp with
        capacity :=
          if factory.cp.capacity > cached.pool.capacity then
            factory.cp.capacity - cached.pool.capacity
          else
            0 }
      links := links } ⟨used, before ++ behind⟩ := by
  have total := consistent.counts.capacity
  have within := consistent.counts.within
  simp only [List.map_append, List.map_cons, List.sum_append, List.sum_cons] at total
  refine ⟨consistent.counts.usedCount, ?_, ?_, consistent.counts.out⟩
  · simp only [List.map_append, List.sum_append]
    split
    · omega
    · omega
  · dsimp only
    split
    · omega
    · omega

theorem sound_renewed {used before behind : List CachedPool} {cached : CachedPool}
    (consistent : factory.Consistent ⟨used, before ++ cached :: behind⟩) (idle : cached.Idle)
    (incrementSize : Nat) :
    (Cache.lend ⟨used, before ++ behind⟩ (cached.renew incrementSize) cached.dataFactory).Sound := by
  have rest := consistent.sound.without (Cache.perm_free used before behind cached) (by simp; tauto)
  have region : ⟨cached.address, poolSize cached.dataFactory⟩ ∈ factory.held := by
    apply consistent.accounts.mem_held
    · exact List.mem_append_right _ (List.mem_append_right _ List.mem_cons_self)
    · simp [idle.obtained]
  apply rest.lend
  refine ⟨?_, .inl ⟨idle.inside, rfl⟩⟩
  exact framed_fresh incrementSize (large_of_poolSize _ idle.inside)
    (consistent.accounts.bounded _ region)

theorem accounts_renewed {used before behind : List CachedPool} {cached : CachedPool}
    (consistent : factory.Consistent ⟨used, before ++ cached :: behind⟩) (idle : cached.Idle)
    (incrementSize : Nat) : factory.Accounts
      (Cache.lend ⟨used, before ++ behind⟩ (cached.renew incrementSize) cached.dataFactory) := by
  refine consistent.accounts.congr ?_ rfl rfl rfl
  rw [Cache.obtained_lend, CachedPool.renew, obtained_freshPool, ← idle.obtained]
  exact (Cache.obtained_perm (Cache.perm_free used before behind cached)).symm

theorem reuse (consistent : factory.Consistent cache) {idx : Nat} (incrementSize : Nat)
    (inside : idx < cachingPoolArraySize) (nonempty : cache.on (.freeList idx) ≠ []) :
    ∃ (after : Factory) (cached : CachedPool) (next : Cache),
      Pool.reuse factory idx incrementSize = (after, some cached.address) ∧
      cached.dataFactory = idx ∧ after.stopped = factory.stopped ∧ after.Consistent next ∧
      cached.renew incrementSize ∈ next.all := by
  obtain ⟨cached, used, before, behind, rfl, rfl, idle, found, front⟩ :=
    consistent.waiting inside nonempty
  obtain ⟨links, deleted, shown⟩ := consistent.shown.unfree inside
  let taken : Factory := { factory with
    cp := { factory.cp with
      capacity :=
        if factory.cp.capacity > cached.pool.capacity then
          factory.cp.capacity - cached.pool.capacity
        else
          0 }
    links := links }
  have accounts : taken.Accounts
      (Cache.lend ⟨used, before ++ behind⟩ (cached.renew incrementSize) cached.dataFactory) :=
    (consistent.accounts_renewed idle incrementSize).congr (List.Perm.refl _) rfl rfl rfl
  obtain ⟨after, handed, kept, running⟩ := @handOut_consistent taken ⟨used, before ++ behind⟩
    (cached.renew incrementSize) cached.dataFactory shown (consistent.sound_renewed idle incrementSize)
    accounts consistent.counts_taken
  refine ⟨after, cached, _, ?_, rfl, running, kept, List.mem_cons_self⟩
  have removed : listDel factory.links (.pool cached.address) = some links := deleted
  simp only [Pool.reuse, front, CachedPool.node, found, removed]
  rw [idle.renewed]
  exact handed

/-- `cpool_create_pool` returns; a pool it returns is empty and of the size of
its class. -/
theorem createPool (consistent : factory.Consistent cache) {initialSize : Nat}
    (incrementSize : Nat) {memory : Option Nat}
    (offered : factory.Offers (createSize initialSize) memory) :
    ∃ after result next,
      cpoolCreatePool factory initialSize incrementSize memory = (after, result) ∧
      after.stopped = factory.stopped ∧ after.Consistent next ∧ (result = none → memory = none) ∧
      ∀ address ∈ result, after.pools address =
        some ⟨freshPool address (createSize initialSize) incrementSize, sizeClass initialSize⟩ := by
  obtain ⟨below, -⟩ := sizeClass_spec initialSize
  unfold cpoolCreatePool
  dsimp only
  split
  · obtain ⟨after, running, ⟨none_, made, kept⟩ | ⟨buffer, given, made, kept⟩⟩ :=
      consistent.createNew incrementSize offered
    · exact ⟨after, none, cache, made, running, kept, fun _ => none_, by simp⟩
    · refine ⟨after, some buffer, _, made, running, kept, by simp, ?_⟩
      rintro address ⟨⟩
      exact (kept.shown.pools _ _).mpr ⟨List.mem_cons_self, rfl⟩
  · next waiting =>
    obtain ⟨notLast, notEmpty⟩ := not_or.mp waiting
    have inside : sizeClass initialSize < cachingPoolArraySize :=
      Nat.lt_of_le_of_ne below notLast
    have isHead : IsHead (.freeList (sizeClass initialSize)) := inside
    rw [listEmpty_rings consistent.shown.rings isHead] at notEmpty
    obtain ⟨after, cached, next, made, classed, running, kept, listed⟩ :=
      consistent.reuse incrementSize inside (by simpa [Cache.nodes] using notEmpty)
    refine ⟨after, some cached.address, next, made, running, kept, by simp, ?_⟩
    rintro address ⟨⟩
    have size : createSize initialSize = poolSize (sizeClass initialSize) := by
      simp only [createSize, if_pos inside]
    rw [size, ← classed]
    exact (kept.shown.pools _ _).mpr ⟨listed, rfl⟩

theorem onOneList (consistent : factory.Consistent cache) {cached : CachedPool}
    (listed : cached ∈ cache.all) : ∃! head, IsHead head ∧ cached ∈ cache.on head := by
  have unique : ∀ head other, IsHead head → IsHead other → cached ∈ cache.on head →
      cached ∈ cache.on other → other = head := by
    intro head other isHead otherHead here there
    exact (consistent.shown.rings.once head other isHead otherHead cached.node
      (List.mem_map_of_mem here) (List.mem_map_of_mem there)).symm
  rcases List.mem_append.mp listed with used | free
  · exact ⟨.usedList, ⟨trivial, used⟩, fun other there =>
      unique .usedList other trivial there.1 used there.2⟩
  · have inside := (consistent.sound.idle cached free).inside
    have here : cached ∈ cache.on (.freeList cached.dataFactory) :=
      List.mem_filter.mpr ⟨free, by simp⟩
    exact ⟨.freeList cached.dataFactory, ⟨inside, here⟩, fun other there =>
      unique (.freeList cached.dataFactory) other inside there.1 here there.2⟩

theorem named (consistent : factory.Consistent cache) {address : Nat} (mine : address ∈ factory.out) :
    ∃ cached before behind free, cache = ⟨before ++ cached :: behind, free⟩ ∧
      cached.address = address ∧ cached ∈ cache.all ∧ factory.pools address = some cached := by
  rw [consistent.counts.out] at mine
  obtain ⟨cached, used, rfl⟩ := List.mem_map.mp mine
  have listed : cached ∈ cache.all := List.mem_append_left _ used
  obtain ⟨before, behind, split⟩ := List.append_of_mem used
  exact ⟨cached, before, behind, cache.free, by rw [← split], rfl, listed,
    (consistent.shown.pools _ _).mpr ⟨listed, rfl⟩⟩

end Factory.Consistent

theorem defaultBlockAlloc_keeps (factory : Factory) (size : Nat) (memory : Option Nat) :
    ∃ usedSize peakUsedSize held, defaultBlockAlloc factory size memory =
      { factory with
        cp := { factory.cp with usedSize := usedSize, peakUsedSize := peakUsedSize }
        held := held } := by
  cases memory with
  | none => exact ⟨_, _, factory.held, rfl⟩
  | some address => exact ⟨_, _, _, rfl⟩

theorem blockAllocs_keeps (factory : Factory) (asked memory : Option Nat) :
    ∃ usedSize peakUsedSize held, blockAllocs factory asked memory =
      { factory with
        cp := { factory.cp with usedSize := usedSize, peakUsedSize := peakUsedSize }
        held := held } := by
  cases asked with
  | none => exact ⟨_, _, factory.held, rfl⟩
  | some size => exact defaultBlockAlloc_keeps factory size memory

namespace CachedPool.Fits

variable {cached : CachedPool} {initialSize : Nat}

theorem perform {factory : Factory} (fits : cached.Fits initialSize)
    (held : ∀ region ∈ cached.pool.obtained, region ∈ factory.held) {request : Request}
    {pool : MdlPool} {p : Option Nat} (performed : request.perform cached.pool = some (pool, p))
    (offered : ∀ asked ∈ request.asked cached.pool, factory.Offers asked request.memory) :
    CachedPool.Fits { cached with pool := pool } initialSize := by
  refine ⟨fits.framed.perform performed ?_ ?_, fits.classed⟩
  · intro asked isAsked address given
    exact (offered asked isAsked address given).1
  · intro asked isAsked address given frame here
    obtain ⟨region, its, within⟩ := fits.framed.frame_within here
    have apart := (offered asked isAsked address given).2 region (held region its)
    exact apart.mono ⟨Nat.le_refl _, Nat.le_refl _⟩ within

end CachedPool.Fits

theorem Factory.Accounts.perform {factory : Factory} {cache rest next : Cache}
    {cached : CachedPool} {initialSize : Nat} (accounts : factory.Accounts cache)
    (fits : cached.Fits initialSize) {request : Request} {pool : MdlPool} {p : Option Nat}
    (split : cache.all.Perm (cached :: rest.all))
    (joined : next.all.Perm ({ cached with pool := pool } :: rest.all))
    (performed : request.perform cached.pool = some (pool, p))
    (offered : ∀ asked ∈ request.asked cached.pool, factory.Offers asked request.memory) :
    (blockAllocs factory (request.asked cached.pool) request.memory).Accounts next := by
  have parts := Cache.obtained_perm split
  have after := Cache.obtained_perm joined
  rw [Request.perform_eq] at performed
  obtain ⟨sameAddress, -, growth⟩ := mdlPoolAlloc_growth performed
  cases growth with
  | kept _ frames unasked =>
      have same : pool.obtained = cached.pool.obtained := by
        rw [MdlPool.obtained, MdlPool.obtained, frames, sameAddress]
      rw [show ({ cached with pool := pool } : CachedPool).pool.obtained = cached.pool.obtained
        from same] at after
      exact (accounts.unanswered unasked).congr (after.trans parts.symm) rfl rfl rfl
  | grown asked address isAsked given _ frames =>
      have isAsked' : request.asked cached.pool = some asked := isAsked
      have offer := offered asked isAsked'
      rw [given] at offer
      have bounded := (offer address rfl).1
      have extent : (newBlock address ((address + asked) % sizeSpace)).frame.extent =
          ⟨address, asked⟩ := by
        rw [Nat.mod_eq_of_lt bounded]
        simp [MdlPoolBlock.frame, newBlock, Frame.extent]
      have grown := fits.framed.obtained_grown sameAddress frames
      rw [extent] at grown
      rw [show ({ cached with pool := pool } : CachedPool).pool.obtained =
        ⟨address, asked⟩ :: cached.pool.obtained from grown] at after
      rw [isAsked', given]
      exact accounts.gain offer (after.trans (parts.symm.cons _))

namespace Factory.Consistent

variable {factory : Factory} {cache : Cache}

/-- A request returns, or fails an assertion of `pool.c` before anything is
changed. -/
theorem poolAlloc (consistent : factory.Consistent cache) {address : Nat} {request : Request}
    (mine : address ∈ factory.out)
    (offered : ∀ cached ∈ factory.pools address, ∀ asked ∈ request.asked cached.pool,
      factory.Offers asked request.memory) :
    ∃ next, (poolAlloc factory address request).Consistent next ∧
      ((poolAlloc factory address request).stopped = factory.stopped ∨
        (poolAlloc factory address request).stopped = some .poolAssertion) := by
  obtain ⟨cached, before, behind, free, rfl, rfl, listed, found⟩ := consistent.named mine
  obtain ⟨initialSize, fits⟩ := consistent.sound.fits cached listed
  have offers := offered cached found
  unfold Pool.poolAlloc
  simp only [found]
  cases performed : request.perform cached.pool with
  | none => exact ⟨_, consistent.stop .poolAssertion, .inr rfl⟩
  | some result =>
      obtain ⟨pool, p⟩ := result
      have after := fits.perform (fun _ its => consistent.accounts.mem_held listed its) performed
        offers
      have accounts := consistent.accounts.perform fits
        (Cache.perm_used before behind free cached) (Cache.perm_used before behind free _)
        performed offers
      obtain ⟨usedSize, peakUsedSize, heldAfter, equal⟩ :=
        blockAllocs_keeps factory (request.asked cached.pool) request.memory
      have sameAddress : pool.address = cached.address := by
        rw [Request.perform_eq] at performed
        exact (mdlPoolAlloc_growth performed).1
      refine ⟨⟨before ++ { cached with pool := pool } :: behind, free⟩, ⟨?_, ?_, ?_, ?_⟩, .inl ?_⟩
      · refine consistent.shown.change sameAddress (by rw [equal]; rfl) ?_
        rw [equal, show CachedPool.address { cached with pool := pool } = cached.address
          from sameAddress]
        rfl
      · refine ⟨fun other listed => ?_, consistent.sound.idle⟩
        rcases List.mem_cons.mp ((Cache.perm_used before behind free _).mem_iff.mp listed) with
          rfl | old
        · exact ⟨initialSize, after⟩
        · exact consistent.sound.fits other
            ((Cache.perm_used before behind free cached).mem_iff.mpr (List.mem_cons_of_mem _ old))
      · exact accounts.congr (List.Perm.refl _) rfl rfl rfl
      · rw [equal]
        refine ⟨?_, consistent.counts.capacity, consistent.counts.within, ?_⟩
        · simpa [Factory.setPool] using consistent.counts.usedCount
        · have out := consistent.counts.out
          simp only [List.map_append, List.map_cons] at out ⊢
          rw [show CachedPool.address { cached with pool := pool } = cached.address
            from sameAddress]
          exact out
      · rw [equal]
        rfl

end Factory.Consistent

/-- The waiting pools have just the memory that their capacities say. -/
theorem capacity_idle {pools : List CachedPool} (idle : ∀ cached ∈ pools, cached.Idle) :
    (pools.map (·.pool.capacity)).sum =
      ((pools.flatMap (·.pool.obtained)).map Region.size).sum := by
  induction pools with
  | nil => rfl
  | cons cached rest inductionHypothesis =>
      have here := idle cached List.mem_cons_self
      have capacity : cached.pool.capacity = poolSize cached.dataFactory :=
        congrArg MdlPool.capacity here.empty
      simp only [List.map_cons, List.sum_cons, List.flatMap_cons, List.map_append, List.sum_append,
        here.obtained, capacity, List.map_nil, List.sum_nil, Nat.add_zero]
      rw [inductionHypothesis fun other listed => idle other (List.mem_cons_of_mem _ listed)]

theorem not_held_inside {regions : List Region} {address size offset : Nat}
    (apart : regions.Pairwise Region.Apart) (whole : ⟨address, size⟩ ∈ regions)
    (positive : 0 < offset) (inside : offset < size) :
    (⟨address + offset, size - offset⟩ : Region) ∉ regions := by
  intro again
  have : Std.Symm Region.Apart := ⟨fun _ _ apart => apart.symm⟩
  have separate := apart.forall whole again (by
    intro same
    have addresses := congrArg Region.address same
    dsimp only at addresses
    omega)
  simp only [Region.Apart, Region.stop] at separate
  omega

section Release

variable {factory : Factory} {before behind free : List CachedPool} {cached : CachedPool}
  {initialSize : Nat} {links : PoolNode → Option (LinkPair PoolNode)}

theorem counts_takeBack
    (consistent : factory.Consistent ⟨before ++ cached :: behind, free⟩) :
    (takeBack factory links cached.address).Counts ⟨before ++ behind, free⟩ := by
  have usedCount := consistent.counts.usedCount
  have out := consistent.counts.out
  have distinct : ((before ++ cached :: behind).map CachedPool.address).Nodup := by
    have distinct := consistent.shown.distinct
    simp only [Cache.addresses, Cache.all, List.map_append] at distinct ⊢
    exact (List.nodup_append.mp distinct).1
  simp only [List.map_append, List.map_cons] at out distinct
  simp only [List.length_append, List.length_cons] at usedCount
  refine ⟨?_, consistent.counts.capacity, consistent.counts.within, ?_⟩
  · simp only [takeBack, usedCount, List.length_append]
    rw [if_neg (by omega)]
    omega
  · simp only [takeBack, out, List.map_append]
    exact erase_middle distinct

theorem consistent_destroyed (consistent : factory.Consistent ⟨before ++ cached :: behind, free⟩)
    (fits : cached.Fits initialSize) (single : cached.pool.blockHeadList.length = 1)
    (shown : ShowsBut links factory.pools ⟨before ++ behind, free⟩ cached.address) :
    (destroyPool (takeBack factory links cached.address) cached).Consistent
        ⟨before ++ behind, free⟩ ∧
      (destroyPool (takeBack factory links cached.address) cached).stopped = factory.stopped := by
  have split := Cache.perm_used before behind free cached
  have sound := consistent.sound.without split fun _ listed => listed
  have obtained := fits.framed.obtained_single single
  have counts := @counts_takeBack factory before behind free cached links consistent
  have parts := Cache.obtained_perm split
  rw [obtained] at parts
  have accounts : (takeBack factory links cached.address).Accounts ⟨before ++ cached :: behind, free⟩ :=
    consistent.accounts.congr (List.Perm.refl _) rfl rfl rfl
  have destroyed : destroyPool (takeBack factory links cached.address) cached =
      defaultBlockFree (takeBack factory links cached.address) ⟨cached.address, initialSize⟩ := by
    simp only [destroyPool, fits.framed.destroy_single single, blockFrees, List.foldl_cons,
      List.foldl_nil]
    rfl
  rw [destroyed]
  refine ⟨⟨?_, sound, accounts.lose parts, ?_⟩, rfl⟩
  · apply @ShowsBut.drop _ _ _ _ shown (takeBack factory links cached.address) rfl rfl
    · exact fits.framed.covers
    · exact consistent.accounts.not_covers split sound (obtained ▸ List.mem_singleton_self _)
  · exact ⟨counts.usedCount, counts.capacity, counts.within, counts.out⟩

/-- A released pool and the waiting ones have no more capacity than there are
addresses. -/
theorem capacity_lt (consistent : factory.Consistent ⟨before ++ cached :: behind, free⟩)
    (fits : cached.Fits initialSize) (single : cached.pool.blockHeadList.length = 1) :
    factory.cp.capacity + initialSize < sizeSpace := by
  have parts := Cache.obtained_perm (Cache.perm_used before behind free cached)
  have total := consistent.accounts.obtained_lt
  rw [(parts.map Region.size).sum_eq, fits.framed.obtained_single single] at total
  have waiting := capacity_idle consistent.sound.idle
  have capacity := consistent.counts.capacity
  dsimp only at waiting capacity
  simp only [Cache.obtained, Cache.all, List.flatMap_append, List.map_append, List.sum_append,
    List.map_cons, List.sum_cons, List.map_nil, List.sum_nil] at total
  omega

theorem consistent_recycled (consistent : factory.Consistent ⟨before ++ cached :: behind, free⟩)
    (fits : cached.Fits initialSize) (single : cached.pool.blockHeadList.length = 1)
    (shown : ShowsBut links factory.pools ⟨before ++ behind, free⟩ cached.address)
    (small : initialSize ≤ poolSize (cachingPoolArraySize - 1))
    (room : (factory.cp.capacity + initialSize) % sizeSpace ≤ factory.cp.maxCapacity) :
    (recycle (takeBack factory links cached.address) cached).Consistent
        ⟨before ++ behind,
          ⟨freshPool cached.address initialSize cached.pool.incrementSize, cached.dataFactory⟩ ::
            free⟩ ∧
      (recycle (takeBack factory links cached.address) cached).stopped = factory.stopped := by
  have split := Cache.perm_used before behind free cached
  have sound := consistent.sound.without split fun _ listed => listed
  have counts := @counts_takeBack factory before behind free cached links consistent
  have total := capacity_lt consistent fits single
  obtain ⟨inside, size⟩ : cached.dataFactory < cachingPoolArraySize ∧
      initialSize = poolSize cached.dataFactory := by
    rcases fits.classed with classed | ⟨-, large⟩
    · exact classed
    · exact absurd small (Nat.not_le_of_lt large)
  have narrow : cached.dataFactory % 2 ^ 32 = cached.dataFactory :=
    Nat.mod_eq_of_lt (Nat.lt_trans inside (by decide))
  obtain ⟨changed, added, joins⟩ := @ShowsBut.free _ _ ⟨before ++ behind, free⟩
    ⟨freshPool cached.address initialSize cached.pool.incrementSize, cached.dataFactory⟩ shown inside
  have recycled : recycle (takeBack factory links cached.address) cached =
      { takeBack factory links cached.address with
        cp := { (takeBack factory links cached.address).cp with
          capacity := (factory.cp.capacity + initialSize) % sizeSpace }
        links := changed
        pools := Function.update factory.pools cached.address
          (some ⟨freshPool cached.address initialSize cached.pool.incrementSize,
            cached.dataFactory⟩) } := by
    have added' : listAdd links cached.node (.freeList cached.dataFactory) = some changed := added
    simp only [recycle, mdlPoolReset, fits.framed.reset_single single, blockFrees, List.foldl_nil,
      narrow, if_pos inside, takeBack, added']
    rfl
  rw [recycled]
  have joined := Cache.perm_free (before ++ behind) [] free
    ⟨freshPool cached.address initialSize cached.pool.incrementSize, cached.dataFactory⟩
  refine ⟨⟨joins _ rfl rfl, ⟨fun other listed => ?_, fun other listed => ?_⟩, ?_, ?_⟩, rfl⟩
  · rcases List.mem_cons.mp (joined.mem_iff.mp listed) with rfl | old
    · exact ⟨initialSize, framed_fresh _ fits.framed.large fits.framed.bounded, fits.classed⟩
    · exact sound.fits other old
  · rcases List.mem_cons.mp listed with rfl | old
    · exact ⟨inside, by rw [size]; rfl⟩
    · exact sound.idle other old
  · have parts := Cache.obtained_perm split
    rw [fits.framed.obtained_single single] at parts
    have after := Cache.obtained_perm joined
    rw [obtained_freshPool] at after
    exact consistent.accounts.congr (after.trans parts.symm) rfl rfl rfl
  · refine ⟨counts.usedCount, ?_, room, counts.out⟩
    have capacity := consistent.counts.capacity
    dsimp only at capacity ⊢
    rw [Nat.mod_eq_of_lt total, List.map_cons, List.sum_cons, ← capacity, Nat.add_comm]
    rfl

/-- The release of an expanded pool calls `block_free` for memory that is not
held on its own, and does not return. -/
theorem release_expanded (consistent : factory.Consistent ⟨before ++ cached :: behind, free⟩)
    (fits : cached.Fits initialSize) (expanded : cached.pool.blockHeadList.length ≠ 1)
    (found : factory.pools cached.address = some cached) :
    (cpoolReleasePool factory cached.address).stopped = some .fault ∧
      (cpoolReleasePool factory cached.address).astray =
        [⟨cached.address + sizeofPool, initialSize - sizeofPool⟩] := by
  obtain ⟨links, deleted, -⟩ := consistent.shown.unuse
  have large := fits.framed.large
  have whole : ⟨cached.address, initialSize⟩ ∈ factory.held :=
    consistent.accounts.mem_held (by simp [Cache.all]) fits.framed.mem_obtained
  have notHeld := @not_held_inside _ cached.address initialSize sizeofPool
    consistent.accounts.apart whole (by decide)
      (Nat.lt_of_lt_of_le (by decide) large)
  have removed : listDel factory.links (.pool cached.address) = some links := deleted
  have freed : (defaultBlockFree (takeBack factory links cached.address)
      ⟨cached.address + sizeofPool, initialSize - sizeofPool⟩).astray =
        [⟨cached.address + sizeofPool, initialSize - sizeofPool⟩] := by
    simp only [defaultBlockFree, takeBack, if_neg notHeld, consistent.accounts.astray,
      List.nil_append]
  simp only [cpoolReleasePool, found, removed]
  split
  · simp only [destroyPool, fits.framed.destroy_expanded expanded, blockFrees, List.foldl_cons,
      List.foldl_nil]
    exact ⟨rfl, freed⟩
  · simp only [recycle, mdlPoolReset, fits.framed.reset_expanded expanded, blockFrees,
      List.foldl_cons, List.foldl_nil]
    exact ⟨rfl, freed⟩

theorem release_single (consistent : factory.Consistent ⟨before ++ cached :: behind, free⟩)
    (fits : cached.Fits initialSize) (single : cached.pool.blockHeadList.length = 1)
    (found : factory.pools cached.address = some cached) :
    ∃ next, (cpoolReleasePool factory cached.address).Consistent next ∧
      (cpoolReleasePool factory cached.address).stopped = factory.stopped := by
  obtain ⟨links, deleted, shown⟩ := consistent.shown.unuse
  have removed : listDel factory.links (.pool cached.address) = some links := deleted
  have capacity : cached.pool.capacity = initialSize :=
    fits.framed.unexpanded (by rw [MdlPool.frames, List.length_map, single])
  simp only [cpoolReleasePool, found, removed, capacity]
  split
  · exact ⟨_, consistent_destroyed consistent fits single shown⟩
  · next kept =>
    obtain ⟨small, room⟩ := not_or.mp kept
    exact ⟨_, consistent_recycled consistent fits single shown (Nat.le_of_not_lt small)
      (Nat.le_of_not_lt room)⟩

end Release

section Limit

variable (factory : Factory)

theorem maxCapacity_blockFrees (freed : List Region) :
    (blockFrees factory freed).cp.maxCapacity = factory.cp.maxCapacity := by
  induction freed generalizing factory with
  | nil => rfl
  | cons region rest inductionHypothesis => exact inductionHypothesis (defaultBlockFree factory region)

theorem maxCapacity_blockAllocs (asked memory : Option Nat) :
    (blockAllocs factory asked memory).cp.maxCapacity = factory.cp.maxCapacity := by
  obtain ⟨usedSize, peakUsedSize, held, equal⟩ := blockAllocs_keeps factory asked memory
  rw [equal]

theorem maxCapacity_handOut (cached : CachedPool) (idx : Nat) :
    (handOut factory cached idx).1.cp.maxCapacity = factory.cp.maxCapacity := by
  unfold handOut
  split
  · rfl
  · rfl

theorem maxCapacity_create (initialSize incrementSize : Nat) (memory : Option Nat) :
    (cpoolCreatePool factory initialSize incrementSize memory).1.cp.maxCapacity =
      factory.cp.maxCapacity := by
  unfold cpoolCreatePool
  dsimp only
  split
  · unfold createNew
    split
    · rfl
    · exact maxCapacity_blockAllocs factory (some _) memory
    · dsimp only
      rw [maxCapacity_handOut]
      exact maxCapacity_blockAllocs factory (some _) memory
  · unfold reuse
    split
    · split
      · dsimp only
        rw [maxCapacity_handOut]
      · rfl
    · rfl

theorem maxCapacity_release (address : Nat) :
    (cpoolReleasePool factory address).cp.maxCapacity = factory.cp.maxCapacity := by
  have destroyed : ∀ (factory : Factory) cached,
      (destroyPool factory cached).cp.maxCapacity = factory.cp.maxCapacity := by
    intro factory cached
    unfold destroyPool
    split
    all_goals exact maxCapacity_blockFrees factory _
  have recycled : ∀ (factory : Factory) cached,
      (recycle factory cached).cp.maxCapacity = factory.cp.maxCapacity := by
    intro factory cached
    unfold recycle
    split
    · exact maxCapacity_blockFrees factory _
    · exact maxCapacity_blockFrees factory _
    · dsimp only
      split
      · split
        all_goals exact maxCapacity_blockFrees factory _
      · exact maxCapacity_blockFrees factory _
  unfold cpoolReleasePool
  split
  · dsimp only
    split
    · exact destroyed _ _
    · exact recycled _ _
  · rfl

theorem maxCapacity_poolAlloc (address : Nat) (request : Request) :
    (poolAlloc factory address request).cp.maxCapacity = factory.cp.maxCapacity := by
  unfold poolAlloc
  split
  · rfl
  · split
    · rfl
    · exact maxCapacity_blockAllocs factory _ _

end Limit

namespace Factory

/-- A pool that is released has one block. -/
def Single (factory : Factory) : Operation → Prop
  | .releasePool pool => ∀ cached ∈ factory.pools pool, cached.pool.blockHeadList.length = 1
  | _ => True

instance (factory : Factory) : (operation : Operation) → Decidable (factory.Single operation)
  | .releasePool pool => inferInstanceAs (Decidable
      (∀ cached ∈ factory.pools pool, cached.pool.blockHeadList.length = 1))
  | .createPool _ _ _ => .isTrue trivial
  | .alloc _ _ => .isTrue trivial

theorem step_eq {factory next : Factory} {operation : Operation}
    (stepped : factory.step operation = some next) :
    factory.stopped = none ∧ factory.Allowed operation ∧ next = factory.perform operation := by
  unfold step at stepped
  split at stepped
  · next allowed => exact ⟨allowed.1, allowed.2, (Option.some.inj stepped).symm⟩
  · cases stepped

/-- An operation keeps the factory consistent, up to a failed assertion of
`pool.c`, unless it releases an expanded pool. -/
theorem Consistent.step {factory next : Factory} {cache : Cache} {operation : Operation}
    (consistent : factory.Consistent cache) (stepped : factory.step operation = some next) :
    (factory.Single operation ∧ (∃ after, next.Consistent after) ∧
      (next.stopped = none ∨ next.stopped = some .poolAssertion)) ∨
    (¬ factory.Single operation ∧ next.stopped = some .fault ∧ next.astray ≠ []) := by
  obtain ⟨running, allowed, rfl⟩ := step_eq stepped
  cases operation with
  | createPool initialSize incrementSize memory =>
      obtain ⟨after, result, kept, created, going, consistent, -⟩ :=
        consistent.createPool incrementSize allowed
      have equal : factory.perform (.createPool initialSize incrementSize memory) = after :=
        congrArg Prod.fst created
      rw [equal]
      exact .inl ⟨trivial, ⟨kept, consistent⟩, .inl (going.trans running)⟩
  | alloc pool request =>
      obtain ⟨after, kept, going⟩ := consistent.poolAlloc allowed.1 allowed.2
      rw [running] at going
      exact .inl ⟨trivial, ⟨after, kept⟩, going⟩
  | releasePool pool =>
      obtain ⟨cached, before, behind, free, rfl, rfl, listed, found⟩ := consistent.named allowed
      obtain ⟨initialSize, fits⟩ := consistent.sound.fits cached listed
      by_cases single : cached.pool.blockHeadList.length = 1
      · obtain ⟨after, kept, going⟩ := release_single consistent fits single found
        refine .inl ⟨fun other same => ?_, ⟨after, kept⟩, .inl (going.trans running)⟩
        obtain rfl := Option.some.inj (found.symm.trans same)
        exact single
      · obtain ⟨stopped, astray⟩ := release_expanded consistent fits single found
        refine .inr ⟨fun every => single (every cached found), stopped, ?_⟩
        have equal : (factory.perform (.releasePool cached.address)).astray =
            [⟨cached.address + sizeofPool, initialSize - sizeofPool⟩] := astray
        rw [equal]
        exact List.cons_ne_nil _ _

end Factory

/-- A factory that has not stopped is consistent; none stops at the assertion of
`cpool_release_pool`. -/
theorem reached_consistent {maxCapacity : Nat} {operations : List Operation} {factory : Factory}
    (ran : Transition.run Factory.step (mdlCachingPoolInit maxCapacity) operations = some factory) :
    (factory.stopped = none → ∃ cache, factory.Consistent cache) ∧
      factory.stopped ≠ some .classAssertion := by
  refine @Transition.run_invariant _ _ Factory.step (fun factory =>
    (factory.stopped = none → ∃ cache, factory.Consistent cache) ∧
      factory.stopped ≠ some .classAssertion) ?_ _ _ _
    ⟨fun _ => ⟨_, consistent_init maxCapacity⟩, by simp [mdlCachingPoolInit]⟩ ran
  rintro before operation after ⟨consistent, -⟩ stepped
  obtain ⟨cache, consistent⟩ := consistent (Factory.step_eq stepped).1
  rcases consistent.step stepped with ⟨-, kept, stopped | stopped⟩ | ⟨-, stopped, -⟩
  · exact ⟨fun _ => kept, by simp [stopped]⟩
  · exact ⟨fun _ => kept, by simp [stopped]⟩
  · exact ⟨fun running => by simp [stopped] at running, by simp [stopped]⟩

theorem maxCapacity_reached {maxCapacity : Nat} {operations : List Operation} {factory : Factory}
    (ran : Transition.run Factory.step (mdlCachingPoolInit maxCapacity) operations = some factory) :
    factory.cp.maxCapacity = maxCapacity := by
  refine @Transition.run_invariant _ _ Factory.step
    (fun factory => factory.cp.maxCapacity = maxCapacity) ?_ _ _ _ rfl ran
  rintro before operation after limit stepped
  obtain ⟨-, -, rfl⟩ := Factory.step_eq stepped
  rw [← limit]
  cases operation with
  | createPool => exact maxCapacity_create before _ _ _
  | alloc => exact maxCapacity_poolAlloc before _ _
  | releasePool => exact maxCapacity_release before _

end UtilsModules.Pool

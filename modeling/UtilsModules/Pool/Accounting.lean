import Mathlib.Algebra.BigOperators.Group.Finset.Piecewise
import UtilsModules.Pool.Factory

/-!
The factory over whole runs: its lists and numbers, and its account of memory.
-/

namespace UtilsModules.Pool

open Linked

namespace Factory

/-- What is to be seen of the lists and the numbers of a factory. -/
structure WellKept (factory : Factory) (cache : Cache) : Prop where
  rings : Rings factory.links IsHead cache.nodes
  inMemory : ∀ head, IsHead head → ∀ cached ∈ cache.on head,
    factory.pools cached.address = some cached
  onOneList : ∀ address cached, factory.pools address = some cached →
    ∃! head, IsHead head ∧ cached ∈ cache.on head
  usedCount : factory.cp.usedCount = (cache.on .usedList).length
  capacity : factory.cp.capacity = ∑ i ∈ Finset.range cachingPoolArraySize,
    ((cache.on (.freeList i)).map (·.pool.capacity)).sum
  within : factory.cp.capacity ≤ factory.cp.maxCapacity
  idle : ∀ i < cachingPoolArraySize, ∀ cached ∈ cache.on (.freeList i),
    cached.pool.capacity = poolSize i ∧ ∃ block, cached.pool.blockHeadList = [block] ∧
      block.current = alignPtr block.start poolAlignment

/-- `create_pool` returns, with `NULL` only if there is no memory; a pool it
returns has the size of the first class that is large enough, or the size asked
for above all classes. -/
def Serves (factory : Factory) : Prop :=
  ∀ initialSize incrementSize memory, factory.Offers (createSize initialSize) memory →
    ∃ after result, cpoolCreatePool factory initialSize incrementSize memory = (after, result) ∧
      after.stopped = none ∧ (result = none → memory = none) ∧
      ∀ address ∈ result, ∃ cached, after.pools address = some cached ∧
        initialSize ≤ cached.pool.capacity ∧
        ((∃ i < cachingPoolArraySize, (∀ j < i, poolSize j < initialSize) ∧
            initialSize ≤ poolSize i ∧ cached.pool.capacity = poolSize i) ∨
          (∀ i < cachingPoolArraySize, poolSize i < initialSize) ∧
            cached.pool.capacity = initialSize)

theorem sum_by_class {pools : List CachedPool} {bound : Nat}
    (inside : ∀ cached ∈ pools, cached.dataFactory < bound) (weight : CachedPool → Nat) :
    ∑ i ∈ Finset.range bound, ((pools.filter (·.dataFactory = i)).map weight).sum =
      (pools.map weight).sum := by
  induction pools with
  | nil => simp
  | cons cached rest inductionHypothesis =>
      have later := inductionHypothesis fun other listed => inside other (List.mem_cons_of_mem _ listed)
      have here := Finset.mem_range.mpr (inside cached List.mem_cons_self)
      have each : ∀ i, (((cached :: rest).filter (·.dataFactory = i)).map weight).sum =
          (if cached.dataFactory = i then weight cached else 0) +
            ((rest.filter (·.dataFactory = i)).map weight).sum := by
        intro i
        by_cases same : cached.dataFactory = i
        · simp [same]
        · simp [same]
      simp only [each]
      rw [Finset.sum_add_distrib, Finset.sum_ite_eq, if_pos here, later, List.map_cons,
        List.sum_cons]

theorem Consistent.wellKept {factory : Factory} {cache : Cache}
    (consistent : factory.Consistent cache) : factory.WellKept cache where
  rings := consistent.shown.rings
  inMemory := fun head _ cached listed =>
    (consistent.shown.pools _ _).mpr ⟨Cache.mem_all_of_mem_on listed, rfl⟩
  onOneList := fun address cached found =>
    consistent.onOneList ((consistent.shown.pools address cached).mp found).1
  usedCount := consistent.counts.usedCount
  capacity := by
    rw [consistent.counts.capacity]
    exact (sum_by_class (fun cached listed => (consistent.sound.idle cached listed).inside) _).symm
  within := consistent.counts.within
  idle := by
    intro i inside cached listed
    obtain ⟨free, classed⟩ := List.mem_filter.mp listed
    obtain rfl : cached.dataFactory = i := by simpa using classed
    rw [(consistent.sound.idle cached free).empty]
    exact ⟨rfl, _, rfl, rfl⟩

theorem Consistent.serves {factory : Factory} {cache : Cache}
    (consistent : factory.Consistent cache) (running : factory.stopped = none) :
    factory.Serves := by
  intro initialSize incrementSize memory offered
  obtain ⟨after, result, -, created, going, -, refused, returned⟩ :=
    consistent.createPool incrementSize offered
  obtain ⟨below, short, enough⟩ := sizeClass_spec initialSize
  refine ⟨after, result, created, going.trans running, refused, fun address given => ?_⟩
  refine ⟨_, returned address given, (createSize_spec initialSize).1, ?_⟩
  rcases Nat.lt_or_eq_of_le below with inside | same
  · refine .inl ⟨sizeClass initialSize, inside, short, enough inside, ?_⟩
    simp only [freshPool, createSize, if_pos inside]
  · refine .inr ⟨fun i inside => short i (same ▸ inside), ?_⟩
    have outside : ¬ sizeClass initialSize < cachingPoolArraySize := by omega
    simp only [freshPool, createSize, if_neg outside]

end Factory

/-- After every run of operations that has come to its end, the lists and the
numbers of the factory are right, and `create_pool` serves; no run fails the
assertion of `cpool_release_pool`. -/
theorem caching_factory_consistent {maxCapacity : Nat} {operations : List Operation}
    {factory : Factory}
    (ran : Transition.run Factory.step (mdlCachingPoolInit maxCapacity) operations = some factory) :
    factory.stopped ≠ some .classAssertion ∧ factory.cp.maxCapacity = maxCapacity ∧
      (factory.stopped = none → (∃ cache, factory.WellKept cache) ∧ factory.Serves) := by
  obtain ⟨consistent, never⟩ := reached_consistent ran
  refine ⟨never, maxCapacity_reached ran, fun running => ?_⟩
  obtain ⟨cache, consistent⟩ := consistent running
  exact ⟨⟨cache, consistent.wellKept⟩, consistent.serves running⟩

/-- A pool that is used, released and used again for a larger request, and a
pool above all classes that is destroyed. -/
theorem caching_factory_consistent_reused :
    ∃ factory, Transition.run Factory.step (mdlCachingPoolInit 100000)
        [.createPool 100 512 (some 4096), .alloc 4096 (.alloc 50 none), .releasePool 4096,
          .createPool 200 0 none, .createPool 70000 0 (some 100000), .releasePool 100000] =
          some factory ∧
      (∃ cache, factory.WellKept cache) ∧ factory.Serves := by
  have running : (Transition.run Factory.step (mdlCachingPoolInit 100000)
      [.createPool 100 512 (some 4096), .alloc 4096 (.alloc 50 none), .releasePool 4096,
        .createPool 200 0 none, .createPool 70000 0 (some 100000), .releasePool 100000]).map
        Factory.stopped = some none := by
    decide +kernel
  obtain ⟨factory, ran, going⟩ := Option.map_eq_some_iff.mp running
  exact ⟨factory, ran, (caching_factory_consistent ran).2.2 going⟩

/-- Every call of `block_free` has given back a block that was held, as it had
been obtained; what is held is what the pools on the lists have, and `used_size`
is its size. -/
def Factory.Balanced (factory : Factory) : Prop :=
  factory.astray = [] ∧ ∃ cache, factory.Shows cache ∧ factory.held.Perm cache.obtained ∧
    factory.cp.usedSize = (cache.obtained.map Region.size).sum

theorem Factory.Consistent.balanced {factory : Factory} {cache : Cache}
    (consistent : factory.Consistent cache) : factory.Balanced := by
  refine ⟨consistent.accounts.astray, cache, consistent.shown, consistent.accounts.held, ?_⟩
  rw [consistent.accounts.usedSize]
  exact (consistent.accounts.held.map Region.size).sum_eq

/-- Along every run, the account is right in all states exactly if only pools
with one block are released. -/
theorem used_size_exact_iff_single {maxCapacity : Nat} {operations : List Operation}
    {factory : Factory}
    (ran : Transition.run Factory.step (mdlCachingPoolInit maxCapacity) operations = some factory) :
    Transition.Guarded Factory.step Factory.Single (mdlCachingPoolInit maxCapacity) operations ↔
      ∀ count middle, Transition.run Factory.step (mdlCachingPoolInit maxCapacity)
        (operations.take count) = some middle → middle.Balanced := by
  apply @Transition.guarded_iff_of_visible _ _ Factory.step Factory.Single
    (fun factory => ∃ cache, factory.Consistent cache) Factory.Balanced
  · rintro before operation after ⟨cache, consistent⟩ stepped
    rcases consistent.step stepped with ⟨single, ⟨next, kept⟩, -⟩ | ⟨expanded, -, astray⟩
    · exact ⟨fun _ => kept.balanced, fun _ => single⟩
    · exact ⟨fun single => absurd single expanded, fun balanced => absurd balanced.1 astray⟩
  · rintro before operation after ⟨cache, consistent⟩ single stepped
    rcases consistent.step stepped with ⟨-, kept, -⟩ | ⟨expanded, -⟩
    · exact kept
    · exact absurd single expanded
  · rintro factory ⟨cache, consistent⟩
    exact consistent.balanced
  · exact ⟨_, consistent_init maxCapacity⟩
  · exact ran

theorem used_size_exact_iff_single_recycled :
    ∃ factory, Transition.run Factory.step (mdlCachingPoolInit 100000)
        [.createPool 100 512 (some 4096), .alloc 4096 (.alloc 300 (some 8192)),
          .createPool 300 0 (some 12288), .releasePool 12288] = some factory ∧
      factory.cp.usedSize = 1280 ∧ factory.Balanced := by
  have view : (Transition.run Factory.step (mdlCachingPoolInit 100000)
      [.createPool 100 512 (some 4096), .alloc 4096 (.alloc 300 (some 8192)),
        .createPool 300 0 (some 12288), .releasePool 12288]).map (·.cp.usedSize) = some 1280 := by
    decide +kernel
  obtain ⟨factory, ran, usedSize⟩ := Option.map_eq_some_iff.mp view
  exact ⟨factory, ran, usedSize,
    (used_size_exact_iff_single ran).mp (by decide +kernel) 4 factory ran⟩

/-- A pool of 256 bytes gets a second block of 512 and is released: `block_free`
is called for 152 bytes inside the first block. -/
theorem release_frees_embedded_block :
    ∃ factory, Transition.run Factory.step (mdlCachingPoolInit 100000)
        [.createPool 100 512 (some 4096), .alloc 4096 (.alloc 300 (some 8192)),
          .releasePool 4096] = some factory ∧
      factory.astray = [⟨4200, 152⟩] ∧ factory.held = [⟨8192, 512⟩, ⟨4096, 256⟩] ∧
      factory.cp.usedSize = 616 ∧ ¬ factory.Balanced := by
  have view : (Transition.run Factory.step (mdlCachingPoolInit 100000)
      [.createPool 100 512 (some 4096), .alloc 4096 (.alloc 300 (some 8192)),
        .releasePool 4096]).map (fun factory => (factory.astray, factory.held, factory.cp.usedSize)) =
        some ([⟨4200, 152⟩], [⟨8192, 512⟩, ⟨4096, 256⟩], 616) := by
    decide +kernel
  obtain ⟨factory, ran, equal⟩ := Option.map_eq_some_iff.mp view
  obtain ⟨astray, rest⟩ := Prod.mk.inj equal
  obtain ⟨held, usedSize⟩ := Prod.mk.inj rest
  refine ⟨factory, ran, astray, held, usedSize, fun balanced => ?_⟩
  rw [balanced.1] at astray
  cases astray

end UtilsModules.Pool

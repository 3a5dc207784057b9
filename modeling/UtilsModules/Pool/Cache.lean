import UtilsModules.Pool.Caching

/-!
The classes of sizes, and the lists of the factory.

`Cache` is what the factory keeps: the pools in use and the pools that wait to be
used again, each of these on the list of its class.  `Shows` relates it to the
links and the pools in memory.
-/

namespace UtilsModules.Pool

open Datastruct Linked

theorem poolSize_mono : ∀ j < cachingPoolArraySize, ∀ i ≤ j, poolSize i ≤ poolSize j := by
  decide

theorem searchDown_spec (initialSize count : Nat) :
    searchDown initialSize count ≤ count ∧
      (∀ i, searchDown initialSize count ≤ i → i < count → initialSize ≤ poolSize i) ∧
      (0 < searchDown initialSize count →
        poolSize (searchDown initialSize count - 1) < initialSize) := by
  induction count with
  | zero => simp [searchDown]
  | succ idx inductionHypothesis =>
      obtain ⟨below, enough, short⟩ := inductionHypothesis
      simp only [searchDown]
      split
      · next here =>
        refine ⟨Nat.le_succ_of_le below, fun i above inside => ?_, short⟩
        rcases Nat.lt_succ_iff_lt_or_eq.mp inside with lower | rfl
        · exact enough i above lower
        · exact here
      · next here =>
        refine ⟨Nat.le_refl _, fun i above inside => ?_, fun _ => Nat.lt_of_not_le here⟩
        exact absurd above (Nat.not_le_of_lt inside)

theorem searchUp_spec (initialSize left : Nat) :
    cachingPoolArraySize - left ≤ searchUp initialSize left ∧
      searchUp initialSize left ≤ cachingPoolArraySize ∧
      (∀ i, cachingPoolArraySize - left ≤ i → i < searchUp initialSize left →
        poolSize i < initialSize) ∧
      (searchUp initialSize left < cachingPoolArraySize →
        initialSize ≤ poolSize (searchUp initialSize left)) := by
  induction left with
  | zero =>
      simp only [searchUp, Nat.sub_zero]
      exact ⟨Nat.le_refl _, Nat.le_refl _, fun i above below => by omega, by omega⟩
  | succ left inductionHypothesis =>
      obtain ⟨above, below, short, enough⟩ := inductionHypothesis
      simp only [searchUp]
      split
      · next here =>
        refine ⟨by omega, below, fun i inside stopped => ?_, enough⟩
        by_cases first : i = cachingPoolArraySize - (left + 1)
        · exact first ▸ here
        · exact short i (by omega) stopped
      · next here =>
        refine ⟨Nat.le_refl _, Nat.sub_le _ _, fun i inside stopped => ?_, fun _ => ?_⟩
        · exact absurd stopped (Nat.not_lt_of_le inside)
        · exact Nat.le_of_not_lt here

theorem sizeClass_spec (initialSize : Nat) :
    sizeClass initialSize ≤ cachingPoolArraySize ∧
      (∀ i < sizeClass initialSize, poolSize i < initialSize) ∧
      (sizeClass initialSize < cachingPoolArraySize →
        initialSize ≤ poolSize (sizeClass initialSize)) := by
  have mono := poolSize_mono
  unfold sizeClass
  split
  · next small =>
    obtain ⟨below, enough, short⟩ := searchDown_spec initialSize startSize
    set idx := searchDown initialSize startSize
    have inside : idx < cachingPoolArraySize := Nat.lt_of_le_of_lt below (by decide)
    refine ⟨Nat.le_of_lt inside, fun i lower => ?_, fun _ => ?_⟩
    · calc poolSize i ≤ poolSize (idx - 1) := mono (idx - 1) (by omega) i (by omega)
        _ < initialSize := short (by omega)
    · rcases Nat.lt_or_eq_of_le below with lower | same
      · exact enough idx (Nat.le_refl _) lower
      · rwa [same]
  · next large =>
    obtain ⟨above, below, short, enough⟩ :=
      searchUp_spec initialSize (cachingPoolArraySize - (startSize + 1))
    set idx := searchUp initialSize (cachingPoolArraySize - (startSize + 1))
    have from_ : cachingPoolArraySize - (cachingPoolArraySize - (startSize + 1)) = startSize + 1 := by
      decide
    rw [from_] at above short
    refine ⟨below, fun i lower => ?_, enough⟩
    by_cases first : i ≤ startSize
    · exact Nat.lt_of_le_of_lt (mono startSize (by decide) i first) (Nat.lt_of_not_le large)
    · exact short i (by omega) lower

theorem large_of_poolSize : ∀ i < cachingPoolArraySize,
    sizeofPool + sizeofPoolBlock ≤ poolSize i := by
  decide

/-- A pool that is created is as large as was asked for, and large enough for
its own structures. -/
theorem createSize_spec (initialSize : Nat) :
    initialSize ≤ createSize initialSize ∧
      sizeofPool + sizeofPoolBlock ≤ createSize initialSize := by
  obtain ⟨-, short, enough⟩ := sizeClass_spec initialSize
  unfold createSize
  dsimp only
  split
  · next inside => exact ⟨enough inside, large_of_poolSize _ inside⟩
  · next outside =>
    refine ⟨Nat.le_refl _, ?_⟩
    have largest : poolSize 15 < initialSize := short 15 (Nat.lt_of_lt_of_le (by decide)
      (Nat.le_of_not_lt outside))
    exact Nat.le_trans (by decide) (Nat.le_of_lt largest)

/-- The pools in use, and the pools that wait on the free lists. -/
structure Cache where
  used : List CachedPool
  free : List CachedPool

def IsHead : PoolNode → Prop
  | .usedList => True
  | .freeList i => i < cachingPoolArraySize
  | .pool _ => False

namespace Cache

def all (cache : Cache) : List CachedPool := cache.used ++ cache.free

def on (cache : Cache) : PoolNode → List CachedPool
  | .usedList => cache.used
  | .freeList i => cache.free.filter (·.dataFactory = i)
  | .pool _ => []

def nodes (cache : Cache) (head : PoolNode) : List PoolNode :=
  (cache.on head).map CachedPool.node

def addresses (cache : Cache) : List Nat := cache.all.map CachedPool.address

theorem mem_all_of_mem_on {cache : Cache} {head : PoolNode} {cached : CachedPool}
    (here : cached ∈ cache.on head) : cached ∈ cache.all := by
  cases head with
  | usedList => exact List.mem_append_left _ here
  | freeList i => exact List.mem_append_right _ (List.mem_filter.mp here).1
  | pool => cases here

theorem mem_addresses_of_mem_nodes {cache : Cache} {head : PoolNode} {address : Nat}
    (here : PoolNode.pool address ∈ cache.nodes head) : address ∈ cache.addresses := by
  obtain ⟨cached, listed, same⟩ := List.mem_map.mp here
  obtain rfl : cached.address = address := by simpa [CachedPool.node] using same
  exact List.mem_map_of_mem (mem_all_of_mem_on listed)

theorem not_mem_nodes {cache : Cache} {address : Nat} (outside : address ∉ cache.addresses)
    (head : PoolNode) : PoolNode.pool address ∉ cache.nodes head :=
  fun here => outside (mem_addresses_of_mem_nodes here)

end Cache

theorem erase_middle {α : Type} [DecidableEq α] {before behind : List α} {a : α}
    (nodup : (before ++ a :: behind).Nodup) : (before ++ a :: behind).erase a = before ++ behind := by
  rw [List.nodup_middle, List.nodup_cons, List.mem_append, not_or] at nodup
  rw [List.erase_append_right _ nodup.1.1, List.erase_cons_head]

theorem rings_use {cache : Cache} {links : PoolNode → Option (LinkPair PoolNode)}
    {cached : CachedPool} {pair : LinkPair PoolNode} (rings : Rings links IsHead cache.nodes)
    (stored : links cached.node = some pair) (outside : cached.address ∉ cache.addresses) :
    ∃ changed, listAdd links cached.node .usedList = some changed ∧
      Rings changed IsHead (Cache.nodes { cache with used := cached :: cache.used }) := by
  obtain ⟨changed, added, rings⟩ := @listAdd_rings PoolNode _ _ _ _ .usedList _ rings trivial _ stored id
    (fun head _ => Cache.not_mem_nodes outside head)
  refine ⟨changed, added, rings.congr_lists fun head isHead => ?_⟩
  cases head with
  | usedList => rfl
  | freeList i => rfl
  | pool => cases isHead

theorem rings_free {cache : Cache} {links : PoolNode → Option (LinkPair PoolNode)}
    {cached : CachedPool} {pair : LinkPair PoolNode} (rings : Rings links IsHead cache.nodes)
    (stored : links cached.node = some pair) (outside : cached.address ∉ cache.addresses)
    (inside : cached.dataFactory < cachingPoolArraySize) :
    ∃ changed, listAdd links cached.node (.freeList cached.dataFactory) = some changed ∧
      Rings changed IsHead (Cache.nodes { cache with free := cached :: cache.free }) := by
  obtain ⟨changed, added, rings⟩ := @listAdd_rings PoolNode _ _ _ _ (.freeList cached.dataFactory) _ rings
    inside _ stored id (fun head _ => Cache.not_mem_nodes outside head)
  refine ⟨changed, added, rings.congr_lists fun head isHead => ?_⟩
  cases head with
  | usedList => rfl
  | freeList i =>
      by_cases same : i = cached.dataFactory
      · subst same
        simp [Cache.nodes, Cache.on]
      · simp [Cache.nodes, Cache.on, same, Ne.symm same]
  | pool => cases isHead

theorem rings_unuse {before behind free : List CachedPool}
    {links : PoolNode → Option (LinkPair PoolNode)} {cached : CachedPool}
    (rings : Rings links IsHead (Cache.nodes ⟨before ++ cached :: behind, free⟩)) :
    ∃ changed, listDel links cached.node = some changed ∧
      changed cached.node = some ⟨none, none⟩ ∧
      Rings changed IsHead (Cache.nodes ⟨before ++ behind, free⟩) := by
  have used : Cache.nodes ⟨before ++ cached :: behind, free⟩ .usedList =
      before.map CachedPool.node ++ cached.node :: behind.map CachedPool.node := by
    simp [Cache.nodes, Cache.on]
  have nodup := rings.nodup .usedList trivial
  obtain ⟨changed, deleted, cleared, after⟩ :=
    @listDel_rings PoolNode _ _ _ _ .usedList cached.node rings trivial (by simp [used])
  refine ⟨changed, deleted, cleared, after.congr_lists fun head isHead => ?_⟩
  cases head with
  | usedList =>
      rw [Function.update_self, used, erase_middle (used ▸ nodup)]
      simp [Cache.nodes, Cache.on]
  | freeList i => rfl
  | pool => cases isHead

theorem rings_unfree {used before behind : List CachedPool}
    {links : PoolNode → Option (LinkPair PoolNode)} {cached : CachedPool}
    (rings : Rings links IsHead (Cache.nodes ⟨used, before ++ cached :: behind⟩))
    (inside : cached.dataFactory < cachingPoolArraySize) :
    ∃ changed, listDel links cached.node = some changed ∧
      changed cached.node = some ⟨none, none⟩ ∧
      Rings changed IsHead (Cache.nodes ⟨used, before ++ behind⟩) := by
  have classed : Cache.nodes ⟨used, before ++ cached :: behind⟩ (.freeList cached.dataFactory) =
      (before.filter (·.dataFactory = cached.dataFactory)).map CachedPool.node ++
        cached.node :: (behind.filter (·.dataFactory = cached.dataFactory)).map CachedPool.node := by
    simp [Cache.nodes, Cache.on]
  have nodup := rings.nodup (.freeList cached.dataFactory) inside
  obtain ⟨changed, deleted, cleared, after⟩ :=
    @listDel_rings PoolNode _ _ _ _ (.freeList cached.dataFactory) cached.node rings inside
      (by simp [classed])
  refine ⟨changed, deleted, cleared, after.congr_lists fun head isHead => ?_⟩
  cases head with
  | usedList => rfl
  | freeList i =>
      by_cases same : i = cached.dataFactory
      · subst same
        rw [Function.update_self, classed, erase_middle (classed ▸ nodup)]
        simp [Cache.nodes, Cache.on]
      · simp [Cache.nodes, Cache.on, same, Ne.symm same]
  | pool => cases isHead

theorem Cache.perm_used (before behind free : List CachedPool) (cached : CachedPool) :
    (Cache.all ⟨before ++ cached :: behind, free⟩).Perm
      (cached :: Cache.all ⟨before ++ behind, free⟩) := by
  simp only [Cache.all, List.append_assoc, List.cons_append]
  exact List.perm_middle

theorem Cache.perm_free (used before behind : List CachedPool) (cached : CachedPool) :
    (Cache.all ⟨used, before ++ cached :: behind⟩).Perm
      (cached :: Cache.all ⟨used, before ++ behind⟩) := by
  simp only [Cache.all, ← List.append_assoc]
  exact List.perm_middle

/-- The links lead through the lists of the cache, and its pools are those in
memory. -/
structure Factory.Shows (factory : Factory) (cache : Cache) : Prop where
  rings : Rings factory.links IsHead cache.nodes
  pools : ∀ address cached, factory.pools address = some cached ↔
    cached ∈ cache.all ∧ cached.address = address
  distinct : cache.addresses.Nodup

/-- The same but for one place, whose pool is on no list. -/
structure ShowsBut (links : PoolNode → Option (LinkPair PoolNode))
    (pools : Nat → Option CachedPool) (cache : Cache) (place : Nat) : Prop where
  rings : Rings links IsHead cache.nodes
  pools : ∀ address cached, address ≠ place →
    (pools address = some cached ↔ cached ∈ cache.all ∧ cached.address = address)
  distinct : cache.addresses.Nodup
  outside : place ∉ cache.addresses
  stored : ∃ pair, links (.pool place) = some pair

theorem Cache.nodes_empty (head : PoolNode) : Cache.nodes ⟨[], []⟩ head = [] := by
  cases head with
  | usedList => rfl
  | freeList => rfl
  | pool => rfl

theorem shows_init (maxCapacity : Nat) : (mdlCachingPoolInit maxCapacity).Shows ⟨[], []⟩ where
  rings := by
    refine ⟨fun head isHead => ?_, ?_, ?_, ?_⟩
    · rw [Cache.nodes_empty]
      cases head with
      | usedList => exact .nil ⟨rfl, rfl⟩
      | freeList i =>
          have inside : i < cachingPoolArraySize := isHead
          exact .nil ⟨by simp [nextOf, mdlCachingPoolInit, inside],
            by simp [prevOf, mdlCachingPoolInit, inside]⟩
      | pool => cases isHead
    · simp [Cache.nodes_empty]
    · simp [Cache.nodes_empty]
    · simp [Cache.nodes_empty]
  pools := by simp [mdlCachingPoolInit, Cache.all]
  distinct := by simp [Cache.addresses, Cache.all]

namespace Factory.Shows

variable {factory : Factory} {cache : Cache}

theorem place (shown : factory.Shows cache) {address : Nat} (outside : address ∉ cache.addresses) :
    ShowsBut (Function.update factory.links (.pool address) (some ⟨none, none⟩)) factory.pools
      cache address where
  rings := by
    refine shown.rings.congr fun node inside => Function.update_of_ne ?_ _ _
    rintro rfl
    rcases inside with isHead | ⟨head, -, listed⟩
    · exact isHead
    · exact Cache.not_mem_nodes outside head listed
  pools := fun address cached _ => shown.pools address cached
  distinct := shown.distinct
  outside := outside
  stored := ⟨_, Function.update_self ..⟩

theorem but (shown : factory.Shows cache) {rest : Cache} {cached : CachedPool}
    {links : PoolNode → Option (LinkPair PoolNode)} (split : cache.all.Perm (cached :: rest.all))
    (rings : Rings links IsHead rest.nodes) (cleared : links cached.node = some ⟨none, none⟩) :
    ShowsBut links factory.pools rest cached.address := by
  have distinct : (cached.address :: rest.addresses).Nodup :=
    ((split.map CachedPool.address).nodup_iff).mp shown.distinct
  obtain ⟨outside, distinct⟩ := List.nodup_cons.mp distinct
  refine ⟨rings, fun address other elsewhere => ?_, distinct, outside, ⟨_, cleared⟩⟩
  rw [shown.pools, split.mem_iff, List.mem_cons]
  constructor
  · rintro ⟨rfl | listed, same⟩
    · exact absurd same.symm elsewhere
    · exact ⟨listed, same⟩
  · rintro ⟨listed, same⟩
    exact ⟨.inr listed, same⟩

theorem unuse {before behind free : List CachedPool} {cached : CachedPool}
    (shown : factory.Shows ⟨before ++ cached :: behind, free⟩) :
    ∃ links, listDel factory.links cached.node = some links ∧
      ShowsBut links factory.pools ⟨before ++ behind, free⟩ cached.address := by
  obtain ⟨links, deleted, cleared, rings⟩ := rings_unuse shown.rings
  exact ⟨links, deleted, shown.but (Cache.perm_used before behind free cached) rings cleared⟩

theorem unfree {used before behind : List CachedPool} {cached : CachedPool}
    (shown : factory.Shows ⟨used, before ++ cached :: behind⟩)
    (inside : cached.dataFactory < cachingPoolArraySize) :
    ∃ links, listDel factory.links cached.node = some links ∧
      ShowsBut links factory.pools ⟨used, before ++ behind⟩ cached.address := by
  obtain ⟨links, deleted, cleared, rings⟩ := rings_unfree shown.rings inside
  exact ⟨links, deleted, shown.but (Cache.perm_free used before behind cached) rings cleared⟩

end Factory.Shows

namespace ShowsBut

variable {links : PoolNode → Option (LinkPair PoolNode)} {pools : Nat → Option CachedPool}
  {cache next : Cache} {cached : CachedPool}

theorem put (shown : ShowsBut links pools cache cached.address)
    (joined : next.all.Perm (cached :: cache.all)) (address : Nat) (other : CachedPool) :
    Function.update pools cached.address (some cached) address = some other ↔
      other ∈ next.all ∧ other.address = address := by
  rw [joined.mem_iff, List.mem_cons]
  by_cases here : address = cached.address
  · subst here
    rw [Function.update_self, Option.some.injEq]
    constructor
    · rintro rfl
      exact ⟨.inl rfl, rfl⟩
    · rintro ⟨rfl | listed, same⟩
      · rfl
      · exact absurd (same ▸ List.mem_map_of_mem listed) shown.outside
  · rw [Function.update_of_ne here, shown.pools address other here]
    constructor
    · rintro ⟨listed, same⟩
      exact ⟨.inr listed, same⟩
    · rintro ⟨rfl | listed, same⟩
      · exact absurd same.symm here
      · exact ⟨listed, same⟩

theorem distinct_put (shown : ShowsBut links pools cache cached.address)
    (joined : next.all.Perm (cached :: cache.all)) : next.addresses.Nodup := by
  rw [Cache.addresses, (joined.map CachedPool.address).nodup_iff, List.map_cons, List.nodup_cons]
  exact ⟨shown.outside, shown.distinct⟩

theorem use (shown : ShowsBut links pools cache cached.address) :
    ∃ changed, listAdd links cached.node .usedList = some changed ∧
      ∀ factory : Factory, factory.links = changed →
        factory.pools = Function.update pools cached.address (some cached) →
        factory.Shows { cache with used := cached :: cache.used } := by
  obtain ⟨pair, stored⟩ := shown.stored
  obtain ⟨changed, added, rings⟩ := rings_use shown.rings stored shown.outside
  refine ⟨changed, added, fun factory sameLinks samePools => ?_⟩
  have joined : (Cache.all { cache with used := cached :: cache.used }).Perm (cached :: cache.all) :=
    List.Perm.refl _
  exact ⟨sameLinks ▸ rings, samePools ▸ shown.put joined, shown.distinct_put joined⟩

theorem free (shown : ShowsBut links pools cache cached.address)
    (inside : cached.dataFactory < cachingPoolArraySize) :
    ∃ changed, listAdd links cached.node (.freeList cached.dataFactory) = some changed ∧
      ∀ factory : Factory, factory.links = changed →
        factory.pools = Function.update pools cached.address (some cached) →
        factory.Shows { cache with free := cached :: cache.free } := by
  obtain ⟨pair, stored⟩ := shown.stored
  obtain ⟨changed, added, rings⟩ := rings_free shown.rings stored shown.outside inside
  refine ⟨changed, added, fun factory sameLinks samePools => ?_⟩
  have joined : (Cache.all { cache with free := cached :: cache.free }).Perm (cached :: cache.all) :=
    List.perm_middle
  exact ⟨sameLinks ▸ rings, samePools ▸ shown.put joined, shown.distinct_put joined⟩

theorem drop {place : Nat} (shown : ShowsBut links pools cache place) {factory : Factory}
    (sameLinks : factory.links = links) (samePools : factory.pools = pools) {region : Region}
    (here : region.Covers place) (others : ∀ address ∈ cache.addresses, ¬ region.Covers address) :
    (defaultBlockFree factory region).Shows cache := by
  subst sameLinks samePools
  refine ⟨?_, ?_, shown.distinct⟩
  · refine shown.rings.congr fun node inside => ?_
    cases node with
    | usedList => rfl
    | freeList i => rfl
    | pool address =>
        have listed : address ∈ cache.addresses := by
          rcases inside with isHead | ⟨head, -, listed⟩
          · cases isHead
          · exact Cache.mem_addresses_of_mem_nodes listed
        exact if_neg (others address listed)
  · intro address cached
    simp only [defaultBlockFree]
    split
    · next covered =>
      constructor
      · intro impossible
        cases impossible
      · rintro ⟨listed, rfl⟩
        exact absurd covered (others _ (List.mem_map_of_mem listed))
    · next apart =>
      refine shown.pools address cached ?_
      rintro rfl
      exact apart here

end ShowsBut

theorem Factory.Shows.change {factory after : Factory} {before behind free : List CachedPool}
    {cached changed : CachedPool} (shown : factory.Shows ⟨before ++ cached :: behind, free⟩)
    (same : changed.address = cached.address) (sameLinks : after.links = factory.links)
    (samePools : after.pools = Function.update factory.pools changed.address (some changed)) :
    after.Shows ⟨before ++ changed :: behind, free⟩ := by
  obtain ⟨links, -, rest⟩ := shown.unuse
  rw [← same] at rest
  have joined := Cache.perm_used before behind free changed
  refine ⟨?_, samePools ▸ rest.put joined, rest.distinct_put joined⟩
  rw [sameLinks]
  refine shown.rings.congr_lists fun head isHead => ?_
  cases head with
  | usedList => simp [Cache.nodes, Cache.on, CachedPool.node, same]
  | freeList i => rfl
  | pool => cases isHead

end UtilsModules.Pool

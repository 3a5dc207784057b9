import UtilsModules.Pool.Factory

/-!
The end of the factory, `mdl_caching_pool_destroy`.
-/

namespace UtilsModules.Pool

open Datastruct Linked

/-- The factory on its way, with the pools `mdl_pool_destroy_int` has been called
for. -/
structure Teardown where
  factory : Factory
  destroyed : List Nat

namespace Teardown

def stop (teardown : Teardown) (why : Stop) : Teardown :=
  { teardown with factory := teardown.factory.stop why }

end Teardown

/-- The `list_for_each` of one list, from a node on. -/
def destroyLoop (head : PoolNode) : Nat → Option PoolNode → Teardown → Teardown
  | 0, _, teardown => teardown.stop .endless
  | rounds + 1, node, teardown =>
      if node = some head then
        teardown
      else
        match node with
        | some (.pool address) =>
            match teardown.factory.pools address,
                listDel teardown.factory.links (.pool address) with
            | some cached, some links =>
                let factory := destroyPool { teardown.factory with links := links } cached
                let teardown := ⟨factory, teardown.destroyed ++ [address]⟩
                if factory.stopped ≠ none then
                  teardown
                else
                  match nextOf factory.links (.pool address) with
                  | some node => destroyLoop head rounds node teardown
                  | none => teardown.stop .fault
            | _, _ => teardown.stop .fault
        | _ => teardown.stop .fault

/-- One list.  No list is longer than what is held. -/
def destroyList (head : PoolNode) (teardown : Teardown) : Teardown :=
  match nextOf teardown.factory.links head with
  | some node => destroyLoop head (teardown.factory.held.length + 1) node teardown
  | none => teardown.stop .fault

def destroyLists : List PoolNode → Teardown → Teardown
  | [], teardown => teardown
  | head :: rest, teardown =>
      let teardown := destroyList head teardown
      if teardown.factory.stopped = none then destroyLists rest teardown else teardown

def teardownOrder : List PoolNode :=
  (List.range cachingPoolArraySize).map PoolNode.freeList ++ [.usedList]

def mdlCachingPoolDestroy (factory : Factory) : Teardown :=
  destroyLists teardownOrder ⟨factory, []⟩

/-- The teardown returns, has called `mdl_pool_destroy_int` once for every pool,
and leaves empty lists. -/
def TornDown (factory : Factory) : Prop :=
  (mdlCachingPoolDestroy factory).factory.stopped = none ∧
    (∃ cache, factory.Shows cache ∧
      (mdlCachingPoolDestroy factory).destroyed.Perm cache.addresses) ∧
    ∀ head, IsHead head → listEmpty (mdlCachingPoolDestroy factory).factory.links head

theorem mem_teardownOrder (head : PoolNode) : head ∈ teardownOrder ↔ IsHead head := by
  cases head with
  | usedList => simp [teardownOrder, IsHead]
  | freeList i => simp [teardownOrder, IsHead]
  | pool => simp [teardownOrder, IsHead]

section

variable {factory : Factory} {cache : Cache} {head : PoolNode}

theorem destroyList_empty (shown : factory.Shows cache) (isHead : IsHead head)
    (empty : cache.on head = []) (destroyed : List Nat) :
    destroyList head ⟨factory, destroyed⟩ = ⟨factory, destroyed⟩ := by
  have next := shown.rings.next_head isHead
  simp only [Cache.nodes, empty, List.map_nil, List.headD_nil] at next
  simp only [destroyList, next, destroyLoop, if_true]

theorem destroyPool_stops (consistent : factory.Consistent cache) (running : factory.stopped = none)
    {cached : CachedPool} (listed : cached ∈ cache.all)
    (links : PoolNode → Option (LinkPair PoolNode)) :
    (destroyPool { factory with links := links } cached).stopped = some .fault ∨
      (destroyPool { factory with links := links } cached).stopped = none ∧
        nextOf (destroyPool { factory with links := links } cached).links cached.node = none := by
  obtain ⟨initialSize, fits⟩ := consistent.sound.fits cached listed
  by_cases single : cached.pool.blockHeadList.length = 1
  · right
    have covers : Region.Covers ⟨cached.address, initialSize⟩ cached.address := fits.framed.covers
    have sameAddress : cached.pool.address = cached.address := rfl
    simp only [destroyPool, fits.framed.destroy_single single, blockFrees, List.foldl_cons,
      List.foldl_nil, sameAddress]
    refine ⟨running, ?_⟩
    simp [nextOf, defaultBlockFree, CachedPool.node, covers]
  · left
    simp only [destroyPool, fits.framed.destroy_expanded single]
    rfl

theorem destroyList_nonempty (consistent : factory.Consistent cache)
    (running : factory.stopped = none) (isHead : IsHead head) (nonempty : cache.on head ≠ [])
    (destroyed : List Nat) :
    (destroyList head ⟨factory, destroyed⟩).factory.stopped = some .fault := by
  obtain ⟨cached, rest, split⟩ := List.exists_cons_of_ne_nil nonempty
  have here : cached ∈ cache.on head := by simp [split]
  have listed : cached ∈ cache.all := Cache.mem_all_of_mem_on here
  have next : nextOf factory.links head = some (some cached.node) := by
    rw [consistent.shown.rings.next_head isHead]
    simp [Cache.nodes, split]
  have notHead : some cached.node ≠ some head := by
    intro same
    obtain rfl := Option.some.inj same
    exact isHead
  have found : factory.pools cached.address = some cached :=
    (consistent.shown.pools _ _).mpr ⟨listed, rfl⟩
  obtain ⟨links, deleted, -, -⟩ :=
    listDel_rings consistent.shown.rings isHead (List.mem_map_of_mem here)
  have removed : listDel factory.links (.pool cached.address) = some links := deleted
  have notHead' : some (PoolNode.pool cached.address) ≠ some head := notHead
  simp only [destroyList, next, CachedPool.node, destroyLoop, if_neg notHead', found, removed]
  rcases destroyPool_stops consistent running listed links with stopped | ⟨going, lost⟩
  · simp [stopped]
  · have lost' : nextOf (destroyPool { factory with links := links } cached).links
        (.pool cached.address) = none := lost
    simp [going, lost', Teardown.stop, Factory.stop]

theorem destroyLists_empty (shown : factory.Shows cache) {heads : List PoolNode}
    (areHeads : ∀ head ∈ heads, IsHead head) (empty : ∀ head ∈ heads, cache.on head = [])
    (running : factory.stopped = none) (destroyed : List Nat) :
    destroyLists heads ⟨factory, destroyed⟩ = ⟨factory, destroyed⟩ := by
  induction heads with
  | nil => rfl
  | cons head rest inductionHypothesis =>
      rw [destroyLists, destroyList_empty shown (areHeads head (by simp)) (empty head (by simp))]
      dsimp only
      rw [if_pos running]
      apply inductionHypothesis
      · exact fun other listed => areHeads other (List.mem_cons_of_mem _ listed)
      · exact fun other listed => empty other (List.mem_cons_of_mem _ listed)

theorem destroyLists_nonempty (consistent : factory.Consistent cache)
    (running : factory.stopped = none) {heads : List PoolNode}
    (areHeads : ∀ head ∈ heads, IsHead head) (nonempty : ∃ head ∈ heads, cache.on head ≠ [])
    (destroyed : List Nat) :
    (destroyLists heads ⟨factory, destroyed⟩).factory.stopped = some .fault := by
  induction heads with
  | nil => simp at nonempty
  | cons head rest inductionHypothesis =>
      have isHead := areHeads head List.mem_cons_self
      by_cases empty : cache.on head = []
      · rw [destroyLists, destroyList_empty consistent.shown isHead empty]
        dsimp only
        rw [if_pos running]
        apply inductionHypothesis
        · exact fun other listed => areHeads other (List.mem_cons_of_mem _ listed)
        · obtain ⟨other, listed, pools⟩ := nonempty
          rcases List.mem_cons.mp listed with rfl | later
          · exact absurd empty pools
          · exact ⟨other, later, pools⟩
      · have stopped := destroyList_nonempty consistent running isHead empty destroyed
        rw [destroyLists, if_neg (by simp [stopped]), stopped]

end

/-- After every run, the teardown of the factory is complete exactly if there is
no pool on any of its lists. -/
theorem teardown_complete_iff_empty {maxCapacity : Nat} {operations : List Operation}
    {factory : Factory}
    (ran : Transition.run Factory.step (mdlCachingPoolInit maxCapacity) operations = some factory)
    (running : factory.stopped = none) :
    TornDown factory ↔ ∀ head, IsHead head → listEmpty factory.links head := by
  obtain ⟨cache, consistent⟩ := (reached_consistent ran).1 running
  have areHeads : ∀ head ∈ teardownOrder, IsHead head :=
    fun head listed => (mem_teardownOrder head).mp listed
  have empty_iff : ∀ head, IsHead head →
      (listEmpty factory.links head = true ↔ cache.on head = []) := by
    intro head isHead
    rw [listEmpty_rings consistent.shown.rings isHead, Cache.nodes, List.map_eq_nil_iff]
  constructor
  · rintro ⟨returned, -⟩ head isHead
    by_contra notEmpty
    rw [empty_iff head isHead] at notEmpty
    have stopped := destroyLists_nonempty consistent running areHeads
      ⟨head, (mem_teardownOrder head).mpr isHead, notEmpty⟩ []
    rw [mdlCachingPoolDestroy, stopped] at returned
    cases returned
  · intro allEmpty
    have empty : ∀ head, IsHead head → cache.on head = [] :=
      fun head isHead => (empty_iff head isHead).mp (allEmpty head isHead)
    have whole : mdlCachingPoolDestroy factory = ⟨factory, []⟩ :=
      destroyLists_empty consistent.shown areHeads
        (fun head listed => empty head (areHeads head listed)) running []
    have none_ : cache.all = [] := by
      refine List.eq_nil_iff_forall_not_mem.mpr fun cached listed => ?_
      obtain ⟨head, ⟨isHead, here⟩, -⟩ := consistent.onOneList listed
      rw [empty head isHead] at here
      cases here
    rw [TornDown, whole]
    refine ⟨running, ⟨cache, consistent.shown, ?_⟩, allEmpty⟩
    rw [Cache.addresses, none_]
    exact List.Perm.refl _

theorem teardown_complete_iff_empty_unused :
    ∃ factory, Transition.run Factory.step (mdlCachingPoolInit 0)
        [.createPool 100 0 (some 4096), .releasePool 4096] = some factory ∧ TornDown factory := by
  have view : (Transition.run Factory.step (mdlCachingPoolInit 0)
      [.createPool 100 0 (some 4096), .releasePool 4096]).map (fun factory =>
        (factory.stopped, teardownOrder.all (listEmpty factory.links))) = some (none, true) := by
    decide +kernel
  obtain ⟨factory, ran, equal⟩ := Option.map_eq_some_iff.mp view
  obtain ⟨running, empty⟩ := Prod.mk.inj equal
  refine ⟨factory, ran, (teardown_complete_iff_empty ran running).mpr fun head isHead => ?_⟩
  exact List.all_eq_true.mp empty head ((mem_teardownOrder head).mpr isHead)

/-- One pool in use: it is destroyed, and the next node is looked for in its
memory. -/
theorem teardown_follows_freed_link :
    ∃ factory, Transition.run Factory.step (mdlCachingPoolInit 100000)
        [.createPool 100 0 (some 4096)] = some factory ∧ factory.stopped = none ∧
      (mdlCachingPoolDestroy factory).factory.stopped = some .fault ∧
      (mdlCachingPoolDestroy factory).destroyed = [4096] ∧ ¬ TornDown factory := by
  have view : (Transition.run Factory.step (mdlCachingPoolInit 100000)
      [.createPool 100 0 (some 4096)]).map (fun factory => (factory.stopped,
        (mdlCachingPoolDestroy factory).factory.stopped,
        (mdlCachingPoolDestroy factory).destroyed)) = some (none, some .fault, [4096]) := by
    decide +kernel
  obtain ⟨factory, ran, equal⟩ := Option.map_eq_some_iff.mp view
  obtain ⟨running, rest⟩ := Prod.mk.inj equal
  obtain ⟨stopped, destroyed⟩ := Prod.mk.inj rest
  refine ⟨factory, ran, running, stopped, destroyed, fun complete => ?_⟩
  rw [complete.1] at stopped
  cases stopped

end UtilsModules.Pool

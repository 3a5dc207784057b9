import UtilsModules.Datastruct.IdrLayout

/-!
What the single steps of `idr.c` do to the tree of the layers.
-/

namespace UtilsModules.Datastruct

variable {Address : Type} [DecidableEq Address]

def Idr.withLayer (idp : Idr Address) (a : Address) (layer : IdrLayer Address) : Idr Address :=
  { idp with memory := Function.update idp.memory a (some layer) }

def Idr.withFree (idp : Idr Address) (p : Address) : Idr Address :=
  { idp with
    memory := Function.update idp.memory p (some (IdrLayer.zero.setAry 0 idp.idFree))
    idFree := some p, idFreeCnt := idp.idFreeCnt + 1 }

theorem Idr.assign_eq {idp : Idr Address} {a : Address} {layer : IdrLayer Address}
    (stored : idp.memory a = some layer) (change : IdrLayer Address → IdrLayer Address) :
    idp.assign a change = some (idp.withLayer a (change layer)) := by
  simp only [assign, stored, Option.bind_eq_bind, Option.bind_some, withLayer]

theorem freeLayer_eq {idp : Idr Address} {p : Address} {layer : IdrLayer Address}
    (stored : idp.memory p = some layer)
    (empty : ∀ link, layer.setAry 0 link = IdrLayer.zero.setAry 0 link) :
    freeLayer idp p = some (idp.withFree p) := by
  simp only [freeLayer, Idr.assign_eq stored, Option.bind_eq_bind, Option.bind_some, empty]
  rfl

theorem Idr.FreeList.withFree {idp : Idr Address} {free : List Address} {p : Address}
    (list : idp.FreeList free) (notIn : p ∉ free) : (idp.withFree p).FreeList (p :: free) := by
  have elsewhere (other : Address) (within : other ∈ free) :
      (idp.withFree p).memory other = idp.memory other := by
    refine Function.update_of_ne ?_ ..
    rintro rfl
    exact notIn within
  have self : (idp.withFree p).memory p = some (IdrLayer.zero.setAry 0 idp.idFree) :=
    Function.update_self ..
  refine ⟨?_, ?_, ?_⟩
  · refine @Chain.cons _ _ _ idp.idFree _ ?_ (list.chain.congr fun other within => ?_)
    · simp only [self, Option.map_some, IdrLayer.setAry, Function.update_self]
    · simp only [elsewhere other within]
  · intro other within
    rcases List.mem_cons.mp within with rfl | later
    · exact ⟨_, self⟩
    · obtain ⟨link, here⟩ := list.zeroed other later
      exact ⟨link, (elsewhere other later).trans here⟩
  · change idp.idFreeCnt + 1 = _
    rw [list.counted, List.length_cons]
    omega

namespace Idr.Laid

variable {idp : Idr Address} {tree changed : IdrTree Address} {free loose : List Address}
  {h q pos : Nat} {a p new : Address} {layer : IdrLayer Address}

theorem alloc (laid : idp.Laid tree (a :: free) []) :
    ∃ after, allocLayer idp = some (after, some a) ∧ after.Laid tree free [a] ∧
      after.top = idp.top ∧ after.layers = idp.layers ∧
        after.memory = Function.update idp.memory a (some .zero) := by
  obtain ⟨link, allocated, list⟩ := laid.unused.alloc_cons
  have notIn := (List.nodup_cons.mp laid.unused.chain.nodup).1
  refine ⟨_, allocated, ⟨laid.shaped, laid.small, laid.rooted, ?_, list, ?_, ?_, ?_⟩, rfl, rfl, rfl⟩
  · intro h q other here
    have apart : other ≠ a := by
      rintro rfl
      exact laid.apart other (.inl List.mem_cons_self) h q here
    simp only [Function.update_of_ne apart]
    exact laid.shows h q other here
  · intro other within
    obtain rfl := List.mem_singleton.mp within
    exact ⟨Function.update_self .., notIn⟩
  · rintro other (within | within)
    · exact laid.apart other (.inl (List.mem_cons_of_mem _ within))
    · obtain rfl := List.mem_singleton.mp within
      exact laid.apart other (.inl List.mem_cons_self)
  · intro other layer here
    by_cases same : other = a
    · exact .inl (.inr (by simp [same]))
    · simp only [Function.update_of_ne same] at here
      rcases laid.kept other layer here with (within | within) | there
      · exact .inl (.inl ((List.mem_cons.mp within).resolve_left same))
      · cases within
      · exact .inr there

theorem unused_withLayer (laid : idp.Laid tree free loose) (layer : IdrLayer Address)
    (here : tree.node h q = some a) :
    (idp.withLayer a layer).FreeList free ∧
      ∀ other ∈ loose, (idp.withLayer a layer).memory other = some .zero ∧ other ∉ free := by
  have elsewhere (other : Address) (outside : other ∈ free ∨ other ∈ loose) :
      (idp.withLayer a layer).memory other = idp.memory other := by
    apply Function.update_of_ne
    rintro rfl
    exact laid.apart other outside h q here
  refine ⟨laid.unused.congr (fun other within => elsewhere other (.inl within)) rfl rfl, ?_⟩
  intro other within
  rw [elsewhere other (.inr within)]
  exact laid.fresh other within

theorem assign (laid : idp.Laid tree free loose) (here : tree.node h q = some a)
    (nodes : changed.node = tree.node) (shaped : changed.Shaped idp.layers)
    (others : ∀ height pos, (tree.node height pos).isSome → ¬ (height = h ∧ pos = q) →
      (∀ m < 64, changed.entry height (64 * pos + m) = tree.entry height (64 * pos + m) ∧
        (changed.marked height (64 * pos + m) ↔ tree.marked height (64 * pos + m))) ∧
      changed.excess height pos = tree.excess height pos)
    (shows : layer.Shows (fun m => changed.entry h (64 * q + m))
      (fun m => changed.marked h (64 * q + m)) (changed.excess h q)) :
    (idp.withLayer a layer).Laid changed free loose := by
  obtain ⟨list, fresh⟩ := laid.unused_withLayer layer here
  have root : changed.root idp.layers = tree.root idp.layers := by
    cases idp.layers with
    | zero => rfl
    | succ layers => simp only [IdrTree.root, nodes]
  refine ⟨shaped, laid.small, laid.rooted.trans root.symm, ?_, list, fresh, ?_, ?_⟩
  · intro height pos other there
    rw [nodes] at there
    by_cases same : height = h ∧ pos = q
    · obtain ⟨rfl, rfl⟩ := same
      obtain rfl := Option.some.inj (here.symm.trans there)
      exact ⟨layer, Function.update_self .., shows⟩
    · have apart : other ≠ a := by
        rintro rfl
        exact same (laid.shaped.distinct _ _ _ _ _ there here)
      obtain ⟨unchanged, stored, shown⟩ := laid.shows height pos other there
      obtain ⟨sameHere, sameExcess⟩ := others height pos (by rw [there]; rfl) same
      refine ⟨unchanged, (Function.update_of_ne apart ..).trans stored, ?_⟩
      exact shown.congr (fun m small => (sameHere m small).1) (fun m small => (sameHere m small).2)
        sameExcess
  · intro other outside height pos
    rw [nodes]
    exact laid.apart other outside height pos
  · intro other stored there
    rw [nodes]
    by_cases same : other = a
    · exact .inr ⟨h, q, same ▸ here⟩
    · exact laid.kept other stored ((Function.update_of_ne same ..).symm.trans there)

end Idr.Laid

namespace Idr.Laid

variable {idp : Idr Address} {tree : IdrTree Address} {free : List Address} {h pos : Nat}
  {p new : Address} {layer : IdrLayer Address}

theorem link (laid : idp.Laid tree free [new]) (parent : tree.node (h + 1) (pos / 64) = some p)
    (missing : tree.node h pos = none) (unmarked : ∀ m < 64, ¬ tree.marked h (64 * pos + m))
    (exact : tree.excess h pos = 0) (stored : idp.memory p = some layer) :
    (idp.withLayer p { layer.setAry (pos % 64) (some new) with count := layer.count + 1 }).Laid
      (tree.place h pos (some new)) free [] := by
  have newApart := laid.apart new (.inr List.mem_cons_self)
  have apart : new ≠ p := by
    rintro rfl
    exact newApart _ _ parent
  obtain ⟨list, -⟩ := laid.unused_withLayer
    { layer.setAry (pos % 64) (some new) with count := layer.count + 1 } parent
  have split := Radix.position_eq pos 64
  have inside := laid.shaped.node_lt parent
  refine ⟨laid.shaped.place (by rw [parent]; rfl) newApart, laid.small,
    laid.rooted.trans (IdrTree.root_place inside).symm, ?_, list, by simp, ?_, ?_⟩
  · intro height other a there
    rw [IdrTree.node_place] at there
    split at there
    · next same =>
        obtain ⟨rfl, rfl⟩ := same
        obtain rfl := Option.some.inj there
        refine ⟨.zero, (Function.update_of_ne apart ..).trans
          (laid.fresh new List.mem_cons_self).1, ?_⟩
        change IdrLayer.zero.Shows _ _ (tree.excess height other)
        rw [exact]
        refine .of_none (fun m small => ?_) unmarked
        rw [IdrTree.entry_place, if_neg (by omega)]
        apply @IdrTree.Shaped.none_below _ _ _ _ _ laid.shaped height 1 (by omega) ?_ rfl
        rw [Nat.pow_one, Radix.child_div small]
        exact missing
    · next notNew =>
        obtain ⟨old, oldStored, shown⟩ := laid.shows height other a there
        by_cases same : a = p
        · subst same
          obtain ⟨rfl, rfl⟩ := laid.shaped.distinct _ _ _ _ _ there parent
          obtain rfl := Option.some.inj (stored.symm.trans oldStored)
          refine ⟨_, Function.update_self .., shown.put (Nat.mod_lt _ (by decide)) ?_ ?_ ?_⟩
          · rw [split, IdrTree.entry, missing]
            rfl
          · rw [split, IdrTree.entry_place, if_pos ⟨rfl, rfl⟩]
            rfl
          · intro m small different
            rw [IdrTree.entry_place, if_neg (by omega)]
        · refine ⟨old, (Function.update_of_ne same ..).trans oldStored, ?_⟩
          refine shown.congr (fun m small => ?_) (fun m small => Iff.rfl) rfl
          rw [IdrTree.entry_place, if_neg (entry_elsewhere parent there same small)]
  · intro other outside height position
    exact laid.apart_put (fun _ _ => IdrTree.node_place) outside
  · intro other record there
    by_cases same : other = p
    · right
      refine ⟨h + 1, pos / 64, ?_⟩
      rw [same, IdrTree.node_place, if_neg (by omega)]
      exact parent
    · rcases laid.kept_elsewhere (fun _ _ => IdrTree.node_place) (by rw [missing]; simp)
        ((Function.update_of_ne same ..).symm.trans there) with (within | within) | present
      · exact .inl (.inl within)
      · obtain rfl := List.mem_singleton.mp within
        exact .inr ⟨h, pos, by rw [IdrTree.node_place, if_pos ⟨rfl, rfl⟩]⟩
      · exact .inr present

theorem raise (laid : idp.Laid tree free [new]) (layer : IdrLayer Address) (room : idp.layers ≤ 4)
    (shows : layer.Shows (fun m => tree.entry idp.layers m) (fun m => tree.marked idp.layers m)
      (tree.excess idp.layers 0)) :
    Idr.Laid { idp.withLayer new layer with top := some new, layers := idp.layers + 1 }
      (tree.place idp.layers 0 (some new)) free [] := by
  have newApart := laid.apart new (.inr List.mem_cons_self)
  have notFree := (laid.fresh new List.mem_cons_self).2
  have elsewhere {other : Address} (apart : other ≠ new) :
      Function.update idp.memory new (some layer) other = idp.memory other :=
    Function.update_of_ne apart ..
  have list : (idp.withLayer new layer).FreeList free :=
    laid.unused.congr (fun other within => elsewhere fun same => notFree (same ▸ within)) rfl rfl
  refine ⟨laid.shaped.raise newApart, Nat.succ_le_succ room, ?_, ?_,
    list.congr (fun _ _ => rfl) rfl rfl, by simp, ?_, ?_⟩
  · rw [IdrTree.root, IdrTree.node_place, if_pos ⟨rfl, rfl⟩]
  · intro height other a there
    rw [IdrTree.node_place] at there
    split at there
    · next same =>
        obtain ⟨rfl, rfl⟩ := same
        obtain rfl := Option.some.inj there
        refine ⟨layer, Function.update_self .., ?_⟩
        refine shows.congr (fun m _ => ?_) (fun m _ => ?_) rfl
        · rw [IdrTree.entry_place, if_neg (by omega), Nat.mul_zero, Nat.zero_add]
        · rw [Nat.mul_zero, Nat.zero_add]
          rfl
    · next notNew =>
        obtain ⟨old, stored, shown⟩ := laid.shows height other a there
        have inside := laid.shaped.node_lt there
        refine ⟨old, (elsewhere ?_).trans stored, ?_⟩
        · rintro rfl
          exact newApart _ _ there
        · refine shown.congr (fun m _ => ?_) (fun m _ => Iff.rfl) rfl
          rw [IdrTree.entry_place, if_neg (by omega)]
  · intro other outside height position
    exact laid.apart_put (fun _ _ => IdrTree.node_place) outside
  · intro other record there
    have missing : tree.node idp.layers 0 ≠ some other := fun present =>
      Nat.lt_irrefl _ (laid.shaped.node_lt present)
    by_cases same : other = new
    · exact .inr ⟨idp.layers, 0, by rw [same, IdrTree.node_place, if_pos ⟨rfl, rfl⟩]⟩
    · rcases laid.kept_elsewhere (fun _ _ => IdrTree.node_place) missing
        ((elsewhere same).symm.trans there) with (within | within) | present
      · exact .inl (.inl within)
      · exact absurd (List.mem_singleton.mp within) same
      · exact .inr present

theorem unused_withFree (laid : idp.Laid tree free []) (here : tree.node h pos = some p) :
    (idp.withFree p).FreeList (p :: free) :=
  laid.unused.withFree fun within => laid.apart p (.inl within) _ _ here

/-- A layer without entries is freed and the link to it is cleared. -/
theorem unlink {a : Address} {upper : IdrLayer Address} (laid : idp.Laid tree free [])
    (here : tree.node h pos = some p) (parent : tree.node (h + 1) (pos / 64) = some a)
    (vacant : ∀ m < 64, tree.entry h (64 * pos + m) = none)
    (upperStored : idp.memory a = some upper) :
    ((idp.withFree p).withLayer a (upper.setAry (pos % 64) none)).Laid
      (tree.unlinked h pos) (p :: free) [] := by
  have apart : a ≠ p := by
    rintro rfl
    have := (laid.shaped.distinct _ _ _ _ _ parent here).1
    omega
  have inside := laid.shaped.node_lt parent
  have elsewhere {other : Address} (notP : other ≠ p) (notA : other ≠ a) :
      ((idp.withFree p).withLayer a (upper.setAry (pos % 64) none)).memory other =
        idp.memory other :=
    (Function.update_of_ne notA ..).trans (Function.update_of_ne notP ..)
  refine ⟨(laid.shaped.remove inside vacant).unlinked, laid.small, ?_, ?_, ?_, by simp, ?_,
    ?_⟩
  · refine laid.rooted.trans ?_
    change _ = IdrTree.root _ idp.layers
    cases layersEq : idp.layers with
    | zero => rfl
    | succ layers =>
        rw [IdrTree.root, IdrTree.root, IdrTree.node_unlinked, if_neg]
        omega
  · intro height other b there
    obtain ⟨old, -, notP⟩ := laid.node_of_removed here (fun _ _ => IdrTree.node_unlinked) there
    obtain ⟨record, recordStored, shown⟩ := laid.shows height other b old
    by_cases same : b = a
    · subst same
      obtain ⟨rfl, rfl⟩ := laid.shaped.distinct _ _ _ _ _ old parent
      obtain rfl := Option.some.inj (upperStored.symm.trans recordStored)
      exact ⟨_, Function.update_self .., shows_unlinked here shown⟩
    · exact ⟨record, (elsewhere notP same).trans recordStored,
        shows_unlinked_elsewhere parent old same shown⟩
  · refine (laid.unused_withFree here).congr (fun other within => Function.update_of_ne ?_ ..)
      rfl rfl
    rintro rfl
    rcases List.mem_cons.mp within with same | later
    · exact apart same
    · exact laid.apart other (.inl later) _ _ parent
  · intro other outside height position
    exact laid.apart_removed here (fun _ _ => IdrTree.node_unlinked) outside
  · intro other record there
    by_cases isP : other = p
    · exact .inl (.inl (by simp [isP]))
    · by_cases isA : other = a
      · right
        refine ⟨h + 1, pos / 64, ?_⟩
        rw [isA, IdrTree.node_unlinked, if_neg (by omega)]
        exact parent
      · have notHere : tree.node h pos ≠ some other := by
          rw [here]
          exact fun same => isP (Option.some.inj same).symm
        rcases laid.kept_elsewhere (fun _ _ => IdrTree.node_unlinked) notHere
          ((elsewhere isP isA).symm.trans there) with (within | within) | present
        · exact .inl (.inl (List.mem_cons_of_mem _ within))
        · cases within
        · exact .inr present

theorem unroot (laid : idp.Laid tree free []) (layers : idp.layers = h + 1)
    (here : tree.node h 0 = some p) (vacant : ∀ m < 64, tree.entry h m = none) :
    Idr.Sound { idp.withFree p with top := none, layers := 0 } (fun _ _ => none) tree.value
      (p :: free) := by
  have shaped := laid.shaped
  rw [layers] at shaped
  have noValue (id : Nat) : tree.value id = none := shaped.none_of_vacant vacant (Nat.zero_le h)
  have only {height other : Nat} {a : Address} (there : tree.node height other = some a) :
      height = h ∧ other = 0 := by
    have below := shaped.node_lt there
    by_cases top : height = h
    · subst top
      exact ⟨rfl, shaped.top_pos there⟩
    · have gone := @IdrTree.Shaped.none_of_vacant _ _ _ other shaped vacant (height + 1) (by omega)
      rw [IdrTree.entry, there] at gone
      cases gone
  have list := laid.unused_withFree here
  refine ⟨⟨?_, ?_, ?_⟩, Nat.zero_le _, rfl, ?_, list.congr (fun _ _ => rfl) rfl rfl, by simp, ?_,
    ?_⟩
  · intro height other occupied
    cases height with
    | zero =>
        change (tree.value other).isSome at occupied
        rw [noValue] at occupied
        cases occupied
    | succ height => cases occupied
  · intro positive
    cases positive
  · intro height other second otherSecond a one
    cases one
  · intro height other a there
    cases there
  · intro other outside height position there
    cases there
  · intro other record there
    left
    left
    by_cases same : other = p
    · simp [same]
    · rcases laid.kept other record ((Function.update_of_ne same ..).symm.trans there) with
        (within | within) | ⟨height, position, present⟩
      · exact List.mem_cons_of_mem _ within
      · cases within
      · obtain ⟨rfl, rfl⟩ := only present
        exact absurd (Option.some.inj (present.symm.trans here)) same

theorem lower {a : Address} (laid : idp.Laid tree free []) (layers : idp.layers = h + 1 + 1)
    (here : tree.node (h + 1) 0 = some p) (child : tree.node h 0 = some a)
    (vacant : ∀ m < 64, m ≠ 0 → tree.entry (h + 1) m = none) :
    Idr.Laid { idp.withFree p with top := some a, layers := h + 1 } (tree.place (h + 1) 0 none)
      (p :: free) [] := by
  have few := laid.small
  have shaped := laid.shaped
  rw [layers] at shaped
  have list := laid.unused_withFree here
  have notTop {height other : Nat} {b : Address}
      (there : (tree.place (h + 1) 0 none).node height other = some b) :=
    laid.node_of_removed here (fun _ _ => IdrTree.node_place) there
  refine ⟨⟨?_, ?_, ?_⟩, by change h + 1 ≤ 5; omega, ?_, ?_, list.congr (fun _ _ => rfl) rfl rfl,
    by simp, ?_, ?_⟩
  · intro height other occupied
    rw [IdrTree.entry_place] at occupied
    split at occupied
    · cases occupied
    · next apart =>
        rcases shaped.above height other occupied with ⟨below, present⟩ | ⟨top, -, first⟩
        · by_cases high : height = h + 1
          · subst high
            have small := shaped.position_lt occupied
            rw [Nat.add_sub_cancel_left, Nat.pow_one] at small
            by_cases first : other = 0
            · exact .inr ⟨rfl, Nat.succ_pos h, first⟩
            · rw [vacant other small first] at occupied
              cases occupied
          · refine .inl ⟨by change height < h + 1; omega, ?_⟩
            rw [IdrTree.node_place, if_neg (by omega)]
            exact present
        · exact absurd ⟨top, first⟩ apart
  · intro _
    change ((tree.place (h + 1) 0 none).node (h + 1 - 1) 0).isSome
    rw [Nat.add_sub_cancel, IdrTree.node_place, if_neg (by omega), child]
    rfl
  · intro height other second otherSecond b one two
    exact shaped.distinct _ _ _ _ _ (notTop one).1 (notTop two).1
  · rw [IdrTree.root, IdrTree.node_place, if_neg (by omega), child]
  · intro height other b there
    obtain ⟨old, -, notP⟩ := notTop there
    have below := shaped.node_lt old
    obtain ⟨record, recordStored, shown⟩ := laid.shows height other b old
    refine ⟨record, (Function.update_of_ne notP ..).trans recordStored, ?_⟩
    refine shown.congr (fun m _ => ?_) (fun m _ => Iff.rfl) rfl
    rw [IdrTree.entry_place, if_neg (by omega)]
  · intro other outside height position
    exact laid.apart_removed here (fun _ _ => IdrTree.node_place) outside
  · intro other record there
    by_cases same : other = p
    · exact .inl (.inl (by simp [same]))
    · have notHere : tree.node (h + 1) 0 ≠ some other := by
        rw [here]
        exact fun same' => same (Option.some.inj same').symm
      rcases laid.kept_elsewhere (fun _ _ => IdrTree.node_place) notHere
        ((Function.update_of_ne same ..).symm.trans there) with (within | within) | present
      · exact .inl (.inl (List.mem_cons_of_mem _ within))
      · cases within
      · exact .inr present

theorem giveBack (laid : idp.Laid tree free [p]) : (cacheFree idp p).Laid tree free [] := by
  have elsewhere {other : Address} (apart : other ≠ p) :
      (cacheFree idp p).memory other = idp.memory other := Function.update_of_ne apart ..
  have gone : (cacheFree idp p).memory p = none := Function.update_self ..
  refine ⟨laid.shaped, laid.small, laid.rooted, ?_, ?_, by simp, ?_, ?_⟩
  · intro height other a there
    rw [elsewhere]
    · exact laid.shows height other a there
    · rintro rfl
      exact laid.apart a (.inr List.mem_cons_self) _ _ there
  · refine laid.unused.congr (fun other within => elsewhere ?_) rfl rfl
    rintro rfl
    exact (laid.fresh other List.mem_cons_self).2 within
  · intro other outside
    exact laid.apart other (outside.imp_right (by simp))
  · intro other record there
    by_cases same : other = p
    · rw [same, gone] at there
      cases there
    · rcases laid.kept other record ((elsewhere same).symm.trans there) with
        (within | within) | present
      · exact .inl (.inl within)
      · exact absurd (List.mem_singleton.mp within) same
      · exact .inr present

theorem supply (laid : idp.Laid tree free []) (unknown : idp.memory new = none) :
    freeLayer (cacheAlloc idp new) new = some ((cacheAlloc idp new).withFree new) ∧
      ((cacheAlloc idp new).withFree new).Laid tree (new :: free) [] := by
  have self : (cacheAlloc idp new).memory new = some .zero := Function.update_self ..
  have elsewhere {other : Address} (apart : other ≠ new) :
      ((cacheAlloc idp new).withFree new).memory other = idp.memory other :=
    (Function.update_of_ne apart ..).trans (Function.update_of_ne apart ..)
  have notFree : new ∉ free := by
    intro within
    obtain ⟨link, stored⟩ := laid.unused.zeroed new within
    rw [unknown] at stored
    cases stored
  have notNode (height other : Nat) : tree.node height other ≠ some new := by
    intro there
    obtain ⟨record, stored, -⟩ := laid.shows _ _ _ there
    rw [unknown] at stored
    cases stored
  have list : (cacheAlloc idp new).FreeList free := by
    refine laid.unused.congr (fun other within => Function.update_of_ne ?_ ..) rfl rfl
    rintro rfl
    exact notFree within
  refine ⟨freeLayer_eq self fun _ => rfl, laid.shaped, laid.small, laid.rooted, ?_,
    list.withFree notFree, by simp, ?_, ?_⟩
  · intro height other a there
    rw [elsewhere]
    · exact laid.shows height other a there
    · rintro rfl
      exact notNode _ _ there
  · rintro other (within | within)
    · rcases List.mem_cons.mp within with rfl | later
      · exact notNode
      · exact laid.apart other (.inl later)
    · cases within
  · intro other record there
    by_cases same : other = new
    · exact .inl (.inl (by simp [same]))
    · rcases laid.kept other record ((elsewhere same).symm.trans there) with
        (within | within) | present
      · exact .inl (.inl (List.mem_cons_of_mem _ within))
      · cases within
      · exact .inr present

end Idr.Laid

end UtilsModules.Datastruct

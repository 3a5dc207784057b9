import UtilsModules.Datastruct.IdrNew

/-!
`idr_find` and `idr_remove`.
-/

namespace UtilsModules.Datastruct

variable {Address : Type}

theorem maxIdMask_eq {id : Nat} (small : id < maxIdBit) : id &&& maxIdMask = id := by
  exact (Nat.and_two_pow_sub_one_eq_mod id 31).trans (Nat.mod_eq_of_lt small)

namespace Idr.Sound

variable {idp : Idr Address} {node : Nat → Nat → Option Address}
  {value : Nat → Option (Option Address)} {free : List Address}

theorem findBelow_spec (sound : idp.Sound node value free) (id level : Nat)
    (inside : level ≤ idp.layers) :
    findBelow idp id level ((IdrTree.between node value).entry level (id / 64 ^ level)).join =
      some (value id).join := by
  induction level with
  | zero => rw [Nat.pow_zero, Nat.div_one, findBelow, IdrTree.entry, IdrTree.between]
  | succ level inductionHypothesis =>
      rw [IdrTree.join_entry_succ]
      change findBelow idp id (level + 1) (node level (id / 64 ^ (level + 1))) = _
      cases here : node level (id / 64 ^ (level + 1)) with
      | none =>
          have missing := sound.shaped.none_below (h := 0) inside here (Nat.zero_add _)
          rw [findBelow, show value id = none from missing]
          rfl
      | some p =>
          obtain ⟨layer, stored, shown⟩ := sound.shows _ _ _ here
          have entry := shown.ary (id / 64 ^ level % 64) (Nat.mod_lt _ (by decide))
          rw [Radix.div_pow_succ, Radix.position_eq] at entry
          simp only [findBelow, stored, shift_eq, mask_eq, entry, Option.bind_eq_bind,
            Option.bind_some]
          exact inductionHypothesis (by omega)

/-- `idr_find` gives the pointer that was stored, and `NULL` for a number that is not
allocated. -/
theorem idrFind_spec (sound : idp.Sound node value free) {id : Nat} (small : id < maxIdBit) :
    idrFind idp id = some (value id).join := by
  have few := sound.small
  have low : shiftedOne (idp.layers * idrBits) = some (64 ^ idp.layers) := by
    rw [Nat.mul_comm, shiftedOne_eq few]
  simp only [idrFind, maxIdMask_eq small, low, Option.bind_eq_bind, Option.bind_some]
  split
  · next large =>
      rw [show value id = none from sound.shaped.value_none large]
      rfl
  · next below =>
      have found := sound.findBelow_spec id idp.layers (Nat.le_refl _)
      rw [Nat.div_eq_of_lt (by omega)] at found
      have top : idp.top = ((IdrTree.between node value).entry idp.layers 0).join := by
        rw [sound.rooted]
        cases layers : idp.layers with
        | zero =>
            have shaped := sound.shaped
            rw [layers] at shaped
            rw [shaped.none_of_zero]
            rfl
        | succ layers => rw [IdrTree.join_entry_succ, IdrTree.root]
      rw [top]
      exact found

end Idr.Sound

/-- The slots on the way from the root to a number, as `pa` of `sub_remove` points at
them. -/
inductive IdrSlots (node : Nat → Nat → Option Address) (layers id : Nat) :
    Nat → List (IdrSlot Address) → Prop where
  | top {level} : level + 1 = layers → IdrSlots node layers id level [.top]
  | ary {level p paa} : node (level + 1) (id / 64 ^ (level + 1 + 1)) = some p →
      IdrSlots node layers id (level + 1) paa →
        IdrSlots node layers id level (.ary p (id / 64 ^ (level + 1) % 64) :: paa)

theorem IdrSlots.length {node : Nat → Nat → Option Address} {layers id level : Nat}
    {paa : List (IdrSlot Address)} (slots : IdrSlots node layers id level paa) :
    level + paa.length = layers := by
  induction slots with
  | top last => exact last
  | ary _ _ inductionHypothesis =>
      rw [List.length_cons]
      omega

/-- The marks above a height are cleared on the way to a number. -/
def IdrTree.emptying (node : Nat → Nat → Option Address) (value : Nat → Option (Option Address))
    (id level : Nat) : IdrTree Address where
  node := node
  value := value
  marked h pos := Radix.Full 64 (Present value) h pos ∧ ¬ (level < h ∧ pos = id / 64 ^ h)
  excess _ _ := 0

/-- The number is gone, but still counted at a height. -/
def IdrTree.releasing (node : Nat → Nat → Option Address) (value : Nat → Option (Option Address))
    (id level : Nat) : IdrTree Address where
  node := node
  value := value
  marked := Radix.Full 64 (Present value)
  excess h q := if h = level ∧ q = id / 64 ^ (level + 1) then 1 else 0

section Removing

variable [DecidableEq Address] {idp : Idr Address} {node : Nat → Nat → Option Address}
  {value : Nat → Option (Option Address)} {free : List Address} {p : Address} {id level : Nat}
  {paa : List (IdrSlot Address)} {layer : IdrLayer Address}

theorem Idr.Laid.clearOne (laid : idp.Laid (.emptying node value id (level + 1)) free [])
    (here : node (level + 1) (id / 64 ^ (level + 1 + 1)) = some p)
    (stored : idp.memory p = some layer) :
    (idp.withLayer p (layer.clearBit (id / 64 ^ (level + 1) % 64))).Laid
      (.emptying node value id level) free [] := by
  obtain ⟨other, otherStored, shown⟩ := laid.shows _ _ _ here
  obtain rfl := Option.some.inj (stored.symm.trans otherStored)
  have split := Radix.position_eq (id / 64 ^ (level + 1)) 64
  rw [← Radix.div_pow_succ] at split
  have entries (h pos : Nat) : (IdrTree.emptying node value id level).entry h pos =
      (IdrTree.emptying node value id (level + 1)).entry h pos := by
    cases h with
    | zero => rfl
    | succ h => rfl
  have shaped : (IdrTree.emptying node value id level).Shaped idp.layers := by
    refine ⟨fun h pos occupied => ?_, laid.shaped.grown, laid.shaped.distinct⟩
    rw [entries] at occupied
    exact laid.shaped.above h pos occupied
  refine laid.assign here rfl shaped ?_ ?_
  · intro height pos _ elsewhere
    refine ⟨fun m small => ⟨entries .., ?_⟩, rfl⟩
    simp only [IdrTree.emptying]
    refine and_congr_right fun _ => not_congr ⟨fun ⟨above, same⟩ => ⟨?_, same⟩,
      fun ⟨above, same⟩ => ⟨by omega, same⟩⟩
    by_contra notAbove
    obtain rfl : height = level + 1 := by omega
    apply elsewhere
    rw [Radix.div_pow_succ, ← same, Radix.child_div small]
    exact ⟨rfl, rfl⟩
  · have shownHere : layer.Shows
        (fun m => (IdrTree.emptying node value id level).entry (level + 1)
          (64 * (id / 64 ^ (level + 1 + 1)) + m))
        (fun m => (IdrTree.emptying node value id (level + 1)).marked (level + 1)
          (64 * (id / 64 ^ (level + 1 + 1)) + m)) 0 := shown
    refine shownHere.clearBit _ _ fun m small => ?_
    simp only [IdrTree.emptying, Nat.lt_irrefl, false_and, not_false_eq_true, and_true,
      Nat.lt_succ_self, true_and]
    refine and_congr_right fun _ => not_congr ?_
    omega

theorem removePath_spec (laid : idp.Laid (.emptying node value id level) free [])
    (present : Present value id) (slots : IdrSlots node idp.layers id level paa)
    (here : node level (id / 64 ^ (level + 1)) = some p) :
    ∃ after leaf way, removePath id level idp (some p) paa = some (after, some leaf, way) ∧
      after.Laid (.emptying node value id 0) free [] ∧
        IdrSlots node after.layers id 0 way ∧ node 0 (id / 64) = some leaf := by
  induction level generalizing idp p paa with
  | zero =>
      refine ⟨idp, p, paa, rfl, laid, slots, ?_⟩
      rwa [Nat.zero_add, Nat.pow_one] at here
  | succ level inductionHypothesis =>
      obtain ⟨layer, stored, shown⟩ := laid.shows _ _ _ here
      have cleared := laid.clearOne here stored
      have inside := laid.shaped.node_lt here
      have few := laid.small
      have length := slots.length
      obtain ⟨child, there⟩ := laid.shaped.node_of_present present (h := level) (by omega)
      have entry := shown.ary (id / 64 ^ (level + 1) % 64) (Nat.mod_lt _ (by decide))
      rw [Radix.div_pow_succ _ _ (level + 1), Radix.position_eq, IdrTree.join_entry_succ,
        there] at entry
      obtain ⟨after, leaf, way, ran, done, path, atLeaf⟩ :=
        inductionHypothesis cleared (.ary here slots) there
      refine ⟨after, leaf, way, ?_, done, path, atLeaf⟩
      have short : paa.length + 1 < maxLevel := by
        unfold maxLevel
        omega
      have self : (idp.withLayer p (layer.clearBit (id / 64 ^ (level + 1) % 64))).memory p =
          some (layer.clearBit (id / 64 ^ (level + 1) % 64)) := Function.update_self ..
      simp only [removePath, shift_eq, mask_eq, Idr.assign_eq stored, self, short, if_true,
        Option.bind_eq_bind, Option.bind_some]
      rw [show (layer.clearBit (id / 64 ^ (level + 1) % 64)).ary (id / 64 ^ (level + 1) % 64) =
        some child from entry]
      exact ran

theorem Idr.Laid.takeOut (laid : idp.Laid (.emptying node value id 0) free [])
    (present : Present value id) (here : node 0 (id / 64) = some p)
    (stored : idp.memory p = some layer) :
    (idp.withLayer p ((layer.clearBit (id % 64)).setAry (id % 64) none)).Laid
      (.releasing node (Function.update value id none) id 0) free [] := by
  obtain ⟨other, otherStored, shown⟩ := laid.shows _ _ _ here
  obtain rfl := Option.some.inj (stored.symm.trans otherStored)
  have split := Radix.position_eq id 64
  have digit : id % 64 < 64 := Nat.mod_lt _ (by decide)
  have absent : ¬ Present (Function.update value id none) id := by
    rw [Present, Function.update_self]
    exact Bool.false_ne_true
  have marks (h pos : Nat) (elsewhere : ¬ (h = 0 ∧ pos = id)) :
      Radix.Full 64 (Present (Function.update value id none)) h pos ↔
        (IdrTree.emptying node value id 0).marked h pos := by
    simp only [IdrTree.emptying]
    by_cases above : pos = id / 64 ^ h
    · have high : 0 < h := by
        by_contra low
        obtain rfl : h = 0 := by omega
        exact elsewhere ⟨rfl, by rw [above, Nat.pow_zero, Nat.div_one]⟩
      refine iff_of_false ?_ fun both => both.2 ⟨high, above⟩
      rw [above]
      exact Radix.not_full absent h
    · rw [full_update above]
      exact (and_iff_left fun both => above both.2).symm
  have shaped : (IdrTree.releasing node (Function.update value id none) id 0).Shaped
      idp.layers := by
    refine ⟨?_, laid.shaped.grown, laid.shaped.distinct⟩
    intro h pos occupied
    cases h with
    | zero =>
        by_cases same : pos = id
        · subst same
          exact absurd occupied absent
        · exact laid.shaped.above 0 pos ((present_update same).mp occupied)
    | succ h => exact laid.shaped.above (h + 1) pos occupied
  refine laid.assign here rfl shaped ?_ ?_
  · intro height pos _ elsewhere
    refine ⟨fun m small => ⟨?_, marks _ _ fun both => elsewhere ⟨both.1, ?_⟩⟩, if_neg ?_⟩
    · cases height with
      | succ height => rfl
      | zero =>
          refine Function.update_of_ne (fun same => elsewhere ⟨rfl, ?_⟩) ..
          rw [← same, Radix.child_div small]
    · rw [← both.2, Radix.child_div small]
    · rwa [Nat.zero_add, Nat.pow_one]
  · obtain ⟨x, storedValue⟩ := Option.isSome_iff_exists.mp present
    have counted : (IdrTree.releasing node (Function.update value id none) id 0).excess 0
        (id / 64) = (IdrTree.emptying node value id 0).excess 0 (id / 64) + 1 :=
      if_pos ⟨rfl, by rw [Nat.zero_add, Nat.pow_one]⟩
    rw [counted]
    have cleared := shown.clearBit (id % 64) (fun m => Radix.Full 64
      (Present (Function.update value id none)) 0 (64 * (id / 64) + m)) fun m small => ?_
    · refine cleared.drop (n := id % 64) (x := x) digit ?_ ?_ ?_
      · rw [split]
        exact storedValue
      · rw [split]
        exact Function.update_self ..
      · intro m small different
        exact Function.update_of_ne (by omega) ..
    · by_cases same : m = id % 64
      · rw [same, split]
        exact iff_of_false (fun full => absent (Radix.full_zero.mp full)) fun both => both.2 rfl
      · rw [marks _ _ (by omega), and_iff_left same]

theorem Idr.Laid.countDown (laid : idp.Laid (.releasing node value id level) free [])
    (here : node level (id / 64 ^ (level + 1)) = some p) (stored : idp.memory p = some layer) :
    (idp.withLayer p { layer with count := layer.count - 1 }).Sound node value free := by
  obtain ⟨other, otherStored, shown⟩ := laid.shows _ _ _ here
  obtain rfl := Option.some.inj (stored.symm.trans otherStored)
  have entries (h pos : Nat) : (IdrTree.between node value).entry h pos =
      (IdrTree.releasing node value id level).entry h pos := by
    cases h with
    | zero => rfl
    | succ h => rfl
  have shaped : (IdrTree.between node value).Shaped idp.layers := by
    refine ⟨fun h pos occupied => ?_, laid.shaped.grown, laid.shaped.distinct⟩
    rw [entries] at occupied
    exact laid.shaped.above h pos occupied
  refine Idr.Laid.assign laid here rfl shaped ?_ ?_
  · intro height pos _ elsewhere
    exact ⟨fun m small => ⟨entries .., Iff.rfl⟩, (if_neg elsewhere).symm⟩
  · have one : (IdrTree.releasing node value id level).excess level (id / 64 ^ (level + 1)) = 1 :=
      if_pos ⟨rfl, rfl⟩
    have lowered := shown.decrease
    rw [one] at lowered
    exact lowered.congr (fun m _ => entries ..) (fun m _ => Iff.rfl) rfl

omit [DecidableEq Address] in
theorem IdrTree.unlinked_between : (IdrTree.between node value).unlinked level
    (id / 64 ^ (level + 1)) = .releasing
      ((IdrTree.between node value).place level (id / 64 ^ (level + 1)) none).node value id
      (level + 1) := by
  unfold IdrTree.releasing
  rw [Radix.div_pow_succ _ _ (level + 1)]
  rfl

omit [DecidableEq Address] in
theorem IdrSlots.congr {other : Nat → Nat → Option Address} {layers : Nat}
    (slots : IdrSlots node layers id level paa)
    (same : ∀ h q, level < h → other h q = node h q) : IdrSlots other layers id level paa := by
  induction slots with
  | top last => exact .top last
  | ary here _ inductionHypothesis =>
      refine .ary ((same _ _ (Nat.lt_succ_self _)).trans here) ?_
      exact inductionHypothesis fun h q above => same h q (by omega)

omit [DecidableEq Address] in
theorem IdrSlots.read_eq {slot : IdrSlot Address} {tree : IdrTree Address}
    (slots : IdrSlots node idp.layers id level (slot :: paa)) (laid : idp.Laid tree free [])
    (nodes : tree.node = node) (here : node level (id / 64 ^ (level + 1)) = some p) :
    slot.read idp = some (some p) := by
  cases slots with
  | top last =>
      have shaped := laid.shaped
      rw [← last] at shaped
      have first := shaped.top_pos (nodes ▸ here)
      rw [IdrSlot.read, laid.rooted, ← last, IdrTree.root, nodes, ← first, here]
  | @ary _ a _ parent _ =>
      obtain ⟨upper, stored, shown⟩ := laid.shows _ _ _ (nodes ▸ parent)
      have entry := shown.ary (id / 64 ^ (level + 1) % 64) (Nat.mod_lt _ (by decide))
      rw [Radix.div_pow_succ _ _ (level + 1), Radix.position_eq, IdrTree.join_entry_succ, nodes,
        here] at entry
      rw [IdrSlot.read, stored, Option.map_some, entry]

theorem releaseEmpty_cons {slot : IdrSlot Address} (read : slot.read idp = some (some p))
    (stored : idp.memory p = some layer) :
    releaseEmpty idp (slot :: paa) =
      if layer.count - 1 = 0 then
        (freeLayer (idp.withLayer p { layer with count := layer.count - 1 }) p).bind fun idp =>
          (slot.clear idp).bind fun idp => releaseEmpty idp paa
      else some (idp.withLayer p { layer with count := layer.count - 1 }, slot :: paa) := by
  have self : (idp.withLayer p { layer with count := layer.count - 1 }).memory p =
      some { layer with count := layer.count - 1 } := Function.update_self ..
  simp only [releaseEmpty, read, Idr.assign_eq stored, self, Option.bind_eq_bind,
    Option.bind_some]

theorem releaseEmpty_spec (laid : idp.Laid (.releasing node value id level) free [])
    (slots : IdrSlots node idp.layers id level paa)
    (here : node level (id / 64 ^ (level + 1)) = some p) :
    ∃ after way placed rest, releaseEmpty idp paa = some (after, way) ∧
      Idr.Sound { after with layers := if way.isEmpty then 0 else after.layers } placed value
        rest := by
  induction paa generalizing idp node level free p with
  | nil => cases slots
  | cons slot paa inductionHypothesis =>
      obtain ⟨layer, stored, shown⟩ := laid.shows _ _ _ here
      have read := slots.read_eq laid rfl here
      have counted := laid.countDown here stored
      set lower : IdrLayer Address := { layer with count := layer.count - 1 } with lowerEq
      have lowerStored : (idp.withLayer p lower).memory p = some lower := Function.update_self ..
      obtain ⟨other, otherStored, lowerShown⟩ := counted.shows _ _ _ here
      obtain rfl := Option.some.inj (lowerStored.symm.trans otherStored)
      rw [releaseEmpty_cons read stored]
      by_cases zero : layer.count - 1 = 0
      · have vacant := lowerShown.eq_none_of_count zero
        have unmarked (m : Nat) (small : m < 64) : ¬ (IdrTree.between node value).marked level
            (64 * (id / 64 ^ (level + 1)) + m) := by
          intro full
          have present := full _ (Radix.first_div (by decide))
          have above := counted.shaped.ancestor (h := 0) present level (by
            have := counted.shaped.node_lt here
            omega)
          rw [Nat.zero_add, Radix.first_div (by decide), vacant m small] at above
          cases above
        have empty := IdrLayer.setAry_zero (lowerShown.bitmap_zero unmarked) zero
          (lowerShown.ary_none fun m small _ => vacant m small)
        rw [if_pos zero, freeLayer_eq lowerStored empty, Option.bind_some]
        cases slots with
        | top last =>
            have shaped := laid.shaped
            rw [← last] at shaped
            have first := shaped.top_pos here
            rw [first] at here vacant
            refine ⟨_, [], _, _, rfl, counted.unroot last.symm here fun m inside => ?_⟩
            have gone := vacant m inside
            rwa [Nat.mul_zero, Nat.zero_add] at gone
        | @ary _ a _ parent above =>
            rw [Radix.div_pow_succ _ _ (level + 1)] at parent
            obtain ⟨upper, upperStored, -⟩ := counted.shows _ _ _ parent
            have unlinked := counted.unlink here parent vacant upperStored
            rw [IdrTree.unlinked_between] at unlinked
            have apart : a ≠ p := by
              rintro rfl
              have := (counted.shaped.distinct _ _ _ _ _ parent here).1
              omega
            have storedAfter : ((idp.withLayer p lower).withFree p).memory a = some upper :=
              (Function.update_of_ne apart ..).trans upperStored
            rw [← Radix.div_pow_succ] at parent
            have placed (h q : Nat) (higher : level < h) :
                ((IdrTree.between node value).place level (id / 64 ^ (level + 1)) none).node h q =
                  node h q := by
              rw [IdrTree.node_place, if_neg (by omega)]
              rfl
            obtain ⟨after, way, placed, rest, ran, sound⟩ := inductionHypothesis unlinked
              (above.congr fun h q higher => placed h q (by omega))
              ((placed _ _ (Nat.lt_succ_self level)).trans parent)
            refine ⟨after, way, placed, rest, ?_, sound⟩
            rw [IdrSlot.clear, Idr.assign_eq storedAfter, Option.bind_some]
            exact ran
      · rw [if_neg zero]
        refine ⟨_, _, node, free, rfl, ?_⟩
        exact counted

namespace Idr.Sound

theorem subRemove_spec (sound : idp.Sound node value free) (present : Present value id) :
    ∃ after placed rest, subRemove idp (idp.layers - 1) id = some after ∧
      after.Sound placed (Function.update value id none) rest := by
  have positive : 0 < idp.layers := by
    rcases sound.shaped.above 0 id present with ⟨below, -⟩ | ⟨-, below, -⟩
    · exact below
    · exact absurd below (Nat.lt_irrefl 0)
  obtain ⟨level, layers⟩ : ∃ level, idp.layers = level + 1 := ⟨idp.layers - 1, by omega⟩
  have first : idp.layers - 1 = level := by omega
  obtain ⟨top, here⟩ := sound.shaped.node_of_present present (h := level) (by omega)
  have shaped := sound.shaped
  rw [layers] at shaped
  have isTop : idp.top = some top := by
    rw [sound.rooted, layers, IdrTree.root, ← shaped.top_pos here]
    exact here
  have begins : idp.Laid (.emptying node value id level) free [] := by
    refine sound.congr_marked fun h pos below => ?_
    refine and_iff_left fun both => ?_
    omega
  obtain ⟨middle, leaf, way, went, emptied, slots, atLeaf⟩ :=
    removePath_spec begins present (.top layers.symm) here
  obtain ⟨layer, stored, shown⟩ := emptied.shows _ _ _ atLeaf
  have taken : slotTaken middle (some leaf) (id % 64) = some true := by
    rw [slotTaken, stored, Option.map_some]
    congr 1
    apply (shown.bitmap _ (Nat.mod_lt _ (by decide))).mpr
    rw [Radix.position_eq]
    exact ⟨Radix.full_zero.mpr present, fun both => absurd both.1 (Nat.lt_irrefl 0)⟩
  have out := emptied.takeOut present atLeaf stored
  obtain ⟨after, paa, placed, rest, ran, done⟩ := releaseEmpty_spec out slots
    (by rw [Nat.zero_add, Nat.pow_one]; exact atLeaf)
  refine ⟨_, placed, rest, ?_, done⟩
  simp only [subRemove, first, isTop, went, mask_eq, taken, Idr.assign_eq stored, ran,
    Option.bind_eq_bind, Option.bind_some, if_true]

end Idr.Sound

omit [DecidableEq Address] in
theorem IdrLayer.Shows.none_of_one {entries : Nat → Option (Option Address)} {marked : Nat → Prop}
    (shows : layer.Shows entries marked 0) (one : layer.count = 1) (first : (entries 0).isSome) :
    ∀ m < 64, m ≠ 0 → entries m = none := by
  obtain ⟨x, here⟩ := Option.isSome_iff_exists.mp first
  have dropped := (@drop _ layer entries (Function.update entries 0 none) _ _ 0 x shows (by decide)
    here (Function.update_self ..) fun m _ different => Function.update_of_ne different ..).decrease
  intro m small different
  have gone := dropped.eq_none_of_count (by simp [IdrLayer.setAry, one]) m small
  rwa [Function.update_of_ne different] at gone

namespace Idr.Sound

theorem dropTop_spec (sound : idp.Sound node value free) :
    ∃ after placed rest, dropTop idp = some after ∧ after.Sound placed value rest := by
  cases top : idp.top with
  | none => exact ⟨idp, node, free, by rw [dropTop, top], sound⟩
  | some p =>
      obtain ⟨level, layers⟩ : ∃ level, idp.layers = level + 1 := by
        have rooted := sound.rooted
        cases layers : idp.layers with
        | zero =>
            rw [layers, top] at rooted
            cases rooted
        | succ level => exact ⟨level, rfl⟩
      have here : node level 0 = some p := by
        have rooted := sound.rooted
        rw [layers, top] at rooted
        exact rooted.symm
      obtain ⟨layer, stored, shown⟩ := sound.shows _ _ _ here
      by_cases lonely : layer.count = 1 ∧ 1 < idp.layers ∧ (layer.ary 0).isSome
      · have ⟨one, several, childSome⟩ := lonely
        obtain ⟨h, rfl⟩ : ∃ h, level = h + 1 := ⟨level - 1, by omega⟩
        have entry := shown.ary 0 (by decide)
        rw [Nat.mul_zero, Nat.zero_add, IdrTree.join_entry_succ] at entry
        obtain ⟨child, childEq⟩ := Option.isSome_iff_exists.mp childSome
        rw [childEq] at entry
        have vacant := shown.none_of_one one (by
          rw [Nat.mul_zero, Nat.zero_add, IdrTree.isSome_entry_succ, ← entry]
          rfl)
        have empty := @IdrLayer.setAry_zero _ { layer with bitmap := 0, count := 0 } rfl rfl
          (shown.ary_none vacant)
        have self : (idp.withLayer p { layer with bitmap := 0, count := 0 }).memory p =
            some { layer with bitmap := 0, count := 0 } := Function.update_self ..
        have lowered := sound.lower layers here entry.symm fun m small different => by
          have gone := vacant m small different
          rwa [Nat.mul_zero, Nat.zero_add] at gone
        refine ⟨_, _, _, ?_, lowered⟩
        have twice : (idp.withLayer p { layer with bitmap := 0, count := 0 }).withFree p =
            idp.withFree p := by
          simp only [Idr.withLayer, Idr.withFree, Function.update_idem]
        simp only [dropTop, top, stored, Option.bind_eq_bind, Option.bind_some]
        refine (if_pos lonely).trans ?_
        rw [Idr.assign_eq stored, Option.bind_some, freeLayer_eq self empty, Option.bind_some, twice,
          childEq]
        simp only [Idr.withFree, layers, Nat.add_sub_cancel]
      · refine ⟨idp, node, free, ?_, sound⟩
        simp only [dropTop, top, stored, lonely, if_false, Option.bind_eq_bind, Option.bind_some]

theorem idrRemove_spec (sound : idp.Sound node value free) (present : Present value id) :
    ∃ after placed rest, idrRemove idp id = some after ∧
      after.Sound placed (Function.update value id none) rest := by
  have small : id < maxIdBit := by
    have few := Nat.pow_le_pow_right (show 0 < 64 by decide) sound.small
    have below := sound.shaped.position_lt (h := 0) present
    rw [Nat.sub_zero] at below
    unfold maxIdBit
    omega
  obtain ⟨middle, _, _, removed, emptied⟩ := sound.subRemove_spec present
  obtain ⟨low, placed, rest, dropped, done⟩ := emptied.dropTop_spec
  by_cases many : idrFreeMax ≤ low.idFreeCnt
  · cases rest with
    | nil =>
        rw [done.unused.counted, List.length_nil] at many
        exact absurd many (by decide)
    | cons a rest =>
        obtain ⟨last, allocated, laid, -, -, -⟩ := done.alloc
        refine ⟨cacheFree last a, placed, rest, ?_, laid.giveBack⟩
        simp only [idrRemove, maxIdMask_eq small, removed, dropped, many, allocated, if_true,
          Option.bind_eq_bind, Option.bind_some]
  · refine ⟨low, placed, rest, ?_, done⟩
    simp only [idrRemove, maxIdMask_eq small, removed, dropped, many, if_false,
      Option.bind_eq_bind, Option.bind_some]

theorem idrPreGet_spec (sound : idp.Sound node value free) {offers : List Address}
    (distinct : offers.Nodup) (unknown : ∀ a ∈ offers, idp.memory a = none) :
    ∃ after answer rest, idrPreGet idp offers = some (after, answer) ∧
      after.Sound node value rest ∧
        ((answer = 1 ∧ 12 ≤ rest.length) ∨
          (answer = 0 ∧ rest.length < 12 ∧ rest.length = free.length + offers.length)) := by
  have counted := sound.unused.counted
  induction offers generalizing idp free with
  | nil =>
      refine ⟨idp, _, free, rfl, sound, ?_⟩
      unfold idrFreeMax
      split
      · exact .inr ⟨rfl, by omega, rfl⟩
      · exact .inl ⟨rfl, by omega⟩
  | cons new offers inductionHypothesis =>
      by_cases few : idp.idFreeCnt < idrFreeMax
      · obtain ⟨freed, laid⟩ := sound.supply (unknown new List.mem_cons_self)
        have later : ∀ a ∈ offers, ((cacheAlloc idp new).withFree new).memory a = none := by
          intro a within
          have apart : a ≠ new := by
            rintro rfl
            exact (List.nodup_cons.mp distinct).1 within
          exact ((Function.update_of_ne apart ..).trans (Function.update_of_ne apart ..)).trans
            (unknown a (List.mem_cons_of_mem _ within))
        obtain ⟨after, answer, rest, ran, done⟩ := inductionHypothesis laid
          (List.nodup_cons.mp distinct).2 later laid.unused.counted
        refine ⟨after, answer, rest, ?_, done.1, done.2.imp_right fun ⟨zero, short, sum⟩ =>
          ⟨zero, short, by rw [sum, List.length_cons, List.length_cons]; omega⟩⟩
        simp only [idrPreGet, few, if_true, freed, Option.bind_eq_bind, Option.bind_some]
        exact ran
      · refine ⟨idp, 1, free, ?_, sound, .inl ⟨rfl, ?_⟩⟩
        · simp only [idrPreGet, few, if_false]
        · unfold idrFreeMax at few
          omega

end Idr.Sound

end Removing

end UtilsModules.Datastruct

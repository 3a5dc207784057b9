import Mathlib.Data.List.Induction
import UtilsModules.Datastruct.RbErase
import UtilsModules.Datastruct.RbInsert

/-!
Nodes come into the tree, leave it and take the place of others.
-/

namespace UtilsModules.Datastruct

open RedBlack RbTree RbPath

variable {Node : Type} [DecidableEq Node] {others : Node → Option (RbNode Node)}
  {side : Side} {own : Color} {tree left right child : RbTree Node} {item new : Node}
  {path rest : RbPath Node}

/-- Nodes inside the tree hide what else is said about them. -/
theorem treeMemory_congr {changed : Node → Option (RbNode Node)} (nodup : tree.inorder.Nodup)
    (same : ∀ item, item ∉ tree.inorder → changed item = others item) :
    treeMemory changed tree = treeMemory others tree := by
  obtain ⟨stored, root⟩ := @treeMemory_stored _ _ changed tree [] nodup
  refine @eq_treeMemory _ _ others tree [] _ nodup stored root fun item outside _ => ?_
  exact (treeMemory_outside outside).trans (same item outside)

theorem treeMemory_update_inside {first second : Option (RbNode Node)} (nodup : tree.inorder.Nodup)
    (within : new ∈ tree.inorder) :
    treeMemory (Function.update (Function.update others new first) item second) tree =
      treeMemory (Function.update others item second) tree := by
  refine treeMemory_congr nodup fun other outside => ?_
  have notNew : other ≠ new := by
    rintro rfl
    exact outside within
  by_cases isItem : other = item
  · rw [isItem, Function.update_self, Function.update_self]
  · rw [Function.update_of_ne isItem, Function.update_of_ne isItem, Function.update_of_ne notNew]

theorem splice_spec (nodup : (fill (sided side own nil item child) path).inorder.Nodup) :
    ∃ adopted,
      adopt (treeMemory others (fill (sided side own nil item child) path)) child.top
          (parent path) = some adopted ∧
        relink .left adopted (parent path) (some item) child.top =
          some (treeMemory (Function.update others item
            (some (RbNode.sided side (parent path) own none child.top))) (fill child path)) := by
  obtain ⟨stored, above⟩ := @treeMemory_stored _ _ others _ _ nodup
  have outside (other : Node) := @treeMemory_outside _ _ others
    (fill (sided side own nil item child) path) other
  simp only [mem_inorder_fill, mem_inorder_sided, inorder, List.not_mem_nil, false_or] at outside
  generalize treeMemory others (fill (sided side own nil item child) path) = memory
    at stored above outside ⊢
  obtain ⟨cell, -, childStored⟩ := stored_sided.mp stored
  rw [top_sided] at above
  obtain ⟨focusNodup, pathNodup, apart⟩ := nodup_fill.mp nodup
  simp only [nodup_sided, mem_inorder_sided, inorder, List.not_mem_nil, false_or] at focusNodup apart
  obtain ⟨⟨-, notChild⟩, -, childNodup, -⟩ := focusNodup
  obtain ⟨adopted, step1, root1, childStored1, same1⟩ :=
    adopt_spec (parent path) childNodup childStored
  obtain ⟨memory2, step2, above2, same2⟩ := @relink_spec _ _ path adopted item .left child.top
    pathNodup (apart item (Or.inl rfl))
    (above.congr (fun other within => same1 other fun inChild => apart other (Or.inr inChild) within)
      root1)
  refine ⟨adopted, step1, step2.trans (congrArg some ?_)⟩
  apply eq_treeMemory
  · exact (nodup_cut nodup).2
  · exact childStored1.congr fun other within => same2 other (apart other (Or.inr within))
  · exact above2
  · intro other notInChild notInPath
    rw [same2 other notInPath, same1 other notInChild]
    by_cases same : other = item
    · rw [same, Function.update_self, cell]
      rfl
    · rw [Function.update_of_ne same, outside other (by tauto)]

/-- A memory in which the links around `item` lead to `new`. -/
theorem eq_replaced {changed : RbMemory Node}
    (nodup : (fill (sided side own left item right) path).inorder.Nodup)
    (fresh : new ∉ (fill (sided side own left item right) path).inorder)
    (newCell : changed.nodes new =
      some (RbNode.sided side (parent path) own left.top right.top))
    (leftStored : Stored changed.nodes (some new) left)
    (rightStored : Stored changed.nodes (some new) right)
    (above : StoredPath changed (some new) path)
    (same : ∀ other, other ≠ new → other ∉ left.inorder → other ∉ right.inorder →
      other ∉ path.items → changed.nodes other =
        (treeMemory others (fill (sided side own left item right) path)).nodes other) :
    changed = treeMemory (Function.update others item
      (some (RbNode.sided side (parent path) own left.top right.top)))
        (fill (sided side own left new right) path) := by
  apply eq_treeMemory (nodup_replaced nodup fresh)
  · exact stored_sided.mpr ⟨newCell, leftStored, rightStored⟩
  · rwa [top_sided]
  · intro other notFocus notPath
    simp only [mem_inorder_sided, not_or] at notFocus
    rw [same other notFocus.2.1 notFocus.1 notFocus.2.2 notPath]
    by_cases isItem : other = item
    · rw [isItem, Function.update_self, treeMemory_cell nodup]
    · rw [Function.update_of_ne isItem, treeMemory_outside]
      simp only [mem_inorder_fill, mem_inorder_sided]
      tauto

theorem rbReplaceNode_spec (nodup : (fill (sided .left own left item right) path).inorder.Nodup)
    (fresh : new ∉ (fill (sided .left own left item right) path).inorder)
    (allocated : ∃ cell, others new = some cell) :
    rbReplaceNode (treeMemory others (fill (sided .left own left item right) path)) item new =
      some (treeMemory (Function.update others item
        (some (RbNode.sided .left (parent path) own left.top right.top)))
          (fill (sided .left own left new right) path)) := by
  have replaced (changed : RbMemory Node) := @eq_replaced _ _ others .left own left right item new
    path changed nodup fresh
  obtain ⟨stored, above⟩ := @treeMemory_stored _ _ others _ _ nodup
  obtain ⟨newGarbage, newHeld⟩ := allocated
  rw [← @treeMemory_outside _ _ others _ _ fresh] at newHeld
  generalize treeMemory others (fill (sided .left own left item right) path) = memory
    at stored above newHeld replaced ⊢
  obtain ⟨cell, leftStored, rightStored⟩ := stored_sided.mp stored
  rw [top_sided] at above
  obtain ⟨focusNodup, pathNodup, apart⟩ := nodup_fill.mp nodup
  simp only [nodup_sided, mem_inorder_sided] at focusNodup apart
  obtain ⟨⟨notLeft, notRight⟩, leftNodup, rightNodup, disjoint⟩ := focusNodup
  simp only [mem_inorder_fill, mem_inorder_sided, not_or] at fresh
  obtain ⟨⟨newNotLeft, newNotItem, newNotRight⟩, newNotPath⟩ := fresh
  -- the link from above
  obtain ⟨memory1, step1, above1, same1⟩ := @relink_spec _ _ path memory item .left (some new)
    pathNodup (apart item (by tauto)) above
  have cell1 := (same1 item (apart item (by tauto))).trans cell
  -- `victim->rb_left->rb_parent = new`
  have left1 : Stored memory1.nodes (some item) left :=
    leftStored.congr fun other within => same1 other (apart other (Or.inl within))
  obtain ⟨memory2, step2, root2, left2, same2⟩ := adopt_spec (some new) leftNodup left1
  -- `victim->rb_right->rb_parent = new`
  have right2 : Stored memory2.nodes (some item) right := rightStored.congr fun other within => by
    rw [same2 other (by grind), same1 other (by grind)]
  obtain ⟨memory3, step3, root3, right3, same3⟩ := adopt_spec (some new) rightNodup right2
  have cell3 := (same3 item notRight).trans ((same2 item notLeft).trans cell1)
  -- `*new = *victim`
  obtain ⟨memory4, step4, root4, new4, same4⟩ := @assign_cell _ _ memory3 new newGarbage
    (fun _ => RbNode.sided .left (parent path) own left.top right.top)
    (by rw [same3 new newNotRight, same2 new newNotLeft, same1 new newNotPath, newHeld])
  have runs : rbReplaceNode memory item new = some memory4 := by
    simp only [rbReplaceNode, cell, cell1, cell3, step1, step2, step3, step4,
      RbNode.sided_rbParent, RbNode.sided_rbLeft, RbNode.sided_rbRight, Option.bind_eq_bind,
      Option.bind_some]
  rw [runs, Option.some.injEq]
  apply replaced memory4 new4
  · refine left2.congr fun other within => ?_
    rw [same4 other (by grind), same3 other (disjoint other within)]
  · exact right3.congr fun other within => same4 other (by grind)
  · refine above1.congr (fun other within => ?_) (by rw [root4, root3, root2])
    rw [same4 other (by grind), same3 other (by grind), same2 other (by grind)]
  · intro other notNew notInLeft notInRight notInPath
    rw [same4 other notNew, same3 other notInRight, same2 other notInLeft, same1 other notInPath]

theorem erase_replaces {garbage : RbNode Node}
    (nodup : (fill (sided .left own left item right) path).inorder.Nodup)
    (fresh : new ∉ (fill (sided .left own left item right) path).inorder) {leftRoot : Node}
    (leftTop : left.top = some leftRoot) :
    ∃ memory1 memory2 memory3,
      (treeMemory (Function.update others new (some garbage))
          (fill (sided .left own left item right) path)).assign (some new)
          (fun _ => ⟨parent path, own, right.top, left.top⟩) = some memory1 ∧
        relink .left memory1 (parent path) (some item) (some new) = some memory2 ∧
        memory2.nodes item = some (RbNode.sided .left (parent path) own left.top right.top) ∧
        setParent memory2 left.top (some new) = some memory3 ∧
        adopt memory3 right.top (some new) = some (treeMemory (Function.update others item
          (some (RbNode.sided .left (parent path) own left.top right.top)))
            (fill (sided .left own left new right) path)) := by
  have replaced (changed : RbMemory Node) := @eq_replaced _ _
    (Function.update others new (some garbage)) .left own left right item new path changed nodup fresh
  rw [treeMemory_update_inside (nodup_replaced nodup fresh)
    (mem_inorder_fill.mpr (Or.inl (mem_of_top (top_sided ..))))] at replaced
  obtain ⟨stored, above⟩ := @treeMemory_stored _ _ (Function.update others new (some garbage)) _ _
    nodup
  have newHeld := (@treeMemory_outside _ _ (Function.update others new (some garbage)) _ _
    fresh).trans (Function.update_self ..)
  generalize treeMemory (Function.update others new (some garbage))
    (fill (sided .left own left item right) path) = memory at stored above newHeld replaced ⊢
  obtain ⟨cell, leftStored, rightStored⟩ := stored_sided.mp stored
  rw [top_sided] at above
  obtain ⟨focusNodup, pathNodup, apart⟩ := nodup_fill.mp nodup
  simp only [nodup_sided, mem_inorder_sided] at focusNodup apart
  obtain ⟨⟨notLeft, notRight⟩, leftNodup, rightNodup, disjoint⟩ := focusNodup
  simp only [mem_inorder_fill, mem_inorder_sided, not_or] at fresh
  obtain ⟨⟨newNotLeft, newNotItem, newNotRight⟩, newNotPath⟩ := fresh
  -- the four fields of `old`
  obtain ⟨memory1, step1, root1, new1, same1⟩ := assign_cell
    (fun _ => ⟨parent path, own, right.top, left.top⟩) newHeld
  -- the link from above
  obtain ⟨memory2, step2, above2, same2⟩ := @relink_spec _ _ path memory1 item .left (some new)
    pathNodup (apart item (by tauto))
    (above.congr (fun other within => same1 other (by grind)) root1)
  have cell2 : memory2.nodes item =
      some (RbNode.sided .left (parent path) own left.top right.top) := by
    rw [same2 item (apart item (by tauto)), same1 item (Ne.symm newNotItem), cell]
  -- `old->rb_left->rb_parent = node`
  have left2 : Stored memory2.nodes (some item) left := leftStored.congr fun other within => by
    rw [same2 other (by grind), same1 other (by grind)]
  obtain ⟨memory3, step3, root3, left3, same3⟩ := adopt_spec (some new) leftNodup left2
  rw [leftTop] at step3
  -- `old->rb_right->rb_parent = node`
  have right3 : Stored memory3.nodes (some item) right := rightStored.congr fun other within => by
    rw [same3 other (by grind), same2 other (by grind), same1 other (by grind)]
  obtain ⟨memory4, step4, root4, right4, same4⟩ := adopt_spec (some new) rightNodup right3
  refine ⟨memory1, memory2, memory3, step1, step2, cell2, leftTop ▸ step3, step4.trans ?_⟩
  rw [Option.some.injEq]
  apply replaced memory4
  · rw [same4 new newNotRight, same3 new newNotLeft, same2 new newNotPath, new1]
    rfl
  · exact left3.congr fun other within => same4 other (disjoint other within)
  · exact right4
  · refine above2.congr (fun other within => ?_) (by rw [root4, root3])
    rw [same4 other (by grind), same3 other (by grind)]
  · intro other notNew notInLeft notInRight notInPath
    rw [same4 other notInRight, same3 other notInLeft, same2 other notInPath, same1 other notNew]

theorem descend_spec {spine : RbPath Node} {far : RbTree Node} {root : Node} {rounds : Nat}
    (nodup : (fill (fill (sided side own nil item far) spine) path).inorder.Nodup)
    (straight : spine.Straight side)
    (top : (fill (sided side own nil item far) spine).top = some root)
    (enough : spine.length < rounds) :
    descend side (treeMemory others (fill (fill (sided side own nil item far) spine) path))
      rounds root = some item := by
  induction spine using List.reverseRecOn generalizing path root rounds with
  | nil =>
      obtain ⟨rounds, rfl⟩ : ∃ more, rounds = more + 1 := ⟨rounds - 1, by omega⟩
      obtain rfl : item = root := by
        rw [fill, top_sided] at top
        exact Option.some.inj top
      have cell := @treeMemory_cell _ _ others path _ _ _ _ _ nodup
      simp only [fill, descend, cell, Option.bind_eq_bind, Option.bind_some, RbNode.sided_child]
      rfl
  | append_singleton spine frame inductionHypothesis =>
      obtain ⟨rounds, rfl⟩ : ∃ more, rounds = more + 1 := ⟨rounds - 1, by omega⟩
      obtain ⟨frameSide, frameColor, frameItem, sibling⟩ := frame
      obtain rfl : frameSide = side := straight _ (List.mem_append_right _ List.mem_cons_self)
      rw [fill_append] at nodup top ⊢
      obtain rfl : frameItem = root := by
        simp only [fill, Frame.plug, top_sided] at top
        exact Option.some.inj top
      have cell := @treeMemory_cell _ _ others path _ _ _ _ _ nodup
      obtain ⟨below, belowTop⟩ := @RbTree.exists_top _ (fill (sided frameSide own nil item far) spine)
        item (mem_inorder_fill.mpr (Or.inl (mem_of_top (top_sided ..))))
      rw [belowTop] at cell
      have fewer : spine.length < rounds := by
        simp only [List.length_append, List.length_singleton] at enough
        omega
      have runs := @inductionHypothesis (⟨frameSide, frameColor, frameItem, sibling⟩ :: path) below
        rounds nodup (fun frame within => straight frame (List.mem_append_left _ within)) belowTop
        fewer
      simp only [fill, Frame.plug] at runs ⊢
      simp only [descend, cell, Option.bind_eq_bind, Option.bind_some, RbNode.sided_child, runs]

theorem removed_spec {count rounds : Nat} {shade : Color}
    (nodup : (fill child path).inorder.Nodup) (balanced : path.Balanced count)
    (focus : (sided side shade nil item child).Balanced count) (enough : path.length < rounds) :
    (if shade = .black then
        rbEraseColor rounds (treeMemory others (fill child path)) child.top (parent path)
      else some (treeMemory others (fill child path))) =
      some (treeMemory others (removed shade child path)) := by
  cases shade with
  | red => rfl
  | black =>
      obtain ⟨below, rfl⟩ := Balanced.pos focus
      rw [if_pos rfl, removed, if_pos rfl]
      exact rbEraseColor_spec nodup balanced (balanced_black_iff.mp focus).2.short enough

/-- A node with at most one child is cut out and the tree repaired. -/
theorem rbErase_single {rounds : Nat}
    (sound : (fill (sided side own nil item child) path).Sound)
    (nodup : (fill (sided side own nil item child) path).inorder.Nodup)
    (enough : path.length < rounds) :
    ∃ cell, rbErase rounds (treeMemory others (fill (sided side own nil item child) path)) item =
      some (treeMemory (Function.update others item (some cell)) (removed own child path)) ∧
      (removed own child path).Sound := by
  obtain ⟨count, pathBalanced, focusBalanced, -, atRoot⟩ := balanced_of_sound sound
  have cell := @treeMemory_cell _ _ others path _ _ _ _ _ nodup
  obtain ⟨adopted, step1, step2⟩ := @splice_spec _ _ others side own child item path nodup
  have repaired := @removed_spec _ _ (Function.update others item
    (some (RbNode.sided side (parent path) own none child.top))) side child item path count rounds
    own (nodup_cut nodup).2 pathBalanced focusBalanced enough
  obtain ⟨single, chosen⟩ := RbNode.single_child side (parent path) own child.top
  refine ⟨RbNode.sided side (parent path) own none child.top, ?_, ?_⟩
  · change _ = some (RbNode.sided side (parent path) own none child.top) at cell
    simp only [rbErase, cell, Option.bind_eq_bind, Option.bind_some]
    simp only [if_pos single, chosen, RbNode.sided_rbParent, RbNode.sided_rbColor, step1, step2,
      Option.bind_some, repaired]
  · apply removed_sound pathBalanced focusBalanced
    intro root
    have black := atRoot root
    rwa [color_sided] at black

theorem parent_exchanged {spine : RbPath Node} {last : Node}
    (nodup : (items (spine ++ ⟨.right, own, item, left⟩ :: rest)).Nodup) :
    (if parent (spine ++ ⟨.right, own, item, left⟩ :: rest) = some item then some last
      else parent (spine ++ ⟨.right, own, item, left⟩ :: rest)) =
      parent (spine ++ ⟨.right, own, last, left⟩ :: rest) := by
  cases spine with
  | nil => simp
  | cons frame spine =>
      have different : frame.item ≠ item := by
        rintro rfl
        rw [items_append, List.nodup_append] at nodup
        exact nodup.2.2 frame.item List.mem_cons_self frame.item List.mem_cons_self rfl
      simp [different]

/-- The successor is cut out, takes the place of the node, and the tree is
repaired where the successor was. -/
theorem rbErase_double {rounds : Nat} {spine : RbPath Node} {shade : Color} {last leftRoot : Node}
    {far : RbTree Node}
    (sound : (fill (sided .left own left item (fill (sided .left shade nil last far) spine))
      rest).Sound)
    (nodup : (fill (sided .left own left item (fill (sided .left shade nil last far) spine))
      rest).inorder.Nodup)
    (straight : spine.Straight .left) (leftTop : left.top = some leftRoot)
    (enough : (spine ++ ⟨.right, own, item, left⟩ :: rest).length < rounds) :
    ∃ cell, rbErase rounds (treeMemory others (fill (sided .left own left item
        (fill (sided .left shade nil last far) spine)) rest)) item =
      some (treeMemory (Function.update others item (some cell))
        (removed shade far (spine ++ ⟨.right, own, last, left⟩ :: rest))) ∧
      (removed shade far (spine ++ ⟨.right, own, last, left⟩ :: rest)).Sound := by
  obtain ⟨root, rightTop⟩ := @RbTree.exists_top _ (fill (sided .left shade nil last far) spine) last
    (mem_inorder_fill.mpr (Or.inl (mem_of_top (top_sided ..))))
  have itemCell := @treeMemory_cell _ _ others _ _ _ _ _ _ nodup
  have fewer : spine.length < rounds := by
    simp only [List.length_append, List.length_cons] at enough
    omega
  have found : descend .left (treeMemory others (fill (sided .left own left item
      (fill (sided .left shade nil last far) spine)) rest)) rounds root = some last :=
    @descend_spec _ _ others .left shade last (⟨.right, own, item, left⟩ :: rest) spine far root
      rounds nodup straight rightTop fewer
  rw [← fill_spine] at sound nodup
  obtain ⟨count, pathBalanced, focusBalanced, -, -⟩ := balanced_of_sound sound
  have lastCell := @treeMemory_cell _ _ others _ _ _ _ _ _ nodup
  obtain ⟨adopted, step1, step2⟩ := @splice_spec _ _ others .left shade far last _ nodup
  have exchanged := @parent_exchanged _ _ own left item rest spine last (nodup_fill.mp nodup).2.1
  obtain ⟨lastOutside, nodup1⟩ := nodup_cut nodup
  -- the successor still has its old fields
  have nodeCell := (@treeMemory_outside _ _ (Function.update others last (some (RbNode.sided .left
    (parent (spine ++ ⟨.right, own, item, left⟩ :: rest)) shade none far.top))) _ _
      lastOutside).trans (Function.update_self ..)
  rw [fill_spine] at lastOutside nodup1 nodeCell step1 step2 lastCell
  have oldCell := @treeMemory_cell _ _ (Function.update others last (some (RbNode.sided .left
    (parent (spine ++ ⟨.right, own, item, left⟩ :: rest)) shade none far.top))) _ _ _ _ _ _ nodup1
  obtain ⟨memory1, memory2, memory3, step3, step4, itemCell2, step5, step6⟩ :=
    @erase_replaces _ _ others own left (fill far spine) item last rest (RbNode.sided .left
      (parent (spine ++ ⟨.right, own, item, left⟩ :: rest)) shade none far.top) nodup1 lastOutside
      leftRoot leftTop
  have nodup2 := nodup_replaced nodup1 lastOutside
  rw [← fill_spine] at nodup2 step6
  have repaired := @removed_spec _ _ (Function.update others item (some (RbNode.sided .left
    (parent rest) own left.top (fill far spine).top))) .left far last _ count rounds shade nodup2
    pathBalanced.rename focusBalanced (by simpa using enough)
  refine ⟨RbNode.sided .left (parent rest) own left.top (fill far spine).top, ?_,
    removed_sound pathBalanced.rename focusBalanced (by simp)⟩
  have notSingle : ¬ ((RbNode.sided .left (parent rest) own left.top
        (fill (sided .left shade nil last far) spine).top).rbLeft = none ∨
      (RbNode.sided .left (parent rest) own left.top
        (fill (sided .left shade nil last far) spine).top).rbRight = none) := by
    simp [leftTop, rightTop]
  simp only [rbErase, itemCell, Option.bind_eq_bind, Option.bind_some]
  refine (if_neg notSingle).trans ?_
  simp only [RbNode.sided_rbRight]
  simp only [rightTop, Option.bind_some, found, lastCell, RbNode.sided_rbRight,
    RbNode.sided_rbParent, RbNode.sided_rbColor, step1, step2, nodeCell, exchanged, oldCell]
  simp only [RbNode.sided_rbLeft, step3, step4, itemCell2, step5, RbNode.sided_rbRight, step6,
    Option.bind_some, repaired]

/-- `rb_erase` leaves a red-black tree without the node. -/
theorem rbErase_spec {rounds : Nat} (sound : tree.Sound) (nodup : tree.inorder.Nodup)
    (within : item ∈ tree.inorder) (enough : tree.height ≤ rounds) :
    ∃ cell after, rbErase rounds (treeMemory others tree) item =
        some (treeMemory (Function.update others item (some cell)) after) ∧
      after.Sound ∧ after.inorder = tree.inorder.erase item := by
  obtain ⟨path, own, left, right, rfl⟩ := exists_focus within
  change (fill (sided .left own left item right) path).Sound at sound
  change (fill (sided .left own left item right) path).inorder.Nodup at nodup
  have short : path.length < rounds := by
    have high := length_add_height_le (node own left item right) path
    simp only [height] at high
    omega
  cases leftTop : left.top with
  | none =>
      rw [top_eq_none_iff] at leftTop
      subst leftTop
      obtain ⟨cell, runs, soundAfter⟩ := @rbErase_single _ _ others .left own right item path rounds
        sound nodup short
      refine ⟨cell, _, runs, soundAfter, ?_⟩
      rw [inorder_removed]
      exact @inorder_fill_erase _ _ _ _ _ path [] right.inorder nodup rfl rfl
  | some leftRoot =>
      cases rightTop : right.top with
      | none =>
          rw [top_eq_none_iff] at rightTop
          subst rightTop
          obtain ⟨cell, runs, soundAfter⟩ := @rbErase_single _ _ others .right own left item path
            rounds sound nodup short
          refine ⟨cell, _, runs, soundAfter, ?_⟩
          rw [inorder_removed]
          exact @inorder_fill_erase _ _ _ _ _ path left.inorder [] nodup rfl (by simp)
      | some rightRoot =>
          obtain ⟨spine, shade, last, far, straight, shape⟩ := exists_straight .left rightTop
          subst shape
          have below : (spine ++ ⟨.right, own, item, left⟩ :: path).length < rounds := by
            have high := length_add_height_le (sided .left shade nil last far)
              (spine ++ ⟨.right, own, item, left⟩ :: path)
            rw [fill_spine] at high
            have one : 1 ≤ (sided .left shade nil last far).height := by simp [sided, height]
            have same : (fill (sided .left own left item (fill (sided .left shade nil last far)
              spine)) path).height ≤ rounds := enough
            omega
          obtain ⟨cell, runs, soundAfter⟩ := @rbErase_double _ _ others own left item path rounds
            spine shade last leftRoot far sound nodup straight leftTop below
          refine ⟨cell, _, runs, soundAfter, ?_⟩
          rw [inorder_removed, fill_spine]
          refine @inorder_fill_erase _ _ _ _ _ path left.inorder
            (last :: (fill far spine).inorder) nodup ?_ rfl
          exact congrArg (fun behind => left.inorder ++ item :: behind)
            (@along_straight _ .left shade last far spine straight)

theorem exists_empty_focus {link : RbLink Node} (nodup : tree.inorder.Nodup)
    (inTree : ∀ above ∈ link.parent, above ∈ tree.inorder)
    (empty : link.read (treeMemory others tree) = some none) :
    ∃ path, tree = fill nil path ∧ link = linkOf path := by
  cases link with
  | root =>
      have top : tree.top = none := Option.some.inj empty
      exact ⟨[], top_eq_none_iff.mp top, rfl⟩
  | child side above =>
      obtain ⟨path, own, left, right, rfl⟩ := exists_focus (inTree above rfl)
      obtain ⟨near, far, shape⟩ := @exists_sided _ side (node own left above right) above rfl
      rw [shape] at nodup empty ⊢
      have cell := @treeMemory_cell _ _ others path _ _ _ _ _ nodup
      simp only [RbLink.read, cell, Option.bind_eq_bind, Option.bind_some, RbNode.sided_child,
        Option.some.injEq] at empty
      rw [top_eq_none_iff] at empty
      rw [empty]
      exact ⟨⟨side, _, above, far⟩ :: path, rfl, rfl⟩

theorem rbLinkNode_spec (nodup : (fill nil path).inorder.Nodup)
    (fresh : new ∉ (fill nil path).inorder) (allocated : ∃ cell, others new = some cell) :
    rbLinkNode (treeMemory others (fill nil path)) new (parent path) (linkOf path) =
      some (treeMemory others (fill (sided .left .red nil new nil) path)) := by
  have linked : (fill (sided .left .red nil new nil) path).inorder.Nodup := nodup_leaf nodup fresh
  have distinct := (nodup_fill.mp nodup).2.1
  obtain ⟨-, above⟩ := @treeMemory_stored _ _ others _ _ nodup
  have outside (item : Node) := @treeMemory_outside _ _ others (fill nil path) item
  simp only [mem_inorder_fill, inorder, List.not_mem_nil, false_or] at outside fresh
  obtain ⟨garbage, held⟩ := allocated
  rw [← outside new fresh] at held
  generalize treeMemory others (fill nil path) = memory at above outside held ⊢
  obtain ⟨memory1, step1, root1, new1, same1⟩ :=
    assign_cell (fun _ => ⟨parent path, .red, none, none⟩) held
  have above1 : StoredPath memory1 none path :=
    above.congr (fun item within => same1 item (by rintro rfl; exact fresh within)) root1
  have written : ∃ memory2, (linkOf path).write memory1 new = some memory2 ∧
      StoredPath memory2 (some new) path ∧
        ∀ item, item ∉ path.items → memory2.nodes item = memory1.nodes item := by
    cases path with
    | nil => exact ⟨_, rfl, rfl, fun _ _ => rfl⟩
    | cons frame rest => exact setChild_above (some new) distinct above1
  obtain ⟨memory2, step2, above2, same2⟩ := written
  have runs : rbLinkNode memory new (parent path) (linkOf path) = some memory2 := by
    simp only [rbLinkNode, step1, step2, Option.bind_eq_bind, Option.bind_some]
  rw [runs, Option.some.injEq]
  apply eq_treeMemory linked
  · refine stored_sided.mpr ⟨?_, trivial, trivial⟩
    rw [same2 new fresh, new1]
    rfl
  · exact above2
  · intro item notFocus notPath
    have notNew : item ≠ new := by
      rintro rfl
      exact notFocus (by simp [mem_inorder_sided])
    rw [same2 item notPath, same1 item notNew, outside item notPath]

end UtilsModules.Datastruct

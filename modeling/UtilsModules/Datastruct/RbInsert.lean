import UtilsModules.Datastruct.RbLayout

/-!
`rb_insert_color` repairs the tree in memory as `insertRepair` repairs a tree.
-/

namespace UtilsModules.Datastruct

open RedBlack RbTree RbPath

variable {Node : Type} [DecidableEq Node] {others : Node → Option (RbNode Node)}
  {tree : RbTree Node} {node : Node} {parent grand : Frame Node} {rest : RbPath Node}

theorem rbInsertColorSide_red
    (nodup : (fill tree (parent :: grand :: rest)).inorder.Nodup)
    (uncleRed : grand.sibling.color = .red) :
    rbInsertColorSide grand.side (treeMemory others (fill tree (parent :: grand :: rest)))
        node parent.item grand.item =
      some (treeMemory others (fill (sided grand.side .red ((parent.plug tree).paint .black)
        grand.item (grand.sibling.paint .black)) rest), grand.item) := by
  obtain ⟨uncle, uncleTop⟩ := exists_top_of_red uncleRed
  have nodup1 : (fill (sided grand.side grand.color (parent.plug tree) grand.item
      (grand.sibling.paint .black)) rest).inorder.Nodup := by
    rwa [inorder_fill_congr rest (inorder_sided_congr rfl (inorder_paint _ _))]
  have nodup2 : (fill (sided grand.side grand.color ((parent.plug tree).paint .black) grand.item
      (grand.sibling.paint .black)) rest).inorder.Nodup := by
    rwa [inorder_fill_congr rest (inorder_sided_congr (inorder_paint _ _) rfl)]
  have cell := @treeMemory_cell _ _ others rest _ _ _ _ _ nodup
  have red := @isRed_far _ _ others rest _ _ _ _ _ nodup
  have step1 := @setColor_far _ _ others rest _ _ _ _ _ _ .black nodup uncleTop
  have step2 := @setColor_near _ _ others rest _ _ _ _ _ parent.item .black nodup1 (top_sided ..)
  have step3 := @setColor_self _ _ others rest _ _ _ _ _ .red nodup2
  rw [uncleRed, uncleTop] at red
  simp only [fill, Frame.plug] at cell red step1 step2 step3 ⊢
  simp only [rbInsertColorSide, cell, Option.bind_eq_bind, Option.bind_some,
    RbNode.sided_child_other, red, decide_true, if_true, uncleTop, step1, step2, step3]

variable {side : Side} {own shade tint : Color} {sibling uncle near far : RbTree Node} {upper top : Node}

theorem rbInsertColorSide_straight (root : tree.top = some node)
    (nodup : (fill (sided side own (sided side shade tree upper sibling) top uncle)
      rest).inorder.Nodup)
    (uncleBlack : uncle.color ≠ .red) :
    rbInsertColorSide side (treeMemory others
        (fill (sided side own (sided side shade tree upper sibling) top uncle) rest)) node upper top =
      some (treeMemory others
        (fill (sided side .black tree upper (sided side .red sibling top uncle)) rest), node) := by
  have outside : sibling.top ≠ some node :=
    @far_top_ne _ _ _ _ _ _ _ (⟨side, own, top, uncle⟩ :: rest) nodup root
  have nodup1 : (fill (sided side own (sided side .black tree upper sibling) top uncle)
      rest).inorder.Nodup := by
    rwa [inorder_fill_congr rest (inorder_sided_congr (inorder_sided_congr rfl rfl) rfl)]
  have nodup2 : (fill (sided side .red (sided side .black tree upper sibling) top uncle)
      rest).inorder.Nodup := by
    rwa [inorder_fill_congr rest (inorder_sided_congr rfl rfl)]
  have topCell := @treeMemory_cell _ _ others rest _ _ _ _ _ nodup
  have red := @isRed_far _ _ others rest _ _ _ _ _ nodup
  have upperCell := @treeMemory_cell _ _ others (⟨side, own, top, uncle⟩ :: rest) _ _ _ _ _ nodup
  have step1 := @setColor_near _ _ others rest _ _ _ _ _ upper .black nodup (top_sided ..)
  have step2 := @setColor_self _ _ others rest _ _ _ _ _ .red nodup1
  have step3 := @rbRotate_other_spec _ _ others rest _ _ _ _ _ _ _ _ nodup2
  rw [decide_eq_false uncleBlack] at red
  rw [paint_sided] at step1
  simp only [fill, Frame.plug] at upperCell
  simp only [rbInsertColorSide, topCell, upperCell, Option.bind_eq_bind, Option.bind_some,
    RbNode.sided_child_other, red, Bool.false_eq_true, if_false, outside, step1, step2, step3]

/-- A black uncle and an inner child: two rotations. -/
theorem rbInsertColorSide_bent
    (nodup : (fill (sided side own (sided side.other shade (sided side tint near node far) upper
      sibling) top uncle) rest).inorder.Nodup)
    (uncleBlack : uncle.color ≠ .red) :
    rbInsertColorSide side (treeMemory others (fill (sided side own
        (sided side.other shade (sided side tint near node far) upper sibling) top uncle) rest))
        node upper top =
      some (treeMemory others (fill (sided side .black (sided side shade sibling upper near) node
        (sided side .red far top uncle)) rest), upper) := by
  rw [sided_other] at nodup ⊢
  have nodup1 : (fill (sided side own (sided side tint (sided side shade sibling upper near) node far)
      top uncle) rest).inorder.Nodup := by
    rwa [← rotate_sided side shade tint sibling near far upper node,
      inorder_fill_congr rest (inorder_sided_congr (inorder_rotate _ _) rfl)]
  have nodup2 : (fill (sided side own (sided side .black (sided side shade sibling upper near) node
      far) top uncle) rest).inorder.Nodup := by
    rwa [inorder_fill_congr rest (inorder_sided_congr (inorder_sided_congr rfl rfl) rfl)]
  have nodup3 : (fill (sided side .red (sided side .black (sided side shade sibling upper near) node
      far) top uncle) rest).inorder.Nodup := by
    rwa [inorder_fill_congr rest (inorder_sided_congr rfl rfl)]
  have topCell := @treeMemory_cell _ _ others rest _ _ _ _ _ nodup
  have red := @isRed_far _ _ others rest _ _ _ _ _ nodup
  have upperCell := @treeMemory_cell _ _ others (⟨side, own, top, uncle⟩ :: rest) _ _ _ _ _ nodup
  have step1 := @rbRotate_spec _ _ others (⟨side, own, top, uncle⟩ :: rest) _ _ _ _ _ _ _ _ nodup
  have step2 := @setColor_near _ _ others rest _ _ _ _ _ node .black nodup1 (top_sided ..)
  have step3 := @setColor_self _ _ others rest _ _ _ _ _ .red nodup2
  have step4 := @rbRotate_other_spec _ _ others rest _ _ _ _ _ _ _ _ nodup3
  rw [decide_eq_false uncleBlack] at red
  rw [paint_sided] at step2
  simp only [fill, Frame.plug, top_sided] at upperCell step1
  simp only [rbInsertColorSide, topCell, upperCell, Option.bind_eq_bind, Option.bind_some,
    RbNode.sided_child_other, red, Bool.false_eq_true, if_false, if_true, step1, step2, step3, step4]

theorem rbInsertColorLoop_stop {rounds : Nat} {path : RbPath Node} (root : tree.top = some node)
    (nodup : (fill tree path).inorder.Nodup) (black : path.color = .black) :
    rbInsertColorLoop (rounds + 1) (treeMemory others (fill tree path)) node =
      some (treeMemory others (fill tree path)) := by
  obtain ⟨near, far, shape⟩ := exists_sided .left root
  rw [shape] at nodup ⊢
  have cell := @treeMemory_cell _ _ others path _ _ _ _ _ nodup
  cases path with
  | nil => simp [rbInsertColorLoop, cell, RbPath.parent]
  | cons frame rest =>
      have parentCell := @treeMemory_cell _ _ others rest _ _ _ _ _ nodup
      change frame.color = .black at black
      simp only [fill, Frame.plug] at cell
      simp only [fill, Frame.plug, rbInsertColorLoop, cell, parentCell, Option.bind_eq_bind,
        Option.bind_some, RbNode.sided_rbParent, RbNode.sided_rbColor, parent_cons]
      exact if_neg (by simp [black])

theorem rbInsertColorLoop_red {rounds : Nat} (root : tree.top = some node)
    (nodup : (fill tree (parent :: grand :: rest)).inorder.Nodup) (red : parent.color = .red) :
    rbInsertColorLoop (rounds + 1) (treeMemory others (fill tree (parent :: grand :: rest))) node =
      (rbInsertColorSide grand.side (treeMemory others (fill tree (parent :: grand :: rest)))
        node parent.item grand.item).bind fun (memory, node) =>
          rbInsertColorLoop rounds memory node := by
  obtain ⟨near, far, shape⟩ := exists_sided .left root
  have notUncle : grand.sibling.top ≠ some parent.item :=
    @far_top_ne _ _ _ _ _ _ _ rest nodup (top_sided ..)
  have cell := @treeMemory_cell _ _ others (parent :: grand :: rest) .left tree.color near far node
    (by rwa [← shape])
  have parentCell := @treeMemory_cell _ _ others (grand :: rest) _ _ _ _ _ nodup
  have grandCell := @treeMemory_cell _ _ others rest _ _ _ _ _ nodup
  rw [← shape] at cell
  simp only [fill, Frame.plug] at cell parentCell grandCell
  simp only [rbInsertColorLoop, fill, Frame.plug, cell, parentCell, grandCell, parent_cons,
    Option.bind_eq_bind, Option.bind_some, RbNode.sided_rbParent, RbNode.sided_rbColor]
  rw [if_pos red]
  exact branch_eq notUncle (top_sided ..) fun side =>
    (rbInsertColorSide side _ node parent.item grand.item).bind fun (memory, node) =>
      rbInsertColorLoop rounds memory node

theorem rbInsertColorLoop_spec {path : RbPath Node} {count rounds : Nat}
    (root : tree.top = some node) (nodup : (fill tree path).inorder.Nodup)
    (balanced : path.Balanced count) (enough : path.length / 2 < rounds) :
    ∃ repaired, rbInsertColorLoop rounds (treeMemory others (fill tree path)) node =
        some (treeMemory others repaired) ∧ repaired.paint .black = insertRepair tree path := by
  induction tree, path using insertRepair.induct generalizing node count rounds with
  | case1 tree =>
      obtain ⟨rounds, rfl⟩ : ∃ more, rounds = more + 1 := ⟨rounds - 1, by omega⟩
      exact ⟨tree, rbInsertColorLoop_stop root nodup rfl, rfl⟩
  | case2 tree parent =>
      obtain ⟨rounds, rfl⟩ : ∃ more, rounds = more + 1 := ⟨rounds - 1, by omega⟩
      refine ⟨fill tree [parent], rbInsertColorLoop_stop root nodup ?_, rfl⟩
      cases balanced with
      | black _ _ => rfl
  | case3 tree parent grand rest black =>
      obtain ⟨rounds, rfl⟩ : ∃ more, rounds = more + 1 := ⟨rounds - 1, by omega⟩
      refine ⟨_, rbInsertColorLoop_stop root nodup black, ?_⟩
      rw [insertRepair, if_pos black]
  | case4 tree parent grand rest notBlack uncleRed inductionHypothesis =>
      obtain ⟨rounds, rfl⟩ : ∃ more, rounds = more + 1 := ⟨rounds - 1, by omega⟩
      have moved : (fill (sided grand.side .red ((parent.plug tree).paint .black) grand.item
          (grand.sibling.paint .black)) rest).inorder.Nodup := by
        rwa [inorder_fill_congr rest (inorder_sided_congr (inorder_paint _ _) (inorder_paint _ _))]
      obtain ⟨_, parentBalanced⟩ := balanced.rest
      obtain ⟨above, restBalanced⟩ := parentBalanced.rest
      rw [insertRepair, if_neg notBlack, if_pos uncleRed]
      have fewer : rest.length / 2 < rounds := by
        simp only [List.length_cons] at enough
        omega
      obtain ⟨repaired, runs, same⟩ := inductionHypothesis (top_sided ..) moved restBalanced fewer
      refine ⟨repaired, ?_, same⟩
      rw [rbInsertColorLoop_red root nodup (red_of_not_black notBlack),
        rbInsertColorSide_red nodup uncleRed]
      exact runs
  | case5 tree parent grand rest notBlack uncleNotRed =>
      obtain ⟨rounds, rfl⟩ : ∃ more, rounds = more + 2 :=
        ⟨rounds - 2, by simp only [List.length_cons] at enough; omega⟩
      have order := inorder_insertRepair tree (parent :: grand :: rest)
      rw [insertRepair, if_neg notBlack, if_neg uncleNotRed] at order ⊢
      rw [inorder_paint] at order
      rw [rbInsertColorLoop_red root nodup (red_of_not_black notBlack)]
      obtain ⟨side, shade, upper, sibling⟩ := parent
      by_cases straight : side = grand.side
      · subst straight
        have runs := @rbInsertColorSide_straight _ _ others tree node rest _ _ _ _ _ _ _ root nodup
          uncleNotRed
        rw [straighten, if_pos rfl, Frame.plug, paint_sided, rotate_other_sided] at order ⊢
        refine ⟨_, ?_, rfl⟩
        simp only [fill, Frame.plug] at runs ⊢
        rw [runs]
        exact @rbInsertColorLoop_stop _ _ others tree node rounds (⟨grand.side, .black, upper, _⟩ :: rest)
          root (order ▸ nodup) rfl
      · obtain rfl := Side.eq_other_of_ne straight
        obtain ⟨near, far, shape⟩ := exists_sided grand.side root
        rw [shape] at nodup
        have runs := @rbInsertColorSide_bent _ _ others node rest _ _ _ _ _ _ _ _ _ _ nodup
          uncleNotRed
        rw [straighten, if_neg straight, Frame.plug, shape, sided_other, rotate_sided, paint_sided,
          rotate_other_sided] at order ⊢
        refine ⟨_, ?_, rfl⟩
        simp only [fill, Frame.plug] at runs ⊢
        rw [runs]
        exact @rbInsertColorLoop_stop _ _ others (sided grand.side shade sibling upper near) upper
          rounds (⟨grand.side, .black, node, _⟩ :: rest) (top_sided ..)
          (order ▸ nodup) rfl

theorem rbInsertColor_spec {path : RbPath Node} {count rounds : Nat}
    (root : tree.top = some node) (nodup : (fill tree path).inorder.Nodup)
    (balanced : path.Balanced count) (enough : path.length / 2 < rounds) :
    rbInsertColor rounds (treeMemory others (fill tree path)) node =
      some (treeMemory others (insertRepair tree path)) := by
  obtain ⟨repaired, runs, same⟩ :=
    @rbInsertColorLoop_spec _ _ others _ _ _ _ _ root nodup balanced enough
  have order : repaired.inorder = (fill tree path).inorder := by
    rw [← inorder_paint .black, same, inorder_insertRepair]
  obtain ⟨first, top⟩ := @RbTree.exists_top _ repaired node
    (by rw [order]; exact mem_inorder_fill.mpr (Or.inl (mem_of_top root)))
  have painted := @setColor_spec _ _ others repaired [] first .black (order ▸ nodup) top
  simp only [rbInsertColor, runs, Option.bind_eq_bind, Option.bind_some, treeMemory_rbNode, top]
  rw [← same]
  exact painted

end UtilsModules.Datastruct

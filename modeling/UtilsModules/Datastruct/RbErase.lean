import UtilsModules.Datastruct.RbLayout

/-!
`__rb_erase_color` repairs the tree in memory as `eraseRepair` repairs a tree.
-/

namespace UtilsModules.Datastruct

open RedBlack RbTree RbPath

variable {Node : Type} [DecidableEq Node] {others : Node → Option (RbNode Node)}
  {side : Side} {own shade : Color} {tree near far : RbTree Node} {item other : Node}
  {path rest : RbPath Node}

theorem childrenBlack_spec (nodup : (fill tree path).inorder.Nodup)
    (top : tree.top = some other) :
    ∃ cell, (treeMemory others (fill tree path)).nodes other = some cell ∧
      childrenBlack (treeMemory others (fill tree path)) cell = some (decide tree.Bare) := by
  obtain ⟨left, right, shape⟩ := exists_sided .left top
  have distinct := nodup
  rw [shape] at distinct
  have cell := @treeMemory_cell _ _ others path _ _ _ _ _ distinct
  have leftBlack := @isBlack_spec _ _ others left (⟨.left, tree.color, other, right⟩ :: path) distinct
  have rightBlack := @isBlack_far _ _ others path _ _ _ _ _ distinct
  simp only [fill, Frame.plug] at leftBlack
  rw [← shape] at cell leftBlack rightBlack
  have bare : tree.Bare ↔ left.color = .black ∧ right.color = .black := by
    rw [shape, bare_sided]
  refine ⟨_, cell, ?_⟩
  simp only [childrenBlack, RbNode.sided, leftBlack, rightBlack, Option.bind_eq_bind,
    Option.bind_some, decide_eq_true_eq]
  by_cases black : left.color = .black
  · simp [bare, black]
  · simp [bare, black]

/-- The red child of the sibling comes to its far side. -/
theorem rbEraseColorBend_spec
    (nodup : (fill (sided side own tree item (sided side shade near other far)) rest).inorder.Nodup)
    (notBare : ¬ (sided side shade near other far).Bare) :
    rbEraseColorBend side
        (treeMemory others (fill (sided side own tree item (sided side shade near other far)) rest))
        item other =
      some (treeMemory others
          (fill (sided side own tree item (bend side (sided side shade near other far))) rest),
        (bend side (sided side shade near other far)).top) := by
  obtain ⟨hole, holeShape⟩ : ∃ hole : RbPath Node, ∀ sibling,
      fill (sided side own tree item sibling) rest = fill sibling hole :=
    ⟨⟨side.other, own, item, tree⟩ :: rest, fun sibling => fill_far ..⟩
  have parentCell (sibling : RbTree Node) (distinct : (fill sibling hole).inorder.Nodup) :
      (treeMemory others (fill sibling hole)).nodes item =
        some (RbNode.sided side (parent rest) own tree.top sibling.top) := by
    rw [← holeShape] at distinct ⊢
    exact treeMemory_cell distinct
  simp only [holeShape] at nodup ⊢
  have otherCell := @treeMemory_cell _ _ others hole _ _ _ _ _ nodup
  have farBlack := @isBlack_far _ _ others hole _ _ _ _ _ nodup
  by_cases black : far.color = .black
  · have nearRed : near.color = .red :=
      red_of_not_black fun nearBlack => notBare (bare_sided.mpr ⟨nearBlack, black⟩)
    obtain ⟨middle, top⟩ := exists_top_of_red nearRed
    obtain ⟨inner, outer, shape⟩ := exists_sided side top
    have nodup1 : (fill (sided side shade (near.paint .black) other far) hole).inorder.Nodup := by
      rwa [inorder_fill_congr _ (inorder_sided_congr (inorder_paint _ _) rfl)]
    have nodup2 : (fill (sided side .red (near.paint .black) other far) hole).inorder.Nodup := by
      rwa [inorder_fill_congr _ (inorder_sided_congr rfl rfl)]
    have nodup3 : (fill (rotate side.other (sided side .red (near.paint .black) other far))
        hole).inorder.Nodup := by
      rwa [inorder_fill_congr _ (inorder_rotate _ _)]
    have step1 := @blacken_spec _ _ others near (⟨side, shade, other, far⟩ :: hole) nodup
    have step2 := @setColor_self _ _ others hole _ _ _ _ _ .red nodup1
    have step3 : rbRotate side.other
        (treeMemory others (fill (sided side .red (near.paint .black) other far) hole)) other =
        some (treeMemory others
          (fill (rotate side.other (sided side .red (near.paint .black) other far)) hole)) := by
      rw [shape, paint_sided] at nodup2 ⊢
      rw [rotate_other_sided]
      exact rbRotate_other_spec nodup2
    rw [decide_eq_true black] at farBlack
    simp only [fill, Frame.plug] at step1
    rw [bend, child_other_sided, if_pos black, paintChild_sided, paint_sided]
    simp only [rbEraseColorBend, otherCell, farBlack, Option.bind_eq_bind, Option.bind_some,
      RbNode.sided_child_other, RbNode.sided_child, if_true, step1, step2, step3,
      parentCell _ nodup3]
  · rw [decide_eq_false black] at farBlack
    rw [bend, child_other_sided, if_neg black, top_sided]
    simp only [rbEraseColorBend, otherCell, farBlack, Option.bind_eq_bind, Option.bind_some,
      RbNode.sided_child_other, Bool.false_eq_true, if_false]

theorem rbEraseColorSettle_spec
    (nodup : (fill (sided side own tree item (sided side shade near other far)) rest).inorder.Nodup) :
    rbEraseColorSettle side
        (treeMemory others (fill (sided side own tree item (sided side shade near other far)) rest))
        item (some other) =
      some (treeMemory others (fill (sided side own (sided side .black tree item near) other
        (far.paint .black)) rest)) := by
  have nodup1 : (fill (sided side own tree item (sided side own near other far))
      rest).inorder.Nodup := by
    rwa [inorder_fill_congr rest (inorder_sided_congr rfl (inorder_sided_congr rfl rfl))]
  have nodup2 : (fill (sided side .black tree item (sided side own near other far))
      rest).inorder.Nodup := by
    rwa [inorder_fill_congr rest (inorder_sided_congr rfl rfl)]
  have nodup3 : (fill (sided side .black tree item (sided side own near other
      (far.paint .black))) rest).inorder.Nodup := by
    rwa [inorder_fill_congr rest (inorder_sided_congr rfl
      (inorder_sided_congr rfl (inorder_paint _ _)))]
  obtain ⟨hole, holeShape⟩ : ∃ hole : RbPath Node, ∀ sibling,
      fill (sided side .black tree item sibling) rest = fill sibling hole :=
    ⟨⟨side.other, .black, item, tree⟩ :: rest, fun sibling => fill_far ..⟩
  have parentCell := @treeMemory_cell _ _ others rest _ _ _ _ _ nodup
  have step1 := @setColor_far _ _ others rest _ _ _ _ _ other own nodup (top_sided ..)
  have step2 := @setColor_self _ _ others rest _ _ _ _ _ .black nodup1
  have step4 := @rbRotate_spec _ _ others rest _ _ _ _ _ _ _ _ nodup3
  rw [paint_sided] at step1
  simp only [holeShape] at nodup2 step2 step4
  have otherCell := @treeMemory_cell _ _ others hole _ _ _ _ _ nodup2
  have step3 := @blacken_far _ _ others hole _ _ _ _ _ nodup2
  simp only [rbEraseColorSettle, parentCell, otherCell, step1, step2, step3, step4,
    Option.bind_eq_bind, Option.bind_some, RbNode.sided_rbColor, RbNode.sided_child_other]

variable {frame : Frame Node}

theorem rbEraseColorBlack_bare (nodup : (fill tree (frame :: rest)).inorder.Nodup)
    (top : frame.sibling.top = some other) (bare : frame.sibling.Bare) :
    rbEraseColorBlack frame.side (treeMemory others (fill tree (frame :: rest))) frame.item
        frame.sibling.top =
      some (.next (treeMemory others (fill (frame.dim tree) rest)) (some frame.item)
        (parent rest)) := by
  obtain ⟨side, own, item, sibling⟩ := frame
  dsimp only at bare top ⊢
  have step1 := @setColor_far _ _ others rest side own tree sibling item other .red nodup top
  have nodup1 : (fill (sided side own tree item (sibling.paint .red)) rest).inorder.Nodup := by
    rwa [inorder_fill_congr rest (inorder_sided_congr rfl (inorder_paint _ _))]
  have parentCell := @treeMemory_cell _ _ others rest _ _ _ _ _ nodup1
  obtain ⟨hole, holeShape⟩ : ∃ hole : RbPath Node, ∀ sibling,
      fill (sided side own tree item sibling) rest = fill sibling hole :=
    ⟨⟨side.other, own, item, tree⟩ :: rest, fun sibling => fill_far ..⟩
  simp only [fill, Frame.plug, Frame.dim] at nodup ⊢
  rw [holeShape] at nodup step1 ⊢
  rw [holeShape] at step1 parentCell ⊢
  obtain ⟨cell, otherCell, test⟩ := @childrenBlack_spec _ _ others _ _ _ nodup top
  simp only [rbEraseColorBlack, top, otherCell, test, bare, step1, parentCell, decide_true,
    if_true, Option.bind_eq_bind, Option.bind_some, RbNode.sided_rbParent]

/-- A black sibling with a red child comes up, and the loop is over. -/
theorem rbEraseColorBlack_settle (nodup : (fill tree (frame :: rest)).inorder.Nodup)
    (top : frame.sibling.top = some other) (notBare : ¬ frame.sibling.Bare) :
    rbEraseColorBlack frame.side (treeMemory others (fill tree (frame :: rest))) frame.item
        frame.sibling.top =
      some (.stop (treeMemory others (fill (frame.settle tree) rest))
        (fill (frame.settle tree) rest).top) := by
  obtain ⟨side, own, item, sibling⟩ := frame
  dsimp only at notBare top ⊢
  obtain ⟨raised, bentTop⟩ := @RbTree.exists_top _ (bend side sibling) other
    (by rw [inorder_bend]; exact mem_of_top top)
  obtain ⟨near, far, shape⟩ := exists_sided side top
  obtain ⟨inner, outer, bentShape⟩ := exists_sided side bentTop
  have step1 : rbEraseColorBend side
      (treeMemory others (fill (sided side own tree item sibling) rest)) item other =
      some (treeMemory others (fill (sided side own tree item (bend side sibling)) rest),
        (bend side sibling).top) := by
    rw [shape] at notBare ⊢
    exact rbEraseColorBend_spec (by rwa [← shape]) notBare
  have nodup1 : (fill (sided side own tree item (bend side sibling)) rest).inorder.Nodup := by
    rwa [inorder_fill_congr rest (inorder_sided_congr rfl (inorder_bend _ _))]
  have step2 : rbEraseColorSettle side
      (treeMemory others (fill (sided side own tree item (bend side sibling)) rest)) item
        (some raised) =
      some (treeMemory others (fill (Frame.settle ⟨side, own, item, sibling⟩ tree) rest)) := by
    rw [Frame.settle]
    dsimp only
    rw [bentShape] at nodup1 ⊢
    rw [rbEraseColorSettle_spec nodup1, paintChild_other_sided, paint_sided, rotate_sided]
  obtain ⟨hole, holeShape⟩ : ∃ hole : RbPath Node, ∀ sibling,
      fill (sided side own tree item sibling) rest = fill sibling hole :=
    ⟨⟨side.other, own, item, tree⟩ :: rest, fun sibling => fill_far ..⟩
  simp only [fill, Frame.plug] at nodup ⊢
  rw [holeShape] at nodup step1 ⊢
  rw [holeShape] at step1 step2
  obtain ⟨cell, otherCell, test⟩ := @childrenBlack_spec _ _ others _ _ _ nodup top
  simp only [rbEraseColorBlack, top, otherCell, test, notBare, step1, step2, bentTop, decide_false,
    Bool.false_eq_true, if_false, Option.bind_eq_bind, Option.bind_some, treeMemory_rbNode]

theorem rbEraseColorSide_black (nodup : (fill tree (frame :: rest)).inorder.Nodup)
    (top : frame.sibling.top = some other) (black : frame.sibling.color = .black) :
    rbEraseColorSide frame.side (treeMemory others (fill tree (frame :: rest))) frame.item =
      rbEraseColorBlack frame.side (treeMemory others (fill tree (frame :: rest))) frame.item
        frame.sibling.top := by
  obtain ⟨side, own, item, sibling⟩ := frame
  dsimp only at top black ⊢
  simp only [fill, Frame.plug] at nodup ⊢
  have parentCell := @treeMemory_cell _ _ others rest _ _ _ _ _ nodup
  rw [fill_far] at nodup
  obtain ⟨cell, otherCell, color⟩ := @treeMemory_color _ _ others _ _ _ nodup top
  rw [black] at color
  rw [← fill_far] at otherCell
  simp only [rbEraseColorSide, parentCell, otherCell, color, top, Option.bind_eq_bind,
    Option.bind_some, RbNode.sided_child_other, reduceCtorEq, if_false]

theorem rbEraseColorSide_red (nodup : (fill tree (frame :: rest)).inorder.Nodup)
    (red : frame.sibling.color = .red) :
    rbEraseColorSide frame.side (treeMemory others (fill tree (frame :: rest))) frame.item =
      rbEraseColorBlack frame.side
        (treeMemory others (fill tree (frame.lower :: frame.upper :: rest))) frame.item
        frame.lower.sibling.top := by
  have turned := Frame.upper_plug_lower red tree
  obtain ⟨side, own, item, sibling⟩ := frame
  dsimp only at red turned ⊢
  obtain ⟨other, top⟩ := exists_top_of_red red
  obtain ⟨near, far, shape⟩ := exists_sided side top
  rw [red] at shape
  subst shape
  simp only [fill] at nodup ⊢
  rw [turned, paint_sided, rotate_sided]
  simp only [Frame.plug] at nodup ⊢
  have nodup1 : (fill (sided side own tree item (sided side .black near other far))
      rest).inorder.Nodup := by
    rwa [inorder_fill_congr rest (inorder_sided_congr rfl (inorder_sided_congr rfl rfl))]
  have nodup2 : (fill (sided side .red tree item (sided side .black near other far))
      rest).inorder.Nodup := by
    rwa [inorder_fill_congr rest (inorder_sided_congr rfl rfl)]
  have nodup3 : (fill (sided side .black (sided side .red tree item near) other far)
      rest).inorder.Nodup := by
    rwa [← rotate_sided, inorder_fill_congr rest (inorder_rotate _ _)]
  have parentCell := @treeMemory_cell _ _ others rest _ _ _ _ _ nodup
  have otherColor := @treeMemory_color _ _ others (sided side .red near other far)
    (⟨side.other, own, item, tree⟩ :: rest) other (by rwa [← fill_far]) (top_sided ..)
  rw [← fill_far, color_sided] at otherColor
  obtain ⟨cell, otherCell, otherRed⟩ := otherColor
  have step1 := @setColor_far _ _ others rest _ _ _ _ _ other .black nodup (top_sided ..)
  have step2 := @setColor_self _ _ others rest _ _ _ _ _ .red nodup1
  have step3 := @rbRotate_spec _ _ others rest _ _ _ _ _ _ _ _ nodup2
  have lowered := @treeMemory_cell _ _ others (⟨side, .black, other, far⟩ :: rest) _ _ _ _ _ nodup3
  rw [paint_sided] at step1
  simp only [fill, Frame.plug] at lowered
  simp only [rbEraseColorSide, parentCell, top_sided, otherCell, otherRed, step1, step2, step3,
    lowered, Option.bind_eq_bind, Option.bind_some, RbNode.sided_child_other, if_true,
    Frame.lower, child_sided]

theorem rbEraseColorLoop_stop {rounds : Nat} (nodup : (fill tree path).inorder.Nodup)
    (stops : tree.color = .red ∨ path = []) (parent : Option Node) :
    rbEraseColorLoop (rounds + 1) (treeMemory others (fill tree path)) tree.top parent =
      some (treeMemory others (fill tree path), tree.top) := by
  have black := @isBlack_spec _ _ others _ _ nodup
  simp only [rbEraseColorLoop, black, Option.bind_eq_bind, Option.bind_some, treeMemory_rbNode]
  cases stops with
  | inl red => simp [red]
  | inr root => simp [root, fill]

/-- At a black node below the root the loop takes the branch of its side. -/
theorem rbEraseColorLoop_round {rounds : Nat} (nodup : (fill tree (frame :: rest)).inorder.Nodup)
    (black : tree.color = .black) (top : frame.sibling.top = some other) :
    rbEraseColorLoop (rounds + 1) (treeMemory others (fill tree (frame :: rest))) tree.top
        (some frame.item) =
      (rbEraseColorSide frame.side (treeMemory others (fill tree (frame :: rest)))
        frame.item).bind fun round => match round with
          | .next memory focus parent => rbEraseColorLoop rounds memory focus parent
          | .stop memory focus => some (memory, focus) := by
  have notRoot := top_ne_top_fill nodup
  have notSibling : frame.sibling.top ≠ tree.top := by
    intro same
    rw [top] at same
    exact @far_top_ne _ _ _ _ _ _ _ rest nodup same.symm top
  have isBlack := @isBlack_spec _ _ others _ _ nodup
  have parentCell := @treeMemory_cell _ _ others rest _ _ _ _ _ nodup
  simp only [fill, Frame.plug] at isBlack parentCell notRoot ⊢
  simp only [rbEraseColorLoop, isBlack, parentCell, black, notRoot, Option.bind_eq_bind,
    Option.bind_some, treeMemory_rbNode, decide_true, ne_eq, not_false_eq_true, Bool.and_self,
    if_true]
  exact branch_eq notSibling rfl fun side => (rbEraseColorSide side _ frame.item).bind
    fun round => match round with
      | .next memory focus parent => rbEraseColorLoop rounds memory focus parent
      | .stop memory focus => some (memory, focus)

theorem rbEraseColor_stop {rounds : Nat} (nodup : (fill tree path).inorder.Nodup)
    (stops : tree.color = .red ∨ path = []) (parent : Option Node) :
    rbEraseColor (rounds + 1) (treeMemory others (fill tree path)) tree.top parent =
      some (treeMemory others (fill (tree.paint .black) path)) := by
  rw [rbEraseColor, rbEraseColorLoop_stop nodup stops]
  exact blacken_spec nodup

theorem rbEraseColor_next {rounds : Nat} {memory : RbMemory Node} {focus parent : Option Node}
    (nodup : (fill tree (frame :: rest)).inorder.Nodup) (black : ¬ tree.color = .red)
    (top : frame.sibling.top = some other)
    (round : rbEraseColorSide frame.side (treeMemory others (fill tree (frame :: rest)))
      frame.item = some (.next memory focus parent)) :
    rbEraseColor (rounds + 1) (treeMemory others (fill tree (frame :: rest))) tree.top
        (some frame.item) =
      rbEraseColor rounds memory focus parent := by
  rw [rbEraseColor, rbEraseColorLoop_round nodup (black_of_not_red black) top, round]
  rfl

theorem rbEraseColor_settled {rounds : Nat} {after : RbTree Node}
    (nodup : (fill tree (frame :: rest)).inorder.Nodup) (black : ¬ tree.color = .red)
    (top : frame.sibling.top = some other) (nodupAfter : after.inorder.Nodup)
    (round : rbEraseColorSide frame.side (treeMemory others (fill tree (frame :: rest)))
      frame.item = some (.stop (treeMemory others after) after.top)) :
    rbEraseColor (rounds + 1) (treeMemory others (fill tree (frame :: rest))) tree.top
        (some frame.item) =
      some (treeMemory others (after.paint .black)) := by
  rw [rbEraseColor, rbEraseColorLoop_round nodup (black_of_not_red black) top, round]
  exact @blacken_spec _ _ others after [] nodupAfter

theorem rbEraseColor_spec {count rounds : Nat} (nodup : (fill tree path).inorder.Nodup)
    (balanced : path.Balanced (count + 1)) (short : tree.Short count)
    (enough : path.length < rounds) :
    rbEraseColor rounds (treeMemory others (fill tree path)) tree.top (parent path) =
      some (treeMemory others (eraseRepair tree path)) := by
  induction tree, path using eraseRepair.induct generalizing count rounds with
  | case1 tree =>
      obtain ⟨rounds, rfl⟩ : ∃ more, rounds = more + 1 := ⟨rounds - 1, by omega⟩
      exact rbEraseColor_stop nodup (Or.inr rfl) _
  | case2 tree frame rest red =>
      obtain ⟨rounds, rfl⟩ : ∃ more, rounds = more + 1 := ⟨rounds - 1, by omega⟩
      rw [eraseRepair, if_pos red]
      exact rbEraseColor_stop nodup (Or.inl red) _
  | case3 tree frame rest black siblingRed bare =>
      obtain ⟨rounds, rfl⟩ : ∃ more, rounds = more + 2 :=
        ⟨rounds - 2, by simp only [List.length_cons] at enough; omega⟩
      obtain ⟨other, top⟩ := exists_top_of_red siblingRed
      obtain ⟨lowered, -⟩ := balanced.lower_upper siblingRed
      obtain ⟨below, lowerTop⟩ := lowered.sibling.exists_top
      have nodup1 := Frame.nodup_upper_lower nodup siblingRed
      have nodup2 : (fill (frame.lower.dim tree) (frame.upper :: rest)).inorder.Nodup := by
        rwa [inorder_fill_congr _ (Frame.inorder_dim _ _)]
      have round := (rbEraseColorSide_red nodup siblingRed).trans
        (@rbEraseColorBlack_bare _ _ others tree below _ _ nodup1 lowerTop bare)
      rw [eraseRepair, if_neg black, if_pos siblingRed, if_pos bare, parent_cons,
        rbEraseColor_next nodup black top round]
      have dimTop : (frame.lower.dim tree).top = some frame.lower.item := top_sided ..
      rw [← dimTop]
      exact rbEraseColor_stop nodup2 (Or.inl (color_sided ..)) _
  | case4 tree frame rest black siblingRed notBare =>
      obtain ⟨rounds, rfl⟩ : ∃ more, rounds = more + 1 := ⟨rounds - 1, by omega⟩
      obtain ⟨other, top⟩ := exists_top_of_red siblingRed
      obtain ⟨lowered, -⟩ := balanced.lower_upper siblingRed
      obtain ⟨below, lowerTop⟩ := lowered.sibling.exists_top
      have nodup1 := Frame.nodup_upper_lower nodup siblingRed
      have nodup2 : (fill (frame.lower.settle tree) (frame.upper :: rest)).inorder.Nodup := by
        rwa [inorder_fill_congr _ (Frame.inorder_settle _ _)]
      have round := (rbEraseColorSide_red nodup siblingRed).trans
        (@rbEraseColorBlack_settle _ _ others tree below _ _ nodup1 lowerTop notBare)
      rw [eraseRepair, if_neg black, if_pos siblingRed, if_neg notBare]
      exact rbEraseColor_settled nodup black top nodup2 round
  | case5 tree frame rest black siblingBlack bare inductionHypothesis =>
      obtain ⟨rounds, rfl⟩ : ∃ more, rounds = more + 1 := ⟨rounds - 1, by omega⟩
      obtain ⟨other, top⟩ := balanced.sibling.exists_top
      have nodup1 : (fill (frame.dim tree) rest).inorder.Nodup := by
        rwa [inorder_fill_congr _ (Frame.inorder_dim _ _)]
      obtain ⟨_, above, dimmed⟩ := Frame.dim_short balanced (short.2 (black_of_not_red black))
        (black_of_not_red siblingBlack) bare
      have fewer : rest.length < rounds := by
        simp only [List.length_cons] at enough
        omega
      have round := (rbEraseColorSide_black nodup top (black_of_not_red siblingBlack)).trans
        (@rbEraseColorBlack_bare _ _ others tree other _ _ nodup top bare)
      rw [eraseRepair, if_neg black, if_neg siblingBlack, if_pos bare, parent_cons,
        rbEraseColor_next nodup black top round, ← inductionHypothesis nodup1 above dimmed fewer,
        Frame.dim, top_sided]
  | case6 tree frame rest black siblingBlack notBare =>
      obtain ⟨rounds, rfl⟩ : ∃ more, rounds = more + 1 := ⟨rounds - 1, by omega⟩
      obtain ⟨other, top⟩ := balanced.sibling.exists_top
      have nodup1 : (fill (frame.settle tree) rest).inorder.Nodup := by
        rwa [inorder_fill_congr _ (Frame.inorder_settle _ _)]
      have round := (rbEraseColorSide_black nodup top (black_of_not_red siblingBlack)).trans
        (@rbEraseColorBlack_settle _ _ others tree other _ _ nodup top notBare)
      rw [eraseRepair, if_neg black, if_neg siblingBlack, if_neg notBare]
      exact rbEraseColor_settled nodup black top nodup1 round

end UtilsModules.Datastruct

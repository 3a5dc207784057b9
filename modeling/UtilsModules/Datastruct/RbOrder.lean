import UtilsModules.Datastruct.RbNodes

/-!
The walk over a tree in memory follows its order.
-/

namespace UtilsModules.Datastruct

open RedBlack RbTree RbPath

variable {Node : Type} [DecidableEq Node] {others : Node → Option (RbNode Node)}
  {side : Side} {own : Color} {tree near far : RbTree Node} {item : Node} {path : RbPath Node}
  {rounds : Nat}

/-- The way up ends at the first node behind the subtree. -/
theorem climb_spec (nodup : (fill tree path).inorder.Nodup) (top : tree.top = some item)
    (enough : path.length < rounds) :
    climb side.other (treeMemory others (fill tree path)) rounds item =
      some (path.behind side).head? := by
  induction path generalizing tree item rounds with
  | nil =>
      obtain ⟨rounds, rfl⟩ : ∃ more, rounds = more + 1 := ⟨rounds - 1, by omega⟩
      obtain ⟨left, right, shape⟩ := exists_sided .left top
      rw [shape] at nodup ⊢
      have cell := @treeMemory_cell _ _ others [] _ _ _ _ _ nodup
      simp only [climb, cell, Option.bind_eq_bind, Option.bind_some, RbNode.sided_rbParent]
      rfl
  | cons frame rest inductionHypothesis =>
      obtain ⟨rounds, rfl⟩ : ∃ more, rounds = more + 1 := ⟨rounds - 1, by omega⟩
      obtain ⟨left, right, shape⟩ := exists_sided .left top
      have cell := @treeMemory_cell _ _ others (frame :: rest) .left tree.color left right item
        (by rwa [← shape])
      have parentCell := @treeMemory_cell _ _ others rest _ _ _ _ _ nodup
      have apart := @far_top_ne _ _ _ _ _ _ _ rest nodup top
      rw [← shape] at cell
      simp only [fill, Frame.plug] at cell parentCell
      simp only [climb, fill, Frame.plug, cell, parentCell, Option.bind_eq_bind, Option.bind_some,
        RbNode.sided_rbParent, parent_cons]
      by_cases same : frame.side = side
      · rw [behind, if_pos same, same, RbNode.sided_child_other, if_neg apart]
        rfl
      · obtain rfl := Side.eq_other_of_ne (Ne.symm same)
        have fewer : rest.length < rounds := by
          simp only [List.length_cons] at enough
          omega
        rw [behind, if_neg same, Side.other_other, RbNode.sided_child, if_pos top,
          ← @inductionHypothesis _ frame.item rounds nodup (top_sided ..) fewer, Side.other_other]
        rfl

theorem rbBeside_spec (nodup : (fill (sided side own near item far) path).inorder.Nodup)
    (enough : (fill (sided side own near item far) path).height ≤ rounds) :
    rbBeside side.other rounds (treeMemory others (fill (sided side own near item far) path)) item =
      some (far.along side ++ path.behind side).head? := by
  have cell := @treeMemory_cell _ _ others path _ _ _ _ _ nodup
  have high := length_add_height_le (sided side own near item far) path
  cases farTop : far.top with
  | none =>
      rw [farTop] at cell
      rw [top_eq_none_iff] at farTop
      have positive : 1 ≤ (sided side own near item far).height := by
        cases side <;> simp [sided, height]
      simp only [rbBeside, cell, Option.bind_eq_bind, Option.bind_some, RbNode.sided_child_other]
      rw [climb_spec nodup (top_sided ..) (by omega), farTop, along_nil, List.nil_append]
  | some root =>
      rw [farTop] at cell
      obtain ⟨spine, shade, last, outer, straight, rfl⟩ := exists_straight side farTop
      have below : spine.length < rounds := by
        have farHigh := length_add_height_le (sided side shade nil last outer) spine
        have lower := height_far_lt side own near
          (fill (sided side shade nil last outer) spine) item
        omega
      simp only [rbBeside, cell, Option.bind_eq_bind, Option.bind_some, RbNode.sided_child_other,
        Side.other_other]
      rw [fill_far] at nodup ⊢
      rw [descend_spec nodup straight farTop below, along_straight straight]
      rfl

theorem rbEnd_spec (nodup : tree.inorder.Nodup) (enough : tree.height ≤ rounds) :
    rbEnd side rounds (treeMemory others tree) = some (tree.along side).head? := by
  cases top : tree.top with
  | none =>
      simp only [rbEnd, treeMemory_rbNode, top]
      rw [top_eq_none_iff] at top
      rw [top, along_nil]
      rfl
  | some root =>
      obtain ⟨spine, shade, last, outer, straight, rfl⟩ := exists_straight side top
      have high := length_add_height_le (sided side shade nil last outer) spine
      have positive := height_far_lt side shade nil outer last
      have found := @descend_spec _ _ others side shade last [] spine outer root rounds nodup straight
        top (by omega)
      change descend side (treeMemory others (fill (sided side shade nil last outer) spine)) rounds
        root = some last at found
      simp only [rbEnd, treeMemory_rbNode, top, found, Option.bind_eq_bind, Option.bind_some,
        along_straight straight, List.head?_cons]

/-- `for (node = from; node; node = rb_next(node))`, or with `rb_prev`: the nodes
it visits. -/
def rbWalk (side : Side) (rounds : Nat) (memory : RbMemory Node) :
    Nat → Option Node → Option (List Node)
  | _, none => some []
  | 0, some _ => none
  | count + 1, some entry => do
      let next ← rbBeside side rounds memory entry
      let visited ← rbWalk side rounds memory count next
      some (entry :: visited)

theorem rbWalk_spec {count : Nat} {front back : List Node} (nodup : tree.inorder.Nodup)
    (enough : tree.height ≤ rounds) (order : tree.along side = front ++ back)
    (many : back.length ≤ count) :
    rbWalk side.other rounds (treeMemory others tree) count back.head? = some back := by
  induction back generalizing front count with
  | nil => cases count <;> rfl
  | cons item back inductionHypothesis =>
      obtain ⟨count, rfl⟩ : ∃ more, count = more + 1 := ⟨count - 1, by simp at many; omega⟩
      have within : item ∈ tree.inorder := by
        rw [← @mem_along _ side, order]
        simp
      obtain ⟨path, own, left, right, shape⟩ := exists_focus within
      obtain ⟨near, far, sidedShape⟩ := @exists_sided _ side (node own left item right) item rfl
      rw [sidedShape] at shape
      subst shape
      have whole := along_fill side (sided side (node own left item right).color near item far) path
      have parted : front ++ item :: back = (path.before side ++ near.along side) ++
          item :: (far.along side ++ path.behind side) := by
        rw [← order, whole, along_sided]
        simp
      have distinct := (@nodup_along _ side _).mpr nodup
      rw [order, parted] at distinct
      have outside := (List.nodup_cons.mp (List.nodup_middle.mp distinct)).1
      obtain ⟨-, -, rfl⟩ := (List.append_cons_inj_of_notMem
        (fun inFront => outside (List.mem_append_left _ inFront))
        (fun inBack => outside (List.mem_append_right _ inBack))).mp parted.symm
      have beside := @rbBeside_spec _ _ others side _ near far item path rounds nodup enough
      have later := @inductionHypothesis count (front ++ [item]) (by rw [order]; simp)
        (by simpa using many)
      simp only [List.head?_cons, rbWalk, beside, later, Option.bind_eq_bind, Option.bind_some]

end UtilsModules.Datastruct

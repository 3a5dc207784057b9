import UtilsModules.Datastruct.Rbtree

/-!
How a tree lies in memory, and what the basic steps of `rbtree.c` do to it.

`treeMemory` is the memory that holds a tree among other nodes.  Each step is
an equation between such memories.
-/

namespace UtilsModules.Datastruct

open RedBlack RbTree RbPath

variable {Node : Type}

namespace RbNode

def sided (side : Side) (parent : Option Node) (color : Color) (near far : Option Node) :
    RbNode Node :=
  match side with
  | .left => ⟨parent, color, far, near⟩
  | .right => ⟨parent, color, near, far⟩

variable (side : Side) (parent value : Option Node) (color : Color) (near far : Option Node)

@[simp]
theorem sided_rbParent : (sided side parent color near far).rbParent = parent := by
  cases side <;> rfl

@[simp]
theorem sided_rbColor : (sided side parent color near far).rbColor = color := by
  cases side <;> rfl

@[simp]
theorem sided_child : (sided side parent color near far).child side = near := by
  cases side <;> rfl

@[simp]
theorem sided_child_other : (sided side parent color near far).child side.other = far := by
  cases side <;> rfl

@[simp]
theorem sided_withChild : (sided side parent color near far).withChild side value =
    sided side parent color value far := by
  cases side <;> rfl

@[simp]
theorem sided_withChild_other : (sided side parent color near far).withChild side.other value =
    sided side parent color near value := by
  cases side <;> rfl

@[simp]
theorem sided_withParent : { sided side parent color near far with rbParent := value } =
    sided side value color near far := by
  cases side <;> rfl

@[simp]
theorem sided_withColor (painted : Color) :
    { sided side parent color near far with rbColor := painted } =
      sided side parent painted near far := by
  cases side <;> rfl

@[simp]
theorem sided_rbLeft : (sided .left parent color near far).rbLeft = near := rfl

@[simp]
theorem sided_rbRight : (sided .left parent color near far).rbRight = far := rfl

theorem single_child : ((sided side parent color none far).rbLeft = none ∨
      (sided side parent color none far).rbRight = none) ∧
    (if (sided side parent color none far).rbLeft = none then
        (sided side parent color none far).rbRight
      else (sided side parent color none far).rbLeft) = far := by
  cases side with
  | left => simp [sided]
  | right => cases far <;> simp [sided]

theorem sided_other : sided side.other parent color near far = sided side parent color far near := by
  cases side <;> rfl

end RbNode

def Stored (nodes : Node → Option (RbNode Node)) : Option Node → RbTree Node → Prop
  | _, .nil => True
  | parent, .node own left item right =>
      nodes item = some ⟨parent, own, right.top, left.top⟩ ∧
        Stored nodes (some item) left ∧ Stored nodes (some item) right

def StoredPath (memory : RbMemory Node) : Option Node → RbPath Node → Prop
  | hole, [] => memory.rbNode = hole
  | hole, frame :: rest =>
      memory.nodes frame.item =
          some (RbNode.sided frame.side (parent rest) frame.color hole frame.sibling.top) ∧
        Stored memory.nodes (some frame.item) frame.sibling ∧
          StoredPath memory (some frame.item) rest

theorem stored_sided {nodes : Node → Option (RbNode Node)} {above : Option Node} {side : Side}
    {color : Color} {near far : RbTree Node} {item : Node} :
    Stored nodes above (sided side color near item far) ↔
      nodes item = some (RbNode.sided side above color near.top far.top) ∧
        Stored nodes (some item) near ∧ Stored nodes (some item) far := by
  cases side with
  | left => exact Iff.rfl
  | right => exact and_congr Iff.rfl and_comm

theorem Stored.congr {nodes changed : Node → Option (RbNode Node)} {above : Option Node}
    {tree : RbTree Node} (stored : Stored nodes above tree)
    (same : ∀ item ∈ tree.inorder, changed item = nodes item) : Stored changed above tree := by
  induction tree generalizing above with
  | nil => trivial
  | node color left item right leftHypothesis rightHypothesis =>
      obtain ⟨cell, leftStored, rightStored⟩ := stored
      refine ⟨?_, ?_, ?_⟩
      · rw [same item (by simp [inorder]), cell]
      · exact leftHypothesis leftStored fun other within => same other (by simp [inorder, within])
      · exact rightHypothesis rightStored fun other within => same other (by simp [inorder, within])

theorem StoredPath.congr {memory changed : RbMemory Node} {hole : Option Node} {path : RbPath Node}
    (stored : StoredPath memory hole path)
    (same : ∀ item ∈ path.items, changed.nodes item = memory.nodes item)
    (root : changed.rbNode = memory.rbNode) : StoredPath changed hole path := by
  induction path generalizing hole with
  | nil => exact root.trans stored
  | cons frame rest inductionHypothesis =>
      obtain ⟨cell, sibling, above⟩ := stored
      refine ⟨?_, sibling.congr ?_, inductionHypothesis above ?_⟩
      · rw [same frame.item (by simp [items]), cell]
      · exact fun item within => same item (by simp [items, within])
      · exact fun item within => same item (by simp [items, within])

theorem stored_fill_iff {memory : RbMemory Node} {tree : RbTree Node} {path : RbPath Node} :
    Stored memory.nodes none (fill tree path) ∧ memory.rbNode = (fill tree path).top ↔
      Stored memory.nodes (parent path) tree ∧ StoredPath memory tree.top path := by
  induction path generalizing tree with
  | nil => exact Iff.rfl
  | cons frame rest inductionHypothesis =>
      rw [fill, inductionHypothesis, Frame.plug, stored_sided, top_sided]
      simp only [StoredPath, parent]
      tauto

theorem Stored.agree {nodes changed : Node → Option (RbNode Node)} {above : Option Node}
    {tree : RbTree Node} (stored : Stored nodes above tree) (other : Stored changed above tree) :
    ∀ item ∈ tree.inorder, changed item = nodes item := by
  induction tree generalizing above with
  | nil => simp [inorder]
  | node color left root right leftHypothesis rightHypothesis =>
      obtain ⟨cell, leftStored, rightStored⟩ := stored
      obtain ⟨otherCell, otherLeft, otherRight⟩ := other
      intro item within
      simp only [inorder, List.mem_append, List.mem_cons] at within
      rcases within with within | rfl | within
      · exact leftHypothesis leftStored otherLeft item within
      · rw [cell, otherCell]
      · exact rightHypothesis rightStored otherRight item within

def linkOf : RbPath Node → RbLink Node
  | [] => .root
  | frame :: _ => .child frame.side frame.item

def RbLink.parent : RbLink Node → Option Node
  | .root => none
  | .child _ above => some above

theorem parent_linkOf (path : RbPath Node) : (linkOf path).parent = parent path := by
  cases path <;> rfl

section Memory

variable [DecidableEq Node]

def place : Option Node → RbTree Node → (Node → Option (RbNode Node)) →
    Node → Option (RbNode Node)
  | _, .nil, others => others
  | parent, .node own left item right, others =>
      Function.update (place (some item) left (place (some item) right others)) item
        (some ⟨parent, own, right.top, left.top⟩)

def treeMemory (others : Node → Option (RbNode Node)) (tree : RbTree Node) : RbMemory Node :=
  ⟨place none tree others, tree.top⟩

@[simp]
theorem treeMemory_rbNode (others : Node → Option (RbNode Node)) (tree : RbTree Node) :
    (treeMemory others tree).rbNode = tree.top := rfl

theorem place_of_not_mem {above : Option Node} {tree : RbTree Node}
    {others : Node → Option (RbNode Node)} {item : Node} (outside : item ∉ tree.inorder) :
    place above tree others item = others item := by
  induction tree generalizing above others with
  | nil => rfl
  | node color left root right leftHypothesis rightHypothesis =>
      simp only [inorder, List.mem_append, List.mem_cons, not_or] at outside
      obtain ⟨notLeft, notRoot, notRight⟩ := outside
      rw [place, Function.update_of_ne notRoot, leftHypothesis notLeft, rightHypothesis notRight]

theorem stored_place {above : Option Node} {tree : RbTree Node}
    {others : Node → Option (RbNode Node)} (nodup : tree.inorder.Nodup) :
    Stored (place above tree others) above tree := by
  induction tree generalizing above others with
  | nil => trivial
  | node color left root right leftHypothesis rightHypothesis =>
      obtain ⟨⟨notLeft, notRight⟩, leftNodup, rightNodup, disjoint⟩ :=
        (@nodup_sided _ .left color left right root).mp nodup
      refine ⟨?_, ?_, ?_⟩
      · rw [place, Function.update_self]
      · apply (leftHypothesis leftNodup).congr
        intro item within
        rw [place, Function.update_of_ne (by rintro rfl; exact notLeft within)]
      · apply (@rightHypothesis (some root) others rightNodup).congr
        intro item within
        rw [place, Function.update_of_ne (by rintro rfl; exact notRight within),
          place_of_not_mem (fun inLeft => disjoint item inLeft within)]

variable {others : Node → Option (RbNode Node)} {tree : RbTree Node} {path : RbPath Node}

theorem treeMemory_stored (nodup : (fill tree path).inorder.Nodup) :
    Stored (treeMemory others (fill tree path)).nodes (parent path) tree ∧
      StoredPath (treeMemory others (fill tree path)) tree.top path :=
  stored_fill_iff.mp ⟨stored_place nodup, rfl⟩

theorem treeMemory_outside {item : Node} (outside : item ∉ tree.inorder) :
    (treeMemory others tree).nodes item = others item :=
  place_of_not_mem outside

/-- A memory is known from the cells around a focus and the nodes outside. -/
theorem eq_treeMemory {memory : RbMemory Node} (nodup : (fill tree path).inorder.Nodup)
    (stored : Stored memory.nodes (parent path) tree) (above : StoredPath memory tree.top path)
    (outside : ∀ item, item ∉ tree.inorder → item ∉ path.items →
      memory.nodes item = others item) :
    memory = treeMemory others (fill tree path) := by
  obtain ⟨whole, root⟩ := stored_fill_iff.mpr ⟨stored, above⟩
  obtain ⟨nodes, rbNode⟩ := memory
  rw [treeMemory, RbMemory.mk.injEq]
  refine ⟨?_, root⟩
  funext item
  by_cases within : item ∈ (fill tree path).inorder
  · exact (stored_place nodup).agree whole item within
  · rw [place_of_not_mem within]
    rw [mem_inorder_fill, not_or] at within
    exact outside item within.1 within.2

theorem assign_spec {memory : RbMemory Node} {node : Node} {cell : RbNode Node}
    (change : RbNode Node → RbNode Node) (held : memory.nodes node = some cell) :
    memory.assign (some node) change = some
      { memory with nodes := Function.update memory.nodes node (some (change cell)) } := by
  simp [RbMemory.assign, held]

theorem assign_cell {memory : RbMemory Node} {node : Node} {cell : RbNode Node}
    (change : RbNode Node → RbNode Node) (held : memory.nodes node = some cell) :
    ∃ changed, memory.assign (some node) change = some changed ∧
      changed.rbNode = memory.rbNode ∧ changed.nodes node = some (change cell) ∧
      ∀ other, other ≠ node → changed.nodes other = memory.nodes other :=
  ⟨_, assign_spec change held, rfl, Function.update_self ..,
    fun _ different => Function.update_of_ne different _ _⟩

theorem adopt_spec {memory : RbMemory Node} {above : Option Node} (parent : Option Node)
    (nodup : tree.inorder.Nodup) (stored : Stored memory.nodes above tree) :
    ∃ changed, adopt memory tree.top parent = some changed ∧ changed.rbNode = memory.rbNode ∧
      Stored changed.nodes parent tree ∧
      ∀ item, item ∉ tree.inorder → changed.nodes item = memory.nodes item := by
  cases tree with
  | nil => exact ⟨memory, rfl, rfl, trivial, fun _ _ => rfl⟩
  | node color left root right =>
      obtain ⟨⟨notLeft, notRight⟩, -, -, -⟩ :=
        (@nodup_sided _ .left color left right root).mp nodup
      obtain ⟨cell, leftStored, rightStored⟩ := stored
      refine ⟨_, assign_spec _ cell, rfl, ⟨?_, ?_, ?_⟩, ?_⟩
      · exact Function.update_self _ _ _
      · apply leftStored.congr
        intro item within
        exact Function.update_of_ne (by rintro rfl; exact notLeft within) _ _
      · apply rightStored.congr
        intro item within
        exact Function.update_of_ne (by rintro rfl; exact notRight within) _ _
      · intro item outside
        apply Function.update_of_ne
        rintro rfl
        simp [inorder] at outside

theorem setChild_above {memory : RbMemory Node} {frame : Frame Node} {rest : RbPath Node}
    {hole : Option Node} (new : Option Node) (nodup : (items (frame :: rest)).Nodup)
    (stored : StoredPath memory hole (frame :: rest)) :
    ∃ changed, setChild frame.side memory (some frame.item) new = some changed ∧
      StoredPath changed new (frame :: rest) ∧
      ∀ item, item ∉ items (frame :: rest) → changed.nodes item = memory.nodes item := by
  obtain ⟨cell, sibling, above⟩ := stored
  rw [items, List.nodup_append, List.nodup_cons] at nodup
  obtain ⟨⟨apart, -⟩, -, distinct⟩ := nodup
  refine ⟨_, assign_spec _ cell, ⟨?_, sibling.congr ?_, above.congr ?_ rfl⟩, ?_⟩
  · exact (Function.update_self ..).trans (congrArg some (RbNode.sided_withChild ..))
  · intro item within
    exact Function.update_of_ne (by rintro rfl; exact apart within) _ _
  · intro item within
    apply Function.update_of_ne
    rintro rfl
    exact distinct _ List.mem_cons_self _ within rfl
  · intro item notIn
    apply Function.update_of_ne
    rintro rfl
    simp [items] at notIn

theorem relink_spec {memory : RbMemory Node} {node : Node} (side : Side) (new : Option Node)
    (nodup : path.items.Nodup) (outside : node ∉ path.items)
    (stored : StoredPath memory (some node) path) :
    ∃ changed, relink side memory (parent path) (some node) new = some changed ∧
      StoredPath changed new path ∧
      ∀ item, item ∉ path.items → changed.nodes item = memory.nodes item := by
  cases path with
  | nil => exact ⟨_, rfl, rfl, fun _ _ => rfl⟩
  | cons frame rest =>
      have siblingNot : frame.sibling.top ≠ some node := by
        intro top
        apply outside
        simp [items, mem_of_top top]
      have changes : relink side memory (parent (frame :: rest)) (some node) new =
          setChild frame.side memory (some frame.item) new := by
        simp only [relink, parent, stored.1, Option.bind_eq_bind, Option.bind_some]
        by_cases same : frame.side = side
        · rw [same, RbNode.sided_child, if_pos rfl]
        · obtain rfl := Side.eq_other_of_ne (Ne.symm same)
          rw [RbNode.sided_child_other, if_neg siblingNot, Side.other_other]
      rw [changes]
      exact setChild_above new nodup stored

theorem treeMemory_cell {side : Side} {own : Color} {near far : RbTree Node} {item : Node}
    (nodup : (fill (sided side own near item far) path).inorder.Nodup) :
    (treeMemory others (fill (sided side own near item far) path)).nodes item =
      some (RbNode.sided side (parent path) own near.top far.top) :=
  (stored_sided.mp (treeMemory_stored nodup).1).1

theorem setColor_spec {item : Node} (painted : Color)
    (nodup : (fill tree path).inorder.Nodup) (top : tree.top = some item) :
    setColor (treeMemory others (fill tree path)) (some item) painted =
      some (treeMemory others (fill (tree.paint painted) path)) := by
  obtain ⟨near, far, shape⟩ := exists_sided .left top
  rw [shape] at nodup ⊢
  obtain ⟨stored, above⟩ := @treeMemory_stored _ _ others _ _ nodup
  obtain ⟨cell, nearStored, farStored⟩ := stored_sided.mp stored
  obtain ⟨focusNodup, -, apart⟩ := nodup_fill.mp nodup
  obtain ⟨⟨notNear, notFar⟩, -, -, -⟩ := nodup_sided.mp focusNodup
  rw [setColor, assign_spec _ cell, RbNode.sided_withColor, paint_sided, Option.some.injEq]
  have itemWithin : item ∈ (sided .left tree.color near item far).inorder := by
    simp [mem_inorder_sided]
  apply eq_treeMemory
  · rwa [inorder_fill_congr path (inorder_sided_congr rfl rfl)]
  · refine stored_sided.mpr ⟨Function.update_self .., nearStored.congr ?_, farStored.congr ?_⟩
    · intro other within
      exact Function.update_of_ne (by rintro rfl; exact notNear within) _ _
    · intro other within
      exact Function.update_of_ne (by rintro rfl; exact notFar within) _ _
  · rw [top_sided] at above ⊢
    refine above.congr (fun other within => ?_) rfl
    exact Function.update_of_ne (by rintro rfl; exact apart _ itemWithin within) _ _
  · intro other outside notPath
    rw [mem_inorder_sided, not_or, not_or] at outside
    refine (Function.update_of_ne outside.2.1 _ _).trans (treeMemory_outside ?_)
    rw [mem_inorder_fill, mem_inorder_sided]
    tauto

theorem blacken_spec (nodup : (fill tree path).inorder.Nodup) :
    blacken (treeMemory others (fill tree path)) tree.top =
      some (treeMemory others (fill (tree.paint .black) path)) := by
  cases tree with
  | nil => rfl
  | node own left item right => exact setColor_spec .black nodup rfl

theorem treeMemory_color {item : Node} (nodup : (fill tree path).inorder.Nodup)
    (top : tree.top = some item) :
    ∃ cell, (treeMemory others (fill tree path)).nodes item = some cell ∧
      cell.rbColor = tree.color := by
  obtain ⟨near, far, shape⟩ := exists_sided .left top
  rw [shape] at nodup
  have cell := @treeMemory_cell _ _ others path _ _ _ _ _ nodup
  rw [← shape] at cell
  exact ⟨_, cell, RbNode.sided_rbColor ..⟩

theorem isRed_spec (nodup : (fill tree path).inorder.Nodup) :
    isRed (treeMemory others (fill tree path)) tree.top = some (decide (tree.color = .red)) := by
  cases top : tree.top with
  | none =>
      rw [top_eq_none_iff] at top
      rw [top]
      rfl
  | some item =>
      obtain ⟨cell, held, sameColor⟩ := @treeMemory_color _ _ others _ _ _ nodup top
      simp [isRed, held, sameColor]

theorem isBlack_spec (nodup : (fill tree path).inorder.Nodup) :
    isBlack (treeMemory others (fill tree path)) tree.top =
      some (decide (tree.color = .black)) := by
  cases top : tree.top with
  | none =>
      rw [top_eq_none_iff] at top
      rw [top]
      rfl
  | some item =>
      obtain ⟨cell, held, sameColor⟩ := @treeMemory_color _ _ others _ _ _ nodup top
      simp [isBlack, held, sameColor]

theorem rbRotate_spec {side : Side} {own raised : Color} {a b c : RbTree Node} {x y : Node}
    (nodup : (fill (sided side own a x (sided side raised b y c)) path).inorder.Nodup) :
    rbRotate side (treeMemory others (fill (sided side own a x (sided side raised b y c)) path)) x =
      some (treeMemory others (fill (sided side raised (sided side own a x b) y c) path)) := by
  have turned : (fill (sided side raised (sided side own a x b) y c) path).inorder.Nodup := by
    rwa [← rotate_sided, inorder_fill_congr path (inorder_rotate side _)]
  obtain ⟨stored, above⟩ := @treeMemory_stored _ _ others _ _ nodup
  have outside (item : Node) := @treeMemory_outside _ _ others
    (fill (sided side own a x (sided side raised b y c)) path) item
  simp only [mem_inorder_fill, mem_inorder_sided] at outside
  generalize treeMemory others (fill (sided side own a x (sided side raised b y c)) path) = memory
    at stored above outside ⊢
  obtain ⟨xCell, aStored, raisedStored⟩ := stored_sided.mp stored
  obtain ⟨yCell, bStored, cStored⟩ := stored_sided.mp raisedStored
  rw [top_sided] at xCell above
  obtain ⟨focusNodup, pathNodup, apart⟩ := nodup_fill.mp nodup
  simp only [nodup_sided, mem_inorder_sided] at focusNodup apart
  obtain ⟨⟨xNotA, xNotRaised⟩, -, ⟨⟨yNotB, yNotC⟩, bNodup, -, bApartC⟩, aApart⟩ := focusNodup
  have pathApart (item : Node) (within : item ∈ path.items) :
      item ≠ x ∧ item ≠ y ∧ item ∉ a.inorder ∧ item ∉ b.inorder ∧ item ∉ c.inorder := by
    refine ⟨?_, ?_, ?_, ?_, ?_⟩ <;> grind
  -- `node->rb_right = right->rb_left`
  obtain ⟨memory1, step1, root1, x1, same1⟩ :=
    assign_cell (RbNode.withChild side.other b.top) xCell
  rw [RbNode.sided_withChild_other] at x1
  -- `right->rb_left->rb_parent = node`
  have bStored1 : Stored memory1.nodes (some y) b :=
    bStored.congr fun item within => same1 item (by grind)
  obtain ⟨memory2, step2, root2, bStored2, same2⟩ := adopt_spec (some x) bNodup bStored1
  -- `right->rb_left = node`
  obtain ⟨memory3, step3, root3, y3, same3⟩ := @assign_cell _ _ memory2 y
    (RbNode.sided side (some x) raised b.top c.top) (RbNode.withChild side (some x)) (by grind)
  rw [RbNode.sided_withChild] at y3
  -- `right->rb_parent = node->rb_parent`
  obtain ⟨memory4, step4, root4, y4, same4⟩ :=
    assign_cell (fun cell => { cell with rbParent := parent path }) y3
  rw [RbNode.sided_withParent] at y4
  -- the link from above
  obtain ⟨memory5, step5, above5, same5⟩ := @relink_spec _ _ path memory4 x side (some y)
    pathNodup (by grind) (above.congr (by grind) (by grind))
  -- `node->rb_parent = right`
  obtain ⟨memory6, step6, root6, x6, same6⟩ := @assign_cell _ _ memory5 x
    (RbNode.sided side (parent path) own a.top b.top)
    (fun cell => { cell with rbParent := some y }) (by grind)
  rw [RbNode.sided_withParent] at x6
  have x3 : memory3.nodes x = some (RbNode.sided side (parent path) own a.top b.top) := by
    rw [same3 x (by grind), same2 x (by grind), x1]
  have runs : rbRotate side memory x = some memory6 := by
    simp only [rbRotate, xCell, yCell, x3, Option.bind_eq_bind, Option.bind_some,
      RbNode.sided_child, RbNode.sided_child_other, RbNode.sided_rbParent, setChild, setParent,
      step1, step2, step3, step4, step5, step6]
  have untouched (item : Node) (notX : item ≠ x) (notY : item ≠ y) (notB : item ∉ b.inorder)
      (notPath : item ∉ path.items) : memory6.nodes item = memory.nodes item := by
    rw [same6 item notX, same5 item notPath, same4 item notY, same3 item notY, same2 item notB,
      same1 item notX]
  rw [runs, Option.some.injEq]
  apply eq_treeMemory turned
  · refine stored_sided.mpr ⟨?_, stored_sided.mpr ⟨?_, ?_, ?_⟩, ?_⟩
    · rw [top_sided, same6 y (by grind), same5 y (by grind), y4]
    · exact x6
    · exact aStored.congr fun item within =>
        untouched item (by grind) (by grind) (by grind) (apart item (Or.inl within))
    · refine bStored2.congr fun item within => ?_
      rw [same6 item (by grind), same5 item (by grind), same4 item (by grind),
        same3 item (by grind)]
    · exact cStored.congr fun item within =>
        untouched item (by grind) (by grind) (by grind) (by grind)
  · rw [top_sided]
    exact above5.congr (fun item within => same6 item (pathApart item within).1) root6
  · intro item notFocus notPath
    simp only [mem_inorder_sided, not_or] at notFocus
    rw [← outside item (by tauto)]
    exact untouched item (by tauto) (by tauto) (by tauto) notPath

/-- The rotation of a node whose near child comes up. -/
theorem rbRotate_other_spec {side : Side} {own raised : Color} {a b c : RbTree Node} {x y : Node}
    (nodup : (fill (sided side own (sided side raised a x b) y c) path).inorder.Nodup) :
    rbRotate side.other
        (treeMemory others (fill (sided side own (sided side raised a x b) y c) path)) y =
      some (treeMemory others (fill (sided side raised a x (sided side own b y c)) path)) := by
  rw [← sided_other side own, ← sided_other side raised] at nodup ⊢
  rw [rbRotate_spec nodup, ← sided_other side raised, ← sided_other side own]

variable {side : Side} {own : Color} {near far : RbTree Node} {item : Node}

theorem setColor_self (painted : Color)
    (nodup : (fill (sided side own near item far) path).inorder.Nodup) :
    setColor (treeMemory others (fill (sided side own near item far) path)) (some item) painted =
      some (treeMemory others (fill (sided side painted near item far) path)) := by
  rw [setColor_spec painted nodup (top_sided ..), paint_sided]

theorem setColor_near {below : Node} (painted : Color)
    (nodup : (fill (sided side own near item far) path).inorder.Nodup)
    (top : near.top = some below) :
    setColor (treeMemory others (fill (sided side own near item far) path)) (some below) painted =
      some (treeMemory others (fill (sided side own (near.paint painted) item far) path)) :=
  @setColor_spec _ _ others near (⟨side, own, item, far⟩ :: path) below painted nodup top

theorem setColor_far {below : Node} (painted : Color)
    (nodup : (fill (sided side own near item far) path).inorder.Nodup)
    (top : far.top = some below) :
    setColor (treeMemory others (fill (sided side own near item far) path)) (some below) painted =
      some (treeMemory others (fill (sided side own near item (far.paint painted)) path)) := by
  rw [fill_far] at nodup ⊢
  rw [setColor_spec painted nodup top, fill_far]

theorem isRed_far (nodup : (fill (sided side own near item far) path).inorder.Nodup) :
    isRed (treeMemory others (fill (sided side own near item far) path)) far.top =
      some (decide (far.color = .red)) := by
  rw [fill_far] at nodup ⊢
  exact isRed_spec nodup

theorem isBlack_far (nodup : (fill (sided side own near item far) path).inorder.Nodup) :
    isBlack (treeMemory others (fill (sided side own near item far) path)) far.top =
      some (decide (far.color = .black)) := by
  rw [fill_far] at nodup ⊢
  exact isBlack_spec nodup

theorem blacken_far (nodup : (fill (sided side own near item far) path).inorder.Nodup) :
    blacken (treeMemory others (fill (sided side own near item far) path)) far.top =
      some (treeMemory others (fill (sided side own near item (far.paint .black)) path)) := by
  rw [fill_far] at nodup ⊢
  rw [blacken_spec nodup, fill_far]

/-- A test for the left child finds the side of the focus. -/
theorem branch_eq {Result : Type} {above below : Option Node} (notFar : far.top ≠ below)
    (nearTop : near.top = below) (branch : Side → Result) :
    (if (RbNode.sided side above own near.top far.top).rbLeft = below then branch .left
      else branch .right) = branch side := by
  cases side with
  | left => rw [RbNode.sided, if_pos nearTop]
  | right => rw [RbNode.sided, if_neg notFar]

end Memory

end UtilsModules.Datastruct

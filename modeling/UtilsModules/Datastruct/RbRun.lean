import UtilsModules.Datastruct.RbOrder
import UtilsModules.Library.Transition

/-!
The red-black tree as its callers use it.

A caller links a node into an empty place, erases nodes and replaces nodes.
Beside the memory runs a list, on which the same calls are operations on the
order alone.
-/

namespace UtilsModules.Datastruct

open RedBlack RbTree RbPath

variable {Node : Type} [DecidableEq Node]

def pair (side : Side) (pivot new : Node) : List Node :=
  match side with
  | .left => [new, pivot]
  | .right => [pivot, new]

def putBeside (side : Side) (pivot new : Node) : List Node → List Node
  | [] => []
  | item :: rest =>
      if item = pivot then pair side pivot new ++ rest else item :: putBeside side pivot new rest

theorem putBeside_append {pivot : Node} {before : List Node} (side : Side) (new : Node)
    (behind : List Node) (outside : pivot ∉ before) :
    putBeside side pivot new (before ++ pivot :: behind) =
      before ++ pair side pivot new ++ behind := by
  induction before with
  | nil => simp [putBeside]
  | cons item before inductionHypothesis =>
      simp only [List.mem_cons, not_or] at outside
      simp [putBeside, Ne.symm outside.1, inductionHypothesis outside.2]

def putAt (link : RbLink Node) (new : Node) (items : List Node) : List Node :=
  match link with
  | .root => [new]
  | .child side parent => putBeside side parent new items

inductive RbCall (Node : Type) where
  /-- `rb_link_node` and then `rb_insert_color`. -/
  | insert (new : Node) (link : RbLink Node)
  | erase (victim : Node)
  | replace (victim new : Node)

namespace RbCall

def perform (rounds : Nat) (memory : RbMemory Node) : RbCall Node → Option (RbMemory Node)
  | insert new link => do
      let memory ← rbLinkNode memory new link.parent link
      rbInsertColor rounds memory new
  | erase victim => rbErase rounds memory victim
  | replace victim new => rbReplaceNode memory victim new

def order (items : List Node) : RbCall Node → List Node
  | insert new link => putAt link new items
  | erase victim => items.erase victim
  | replace victim new => items.replace victim new

end RbCall

structure RbState (Node : Type) where
  memory : RbMemory Node
  items : List Node

namespace RbState

def rounds (state : RbState Node) : Nat := 2 * Nat.log 2 (state.items.length + 1) + 1

def step (state : RbState Node) (call : RbCall Node) : Option (RbState Node) := do
  let memory ← call.perform state.rounds state.memory
  some ⟨memory, call.order state.items⟩

/-- What a caller sees to: the place is empty, a new node is no node of the tree
and lies in memory, an old one is in the tree. -/
def Allowed (state : RbState Node) : RbCall Node → Prop
  | .insert new link =>
      new ∉ state.items ∧ (∃ cell, state.memory.nodes new = some cell) ∧
        (∀ parent ∈ link.parent, parent ∈ state.items) ∧ link.read state.memory = some none
  | .erase victim => victim ∈ state.items
  | .replace victim new =>
      victim ∈ state.items ∧ new ∉ state.items ∧ ∃ cell, state.memory.nodes new = some cell

instance (state : RbState Node) : (call : RbCall Node) → Decidable (state.Allowed call)
  | .insert new link =>
      decidable_of_iff (new ∉ state.items ∧ (state.memory.nodes new).isSome ∧
        (∀ parent ∈ link.parent, parent ∈ state.items) ∧ link.read state.memory = some none)
        (by simp only [Allowed, Option.isSome_iff_exists])
  | .erase victim => inferInstanceAs (Decidable (victim ∈ state.items))
  | .replace victim new =>
      decidable_of_iff (victim ∈ state.items ∧ new ∉ state.items ∧
        (state.memory.nodes new).isSome) (by simp only [Allowed, Option.isSome_iff_exists])

/-- The memory holds a red-black tree with the nodes in this order, and the
nodes that lie in memory are the given ones. -/
structure Ordered (inMemory : Node → Prop) (state : RbState Node) (tree : RbTree Node) : Prop where
  held : ∃ others, state.memory = treeMemory others tree
  order : tree.inorder = state.items
  sound : tree.Sound
  nodup : tree.inorder.Nodup
  kept : ∀ node, (∃ cell, state.memory.nodes node = some cell) ↔ inMemory node

end RbState

theorem exists_cell_iff {others : Node → Option (RbNode Node)} {tree : RbTree Node}
    (nodup : tree.inorder.Nodup) (item : Node) :
    (∃ cell, (treeMemory others tree).nodes item = some cell) ↔
      item ∈ tree.inorder ∨ ∃ cell, others item = some cell := by
  by_cases within : item ∈ tree.inorder
  · obtain ⟨path, own, left, right, rfl⟩ := exists_focus within
    have cell := @treeMemory_cell _ _ others path .left own left right item nodup
    exact ⟨fun _ => Or.inl within, fun _ => ⟨_, cell⟩⟩
  · rw [treeMemory_outside within]
    tauto

theorem putAt_linkOf {path : RbPath Node} {new : Node} (nodup : (fill nil path).inorder.Nodup) :
    (fill (sided .left .red nil new nil) path).inorder =
      putAt (linkOf path) new (fill nil path).inorder := by
  rw [inorder_fill] at nodup
  rw [inorder_fill, inorder_fill]
  cases path with
  | nil => rfl
  | cons frame rest =>
      obtain ⟨side, own, item, sibling⟩ := frame
      cases side with
      | left =>
          simp only [before, behind, if_true, along, inorder, List.append_nil, List.cons_append, linkOf,
            putAt] at nodup ⊢
          have outside := (List.nodup_cons.mp (List.nodup_middle.mp nodup)).1
          rw [putBeside_append .left new _ fun within => outside (List.mem_append_left _ within)]
          simp [pair, sided, inorder]
      | right =>
          simp only [before, behind, reduceCtorEq, if_false, along, inorder, List.append_nil, linkOf,
            putAt] at nodup ⊢
          rw [List.append_assoc, List.singleton_append] at nodup
          rw [List.append_assoc _ [item], List.append_assoc _ [item], List.singleton_append,
            List.singleton_append]
          have outside := (List.nodup_cons.mp (List.nodup_middle.mp nodup)).1
          rw [putBeside_append .right new _ fun within => outside (List.mem_append_left _ within)]
          simp [pair, sided, inorder]

theorem replace_middle {victim : Node} {front back : List Node} (new : Node)
    (nodup : (front ++ victim :: back).Nodup) :
    (front ++ victim :: back).replace victim new = front ++ new :: back := by
  have outside := (List.nodup_cons.mp (List.nodup_middle.mp nodup)).1
  rw [List.replace_append_right fun within => outside (List.mem_append_left _ within),
    List.replace_cons_self]

namespace RbState

variable {inMemory : Node → Prop} {state : RbState Node} {tree : RbTree Node}

theorem Ordered.height_lt (ordered : state.Ordered inMemory tree) : tree.height < state.rounds := by
  have high := ordered.sound.height_le
  rw [ordered.order] at high
  exact Nat.lt_succ_of_le high

theorem step_insert {new : Node} {link : RbLink Node} (ordered : state.Ordered inMemory tree)
    (allowed : state.Allowed (.insert new link)) :
    ∃ next after, state.step (.insert new link) = some next ∧ next.Ordered inMemory after := by
  obtain ⟨fresh, allocated, inTree, empty⟩ := allowed
  have short := ordered.height_lt
  obtain ⟨⟨others, held⟩, order, sound, nodup, kept⟩ := ordered
  rw [held] at allocated empty kept
  rw [← order] at fresh inTree
  obtain ⟨path, rfl, rfl⟩ := exists_empty_focus nodup inTree empty
  rw [treeMemory_outside fresh] at allocated
  have linked := rbLinkNode_spec nodup fresh allocated
  obtain ⟨count, pathBalanced, soundAfter⟩ := @insertRepair_leaf_sound _ .left new path sound
  have linkedNodup : (fill (sided .left .red nil new nil) path).inorder.Nodup :=
    nodup_leaf nodup fresh
  have below := length_add_height_le (nil : RbTree Node) path
  have repaired := @rbInsertColor_spec _ _ others _ new path count state.rounds (top_sided ..)
    linkedNodup pathBalanced (by omega)
  have afterOrder := (inorder_insertRepair (sided .left .red nil new nil) path).trans
    (@putAt_linkOf _ _ path new nodup)
  refine ⟨⟨treeMemory others (insertRepair (sided .left .red nil new nil) path),
    putAt (linkOf path) new state.items⟩, _, ?_, ⟨⟨others, rfl⟩, ?_, soundAfter, ?_, ?_⟩⟩
  · simp only [step, RbCall.perform, held, parent_linkOf, linked, repaired, Option.bind_eq_bind,
      Option.bind_some]
    rfl
  · rw [afterOrder, order]
  · rwa [inorder_insertRepair]
  · intro node
    have within : node ∈ (insertRepair (sided .left .red nil new nil) path).inorder ↔
        node = new ∨ node ∈ (fill nil path).inorder := by
      simp [inorder_insertRepair, mem_inorder_fill, mem_inorder_sided, inorder]
    rw [← kept node, exists_cell_iff nodup, exists_cell_iff (by rwa [inorder_insertRepair]), within]
    constructor
    · rintro ((rfl | inTree) | outside)
      · exact Or.inr allocated
      · exact Or.inl inTree
      · exact Or.inr outside
    · tauto

theorem step_erase {victim : Node} (ordered : state.Ordered inMemory tree)
    (allowed : state.Allowed (.erase victim)) :
    ∃ next after, state.step (.erase victim) = some next ∧ next.Ordered inMemory after := by
  have short := ordered.height_lt
  obtain ⟨⟨others, held⟩, order, sound, nodup, kept⟩ := ordered
  rw [held] at kept
  change victim ∈ state.items at allowed
  rw [← order] at allowed
  obtain ⟨cell, after, runs, soundAfter, orderAfter⟩ :=
    @rbErase_spec _ _ others tree victim state.rounds sound nodup allowed (by omega)
  have nodupAfter : after.inorder.Nodup := orderAfter ▸ nodup.erase victim
  refine ⟨⟨treeMemory (Function.update others victim (some cell)) after, state.items.erase victim⟩,
    after, ?_, ⟨⟨_, rfl⟩, ?_, soundAfter, nodupAfter, ?_⟩⟩
  · simp only [step, RbCall.perform, held, runs, Option.bind_eq_bind, Option.bind_some]
    rfl
  · rw [orderAfter, order]
  · intro node
    rw [← kept node, exists_cell_iff nodup, exists_cell_iff nodupAfter, orderAfter]
    by_cases isVictim : node = victim
    · subst isVictim
      simp [allowed]
    · rw [Function.update_of_ne isVictim, List.mem_erase_of_ne isVictim]

theorem step_replace {victim new : Node} (ordered : state.Ordered inMemory tree)
    (allowed : state.Allowed (.replace victim new)) :
    ∃ next after, state.step (.replace victim new) = some next ∧ next.Ordered inMemory after := by
  obtain ⟨⟨others, held⟩, order, sound, nodup, kept⟩ := ordered
  obtain ⟨present, fresh, allocated⟩ := allowed
  rw [held] at allocated kept
  rw [← order] at present fresh
  rw [treeMemory_outside fresh] at allocated
  obtain ⟨path, own, left, right, rfl⟩ := exists_focus present
  have runs := @rbReplaceNode_spec _ _ others own left right victim new path nodup fresh allocated
  have nodupAfter := @nodup_replaced _ .left own left right victim new path nodup fresh
  have orderAfter : (fill (sided .left own left new right) path).inorder =
      (fill (node own left victim right) path).inorder.replace victim new := by
    have whole (item : Node) : (fill (node own left item right) path).inorder =
        (path.before .left ++ left.inorder) ++ item :: (right.inorder ++ path.behind .left) := by
      rw [inorder_fill, inorder]
      simp
    rw [whole] at nodup ⊢
    rw [replace_middle new nodup]
    exact whole new
  refine ⟨⟨treeMemory (Function.update others victim (some (RbNode.sided .left (parent path) own
    left.top right.top))) (fill (sided .left own left new right) path),
      state.items.replace victim new⟩, _, ?_,
    ⟨⟨_, rfl⟩, ?_, @sound_replaced _ .left own left right victim new path sound, nodupAfter, ?_⟩⟩
  · simp only [step, RbCall.perform, held]
    change (rbReplaceNode (treeMemory others (fill (sided .left own left victim right) path)) victim
      new).bind _ = _
    rw [runs]
    rfl
  · rw [orderAfter, order]
  · intro item
    rw [← kept item, exists_cell_iff nodup, exists_cell_iff nodupAfter]
    simp only [mem_inorder_fill, mem_inorder_sided, inorder, List.mem_append, List.mem_cons]
    by_cases isVictim : item = victim
    · subst isVictim
      simp
    · rw [Function.update_of_ne isVictim]
      by_cases isNew : item = new
      · subst isNew
        simp [allocated]
      · simp [isVictim, isNew]

/-- Every call that a caller may make returns and leaves a red-black tree. -/
theorem step_spec {call : RbCall Node} (ordered : state.Ordered inMemory tree)
    (allowed : state.Allowed call) :
    ∃ next after, state.step call = some next ∧ next.Ordered inMemory after := by
  cases call with
  | insert new link => exact step_insert ordered allowed
  | erase victim => exact step_erase ordered allowed
  | replace victim new => exact step_replace ordered allowed

def root (nodes : Node → Option (RbNode Node)) : RbState Node := ⟨⟨nodes, none⟩, []⟩

theorem root_ordered (nodes : Node → Option (RbNode Node)) :
    (root nodes).Ordered (fun node => ∃ cell, nodes node = some cell) nil :=
  ⟨⟨nodes, rfl⟩, rfl, ⟨rfl, 0, .nil⟩, List.nodup_nil, fun _ => Iff.rfl⟩

theorem run_ordered (nodes : Node → Option (RbNode Node)) (calls : List (RbCall Node))
    (allowed : Transition.Guarded step Allowed (root nodes) calls) :
    ∃ last, Transition.run step (root nodes) calls = some last ∧
      ∃ tree, last.Ordered (fun node => ∃ cell, nodes node = some cell) tree := by
  have taken (state : RbState Node) (call : RbCall Node)
      (good : ∃ tree, state.Ordered (fun node => ∃ cell, nodes node = some cell) tree)
      (here : state.Allowed call) : ∃ next, state.step call = some next ∧
        ∃ tree, next.Ordered (fun node => ∃ cell, nodes node = some cell) tree := by
    obtain ⟨tree, ordered⟩ := good
    obtain ⟨next, after, stepped, orderedAfter⟩ := step_spec ordered here
    exact ⟨next, stepped, after, orderedAfter⟩
  exact Transition.run_defined_of_guarded step taken allowed ⟨nil, root_ordered nodes⟩

/-- From an empty root, any calls that a caller may make all return, within
`2 * log2 (n + 1) + 1` rounds of their loops in a tree of `n` nodes.  After them
the memory holds a red-black tree with the nodes in the order that the calls say,
no higher than `2 * log2 (n + 1)`, and the same nodes lie in memory as before. -/
theorem run_red_black (nodes : Node → Option (RbNode Node)) (calls : List (RbCall Node))
    (allowed : Transition.Guarded step Allowed (root nodes) calls) :
    ∃ last tree others, Transition.run step (root nodes) calls = some last ∧
      last.memory = treeMemory others tree ∧ tree.inorder = last.items ∧ tree.Sound ∧
        tree.height ≤ 2 * Nat.log 2 (last.items.length + 1) ∧
          ∀ node, (∃ cell, last.memory.nodes node = some cell) ↔ ∃ cell, nodes node = some cell := by
  obtain ⟨last, ran, tree, ordered⟩ := run_ordered nodes calls allowed
  obtain ⟨others, held⟩ := ordered.held
  have high := ordered.sound.height_le
  rw [ordered.order] at high
  exact ⟨last, tree, others, ran, held, ordered.order, ordered.sound, high, ordered.kept⟩

theorem run_red_black_six : ∃ last tree others,
    Transition.run step (root fun node : Fin 7 => some ⟨some node, .red, none, none⟩)
        [.insert 0 .root, .insert 1 (.child .right 0), .insert 2 (.child .right 1),
          .insert 3 (.child .left 2), .erase 1, .replace 2 6] = some last ∧
      last.memory = treeMemory others tree ∧ tree.inorder = last.items ∧ tree.Sound ∧
        tree.height ≤ 2 * Nat.log 2 (last.items.length + 1) ∧
          ∀ node, (∃ cell, last.memory.nodes node = some cell) ↔
            ∃ cell : RbNode (Fin 7), some ⟨some node, .red, none, none⟩ = some cell :=
  run_red_black (fun node : Fin 7 => some ⟨some node, .red, none, none⟩)
    [.insert 0 .root, .insert 1 (.child .right 0), .insert 2 (.child .right 1),
      .insert 3 (.child .left 2), .erase 1, .replace 2 6] (by decide)

/-- After any such calls, the walk from `rb_first` by `rb_next` visits the nodes in
order, and the walk from `rb_last` by `rb_prev` the other way round. -/
theorem run_walks (nodes : Node → Option (RbNode Node)) (calls : List (RbCall Node))
    (allowed : Transition.Guarded step Allowed (root nodes) calls) :
    ∃ last, Transition.run step (root nodes) calls = some last ∧
      (rbFirst last.rounds last.memory).bind
          (rbWalk .right last.rounds last.memory last.items.length) = some last.items ∧
        (rbLast last.rounds last.memory).bind
          (rbWalk .left last.rounds last.memory last.items.length) = some last.items.reverse := by
  obtain ⟨last, ran, tree, ordered⟩ := run_ordered nodes calls allowed
  have short := Nat.le_of_lt ordered.height_lt
  have many : tree.inorder.length = last.items.length := by rw [ordered.order]
  obtain ⟨others, held⟩ := ordered.held
  refine ⟨last, ran, ?_, ?_⟩
  · have first := @rbEnd_spec _ _ others .left tree last.rounds ordered.nodup short
    have walk := @rbWalk_spec _ _ others .left tree last.rounds last.items.length []
      (tree.along .left) ordered.nodup short rfl (by simp [along, many])
    rw [← held] at first walk
    rw [rbFirst, first, Option.bind_some]
    exact walk.trans (congrArg some ordered.order)
  · have end_ := @rbEnd_spec _ _ others .right tree last.rounds ordered.nodup short
    have walk := @rbWalk_spec _ _ others .right tree last.rounds last.items.length []
      (tree.along .right) ordered.nodup short rfl (by simp [along, many])
    rw [← held] at end_ walk
    rw [rbLast, end_, Option.bind_some]
    exact walk.trans (congrArg (fun items => some items.reverse) ordered.order)

theorem run_walks_five : ∃ last,
    Transition.run step (root fun node : Fin 7 => some ⟨some node, .red, none, none⟩)
        [.insert 0 .root, .insert 1 (.child .left 0), .insert 2 (.child .right 1),
          .insert 3 (.child .left 0), .erase 2] = some last ∧
      (rbFirst last.rounds last.memory).bind
          (rbWalk .right last.rounds last.memory last.items.length) = some last.items ∧
        (rbLast last.rounds last.memory).bind
          (rbWalk .left last.rounds last.memory last.items.length) = some last.items.reverse :=
  run_walks (fun node : Fin 7 => some ⟨some node, .red, none, none⟩)
    [.insert 0 .root, .insert 1 (.child .left 0), .insert 2 (.child .right 1),
      .insert 3 (.child .left 0), .erase 2] (by decide)

end RbState

end UtilsModules.Datastruct

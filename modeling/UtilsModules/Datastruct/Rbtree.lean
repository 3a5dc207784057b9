import Mathlib.Logic.Function.Basic
import UtilsModules.Library.RedBlack

/-!
The red-black tree of `rbtree.c`, as it lies in memory.

A result `none` says that a link was followed from `NULL` or to memory where
nothing is stored, or that the rounds of a loop are over.
-/

namespace UtilsModules.Datastruct

open RedBlack

structure RbNode (Node : Type) where
  rbParent : Option Node
  rbColor : Color
  rbRight : Option Node
  rbLeft : Option Node
  deriving DecidableEq, Repr

structure RbMemory (Node : Type) where
  nodes : Node → Option (RbNode Node)
  rbNode : Option Node

variable {Node : Type}

namespace RbNode

def child (side : Side) (cell : RbNode Node) : Option Node :=
  match side with
  | .left => cell.rbLeft
  | .right => cell.rbRight

def withChild (side : Side) (value : Option Node) (cell : RbNode Node) : RbNode Node :=
  match side with
  | .left => { cell with rbLeft := value }
  | .right => { cell with rbRight := value }

end RbNode

variable [DecidableEq Node]

def RbMemory.assign (memory : RbMemory Node) (node : Option Node)
    (change : RbNode Node → RbNode Node) : Option (RbMemory Node) := do
  let node ← node
  let cell ← memory.nodes node
  some { memory with nodes := Function.update memory.nodes node (some (change cell)) }

def setParent (memory : RbMemory Node) (node parent : Option Node) : Option (RbMemory Node) :=
  memory.assign node fun cell => { cell with rbParent := parent }

def setColor (memory : RbMemory Node) (node : Option Node) (color : Color) :
    Option (RbMemory Node) :=
  memory.assign node fun cell => { cell with rbColor := color }

/-- `node->rb_left = child` or `node->rb_right = child`. -/
def setChild (side : Side) (memory : RbMemory Node) (node child : Option Node) :
    Option (RbMemory Node) :=
  memory.assign node (RbNode.withChild side child)

/-- `if (child) child->rb_parent = parent`. -/
def adopt (memory : RbMemory Node) (child parent : Option Node) : Option (RbMemory Node) :=
  match child with
  | none => some memory
  | some child => setParent memory (some child) parent

/-- `if (child) child->rb_color = RB_BLACK`. -/
def blacken (memory : RbMemory Node) (child : Option Node) : Option (RbMemory Node) :=
  match child with
  | none => some memory
  | some child => setColor memory (some child) .black

/-- The link to `node`, in its parent or in the root, becomes a link to `new`.
The child on the given side is compared first. -/
def relink (side : Side) (memory : RbMemory Node) (parent node new : Option Node) :
    Option (RbMemory Node) :=
  match parent with
  | none => some { memory with rbNode := new }
  | some parent => do
      let cell ← memory.nodes parent
      if cell.child side = node then setChild side memory (some parent) new
      else setChild side.other memory (some parent) new

/-- `node && node->rb_color == RB_RED`. -/
def isRed (memory : RbMemory Node) (node : Option Node) : Option Bool :=
  match node with
  | none => some false
  | some node => do
      let cell ← memory.nodes node
      some (decide (cell.rbColor = .red))

/-- `!node || node->rb_color == RB_BLACK`. -/
def isBlack (memory : RbMemory Node) (node : Option Node) : Option Bool :=
  match node with
  | none => some true
  | some node => do
      let cell ← memory.nodes node
      some (decide (cell.rbColor = .black))

/-- Whether both children are black; a red left child ends the test. -/
def childrenBlack (memory : RbMemory Node) (cell : RbNode Node) : Option Bool := do
  if ← isBlack memory cell.rbLeft then isBlack memory cell.rbRight else some false

def rbRotate (side : Side) (memory : RbMemory Node) (node : Node) : Option (RbMemory Node) := do
  let cell ← memory.nodes node
  let raised ← cell.child side.other
  let raisedCell ← memory.nodes raised
  let memory ← setChild side.other memory (some node) (raisedCell.child side)
  let memory ← adopt memory (raisedCell.child side) (some node)
  let memory ← setChild side memory (some raised) (some node)
  let cell ← memory.nodes node
  let memory ← setParent memory (some raised) cell.rbParent
  let memory ← relink side memory cell.rbParent (some node) (some raised)
  setParent memory (some node) (some raised)

def rbRotateLeft : RbMemory Node → Node → Option (RbMemory Node) := rbRotate .left

def rbRotateRight : RbMemory Node → Node → Option (RbMemory Node) := rbRotate .right

/-- A round of `rb_insert_color` when `parent` is the child of `gparent` on the
given side.  It gives the node of the next round. -/
def rbInsertColorSide (side : Side) (memory : RbMemory Node) (node parent gparent : Node) :
    Option (RbMemory Node × Node) := do
  let gparentCell ← memory.nodes gparent
  let uncle := gparentCell.child side.other
  if ← isRed memory uncle then
    let memory ← setColor memory uncle .black
    let memory ← setColor memory (some parent) .black
    let memory ← setColor memory (some gparent) .red
    some (memory, gparent)
  else
    let parentCell ← memory.nodes parent
    if parentCell.child side.other = some node then
      let memory ← rbRotate side memory parent
      let memory ← setColor memory (some node) .black
      let memory ← setColor memory (some gparent) .red
      let memory ← rbRotate side.other memory gparent
      some (memory, parent)
    else
      let memory ← setColor memory (some parent) .black
      let memory ← setColor memory (some gparent) .red
      let memory ← rbRotate side.other memory gparent
      some (memory, node)

def rbInsertColorLoop : Nat → RbMemory Node → Node → Option (RbMemory Node)
  | 0, _, _ => none
  | rounds + 1, memory, node => do
      let cell ← memory.nodes node
      match cell.rbParent with
      | none => some memory
      | some parent =>
          let parentCell ← memory.nodes parent
          if parentCell.rbColor = .red then
            let gparent ← parentCell.rbParent
            let gparentCell ← memory.nodes gparent
            let (memory, node) ←
              if gparentCell.rbLeft = some parent then
                rbInsertColorSide .left memory node parent gparent
              else rbInsertColorSide .right memory node parent gparent
            rbInsertColorLoop rounds memory node
          else some memory

def rbInsertColor (rounds : Nat) (memory : RbMemory Node) (node : Node) :
    Option (RbMemory Node) := do
  let memory ← rbInsertColorLoop rounds memory node
  setColor memory memory.rbNode .black

/-- How a round of `__rb_erase_color` ends: with the node and the parent of the
next round, or with `break`. -/
inductive EraseRound (Node : Type) where
  | next (memory : RbMemory Node) (node parent : Option Node)
  | stop (memory : RbMemory Node) (node : Option Node)

/-- A red child of `other` comes to its far side.  It gives the new `other`. -/
def rbEraseColorBend (side : Side) (memory : RbMemory Node) (parent other : Node) :
    Option (RbMemory Node × Option Node) := do
  let otherCell ← memory.nodes other
  if ← isBlack memory (otherCell.child side.other) then
    let memory ← blacken memory (otherCell.child side)
    let memory ← setColor memory (some other) .red
    let memory ← rbRotate side.other memory other
    let parentCell ← memory.nodes parent
    some (memory, parentCell.child side.other)
  else some (memory, some other)

def rbEraseColorSettle (side : Side) (memory : RbMemory Node) (parent : Node)
    (other : Option Node) : Option (RbMemory Node) := do
  let parentCell ← memory.nodes parent
  let memory ← setColor memory other parentCell.rbColor
  let memory ← setColor memory (some parent) .black
  let other ← other
  let otherCell ← memory.nodes other
  let memory ← blacken memory (otherCell.child side.other)
  rbRotate side memory parent

def rbEraseColorBlack (side : Side) (memory : RbMemory Node) (parent : Node)
    (other : Option Node) : Option (EraseRound Node) := do
  let other ← other
  let otherCell ← memory.nodes other
  if ← childrenBlack memory otherCell then
    let memory ← setColor memory (some other) .red
    let parentCell ← memory.nodes parent
    some (.next memory (some parent) parentCell.rbParent)
  else
    let (memory, other) ← rbEraseColorBend side memory parent other
    let memory ← rbEraseColorSettle side memory parent other
    some (.stop memory memory.rbNode)

/-- A round of `__rb_erase_color` when `node` is the child of `parent` on the
given side. -/
def rbEraseColorSide (side : Side) (memory : RbMemory Node) (parent : Node) :
    Option (EraseRound Node) := do
  let parentCell ← memory.nodes parent
  let other ← parentCell.child side.other
  let otherCell ← memory.nodes other
  if otherCell.rbColor = .red then
    let memory ← setColor memory (some other) .black
    let memory ← setColor memory (some parent) .red
    let memory ← rbRotate side memory parent
    let parentCell ← memory.nodes parent
    rbEraseColorBlack side memory parent (parentCell.child side.other)
  else rbEraseColorBlack side memory parent (some other)

def rbEraseColorLoop : Nat → RbMemory Node → Option Node → Option Node →
    Option (RbMemory Node × Option Node)
  | 0, _, _, _ => none
  | rounds + 1, memory, node, parent => do
      if (← isBlack memory node) && decide (node ≠ memory.rbNode) then
        let parent ← parent
        let parentCell ← memory.nodes parent
        let round ←
          if parentCell.rbLeft = node then rbEraseColorSide .left memory parent
          else rbEraseColorSide .right memory parent
        match round with
        | .next memory node parent => rbEraseColorLoop rounds memory node parent
        | .stop memory node => some (memory, node)
      else some (memory, node)

def rbEraseColor (rounds : Nat) (memory : RbMemory Node) (node parent : Option Node) :
    Option (RbMemory Node) := do
  let (memory, node) ← rbEraseColorLoop rounds memory node parent
  blacken memory node

/-- `while (node->rb_left) node = node->rb_left`, or the same with `rb_right`. -/
def descend (side : Side) (memory : RbMemory Node) : Nat → Node → Option Node
  | 0, _ => none
  | rounds + 1, node => do
      let cell ← memory.nodes node
      match cell.child side with
      | none => some node
      | some child => descend side memory rounds child

def rbErase (rounds : Nat) (memory : RbMemory Node) (node : Node) : Option (RbMemory Node) := do
  let cell ← memory.nodes node
  if cell.rbLeft = none ∨ cell.rbRight = none then
    let child := if cell.rbLeft = none then cell.rbRight else cell.rbLeft
    let memory ← adopt memory child cell.rbParent
    let memory ← relink .left memory cell.rbParent (some node) child
    if cell.rbColor = .black then rbEraseColor rounds memory child cell.rbParent
    else some memory
  else
    let old := node
    let right ← cell.rbRight
    let node ← descend .left memory rounds right
    let cell ← memory.nodes node
    let child := cell.rbRight
    let memory ← adopt memory child cell.rbParent
    let memory ← relink .left memory cell.rbParent (some node) child
    let nodeCell ← memory.nodes node
    let parent := if nodeCell.rbParent = some old then some node else cell.rbParent
    let oldCell ← memory.nodes old
    let memory ← memory.assign (some node) fun _ =>
      ⟨oldCell.rbParent, oldCell.rbColor, oldCell.rbRight, oldCell.rbLeft⟩
    let memory ← relink .left memory oldCell.rbParent (some old) (some node)
    let oldCell ← memory.nodes old
    let memory ← setParent memory oldCell.rbLeft (some node)
    let memory ← adopt memory oldCell.rbRight (some node)
    if cell.rbColor = .black then rbEraseColor rounds memory child parent else some memory

def rbEnd (side : Side) (rounds : Nat) (memory : RbMemory Node) : Option (Option Node) :=
  match memory.rbNode with
  | none => some none
  | some node => do
      let last ← descend side memory rounds node
      some (some last)

def rbFirst : Nat → RbMemory Node → Option (Option Node) := rbEnd .left

def rbLast : Nat → RbMemory Node → Option (Option Node) := rbEnd .right

/-- Up as long as the node is the child on the given side, and once more. -/
def climb (side : Side) (memory : RbMemory Node) : Nat → Node → Option (Option Node)
  | 0, _ => none
  | rounds + 1, node => do
      let cell ← memory.nodes node
      match cell.rbParent with
      | none => some none
      | some parent =>
          let parentCell ← memory.nodes parent
          if parentCell.child side = some node then climb side memory rounds parent
          else some (some parent)

def rbBeside (side : Side) (rounds : Nat) (memory : RbMemory Node) (node : Node) :
    Option (Option Node) := do
  let cell ← memory.nodes node
  match cell.child side with
  | some child =>
      let found ← descend side.other memory rounds child
      some (some found)
  | none => climb side memory rounds node

def rbNext : Nat → RbMemory Node → Node → Option (Option Node) := rbBeside .right

def rbPrev : Nat → RbMemory Node → Node → Option (Option Node) := rbBeside .left

def rbReplaceNode (memory : RbMemory Node) (victim new : Node) : Option (RbMemory Node) := do
  let cell ← memory.nodes victim
  let memory ← relink .left memory cell.rbParent (some victim) (some new)
  let victimCell ← memory.nodes victim
  let memory ← adopt memory victimCell.rbLeft (some new)
  let memory ← adopt memory victimCell.rbRight (some new)
  let victimCell ← memory.nodes victim
  memory.assign (some new) fun _ => victimCell

/-- The `struct rb_node **` that a caller gives: the link in the root, or a
link to a child. -/
inductive RbLink (Node : Type) where
  | root
  | child (side : Side) (parent : Node)

def RbLink.read (memory : RbMemory Node) : RbLink Node → Option (Option Node)
  | root => some memory.rbNode
  | child side parent => do
      let cell ← memory.nodes parent
      some (cell.child side)

/-- `*rb_link = node`. -/
def RbLink.write (memory : RbMemory Node) (node : Node) : RbLink Node → Option (RbMemory Node)
  | root => some { memory with rbNode := some node }
  | child side parent => setChild side memory (some parent) (some node)

def rbLinkNode (memory : RbMemory Node) (node : Node) (parent : Option Node)
    (link : RbLink Node) : Option (RbMemory Node) := do
  let memory ← memory.assign (some node) fun _ => ⟨parent, .red, none, none⟩
  link.write memory node

end UtilsModules.Datastruct

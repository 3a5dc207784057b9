import Mathlib.Algebra.GroupWithZero.Nat
import Mathlib.Data.List.Nodup
import Mathlib.Data.Nat.Log

/-!
Red-black trees with a focus.

A path leads from a subtree up to the root, and `fill` puts the subtree back.
The repairs after an insertion and after a removal climb along the path.  Left
and right are treated alike: a node is written from the side of the focus.
-/

namespace RedBlack

inductive Color where
  | red
  | black
  deriving DecidableEq, Repr

theorem red_of_not_black {color : Color} (notBlack : color ≠ .black) : color = .red := by
  cases color with
  | red => rfl
  | black => exact absurd rfl notBlack

theorem black_of_not_red {color : Color} (notRed : color ≠ .red) : color = .black := by
  cases color with
  | red => exact absurd rfl notRed
  | black => rfl

inductive Side where
  | left
  | right
  deriving DecidableEq, Repr

namespace Side

def other : Side → Side
  | left => right
  | right => left

@[simp]
theorem other_other (side : Side) : side.other.other = side := by
  cases side <;> rfl

theorem other_ne (side : Side) : side.other ≠ side := by
  cases side <;> decide

theorem eq_other_of_ne {side chosen : Side} (different : chosen ≠ side) : chosen = side.other := by
  cases side <;> cases chosen <;> simp_all [other]

end Side

inductive RbTree (α : Type*) where
  | nil
  | node (color : Color) (left : RbTree α) (item : α) (right : RbTree α)
  deriving DecidableEq, Repr

/-- A node on the way to the focus, with the subtree on its other side. -/
structure Frame (α : Type*) where
  side : Side
  color : Color
  item : α
  sibling : RbTree α

abbrev RbPath (α : Type*) := List (Frame α)

variable {α : Type*}

namespace RbTree

def sided (side : Side) (color : Color) (near : RbTree α) (item : α) (far : RbTree α) : RbTree α :=
  match side with
  | .left => node color near item far
  | .right => node color far item near

def top : RbTree α → Option α
  | nil => none
  | node _ _ item _ => some item

/-- The colour of the root; an empty tree is black. -/
def color : RbTree α → Color
  | nil => .black
  | node color _ _ _ => color

def child (side : Side) : RbTree α → RbTree α
  | nil => nil
  | node _ left _ right =>
      match side with
      | .left => left
      | .right => right

def paint (color : Color) : RbTree α → RbTree α
  | nil => nil
  | node _ left item right => node color left item right

def inorder : RbTree α → List α
  | nil => []
  | node _ left item right => left.inorder ++ item :: right.inorder

def height : RbTree α → Nat
  | nil => 0
  | node _ left _ right => max left.height right.height + 1

@[simp]
theorem top_sided (side : Side) (color : Color) (near : RbTree α) (item : α) (far : RbTree α) :
    (sided side color near item far).top = some item := by
  cases side <;> rfl

@[simp]
theorem color_sided (side : Side) (color : Color) (near : RbTree α) (item : α) (far : RbTree α) :
    (sided side color near item far).color = color := by
  cases side <;> rfl

@[simp]
theorem paint_sided (side : Side) (color painted : Color) (near : RbTree α) (item : α)
    (far : RbTree α) : (sided side color near item far).paint painted =
      sided side painted near item far := by
  cases side <;> rfl

@[simp]
theorem inorder_paint (color : Color) (tree : RbTree α) :
    (tree.paint color).inorder = tree.inorder := by
  cases tree <;> rfl

theorem paint_color {tree : RbTree α} {color : Color} (same : tree.color = color) :
    tree.paint color = tree := by
  cases tree with
  | nil => rfl
  | node _ left item right => rw [← same]; rfl

theorem sided_other (side : Side) (color : Color) (near : RbTree α) (item : α) (far : RbTree α) :
    sided side.other color near item far = sided side color far item near := by
  cases side <;> rfl

theorem exists_sided (side : Side) {tree : RbTree α} {item : α} (top : tree.top = some item) :
    ∃ near far, tree = sided side tree.color near item far := by
  cases tree with
  | nil => cases top
  | node color left item right =>
      obtain rfl := Option.some.inj top
      cases side with
      | left => exact ⟨left, right, rfl⟩
      | right => exact ⟨right, left, rfl⟩

theorem top_eq_none_iff {tree : RbTree α} : tree.top = none ↔ tree = nil := by
  cases tree <;> simp [top]

def along (side : Side) (tree : RbTree α) : List α :=
  match side with
  | .left => tree.inorder
  | .right => tree.inorder.reverse

theorem along_sided (side : Side) (color : Color) (near : RbTree α) (item : α) (far : RbTree α) :
    (sided side color near item far).along side =
      near.along side ++ item :: far.along side := by
  cases side <;> simp [along, sided, inorder]

@[simp]
theorem along_nil (side : Side) : (nil : RbTree α).along side = [] := by
  cases side <;> rfl

theorem mem_along {side : Side} {tree : RbTree α} {item : α} :
    item ∈ tree.along side ↔ item ∈ tree.inorder := by
  cases side <;> simp [along]

theorem nodup_along {side : Side} {tree : RbTree α} :
    (tree.along side).Nodup ↔ tree.inorder.Nodup := by
  cases side <;> simp [along]

theorem mem_inorder_sided {side : Side} {color : Color} {near far : RbTree α} {item other : α} :
    other ∈ (sided side color near item far).inorder ↔
      other ∈ near.inorder ∨ other = item ∨ other ∈ far.inorder := by
  cases side with
  | left => simp [sided, inorder]
  | right =>
      simp only [sided, inorder, List.mem_append, List.mem_cons]
      tauto

theorem mem_of_top {tree : RbTree α} {item : α} (top : tree.top = some item) :
    item ∈ tree.inorder := by
  obtain ⟨near, far, shape⟩ := exists_sided .left top
  rw [shape, mem_inorder_sided]
  exact Or.inr (Or.inl rfl)

theorem exists_top {tree : RbTree α} {item : α} (within : item ∈ tree.inorder) :
    ∃ root, tree.top = some root := by
  cases tree with
  | nil => simp [inorder] at within
  | node _ _ root _ => exact ⟨root, rfl⟩

theorem exists_top_of_red {tree : RbTree α} (red : tree.color = .red) :
    ∃ root, tree.top = some root := by
  cases tree with
  | nil => cases red
  | node _ _ root _ => exact ⟨root, rfl⟩

theorem nodup_sided {side : Side} {color : Color} {near far : RbTree α} {item : α} :
    (sided side color near item far).inorder.Nodup ↔
      (item ∉ near.inorder ∧ item ∉ far.inorder) ∧ near.inorder.Nodup ∧ far.inorder.Nodup ∧
        ∀ other ∈ near.inorder, other ∉ far.inorder := by
  have sided_left (left right : RbTree α) : (node color left item right).inorder.Nodup ↔
      (item ∉ left.inorder ∧ item ∉ right.inorder) ∧ left.inorder.Nodup ∧
        right.inorder.Nodup ∧ ∀ other ∈ left.inorder, other ∉ right.inorder := by
    rw [inorder, List.nodup_append, List.nodup_cons]
    constructor
    · rintro ⟨leftNodup, ⟨itemRight, rightNodup⟩, disjoint⟩
      refine ⟨⟨fun itemLeft => ?_, itemRight⟩, leftNodup, rightNodup, fun other inLeft inRight => ?_⟩
      · exact disjoint item itemLeft item List.mem_cons_self rfl
      · exact disjoint other inLeft other (List.mem_cons_of_mem _ inRight) rfl
    · rintro ⟨⟨itemLeft, itemRight⟩, leftNodup, rightNodup, disjoint⟩
      refine ⟨leftNodup, ⟨itemRight, rightNodup⟩, fun other inLeft another inRight same => ?_⟩
      subst same
      cases List.mem_cons.mp inRight with
      | inl isItem => exact itemLeft (isItem ▸ inLeft)
      | inr inRight => exact disjoint other inLeft inRight
  cases side with
  | left => exact sided_left near far
  | right =>
      refine (sided_left far near).trans ?_
      constructor
      · rintro ⟨⟨itemFar, itemNear⟩, farNodup, nearNodup, disjoint⟩
        exact ⟨⟨itemNear, itemFar⟩, nearNodup, farNodup,
          fun other inNear inFar => disjoint other inFar inNear⟩
      · rintro ⟨⟨itemNear, itemFar⟩, nearNodup, farNodup, disjoint⟩
        exact ⟨⟨itemFar, itemNear⟩, farNodup, nearNodup,
          fun other inFar inNear => disjoint other inNear inFar⟩

/-- The far child comes up, and the root goes down to the given side. -/
def rotate : Side → RbTree α → RbTree α
  | .left, node color a x (node raised b y c) => node raised (node color a x b) y c
  | .right, node color (node raised a x b) y c => node raised a x (node color b y c)
  | _, tree => tree

theorem rotate_sided (side : Side) (color raised : Color) (a b c : RbTree α) (x y : α) :
    rotate side (sided side color a x (sided side raised b y c)) =
      sided side raised (sided side color a x b) y c := by
  cases side <;> rfl

theorem rotate_other_sided (side : Side) (color raised : Color) (a b c : RbTree α) (x y : α) :
    rotate side.other (sided side color (sided side raised a x b) y c) =
      sided side raised a x (sided side color b y c) := by
  cases side <;> rfl

@[simp]
theorem inorder_rotate (side : Side) (tree : RbTree α) :
    (rotate side tree).inorder = tree.inorder := by
  unfold rotate
  split <;> simp [inorder]

def paintChild (side : Side) (color : Color) : RbTree α → RbTree α
  | nil => nil
  | node own left item right =>
      match side with
      | .left => node own (left.paint color) item right
      | .right => node own left item (right.paint color)

theorem paintChild_sided (side : Side) (color own : Color) (near : RbTree α) (item : α)
    (far : RbTree α) : (sided side own near item far).paintChild side color =
      sided side own (near.paint color) item far := by
  cases side <;> rfl

theorem paintChild_other_sided (side : Side) (color own : Color) (near : RbTree α) (item : α)
    (far : RbTree α) : (sided side own near item far).paintChild side.other color =
      sided side own near item (far.paint color) := by
  cases side <;> rfl

@[simp]
theorem inorder_paintChild (side : Side) (color : Color) (tree : RbTree α) :
    (tree.paintChild side color).inorder = tree.inorder := by
  cases tree with
  | nil => rfl
  | node own left item right => cases side <;> simp [paintChild, inorder]

@[simp]
theorem child_sided (side : Side) (color : Color) (near : RbTree α) (item : α) (far : RbTree α) :
    (sided side color near item far).child side = near := by
  cases side <;> rfl

@[simp]
theorem child_other_sided (side : Side) (color : Color) (near : RbTree α) (item : α)
    (far : RbTree α) : (sided side color near item far).child side.other = far := by
  cases side <;> rfl

def Bare (tree : RbTree α) : Prop :=
  (tree.child .left).color = .black ∧ (tree.child .right).color = .black

instance (tree : RbTree α) : Decidable tree.Bare := inferInstanceAs (Decidable (_ ∧ _))

theorem bare_sided {side : Side} {color : Color} {near far : RbTree α} {item : α} :
    (sided side color near item far).Bare ↔ near.color = .black ∧ far.color = .black := by
  cases side with
  | left => exact Iff.rfl
  | right => exact and_comm

/-! ## Balance -/

/-- No red node has a red child, and every way down meets the same number of
black nodes. -/
inductive Balanced : RbTree α → Nat → Prop where
  | nil : Balanced nil 0
  | red {left right : RbTree α} {item : α} {count : Nat} : left.color = .black →
      right.color = .black → Balanced left count → Balanced right count →
      Balanced (node .red left item right) count
  | black {left right : RbTree α} {item : α} {count : Nat} : Balanced left count →
      Balanced right count → Balanced (node .black left item right) (count + 1)

/-- A red-black tree. -/
def Sound (tree : RbTree α) : Prop := tree.color = .black ∧ ∃ count, tree.Balanced count

theorem balanced_red_iff {side : Side} {near far : RbTree α} {item : α} {count : Nat} :
    (sided side .red near item far).Balanced count ↔
      near.color = .black ∧ far.color = .black ∧ near.Balanced count ∧ far.Balanced count := by
  cases side with
  | left =>
      constructor
      · rintro (_ | ⟨nearBlack, farBlack, near, far⟩ | _)
        exact ⟨nearBlack, farBlack, near, far⟩
      · rintro ⟨nearBlack, farBlack, near, far⟩
        exact .red nearBlack farBlack near far
  | right =>
      constructor
      · rintro (_ | ⟨farBlack, nearBlack, far, near⟩ | _)
        exact ⟨nearBlack, farBlack, near, far⟩
      · rintro ⟨nearBlack, farBlack, near, far⟩
        exact .red farBlack nearBlack far near

theorem balanced_black_iff {side : Side} {near far : RbTree α} {item : α} {count : Nat} :
    (sided side .black near item far).Balanced (count + 1) ↔
      near.Balanced count ∧ far.Balanced count := by
  cases side with
  | left =>
      constructor
      · rintro (_ | _ | ⟨near, far⟩)
        exact ⟨near, far⟩
      · rintro ⟨near, far⟩
        exact .black near far
  | right =>
      constructor
      · rintro (_ | _ | ⟨far, near⟩)
        exact ⟨near, far⟩
      · rintro ⟨near, far⟩
        exact .black far near

theorem Balanced.pos {side : Side} {near far : RbTree α} {item : α} {count : Nat}
    (balanced : (sided side .black near item far).Balanced count) : ∃ below, count = below + 1 := by
  cases side with
  | left =>
      cases balanced with
      | black _ _ => exact ⟨_, rfl⟩
  | right =>
      cases balanced with
      | black _ _ => exact ⟨_, rfl⟩

theorem Balanced.exists_top {tree : RbTree α} {count : Nat} (balanced : tree.Balanced (count + 1)) :
    ∃ item, tree.top = some item := by
  cases balanced with
  | red _ _ _ _ => exact ⟨_, rfl⟩
  | black _ _ => exact ⟨_, rfl⟩

theorem Balanced.paint_red {tree : RbTree α} {count : Nat} (balanced : tree.Balanced (count + 1))
    (black : tree.color = .black) (bare : tree.Bare) : (tree.paint .red).Balanced count := by
  cases balanced with
  | red _ _ _ _ => cases black
  | black left right => exact .red bare.1 bare.2 left right

theorem Balanced.paint_black {tree : RbTree α} {count : Nat} (balanced : tree.Balanced count)
    (red : tree.color = .red) : (tree.paint .black).Balanced (count + 1) := by
  cases balanced with
  | nil => cases red
  | red _ _ left right => exact .black left right
  | black _ _ => cases red

theorem Balanced.sound_paint {tree : RbTree α} {count : Nat} (balanced : tree.Balanced count) :
    (tree.paint .black).Sound := by
  cases balanced with
  | nil => exact ⟨rfl, 0, .nil⟩
  | red _ _ left right => exact ⟨rfl, _, .black left right⟩
  | black left right => exact ⟨rfl, _, .black left right⟩

theorem Balanced.two_pow_le {tree : RbTree α} {count : Nat} (balanced : tree.Balanced count) :
    2 ^ count ≤ tree.inorder.length + 1 := by
  induction balanced with
  | nil => simp [inorder]
  | red _ _ _ _ left right =>
      simp only [inorder, List.length_append, List.length_cons]
      omega
  | black _ _ left right =>
      simp only [inorder, List.length_append, List.length_cons, Nat.pow_succ]
      omega

theorem Balanced.height_le {tree : RbTree α} {count : Nat} (balanced : tree.Balanced count) :
    tree.height ≤ 2 * count + (if tree.color = .red then 1 else 0) := by
  induction balanced with
  | nil => simp [height]
  | red leftBlack rightBlack _ _ left right =>
      rw [leftBlack] at left
      rw [rightBlack] at right
      simp only [height, color, if_true, reduceCtorEq, if_false] at *
      omega
  | @black left right item count _ _ leftHeight rightHeight =>
      have leftBound : left.height ≤ 2 * count + 1 := by
        split at leftHeight <;> omega
      have rightBound : right.height ≤ 2 * count + 1 := by
        split at rightHeight <;> omega
      simp only [height, color, reduceCtorEq, if_false]
      omega

/-- A red-black tree is at most twice as high as it has to be. -/
theorem Sound.height_le {tree : RbTree α} (sound : tree.Sound) :
    tree.height ≤ 2 * Nat.log 2 (tree.inorder.length + 1) := by
  obtain ⟨black, count, balanced⟩ := sound
  have high := balanced.height_le
  rw [black] at high
  have many : count ≤ Nat.log 2 (tree.inorder.length + 1) :=
    Nat.le_log_of_pow_le (by decide) balanced.two_pow_le
  simp only [reduceCtorEq, if_false] at high
  omega

end RbTree

open RbTree

/-! ## Paths -/

def Frame.plug (frame : Frame α) (tree : RbTree α) : RbTree α :=
  sided frame.side frame.color tree frame.item frame.sibling

namespace RbPath

def fill : RbTree α → RbPath α → RbTree α
  | tree, [] => tree
  | tree, frame :: rest => fill (frame.plug tree) rest

def parent : RbPath α → Option α
  | [] => none
  | frame :: _ => some frame.item

@[simp]
theorem parent_cons (frame : Frame α) (rest : RbPath α) :
    parent (frame :: rest) = some frame.item := rfl

/-- The colour above the focus; above the root it is black. -/
def color : RbPath α → Color
  | [] => .black
  | frame :: _ => frame.color

def before (side : Side) : RbPath α → List α
  | [] => []
  | frame :: rest =>
      if frame.side = side then before side rest
      else before side rest ++ frame.sibling.along side ++ [frame.item]

def behind (side : Side) : RbPath α → List α
  | [] => []
  | frame :: rest =>
      if frame.side = side then frame.item :: frame.sibling.along side ++ behind side rest
      else behind side rest

theorem along_fill (side : Side) (tree : RbTree α) (path : RbPath α) :
    (fill tree path).along side = path.before side ++ tree.along side ++ path.behind side := by
  induction path generalizing tree with
  | nil => simp [fill, before, behind]
  | cons frame rest inductionHypothesis =>
      rw [fill, inductionHypothesis, before, behind]
      by_cases same : frame.side = side
      · rw [if_pos same, if_pos same, Frame.plug, same, along_sided]
        simp
      · obtain rfl := Side.eq_other_of_ne (Ne.symm same)
        rw [if_neg same, if_neg same, Frame.plug, ← sided_other, along_sided]
        simp

theorem inorder_fill (tree : RbTree α) (path : RbPath α) :
    (fill tree path).inorder = path.before .left ++ tree.inorder ++ path.behind .left :=
  along_fill .left tree path

theorem inorder_fill_congr {tree changed : RbTree α} (path : RbPath α)
    (same : changed.inorder = tree.inorder) :
    (fill changed path).inorder = (fill tree path).inorder := by
  rw [inorder_fill, inorder_fill, same]

theorem fill_far (side : Side) (color : Color) (near far : RbTree α) (item : α) (path : RbPath α) :
    fill (sided side color near item far) path =
      fill far (⟨side.other, color, item, near⟩ :: path) := by
  rw [fill, Frame.plug, sided_other]

theorem fill_append (tree : RbTree α) (path rest : RbPath α) :
    fill tree (path ++ rest) = fill (fill tree path) rest := by
  induction path generalizing tree with
  | nil => rfl
  | cons frame path inductionHypothesis => exact inductionHypothesis _

theorem fill_spine {color : Color} {left : RbTree α} {item : α} (focus : RbTree α)
    (spine rest : RbPath α) : fill focus (spine ++ ⟨.right, color, item, left⟩ :: rest) =
      fill (sided .left color left item (fill focus spine)) rest := by
  rw [fill_append]
  rfl

def items : RbPath α → List α
  | [] => []
  | frame :: rest => frame.item :: frame.sibling.inorder ++ items rest

theorem items_append (path rest : RbPath α) : items (path ++ rest) = items path ++ items rest := by
  induction path with
  | nil => rfl
  | cons frame path inductionHypothesis => simp [items, inductionHypothesis]

theorem mem_inorder_fill {tree : RbTree α} {path : RbPath α} {item : α} :
    item ∈ (fill tree path).inorder ↔ item ∈ tree.inorder ∨ item ∈ path.items := by
  induction path generalizing tree with
  | nil => simp [fill, items]
  | cons frame rest inductionHypothesis =>
      rw [fill, inductionHypothesis, Frame.plug, mem_inorder_sided, items, List.mem_append,
        List.mem_cons]
      tauto

theorem nodup_fill {tree : RbTree α} {path : RbPath α} :
    (fill tree path).inorder.Nodup ↔ tree.inorder.Nodup ∧ path.items.Nodup ∧
      ∀ item ∈ tree.inorder, item ∉ path.items := by
  induction path generalizing tree with
  | nil => simp [fill, items]
  | cons frame rest inductionHypothesis =>
      rw [fill, inductionHypothesis, Frame.plug, nodup_sided, items, List.nodup_append,
        List.nodup_cons]
      simp only [mem_inorder_sided, List.mem_append, List.mem_cons]
      constructor
      · rintro ⟨⟨⟨itemNear, itemFar⟩, nearNodup, farNodup, disjoint⟩, restNodup, apart⟩
        refine ⟨nearNodup, ⟨⟨itemFar, farNodup⟩, restNodup, ?_⟩, ?_⟩
        · grind
        · grind
      · rintro ⟨nearNodup, ⟨⟨itemFar, farNodup⟩, restNodup, apart⟩, disjoint⟩
        refine ⟨⟨⟨?_, itemFar⟩, nearNodup, farNodup, ?_⟩, restNodup, ?_⟩
        · grind
        · grind
        · grind

theorem far_top_ne {side : Side} {color : Color} {near far : RbTree α} {item below : α}
    {path : RbPath α} (nodup : (fill (sided side color near item far) path).inorder.Nodup)
    (nearTop : near.top = some below) : far.top ≠ some below := by
  intro farTop
  rw [nodup_fill, nodup_sided] at nodup
  exact nodup.1.2.2.2 below (mem_of_top nearTop) (mem_of_top farTop)

theorem exists_top_fill (tree : RbTree α) (frame : Frame α) (rest : RbPath α) :
    ∃ root, (fill tree (frame :: rest)).top = some root ∧ root ∈ items (frame :: rest) := by
  induction rest generalizing tree frame with
  | nil => exact ⟨frame.item, top_sided .., List.mem_cons_self⟩
  | cons above rest inductionHypothesis =>
      obtain ⟨root, top, within⟩ := inductionHypothesis (frame.plug tree) above
      exact ⟨root, top, List.mem_append_right _ within⟩

theorem top_ne_top_fill {tree : RbTree α} {frame : Frame α} {rest : RbPath α}
    (nodup : (fill tree (frame :: rest)).inorder.Nodup) :
    tree.top ≠ (fill tree (frame :: rest)).top := by
  obtain ⟨root, top, within⟩ := exists_top_fill tree frame rest
  rw [top]
  intro same
  exact (nodup_fill.mp nodup).2.2 root (mem_of_top same) within

theorem nodup_cut {side : Side} {own : Color} {child : RbTree α} {item : α} {path : RbPath α}
    (nodup : (fill (sided side own nil item child) path).inorder.Nodup) :
    item ∉ (fill child path).inorder ∧ (fill child path).inorder.Nodup := by
  simp only [nodup_fill, nodup_sided, mem_inorder_sided, mem_inorder_fill, not_or] at nodup ⊢
  obtain ⟨⟨⟨-, notChild⟩, -, childNodup, -⟩, pathNodup, apart⟩ := nodup
  exact ⟨⟨notChild, apart item (Or.inr (Or.inl rfl))⟩, childNodup, pathNodup,
    fun other within => apart other (Or.inr (Or.inr within))⟩

theorem nodup_replaced {side : Side} {own : Color} {left right : RbTree α} {item new : α}
    {path : RbPath α} (nodup : (fill (sided side own left item right) path).inorder.Nodup)
    (fresh : new ∉ (fill (sided side own left item right) path).inorder) :
    (fill (sided side own left new right) path).inorder.Nodup := by
  simp only [mem_inorder_fill, mem_inorder_sided, not_or] at fresh
  simp only [nodup_fill, nodup_sided, mem_inorder_sided] at nodup ⊢
  obtain ⟨⟨-, leftNodup, rightNodup, disjoint⟩, pathNodup, apart⟩ := nodup
  refine ⟨⟨⟨fresh.1.1, fresh.1.2.2⟩, leftNodup, rightNodup, disjoint⟩, pathNodup, ?_⟩
  rintro other (inLeft | rfl | inRight)
  · exact apart other (Or.inl inLeft)
  · exact fresh.2
  · exact apart other (Or.inr (Or.inr inRight))

theorem nodup_leaf {side : Side} {color : Color} {item : α} {path : RbPath α}
    (nodup : (fill nil path).inorder.Nodup) (fresh : item ∉ (fill nil path).inorder) :
    (fill (sided side color nil item nil) path).inorder.Nodup := by
  rw [mem_inorder_fill, not_or] at fresh
  rw [nodup_fill] at nodup ⊢
  simp only [nodup_sided, mem_inorder_sided]
  refine ⟨by simp [inorder], nodup.2.1, ?_⟩
  rintro other (inNil | rfl | inNil)
  · cases inNil
  · exact fresh.2
  · cases inNil

/-- A path whose hole wants a balanced subtree. -/
inductive Balanced : RbPath α → Nat → Prop where
  | root {count : Nat} : Balanced [] count
  | red {side : Side} {item : α} {sibling : RbTree α} {count : Nat} {above : Frame α}
      {rest : RbPath α} : sibling.color = .black → sibling.Balanced count → above.color = .black →
      Balanced (above :: rest) count →
      Balanced (⟨side, .red, item, sibling⟩ :: above :: rest) count
  | black {side : Side} {item : α} {sibling : RbTree α} {count : Nat} {rest : RbPath α} :
      sibling.Balanced count → Balanced rest (count + 1) →
      Balanced (⟨side, .black, item, sibling⟩ :: rest) count

theorem Balanced.sibling {frame : Frame α} {rest : RbPath α} {count : Nat}
    (path : Balanced (frame :: rest) count) : frame.sibling.Balanced count := by
  cases path with
  | red _ sibling _ _ => exact sibling
  | black sibling _ => exact sibling

theorem Balanced.rest {frame : Frame α} {rest : RbPath α} {count : Nat}
    (path : Balanced (frame :: rest) count) : ∃ above, Balanced rest above := by
  cases path with
  | red _ _ _ above => exact ⟨_, above⟩
  | black _ above => exact ⟨_, above⟩

/-- A balanced subtree makes a balanced path a red-black tree. -/
theorem Balanced.sound {path : RbPath α} {tree : RbTree α} {count : Nat}
    (path_ : path.Balanced count) (balanced : tree.Balanced count)
    (fits : path.color = .red → tree.color = .black) : ((fill tree path).paint .black).Sound := by
  induction path_ generalizing tree with
  | root => exact balanced.sound_paint
  | red siblingBlack sibling above _ inductionHypothesis =>
      apply inductionHypothesis
      · exact balanced_red_iff.mpr ⟨fits rfl, siblingBlack, balanced, sibling⟩
      · intro red
        rw [color, above] at red
        cases red
  | black sibling _ inductionHypothesis =>
      apply inductionHypothesis
      · exact balanced_black_iff.mpr ⟨balanced, sibling⟩
      · intro _
        simp [Frame.plug]

/-- A red-black tree, taken apart at a focus. -/
theorem balanced_of_sound {path : RbPath α} {tree : RbTree α} (sound : (fill tree path).Sound) :
    ∃ count, path.Balanced count ∧ tree.Balanced count ∧
      (path.color = .red → tree.color = .black) ∧ (path = [] → tree.color = .black) := by
  induction path generalizing tree with
  | nil =>
      obtain ⟨black, count, balanced⟩ := sound
      exact ⟨count, .root, balanced, fun red => (by cases red), fun _ => black⟩
  | cons frame rest inductionHypothesis =>
      obtain ⟨count, restBalanced, plugged, fits, atRoot⟩ := inductionHypothesis sound
      obtain ⟨side, color_, item, sibling⟩ := frame
      cases color_ with
      | red =>
          obtain ⟨treeBlack, siblingBlack, treeBalanced, siblingBalanced⟩ :=
            balanced_red_iff.mp plugged
          refine ⟨count, ?_, treeBalanced, fun _ => treeBlack, by simp⟩
          cases rest with
          | nil => simpa [Frame.plug] using atRoot rfl
          | cons above rest =>
              refine .red siblingBlack siblingBalanced ?_ restBalanced
              cases aboveColor : above.color with
              | black => rfl
              | red => simpa [Frame.plug] using fits aboveColor
      | black =>
          obtain ⟨below, rfl⟩ := RbTree.Balanced.pos plugged
          obtain ⟨treeBalanced, siblingBalanced⟩ := balanced_black_iff.mp plugged
          exact ⟨below, .black siblingBalanced restBalanced, treeBalanced,
            fun red => (by cases red), by simp⟩

/-- A red root is never reached along a balanced path. -/
theorem Balanced.color_fill {path : RbPath α} {tree : RbTree α} {count : Nat}
    (balanced : path.Balanced count) (below : path ≠ []) : (fill tree path).color = .black := by
  induction balanced generalizing tree with
  | root => exact absurd rfl below
  | red _ _ _ _ inductionHypothesis => exact inductionHypothesis (by simp)
  | @black side item sibling count rest _ _ inductionHypothesis =>
      cases rest with
      | nil => simp [fill, Frame.plug]
      | cons above rest => exact inductionHypothesis (by simp)

end RbPath

open RbPath

/-! ## After an insertion -/

def straighten (parent : Frame α) (side : Side) (tree : RbTree α) : RbTree α :=
  if parent.side = side then parent.plug tree else rotate side (parent.plug tree)

/-- The repair when the focus is red and its parent may be red as well. -/
def insertRepair : RbTree α → RbPath α → RbTree α
  | tree, [] => tree.paint .black
  | tree, [parent] => (fill tree [parent]).paint .black
  | tree, parent :: grand :: rest =>
      if parent.color = .black then
        (fill tree (parent :: grand :: rest)).paint .black
      else if grand.sibling.color = .red then
        insertRepair (sided grand.side .red ((parent.plug tree).paint .black) grand.item
          (grand.sibling.paint .black)) rest
      else
        (fill (rotate grand.side.other
          (sided grand.side .red ((straighten parent grand.side tree).paint .black) grand.item
            grand.sibling)) rest).paint .black

theorem inorder_sided_congr {side : Side} {color changedColor : Color} {item : α}
    {near far changedNear changedFar : RbTree α} (nearSame : changedNear.inorder = near.inorder)
    (farSame : changedFar.inorder = far.inorder) :
    (sided side changedColor changedNear item changedFar).inorder =
      (sided side color near item far).inorder := by
  cases side <;> simp [sided, inorder, nearSame, farSame]

theorem inorder_straighten (parent : Frame α) (side : Side) (tree : RbTree α) :
    (straighten parent side tree).inorder = (parent.plug tree).inorder := by
  unfold straighten
  split
  · rfl
  · exact inorder_rotate side _

theorem inorder_insertRepair (tree : RbTree α) (path : RbPath α) :
    (insertRepair tree path).inorder = (fill tree path).inorder := by
  induction tree, path using insertRepair.induct with
  | case1 tree => simp [insertRepair, fill]
  | case2 tree parent => simp [insertRepair]
  | case3 tree parent grand rest black => simp [insertRepair, black]
  | case4 tree parent grand rest notBlack red inductionHypothesis =>
      rw [insertRepair, if_neg notBlack, if_pos red, inductionHypothesis, fill, fill]
      apply inorder_fill_congr
      exact inorder_sided_congr (inorder_paint _ _) (inorder_paint _ _)
  | case5 tree parent grand rest notBlack notRed =>
      rw [insertRepair, if_neg notBlack, if_neg notRed, inorder_paint, fill, fill]
      apply inorder_fill_congr
      rw [inorder_rotate]
      apply inorder_sided_congr _ rfl
      rw [inorder_paint, inorder_straighten]

/-- The straightened parent has a red outer child, and black subtrees below. -/
theorem straighten_eq {side parentSide : Side} {item : α} {sibling tree : RbTree α} {count : Nat}
    (balanced : tree.Balanced count) (red : tree.color = .red)
    (siblingBlack : sibling.color = .black) (siblingBalanced : sibling.Balanced count) :
    ∃ outer middle inner, straighten ⟨parentSide, .red, item, sibling⟩ side tree =
        sided side .red outer middle inner ∧
      outer.Balanced count ∧ inner.Balanced count ∧ inner.color = .black := by
  unfold straighten
  by_cases same : parentSide = side
  · rw [if_pos same, Frame.plug, same]
    exact ⟨tree, item, sibling, rfl, balanced, siblingBalanced, siblingBlack⟩
  · obtain ⟨middle, top⟩ := exists_top_of_red red
    obtain ⟨near, far, shape⟩ := exists_sided side top
    rw [red] at shape
    rw [shape, balanced_red_iff] at balanced
    obtain ⟨nearBlack, farBlack, near_, far_⟩ := balanced
    rw [if_neg same, Frame.plug, Side.eq_other_of_ne same, sided_other, shape, rotate_sided]
    refine ⟨_, middle, far, rfl, ?_, far_, farBlack⟩
    exact balanced_red_iff.mpr ⟨siblingBlack, nearBlack, siblingBalanced, near_⟩

theorem insertRepair_sound {tree : RbTree α} {path : RbPath α} {count : Nat}
    (path_ : path.Balanced count) (balanced : tree.Balanced count) (red : tree.color = .red) :
    (insertRepair tree path).Sound := by
  induction tree, path using insertRepair.induct generalizing count with
  | case1 tree => exact balanced.sound_paint
  | case2 tree parent =>
      rw [insertRepair]
      apply path_.sound balanced
      cases path_ with
      | black _ _ => exact fun red => (by cases red)
  | case3 tree parent grand rest black =>
      rw [insertRepair, if_pos black]
      apply path_.sound balanced
      intro parentRed
      cases black.symm.trans parentRed
  | case4 tree parent grand rest notBlack uncleRed inductionHypothesis =>
      rw [insertRepair, if_neg notBlack, if_pos uncleRed]
      cases path_ with
      | black _ _ => exact absurd rfl notBlack
      | @red side item sibling _ _ _ siblingBlack siblingBalanced grandBlack above =>
          cases above with
          | red _ _ _ _ => cases grandBlack
          | @black grandSide grandItem uncle _ _ uncleBalanced above =>
              refine inductionHypothesis above ?_ (color_sided ..)
              apply balanced_red_iff.mpr
              refine ⟨?_, ?_, ?_, uncleBalanced.paint_black uncleRed⟩
              · simp [Frame.plug]
              · cases uncle with
                | nil => rfl
                | node _ _ _ _ => rfl
              · rw [Frame.plug, paint_sided]
                exact balanced_black_iff.mpr ⟨balanced, siblingBalanced⟩
  | case5 tree parent grand rest notBlack uncleNotRed =>
      rw [insertRepair, if_neg notBlack, if_neg uncleNotRed]
      cases path_ with
      | black _ _ => exact absurd rfl notBlack
      | @red side item sibling _ _ _ siblingBlack siblingBalanced grandBlack above =>
          cases above with
          | red _ _ _ _ => cases grandBlack
          | @black grandSide grandItem uncle _ _ uncleBalanced above =>
              obtain ⟨outer, middle, inner, shape, outer_, inner_, innerBlack⟩ :=
                @straighten_eq _ grandSide side item sibling tree count balanced red siblingBlack
                  siblingBalanced
              have uncleBlack : uncle.color = .black := black_of_not_red uncleNotRed
              dsimp only at shape ⊢
              rw [shape, paint_sided, rotate_other_sided]
              apply above.sound
              · apply balanced_black_iff.mpr
                exact ⟨outer_, balanced_red_iff.mpr ⟨innerBlack, uncleBlack, inner_, uncleBalanced⟩⟩
              · exact fun _ => color_sided ..

/-! ## After a removal -/

def bend (side : Side) (sibling : RbTree α) : RbTree α :=
  if (sibling.child side.other).color = .black then
    rotate side.other ((sibling.paintChild side .black).paint .red)
  else sibling

namespace Frame

/-- The sibling comes up and pays for the missing black node. -/
def settle (frame : Frame α) (tree : RbTree α) : RbTree α :=
  rotate frame.side (sided frame.side .black tree frame.item
    (((bend frame.side frame.sibling).paintChild frame.side.other .black).paint frame.color))

/-- The sibling turns red, and the node above is short of a black node. -/
def dim (frame : Frame α) (tree : RbTree α) : RbTree α :=
  sided frame.side frame.color tree frame.item (frame.sibling.paint .red)

def lower (frame : Frame α) : Frame α :=
  ⟨frame.side, .red, frame.item, frame.sibling.child frame.side⟩

/-- The red sibling above the parent; it is never empty. -/
def upper (frame : Frame α) : Frame α :=
  ⟨frame.side, .black, frame.sibling.top.getD frame.item, frame.sibling.child frame.side.other⟩

end Frame

/-- The repair when the ways through the focus are short of a black node. -/
def eraseRepair : RbTree α → RbPath α → RbTree α
  | tree, [] => tree.paint .black
  | tree, frame :: rest =>
      if tree.color = .red then fill (tree.paint .black) (frame :: rest)
      else if frame.sibling.color = .red then
        if frame.lower.sibling.Bare then
          fill ((frame.lower.dim tree).paint .black) (frame.upper :: rest)
        else (fill (frame.lower.settle tree) (frame.upper :: rest)).paint .black
      else if frame.sibling.Bare then eraseRepair (frame.dim tree) rest
      else (fill (frame.settle tree) rest).paint .black

theorem inorder_bend (side : Side) (sibling : RbTree α) :
    (bend side sibling).inorder = sibling.inorder := by
  unfold bend
  split
  · rw [inorder_rotate, inorder_paint, inorder_paintChild]
  · rfl

theorem Frame.inorder_settle (frame : Frame α) (tree : RbTree α) :
    (frame.settle tree).inorder = (frame.plug tree).inorder := by
  rw [settle, inorder_rotate]
  apply inorder_sided_congr rfl
  rw [inorder_paint, inorder_paintChild, inorder_bend]

theorem Frame.inorder_dim (frame : Frame α) (tree : RbTree α) :
    (frame.dim tree).inorder = (frame.plug tree).inorder :=
  inorder_sided_congr rfl (inorder_paint _ _)

theorem Frame.upper_plug_lower {frame : Frame α} (red : frame.sibling.color = .red)
    (tree : RbTree α) : frame.upper.plug (frame.lower.plug tree) =
      rotate frame.side (sided frame.side .red tree frame.item (frame.sibling.paint .black)) := by
  obtain ⟨side, color, item, sibling⟩ := frame
  cases sibling with
  | nil => cases red
  | node own left raised right => cases side <;> rfl

theorem Frame.inorder_upper_lower {frame : Frame α} (red : frame.sibling.color = .red)
    (tree : RbTree α) :
    (frame.upper.plug (frame.lower.plug tree)).inorder = (frame.plug tree).inorder := by
  rw [upper_plug_lower red, inorder_rotate]
  exact inorder_sided_congr rfl (inorder_paint _ _)

theorem Frame.nodup_upper_lower {frame : Frame α} {rest : RbPath α} {tree : RbTree α}
    (nodup : (fill tree (frame :: rest)).inorder.Nodup) (red : frame.sibling.color = .red) :
    (fill tree (frame.lower :: frame.upper :: rest)).inorder.Nodup := by
  rw [fill, fill, inorder_fill_congr rest (inorder_upper_lower red tree)]
  exact nodup

theorem inorder_eraseRepair (tree : RbTree α) (path : RbPath α) :
    (eraseRepair tree path).inorder = (fill tree path).inorder := by
  induction tree, path using eraseRepair.induct with
  | case1 tree => simp [eraseRepair, fill]
  | case2 tree frame rest red =>
      rw [eraseRepair, if_pos red]
      exact inorder_fill_congr _ (inorder_paint _ _)
  | case3 tree frame rest black siblingRed bare =>
      rw [eraseRepair, if_neg black, if_pos siblingRed, if_pos bare, fill, fill]
      apply inorder_fill_congr
      rw [← Frame.inorder_upper_lower siblingRed]
      apply inorder_sided_congr _ rfl
      rw [inorder_paint, Frame.inorder_dim]
  | case4 tree frame rest black siblingRed notBare =>
      rw [eraseRepair, if_neg black, if_pos siblingRed, if_neg notBare, inorder_paint, fill, fill]
      apply inorder_fill_congr
      rw [← Frame.inorder_upper_lower siblingRed]
      exact inorder_sided_congr (Frame.inorder_settle _ _) rfl
  | case5 tree frame rest black siblingBlack bare inductionHypothesis =>
      rw [eraseRepair, if_neg black, if_neg siblingBlack, if_pos bare, inductionHypothesis, fill]
      exact inorder_fill_congr _ (Frame.inorder_dim _ _)
  | case6 tree frame rest black siblingBlack notBare =>
      rw [eraseRepair, if_neg black, if_neg siblingBlack, if_neg notBare, inorder_paint, fill]
      exact inorder_fill_congr _ (Frame.inorder_settle _ _)

/-- A frame may carry another black sibling. -/
theorem RbPath.Balanced.replace {side : Side} {color : Color} {item changed : α}
    {sibling tree : RbTree α} {rest : RbPath α} {count : Nat}
    (path : RbPath.Balanced (⟨side, color, item, sibling⟩ :: rest) count)
    (balanced : tree.Balanced count) (black : tree.color = .black) :
    RbPath.Balanced (⟨side, color, changed, tree⟩ :: rest) count := by
  cases path with
  | red _ _ aboveBlack above => exact .red black balanced aboveBlack above
  | black _ above => exact .black balanced above

theorem Frame.settle_eq {frame : Frame α} {tree : RbTree α} {count : Nat}
    (balanced : tree.Balanced count) (siblingBalanced : frame.sibling.Balanced (count + 1))
    (siblingBlack : frame.sibling.color = .black) (notBare : ¬ frame.sibling.Bare) :
    ∃ near item far, frame.settle tree = sided frame.side frame.color near item far ∧
      near.Balanced (count + 1) ∧ far.Balanced (count + 1) ∧ near.color = .black ∧
        far.color = .black := by
  obtain ⟨side, color, item, sibling⟩ := frame
  dsimp only at siblingBalanced siblingBlack notBare ⊢
  obtain ⟨raised, top⟩ := siblingBalanced.exists_top
  obtain ⟨near, far, shape⟩ := exists_sided side top
  rw [siblingBlack] at shape
  rw [shape, balanced_black_iff] at siblingBalanced
  rw [shape, bare_sided] at notBare
  obtain ⟨nearBalanced, farBalanced⟩ := siblingBalanced
  unfold settle bend
  dsimp only
  rw [shape, child_other_sided]
  by_cases farBlack : far.color = .black
  · have nearRed : near.color = .red :=
      red_of_not_black fun nearBlack => notBare ⟨nearBlack, farBlack⟩
    obtain ⟨middle, nearTop⟩ := exists_top_of_red nearRed
    obtain ⟨inner, outer, nearShape⟩ := exists_sided side nearTop
    rw [nearRed] at nearShape
    rw [nearShape, balanced_red_iff] at nearBalanced
    obtain ⟨_, _, innerBalanced, outerBalanced⟩ := nearBalanced
    rw [if_pos farBlack, paintChild_sided, paint_sided, nearShape, paint_sided,
      rotate_other_sided, paintChild_other_sided, paint_sided, paint_sided, rotate_sided]
    refine ⟨_, _, _, rfl, ?_, ?_, color_sided .., color_sided ..⟩
    · exact balanced_black_iff.mpr ⟨balanced, innerBalanced⟩
    · exact balanced_black_iff.mpr ⟨outerBalanced, farBalanced⟩
  · have farRed : far.color = .red := red_of_not_black farBlack
    rw [if_neg farBlack, paintChild_other_sided, paint_sided, rotate_sided]
    refine ⟨_, _, _, rfl, ?_, farBalanced.paint_black farRed, color_sided .., ?_⟩
    · exact balanced_black_iff.mpr ⟨balanced, nearBalanced⟩
    · cases far with
      | nil => rfl
      | node _ _ _ _ => rfl

theorem RbPath.Balanced.settle_sound {frame : Frame α} {rest : RbPath α} {tree : RbTree α} {count : Nat}
    (path : RbPath.Balanced (frame :: rest) (count + 1)) (balanced : tree.Balanced count)
    (siblingBlack : frame.sibling.color = .black) (notBare : ¬ frame.sibling.Bare) :
    ((fill (frame.settle tree) rest).paint .black).Sound := by
  obtain ⟨near, item, far, shape, nearBalanced, farBalanced, nearBlack, farBlack⟩ :=
    Frame.settle_eq balanced path.sibling siblingBlack notBare
  rw [shape]
  exact (path.replace farBalanced farBlack).sound nearBalanced (fun _ => nearBlack)

theorem RbPath.Balanced.lower_upper {frame : Frame α} {rest : RbPath α} {count : Nat}
    (path : RbPath.Balanced (frame :: rest) count) (red : frame.sibling.color = .red) :
    RbPath.Balanced (frame.lower :: frame.upper :: rest) count ∧
      frame.lower.sibling.color = .black := by
  cases path with
  | red siblingBlack _ _ _ => cases siblingBlack.symm.trans red
  | @black side item sibling _ _ siblingBalanced above =>
      change sibling.color = .red at red
      obtain ⟨raised, top⟩ := exists_top_of_red red
      obtain ⟨near, far, shape⟩ := exists_sided side top
      rw [red] at shape
      rw [shape, balanced_red_iff] at siblingBalanced
      obtain ⟨nearBlack, farBlack, nearBalanced, farBalanced⟩ := siblingBalanced
      unfold Frame.lower Frame.upper
      dsimp only
      rw [shape, child_sided, child_other_sided]
      exact ⟨.red nearBlack nearBalanced rfl (.black farBalanced above), nearBlack⟩

namespace RbTree

/-- A subtree whose ways are one black node short, or would be if its root
were not red. -/
def Short (tree : RbTree α) (count : Nat) : Prop :=
  (tree.color = .red → (tree.paint .black).Balanced (count + 1)) ∧
    (tree.color = .black → tree.Balanced count)

theorem Balanced.short {tree : RbTree α} {count : Nat} (balanced : tree.Balanced count) :
    tree.Short count :=
  ⟨balanced.paint_black, fun _ => balanced⟩

theorem Short.sound_paint {tree : RbTree α} {count : Nat} (short : tree.Short count) :
    (tree.paint .black).Sound := by
  cases color : tree.color with
  | red =>
      have balanced := (short.1 color).sound_paint
      cases tree with
      | nil => cases color
      | node _ _ _ _ => exact balanced
  | black => exact (short.2 color).sound_paint

end RbTree

theorem Frame.dim_red {frame : Frame α} {rest : RbPath α} {tree : RbTree α} {count : Nat}
    (path : RbPath.Balanced (frame :: rest) (count + 1)) (red : frame.color = .red)
    (balanced : tree.Balanced count) (siblingBlack : frame.sibling.color = .black)
    (bare : frame.sibling.Bare) :
    RbPath.Balanced rest (count + 1) ∧ ((frame.dim tree).paint .black).Balanced (count + 1) := by
  cases path with
  | red _ siblingBalanced _ above =>
      refine ⟨above, ?_⟩
      rw [dim, paint_sided]
      exact balanced_black_iff.mpr ⟨balanced, siblingBalanced.paint_red siblingBlack bare⟩
  | black _ _ => cases red

theorem Frame.dim_short {frame : Frame α} {rest : RbPath α} {tree : RbTree α} {count : Nat}
    (path : RbPath.Balanced (frame :: rest) (count + 1)) (balanced : tree.Balanced count)
    (siblingBlack : frame.sibling.color = .black) (bare : frame.sibling.Bare) :
    ∃ above, RbPath.Balanced rest (above + 1) ∧ (frame.dim tree).Short above := by
  cases frameColor : frame.color with
  | red =>
      obtain ⟨above, dimmed⟩ := dim_red path frameColor balanced siblingBlack bare
      refine ⟨count, above, fun _ => dimmed, fun black => ?_⟩
      rw [dim, color_sided, frameColor] at black
      cases black
  | black =>
      cases path with
      | red _ _ _ _ => cases frameColor
      | black siblingBalanced above =>
          refine ⟨count + 1, above, fun red => ?_, fun _ => ?_⟩
          · rw [dim, color_sided] at red
            cases red
          · exact balanced_black_iff.mpr
              ⟨balanced, siblingBalanced.paint_red siblingBlack bare⟩

theorem RbPath.Balanced.sound_below {path : RbPath α} {tree : RbTree α} {count : Nat}
    (path_ : path.Balanced count) (balanced : tree.Balanced count) (black : tree.color = .black)
    (below : path ≠ []) : (fill tree path).Sound := by
  have sound := path_.sound balanced (fun _ => black)
  rwa [paint_color (path_.color_fill below)] at sound

theorem eraseRepair_sound {tree : RbTree α} {path : RbPath α} {count : Nat}
    (path_ : path.Balanced (count + 1)) (short : tree.Short count) :
    (eraseRepair tree path).Sound := by
  induction tree, path using eraseRepair.induct generalizing count with
  | case1 tree => exact short.sound_paint
  | case2 tree frame rest red =>
      rw [eraseRepair, if_pos red]
      apply path_.sound_below (short.1 red) _ (by simp)
      cases tree with
      | nil => rfl
      | node _ _ _ _ => rfl
  | case3 tree frame rest black siblingRed bare =>
      rw [eraseRepair, if_neg black, if_pos siblingRed, if_pos bare]
      obtain ⟨path, lowerBlack⟩ := path_.lower_upper siblingRed
      obtain ⟨above, dimmed⟩ :=
        Frame.dim_red path rfl (short.2 (black_of_not_red black)) lowerBlack bare
      exact above.sound_below dimmed (by simp [Frame.dim]) (by simp)
  | case4 tree frame rest black siblingRed notBare =>
      rw [eraseRepair, if_neg black, if_pos siblingRed, if_neg notBare]
      obtain ⟨path, lowerBlack⟩ := path_.lower_upper siblingRed
      exact path.settle_sound (short.2 (black_of_not_red black)) lowerBlack notBare
  | case5 tree frame rest black siblingBlack bare inductionHypothesis =>
      rw [eraseRepair, if_neg black, if_neg siblingBlack, if_pos bare]
      obtain ⟨_, above, dimmed⟩ := Frame.dim_short path_ (short.2 (black_of_not_red black))
        (black_of_not_red siblingBlack) bare
      exact inductionHypothesis above dimmed
  | case6 tree frame rest black siblingBlack notBare =>
      rw [eraseRepair, if_neg black, if_neg siblingBlack, if_neg notBare]
      exact path_.settle_sound (short.2 (black_of_not_red black)) (black_of_not_red siblingBlack)
        notBare

/-! ## Taking a node out -/

/-- The tree after a node with at most one child was taken out of its place. -/
def removed (color : Color) (child : RbTree α) (path : RbPath α) : RbTree α :=
  if color = .black then eraseRepair child path else fill child path

theorem inorder_removed (color : Color) (child : RbTree α) (path : RbPath α) :
    (removed color child path).inorder = (fill child path).inorder := by
  unfold removed
  split
  · exact inorder_eraseRepair child path
  · rfl

theorem removed_sound {side : Side} {color : Color} {item : α} {child : RbTree α} {path : RbPath α}
    {count : Nat} (path_ : path.Balanced count)
    (focus : (sided side color nil item child).Balanced count)
    (atRoot : path = [] → color = .black) : (removed color child path).Sound := by
  cases color with
  | black =>
      obtain ⟨below, rfl⟩ := Balanced.pos focus
      exact eraseRepair_sound path_ (balanced_black_iff.mp focus).2.short
  | red =>
      obtain ⟨-, childBlack, -, childBalanced⟩ := balanced_red_iff.mp focus
      exact path_.sound_below childBalanced childBlack fun empty => (by cases atRoot empty)

namespace RbPath

theorem Balanced.rename {side : Side} {color : Color} {item changed : α} {sibling : RbTree α}
    {path rest : RbPath α} {count : Nat}
    (balanced : Balanced (path ++ ⟨side, color, item, sibling⟩ :: rest) count) :
    Balanced (path ++ ⟨side, color, changed, sibling⟩ :: rest) count := by
  induction path generalizing count with
  | nil =>
      cases balanced with
      | red siblingBlack siblingBalanced aboveBlack above =>
          exact .red siblingBlack siblingBalanced aboveBlack above
      | black siblingBalanced above => exact .black siblingBalanced above
  | cons frame path inductionHypothesis =>
      obtain ⟨frameSide, frameColor, frameItem, frameSibling⟩ := frame
      cases path with
      | nil =>
          cases balanced with
          | red siblingBlack siblingBalanced aboveBlack above =>
              exact .red siblingBlack siblingBalanced aboveBlack (inductionHypothesis above)
          | black siblingBalanced above =>
              exact .black siblingBalanced (inductionHypothesis above)
      | cons above path =>
          cases balanced with
          | red siblingBlack siblingBalanced aboveBlack above =>
              exact .red siblingBlack siblingBalanced aboveBlack (inductionHypothesis above)
          | black siblingBalanced above =>
              exact .black siblingBalanced (inductionHypothesis above)

theorem height_far_lt (side : Side) (color : Color) (near far : RbTree α) (item : α) :
    far.height < (sided side color near item far).height := by
  cases side <;> simp only [sided, height] <;> omega

theorem length_add_height_le (tree : RbTree α) (path : RbPath α) :
    path.length + tree.height ≤ (fill tree path).height := by
  induction path generalizing tree with
  | nil => simp [fill]
  | cons frame rest inductionHypothesis =>
      have plugged : tree.height + 1 ≤ (frame.plug tree).height := by
        obtain ⟨side, color, item, sibling⟩ := frame
        cases side <;> simp only [Frame.plug, sided, height] <;> omega
      have above := inductionHypothesis (frame.plug tree)
      rw [fill, List.length_cons]
      omega

def Straight (side : Side) (path : RbPath α) : Prop := ∀ frame ∈ path, frame.side = side

theorem before_straight {side : Side} {path : RbPath α} (straight : path.Straight side) :
    path.before side = [] := by
  induction path with
  | nil => rfl
  | cons frame rest inductionHypothesis =>
      rw [before, if_pos (straight frame List.mem_cons_self)]
      exact inductionHypothesis fun other within => straight other (List.mem_cons_of_mem _ within)

end RbPath

theorem exists_straight (side : Side) {tree : RbTree α} {root : α} (top : tree.top = some root) :
    ∃ path color item far, path.Straight side ∧
      tree = fill (sided side color nil item far) path := by
  induction tree generalizing root with
  | nil => cases top
  | node color left item right leftHypothesis rightHypothesis =>
      obtain ⟨near, far, shape⟩ := @exists_sided _ side (node color left item right) item rfl
      have hypothesis {below : α} (nearTop : near.top = some below) :
          ∃ path color item far, path.Straight side ∧
            near = fill (sided side color nil item far) path := by
        cases side with
        | left =>
            cases shape
            exact leftHypothesis nearTop
        | right =>
            cases shape
            exact rightHypothesis nearTop
      rw [shape]
      cases nearTop : near.top with
      | none =>
          rw [top_eq_none_iff] at nearTop
          rw [nearTop]
          exact ⟨[], _, item, far, fun frame within => (by cases within), rfl⟩
      | some below =>
          obtain ⟨path, own, last, outer, straight, nearShape⟩ := hypothesis nearTop
          refine ⟨path ++ [⟨side, (node color left item right).color, item, far⟩], own, last, outer,
            ?_, ?_⟩
          · intro frame within
            cases List.mem_append.mp within with
            | inl within => exact straight frame within
            | inr within => rw [List.mem_singleton.mp within]
          · rw [fill_append, ← nearShape]
            rfl

theorem exists_focus {tree : RbTree α} {item : α} (within : item ∈ tree.inorder) :
    ∃ path color left right, tree = fill (node color left item right) path := by
  induction tree with
  | nil => simp [inorder] at within
  | node color left root right leftHypothesis rightHypothesis =>
      simp only [inorder, List.mem_append, List.mem_cons] at within
      rcases within with within | rfl | within
      · obtain ⟨path, own, near, far, shape⟩ := leftHypothesis within
        refine ⟨path ++ [⟨.left, color, root, right⟩], own, near, far, ?_⟩
        rw [fill_append, ← shape]
        rfl
      · exact ⟨[], color, left, right, rfl⟩
      · obtain ⟨path, own, near, far, shape⟩ := rightHypothesis within
        refine ⟨path ++ [⟨.right, color, root, left⟩], own, near, far, ?_⟩
        rw [fill_append, ← shape]
        rfl

theorem along_straight {side : Side} {color : Color} {item : α} {far : RbTree α} {spine : RbPath α}
    (straight : spine.Straight side) :
    (fill (sided side color nil item far) spine).along side =
      item :: (fill far spine).along side := by
  rw [along_fill, along_fill, before_straight straight, along_sided]
  simp

theorem inorder_fill_erase [DecidableEq α] {tree rest : RbTree α} {item : α} {path : RbPath α}
    {before behind : List α} (nodup : (fill tree path).inorder.Nodup)
    (whole : tree.inorder = before ++ item :: behind) (left : rest.inorder = before ++ behind) :
    (fill rest path).inorder = (fill tree path).inorder.erase item := by
  have regroup : (fill tree path).inorder =
      (path.before .left ++ before) ++ item :: (behind ++ path.behind .left) := by
    rw [inorder_fill, whole]
    simp
  rw [regroup] at nodup ⊢
  have outside : item ∉ path.before .left ++ before := by
    intro within
    rw [List.nodup_append] at nodup
    exact nodup.2.2 item within item List.mem_cons_self rfl
  rw [List.erase_append_right _ outside, List.erase_cons_head, inorder_fill, left]
  simp

theorem sound_replaced {side : Side} {color : Color} {near far : RbTree α} {item new : α}
    {path : RbPath α} (sound : (fill (sided side color near item far) path).Sound) :
    (fill (sided side color near new far) path).Sound := by
  obtain ⟨count, path_, focus, fits, atRoot⟩ := balanced_of_sound sound
  rw [color_sided] at fits atRoot
  have renamed : (sided side color near new far).Balanced count := by
    cases color with
    | red => exact balanced_red_iff.mpr (balanced_red_iff.mp focus)
    | black =>
        obtain ⟨below, rfl⟩ := Balanced.pos focus
        exact balanced_black_iff.mpr (balanced_black_iff.mp focus)
  have painted := path_.sound renamed (by rwa [color_sided])
  cases path with
  | nil => rwa [fill, paint_color (by rw [color_sided, atRoot rfl])] at painted
  | cons frame rest => rwa [paint_color (path_.color_fill (by simp))] at painted

/-- A red leaf in an empty place makes a red-black tree. -/
theorem insertRepair_leaf_sound {side : Side} {item : α} {path : RbPath α}
    (sound : (fill nil path).Sound) :
    ∃ count, path.Balanced count ∧ (insertRepair (sided side .red nil item nil) path).Sound := by
  obtain ⟨count, path_, empty, -, -⟩ := balanced_of_sound sound
  refine ⟨count, path_, insertRepair_sound path_ ?_ (color_sided ..)⟩
  exact balanced_red_iff.mpr ⟨rfl, rfl, empty, empty⟩

end RedBlack

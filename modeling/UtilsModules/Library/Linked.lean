import Mathlib.Data.List.Nodup
import Mathlib.Logic.Function.Basic

/-!
Doubly linked rings in a memory.

A memory gives the two links stored at a node, and `none` where nothing is
stored.  A ring goes from its head through its nodes and back to the head.
`Rings` is a family of rings in one memory that share no node.
-/

namespace Linked

/-- The two links of a node; `none` is the null link. -/
structure LinkPair (Node : Type*) where
  next : Option Node
  prev : Option Node
  deriving DecidableEq, Repr

variable {Node : Type*} {links changed : Node → Option (LinkPair Node)}

def nextOf (links : Node → Option (LinkPair Node)) (node : Node) : Option (Option Node) :=
  (links node).map LinkPair.next

def prevOf (links : Node → Option (LinkPair Node)) (node : Node) : Option (Option Node) :=
  (links node).map LinkPair.prev

/-- The second node follows the first, in both directions. -/
structure Joined (links : Node → Option (LinkPair Node)) (first second : Node) : Prop where
  next : nextOf links first = some (some second)
  prev : prevOf links second = some (some first)

theorem Joined.next_unique {first second other : Node} (joined : Joined links first second)
    (again : Joined links first other) : second = other := by
  simpa using joined.next.symm.trans again.next

theorem Joined.prev_unique {first second other : Node} (joined : Joined links first second)
    (again : Joined links other second) : first = other := by
  simpa using joined.prev.symm.trans again.prev

/-- The links lead from `first` through the nodes to `last`. -/
inductive Segment (links : Node → Option (LinkPair Node)) : Node → List Node → Node → Prop where
  | nil {first last} : Joined links first last → Segment links first [] last
  | cons {first node rest last} : Joined links first node → Segment links node rest last →
      Segment links first (node :: rest) last

namespace Segment

variable {first last node : Node} {nodes before behind : List Node}

theorem mono (segment : Segment links first nodes last)
    (kept : ∀ x y, x ∈ first :: nodes → y ∈ nodes ++ [last] → Joined links x y →
      Joined changed x y) : Segment changed first nodes last := by
  induction segment with
  | nil joined => exact .nil (kept _ _ (by simp) (by simp) joined)
  | cons joined _ inductionHypothesis =>
      refine .cons (kept _ _ (by simp) (by simp) joined) ?_
      apply inductionHypothesis
      intro x y inFront inBack
      exact kept x y (List.mem_cons_of_mem _ inFront) (List.mem_cons_of_mem _ inBack)

theorem joined_first (segment : Segment links first nodes last) :
    Joined links first (nodes.headD last) := by
  cases segment with
  | nil joined => exact joined
  | cons joined _ => exact joined

theorem joined_last (segment : Segment links first nodes last) :
    Joined links (nodes.getLastD first) last := by
  induction segment with
  | nil joined => exact joined
  | @cons first node rest last joined segment inductionHypothesis =>
      rw [List.getLastD_cons]
      exact inductionHypothesis

theorem split (segment : Segment links first (before ++ node :: behind) last) :
    Segment links first before node ∧ Segment links node behind last := by
  induction before generalizing first with
  | nil =>
      cases segment with
      | cons joined rest => exact ⟨.nil joined, rest⟩
  | cons next before inductionHypothesis =>
      cases segment with
      | cons joined rest =>
          obtain ⟨left, right⟩ := inductionHypothesis rest
          exact ⟨.cons joined left, right⟩

theorem stored (segment : Segment links first nodes last) {node : Node}
    (membership : node ∈ first :: nodes) : ∃ pair, links node = some pair := by
  induction segment with
  | nil joined =>
      obtain rfl := List.mem_singleton.mp membership
      obtain ⟨pair, here, -⟩ := Option.map_eq_some_iff.mp joined.next
      exact ⟨pair, here⟩
  | cons joined _ inductionHypothesis =>
      rcases List.mem_cons.mp membership with rfl | later
      · obtain ⟨pair, here, -⟩ := Option.map_eq_some_iff.mp joined.next
        exact ⟨pair, here⟩
      · exact inductionHypothesis later

end Segment

/-- `new` has come between `head` and `first`, and no other link has changed. -/
structure Inserted (links changed : Node → Option (LinkPair Node)) (new head first : Node) :
    Prop where
  joinedHead : Joined changed head new
  joinedFirst : Joined changed new first
  otherNext : ∀ node, node ≠ head → node ≠ new → nextOf changed node = nextOf links node
  otherPrev : ∀ node, node ≠ first → node ≠ new → prevOf changed node = prevOf links node

/-- `node` has gone from between `before` and `behind`, and no other link has
changed but its own. -/
structure Removed (links changed : Node → Option (LinkPair Node)) (node before behind : Node) :
    Prop where
  joined : Joined changed before behind
  otherNext : ∀ other, other ≠ before → other ≠ node → nextOf changed other = nextOf links other
  otherPrev : ∀ other, other ≠ behind → other ≠ node → prevOf changed other = prevOf links other

theorem Inserted.kept {new head first : Node} (inserted : Inserted links changed new head first)
    (joined : Joined links head first) {x y : Node} (pair : Joined links x y)
    (notHead : x ≠ head) (notNew : x ≠ new) (notNewBehind : y ≠ new) : Joined changed x y := by
  have notFirst : y ≠ first := by
    rintro rfl
    exact notHead (pair.prev_unique joined)
  refine ⟨?_, ?_⟩
  · rw [inserted.otherNext x notHead notNew]
    exact pair.next
  · rw [inserted.otherPrev y notFirst notNewBehind]
    exact pair.prev

theorem Removed.kept {node before behind : Node} (removed : Removed links changed node before behind)
    (enter : Joined links before node) (leave : Joined links node behind) {x y : Node}
    (pair : Joined links x y) (notNode : x ≠ node) (notNodeBehind : y ≠ node) :
    Joined changed x y := by
  have notBefore : x ≠ before := by
    rintro rfl
    exact notNodeBehind (pair.next_unique enter)
  have notBehind : y ≠ behind := by
    rintro rfl
    exact notNode (pair.prev_unique leave)
  refine ⟨?_, ?_⟩
  · rw [removed.otherNext x notBefore notNode]
    exact pair.next
  · rw [removed.otherPrev y notBehind notNodeBehind]
    exact pair.prev

/-- A segment that begins at the head goes through the new node afterwards. -/
theorem Inserted.lead {new head last : Node} {nodes : List Node}
    (inserted : Inserted links changed new head (nodes.headD last))
    (segment : Segment links head nodes last) (notHead : head ∉ nodes)
    (outside : new ∉ nodes ++ [last]) : Segment changed head (new :: nodes) last := by
  cases segment with
  | nil => exact .cons inserted.joinedHead (.nil inserted.joinedFirst)
  | cons joined rest =>
      refine .cons inserted.joinedHead (.cons inserted.joinedFirst ?_)
      refine rest.mono fun x y inFront inBack pair => ?_
      apply inserted.kept joined pair
      · rintro rfl
        exact notHead inFront
      · rintro rfl
        exact outside (List.mem_append_left _ inFront)
      · rintro rfl
        exact outside (List.mem_cons_of_mem _ inBack)

/-- A segment that goes through the removed node goes past it afterwards. -/
theorem Removed.skip {node first last : Node} {before behind : List Node}
    (removed : Removed links changed node (before.getLastD first) (behind.headD last))
    (enter : Segment links first before node) (leave : Segment links node behind last)
    (notBefore : node ∉ first :: before) (notBehind : node ∉ behind ++ [last]) :
    Segment changed first (before ++ behind) last := by
  have kept : ∀ x y, Joined links x y → x ≠ node → y ≠ node → Joined changed x y :=
    fun x y pair => removed.kept enter.joined_last leave.joined_first pair
  have joined := removed.joined
  clear removed
  induction before generalizing first with
  | nil =>
      cases leave with
      | nil => exact .nil joined
      | cons _ rest =>
          refine .cons joined (rest.mono fun x y inFront inBack pair => kept x y pair ?_ ?_)
          · rintro rfl
            exact notBehind (List.mem_append_left _ inFront)
          · rintro rfl
            exact notBehind (List.mem_cons_of_mem _ inBack)
  | cons next before inductionHypothesis =>
      cases enter with
      | cons pair rest =>
          simp only [List.mem_cons, not_or] at notBefore
          refine .cons (kept first next pair (Ne.symm notBefore.1) (Ne.symm notBefore.2.1)) ?_
          refine inductionHypothesis rest ?_ ?_
          · simpa using notBefore.2
          · rwa [List.getLastD_cons] at joined

/-- Every head has the ring of its list; the lists have no node in common and
no head in them. -/
structure Rings (links : Node → Option (LinkPair Node)) (IsHead : Node → Prop)
    (lists : Node → List Node) : Prop where
  closed : ∀ head, IsHead head → Segment links head (lists head) head
  plain : ∀ head, IsHead head → ∀ node ∈ lists head, ¬ IsHead node
  nodup : ∀ head, IsHead head → (lists head).Nodup
  once : ∀ head other, IsHead head → IsHead other → ∀ node ∈ lists head, node ∈ lists other →
    head = other

namespace Rings

variable {IsHead : Node → Prop} {lists : Node → List Node} {head node : Node}

theorem next_head (rings : Rings links IsHead lists) (isHead : IsHead head) :
    nextOf links head = some (some ((lists head).headD head)) :=
  (rings.closed head isHead).joined_first.next

theorem prev_head (rings : Rings links IsHead lists) (isHead : IsHead head) :
    prevOf links head = some (some ((lists head).getLastD head)) :=
  (rings.closed head isHead).joined_last.prev

theorem ne_head (rings : Rings links IsHead lists) (isHead : IsHead head)
    {other : Node} (otherHead : IsHead other) (here : node ∈ lists head) : node ≠ other := by
  rintro rfl
  exact rings.plain head isHead node here otherHead

/-- The links of nodes outside all rings are free to change. -/
theorem congr (rings : Rings links IsHead lists)
    (same : ∀ node, IsHead node ∨ (∃ head, IsHead head ∧ node ∈ lists head) →
      changed node = links node) : Rings changed IsHead lists := by
  refine ⟨fun head isHead => ?_, rings.plain, rings.nodup, rings.once⟩
  refine (rings.closed head isHead).mono fun x y inFront inBack joined => ?_
  have sameFirst : changed x = links x := by
    apply same
    rcases List.mem_cons.mp inFront with rfl | listed
    · exact .inl isHead
    · exact .inr ⟨head, isHead, listed⟩
  have sameSecond : changed y = links y := by
    apply same
    rcases List.mem_append.mp inBack with listed | last
    · exact .inr ⟨head, isHead, listed⟩
    · exact .inl (List.mem_singleton.mp last ▸ isHead)
  refine ⟨?_, ?_⟩
  · rw [nextOf, sameFirst]
    exact joined.next
  · rw [prevOf, sameSecond]
    exact joined.prev

theorem congr_lists {others : Node → List Node} (rings : Rings links IsHead lists)
    (same : ∀ head, IsHead head → others head = lists head) : Rings links IsHead others := by
  refine ⟨?_, ?_, ?_, ?_⟩
  · intro head isHead
    rw [same head isHead]
    exact rings.closed head isHead
  · intro head isHead
    rw [same head isHead]
    exact rings.plain head isHead
  · intro head isHead
    rw [same head isHead]
    exact rings.nodup head isHead
  · intro head other isHead otherHead
    rw [same head isHead, same other otherHead]
    exact rings.once head other isHead otherHead

theorem not_mem_ring {other : Node} (plain : ¬ IsHead node) (otherHead : IsHead other)
    (outside : node ∉ lists other) : node ∉ other :: lists other := by
  rw [List.mem_cons, not_or]
  refine ⟨?_, outside⟩
  rintro rfl
  exact plain otherHead

/-- The nodes of another ring are neither the head nor on its list. -/
theorem not_mem_other (rings : Rings links IsHead lists) (isHead : IsHead head)
    {other : Node} (otherHead : IsHead other) (different : other ≠ head)
    (here : node ∈ other :: lists other) : node ∉ head :: lists head := by
  rw [List.mem_cons, not_or]
  rcases List.mem_cons.mp here with rfl | listed
  · exact ⟨different, fun again => rings.plain head isHead _ again otherHead⟩
  · refine ⟨rings.ne_head otherHead isHead listed, fun again => ?_⟩
    exact different (rings.once other head otherHead isHead node listed again)

theorem mem_ring_of_mem_append {other : Node} {nodes : List Node} (here : node ∈ nodes ++ [other]) :
    node ∈ other :: nodes := by
  simpa [or_comm] using here

variable [DecidableEq Node]

theorem mem_update_cons {other listed : Node} :
    listed ∈ Function.update lists head (node :: lists head) other ↔
      (other = head ∧ listed = node) ∨ listed ∈ lists other := by
  by_cases same : other = head
  · subst same
    simp
  · simp [same]

theorem mem_of_mem_update_erase {other listed : Node}
    (here : listed ∈ Function.update lists head ((lists head).erase node) other) :
    listed ∈ lists other := by
  by_cases same : other = head
  · subst same
    rw [Function.update_self] at here
    exact List.mem_of_mem_erase here
  · rwa [Function.update_of_ne same] at here

theorem insert (rings : Rings links IsHead lists) (isHead : IsHead head)
    (plain : ¬ IsHead node) (outside : ∀ other, IsHead other → node ∉ lists other)
    (inserted : Inserted links changed node head ((lists head).headD head)) :
    Rings changed IsHead (Function.update lists head (node :: lists head)) := by
  have notHere : ∀ other, IsHead other → node ∉ other :: lists other :=
    fun other otherHead => not_mem_ring plain otherHead (outside other otherHead)
  refine ⟨?_, ?_, ?_, ?_⟩
  · intro other otherHead
    by_cases same : other = head
    · subst same
      rw [Function.update_self]
      refine inserted.lead (rings.closed other otherHead) ?_ ?_
      · exact fun again => rings.plain other otherHead other again otherHead
      · exact fun again => notHere other otherHead (mem_ring_of_mem_append again)
    · rw [Function.update_of_ne same]
      refine (rings.closed other otherHead).mono fun x y inFront inBack pair => ?_
      apply inserted.kept (rings.closed head isHead).joined_first pair
      · rintro rfl
        exact rings.not_mem_other isHead otherHead same inFront List.mem_cons_self
      · rintro rfl
        exact notHere other otherHead inFront
      · rintro rfl
        exact notHere other otherHead (mem_ring_of_mem_append inBack)
  · intro other otherHead listed here
    rcases mem_update_cons.mp here with ⟨-, rfl⟩ | old
    · exact plain
    · exact rings.plain other otherHead listed old
  · intro other otherHead
    by_cases same : other = head
    · subst same
      rw [Function.update_self, List.nodup_cons]
      exact ⟨outside other otherHead, rings.nodup other otherHead⟩
    · rw [Function.update_of_ne same]
      exact rings.nodup other otherHead
  · intro one other oneHead otherHead listed inOne inOther
    rcases mem_update_cons.mp inOne with ⟨rfl, rfl⟩ | oldOne
    · rcases mem_update_cons.mp inOther with ⟨rfl, -⟩ | oldOther
      · rfl
      · exact absurd oldOther (outside other otherHead)
    · rcases mem_update_cons.mp inOther with ⟨-, rfl⟩ | oldOther
      · exact absurd oldOne (outside one oneHead)
      · exact rings.once one other oneHead otherHead listed oldOne oldOther

/-- The neighbours of a node on a list are not the node itself, and taking it
out leaves the ring of the others. -/
theorem around (rings : Rings links IsHead lists) (isHead : IsHead head)
    (here : node ∈ lists head) :
    ∃ before behind, Joined links before node ∧ Joined links node behind ∧
      before ≠ node ∧ behind ≠ node ∧
      (∀ changed, Removed links changed node before behind →
        Segment changed head ((lists head).erase node) head) := by
  have nodup := rings.nodup head isHead
  have segment := rings.closed head isHead
  have notHead : node ≠ head := rings.ne_head isHead isHead here
  obtain ⟨before, behind, split⟩ := List.append_of_mem here
  rw [split] at nodup segment
  obtain ⟨enter, leave⟩ := segment.split
  obtain ⟨-, nodupBehind, apart⟩ := List.nodup_append.mp nodup
  have notBefore : node ∉ before := fun again => apart node again node (by simp) rfl
  have notBehind : node ∉ behind := (List.nodup_cons.mp nodupBehind).1
  have erased : (lists head).erase node = before ++ behind := by
    rw [split, List.erase_append_right _ notBefore, List.erase_cons_head]
  rw [erased]
  refine ⟨_, _, enter.joined_last, leave.joined_first, ?_, ?_, ?_⟩
  · intro same
    have inFront := @List.getLastD_mem_cons _ before head
    rw [same, List.mem_cons] at inFront
    exact inFront.elim notHead notBefore
  · intro same
    cases behind with
    | nil => exact notHead same.symm
    | cons next rest => exact notBehind (same ▸ List.mem_cons_self)
  · intro changed removed
    refine removed.skip enter leave ?_ ?_
    · simp [notHead, notBefore]
    · simp [notHead, notBehind]

theorem remove (rings : Rings links IsHead lists) (isHead : IsHead head)
    (here : node ∈ lists head) {before behind : Node}
    (enter : Joined links before node) (leave : Joined links node behind)
    (removed : Removed links changed node before behind) :
    Rings changed IsHead (Function.update lists head ((lists head).erase node)) := by
  refine ⟨?_, ?_, ?_, ?_⟩
  · intro other otherHead
    by_cases same : other = head
    · subst same
      rw [Function.update_self]
      obtain ⟨p, n, enters, leaves, -, -, skip⟩ := rings.around otherHead here
      obtain rfl := enter.prev_unique enters
      obtain rfl := leave.next_unique leaves
      exact skip changed removed
    · rw [Function.update_of_ne same]
      refine (rings.closed other otherHead).mono fun x y inFront inBack pair => ?_
      have apart := fun x inRing => @rings.not_mem_other _ _ _ _ head x isHead other otherHead same inRing
      apply removed.kept enter leave pair
      · rintro rfl
        exact apart x inFront (List.mem_cons_of_mem _ here)
      · rintro rfl
        exact apart y (mem_ring_of_mem_append inBack) (List.mem_cons_of_mem _ here)
  · intro other otherHead listed old
    exact rings.plain other otherHead listed (mem_of_mem_update_erase old)
  · intro other otherHead
    by_cases same : other = head
    · subst same
      rw [Function.update_self]
      exact (rings.nodup other otherHead).erase node
    · rw [Function.update_of_ne same]
      exact rings.nodup other otherHead
  · intro one other oneHead otherHead listed inOne inOther
    exact rings.once one other oneHead otherHead listed (mem_of_mem_update_erase inOne)
      (mem_of_mem_update_erase inOther)

end Rings

def LinkPair.flip (pair : LinkPair Node) : LinkPair Node := ⟨pair.prev, pair.next⟩

def flipped (links : Node → Option (LinkPair Node)) (node : Node) : Option (LinkPair Node) :=
  (links node).map LinkPair.flip

@[simp]
theorem nextOf_flipped : nextOf (flipped links) = prevOf links := by
  funext node
  simp only [nextOf, flipped, prevOf, Option.map_map]
  rfl

@[simp]
theorem prevOf_flipped : prevOf (flipped links) = nextOf links := by
  funext node
  simp only [nextOf, flipped, prevOf, Option.map_map]
  rfl

@[simp]
theorem flipped_flipped : flipped (flipped links) = links := by
  funext node
  rw [flipped, flipped, Option.map_map]
  exact Option.map_id_fun' ▸ rfl

theorem Joined.flip {first second : Node} (joined : Joined links first second) :
    Joined (flipped links) second first :=
  ⟨by rw [nextOf_flipped, joined.prev], by rw [prevOf_flipped, joined.next]⟩

theorem Inserted.flip {new head first : Node} (inserted : Inserted links changed new head first) :
    Inserted (flipped links) (flipped changed) new first head where
  joinedHead := inserted.joinedFirst.flip
  joinedFirst := inserted.joinedHead.flip
  otherNext := by simpa using inserted.otherPrev
  otherPrev := by simpa using inserted.otherNext

namespace Segment

variable {first middle last : Node} {nodes before behind : List Node}

theorem append (front : Segment links first before middle)
    (back : Segment links middle behind last) :
    Segment links first (before ++ middle :: behind) last := by
  induction front with
  | nil joined => exact .cons joined back
  | cons joined _ inductionHypothesis => exact .cons joined (inductionHypothesis back)

theorem flip (segment : Segment links first nodes last) :
    Segment (flipped links) last nodes.reverse first := by
  induction segment with
  | nil joined => exact .nil joined.flip
  | cons joined _ inductionHypothesis =>
      rw [List.reverse_cons]
      exact inductionHypothesis.append (.nil joined.flip)

end Segment

namespace Rings

variable {IsHead : Node → Prop} {lists : Node → List Node} {head node : Node}

theorem flip (rings : Rings links IsHead lists) :
    Rings (flipped links) IsHead fun head => (lists head).reverse where
  closed head isHead := (rings.closed head isHead).flip
  plain head isHead node here := rings.plain head isHead node (List.mem_reverse.mp here)
  nodup head isHead := List.nodup_reverse.mpr (rings.nodup head isHead)
  once head other isHead otherHead node here there :=
    rings.once head other isHead otherHead node (List.mem_reverse.mp here)
      (List.mem_reverse.mp there)

theorem insert_last [DecidableEq Node] (rings : Rings links IsHead lists) (isHead : IsHead head)
    (plain : ¬ IsHead node) (outside : ∀ other, IsHead other → node ∉ lists other)
    (inserted : Inserted links changed node ((lists head).getLastD head) head) :
    Rings changed IsHead (Function.update lists head (lists head ++ [node])) := by
  have first : (lists head).reverse.headD head = (lists head).getLastD head := by
    rw [List.headD_eq_head?_getD, List.head?_reverse, List.getLastD_eq_getLast?]
  have turned := rings.flip.insert isHead plain
    (fun other otherHead => by simpa using outside other otherHead)
    (by rw [first]; exact inserted.flip)
  have back := turned.flip
  rw [flipped_flipped] at back
  refine back.congr_lists fun other _ => ?_
  by_cases same : other = head
  · subst same
    simp
  · simp [same]

theorem fewer {Keeps : Node → Prop} (rings : Rings links IsHead lists)
    (kept : ∀ head, Keeps head → IsHead head) : Rings links Keeps lists where
  closed head isHead := rings.closed head (kept head isHead)
  plain head isHead node here := fun again =>
    rings.plain head (kept head isHead) node here (kept node again)
  nodup head isHead := rings.nodup head (kept head isHead)
  once head other isHead otherHead :=
    rings.once head other (kept head isHead) (kept other otherHead)

/-- A node outside all rings becomes the head of an empty one. -/
theorem raise [DecidableEq Node] (rings : Rings links IsHead lists) (plain : ¬ IsHead node)
    (outside : ∀ other, IsHead other → node ∉ lists other) (joined : Joined changed node node)
    (same : ∀ other, other ≠ node → changed other = links other) :
    Rings changed (fun head => head = node ∨ IsHead head) (Function.update lists node []) := by
  have kept : Rings changed IsHead lists := by
    apply rings.congr
    rintro other (isHead | ⟨head, isHead, here⟩)
    · exact same other fun equal => plain (equal ▸ isHead)
    · exact same other fun equal => outside head isHead (equal ▸ here)
  have old {head : Node} (isHead : IsHead head) :
      Function.update lists node [] head = lists head := by
    apply Function.update_of_ne
    rintro rfl
    exact plain isHead
  have listed {head other : Node} (here : other ∈ Function.update lists node [] head) :
      other ∈ lists head ∧ head ≠ node := by
    by_cases equal : head = node
    · simp [equal] at here
    · rw [Function.update_of_ne equal] at here
      exact ⟨here, equal⟩
  refine ⟨?_, ?_, ?_, ?_⟩
  · rintro head (rfl | isHead)
    · rw [Function.update_self]
      exact .nil joined
    · rw [old isHead]
      exact kept.closed head isHead
  · rintro head isHead other here (rfl | otherHead)
    · exact outside head (isHead.resolve_left (listed here).2) (listed here).1
    · exact rings.plain head (isHead.resolve_left (listed here).2) other (listed here).1 otherHead
  · rintro head (rfl | isHead)
    · rw [Function.update_self]
      exact .nil
    · rw [old isHead]
      exact rings.nodup head isHead
  · intro head other isHead otherHead node here there
    exact rings.once head other (isHead.resolve_left (listed here).2)
      (otherHead.resolve_left (listed there).2) node (listed here).1 (listed there).1

end Rings

/-- What is between `first` and `last` has come between `head` and `behind`, and no
other link has changed. -/
structure Spliced (links changed : Node → Option (LinkPair Node)) (first last head behind : Node) :
    Prop where
  joinedFirst : Joined changed head first
  joinedLast : Joined changed last behind
  otherNext : ∀ node, node ≠ head → node ≠ last → nextOf changed node = nextOf links node
  otherPrev : ∀ node, node ≠ first → node ≠ behind → prevOf changed node = prevOf links node

/-- A segment may lead to another node behind its last. -/
theorem Segment.retarget {first last other : Node} {nodes : List Node}
    (segment : Segment links first nodes last)
    (joined : Joined changed (nodes.getLastD first) other)
    (kept : ∀ x y, x ∈ first :: nodes → y ∈ nodes → Joined links x y → Joined changed x y) :
    Segment changed first nodes other := by
  induction segment with
  | nil _ => exact .nil joined
  | @cons first node rest last pair _ inductionHypothesis =>
      refine .cons (kept _ _ List.mem_cons_self List.mem_cons_self pair) ?_
      apply inductionHypothesis
      · rwa [List.getLastD_cons] at joined
      · intro x y inFront inBack
        exact kept x y (List.mem_cons_of_mem _ inFront) (List.mem_cons_of_mem _ inBack)

theorem Spliced.kept {first last head behind other : Node}
    (spliced : Spliced links changed first last head behind) (enter : Joined links other first)
    (leave : Joined links head behind) {x y : Node} (pair : Joined links x y) (notHead : x ≠ head)
    (notLast : x ≠ last) (notOther : x ≠ other) : Joined changed x y := by
  refine ⟨?_, ?_⟩
  · rw [spliced.otherNext x notHead notLast]
    exact pair.next
  · rw [spliced.otherPrev y, pair.prev]
    · rintro rfl
      exact notOther (pair.prev_unique enter)
    · rintro rfl
      exact notHead (pair.prev_unique leave)

namespace Rings

variable {IsHead : Node → Prop} {lists : Node → List Node} {head other first : Node}
  {rest : List Node}

theorem spliced_ring (rings : Rings links IsHead lists) (isHead : IsHead head)
    (otherHead : IsHead other) (different : other ≠ head) (nodes : lists other = first :: rest)
    (spliced : Spliced links changed first (rest.getLastD first) head ((lists head).headD head)) :
    Segment changed head (first :: (rest ++ lists head)) head := by
  have closed := rings.closed other otherHead
  have nodup := rings.nodup other otherHead
  rw [nodes] at closed nodup
  have enter := closed.joined_first
  have leave := (rings.closed head isHead).joined_first
  have last : rest.getLastD first ∈ other :: lists other := by
    rw [nodes]
    exact List.mem_cons_of_mem _ List.getLastD_mem_cons
  have kept {x y : Node} (pair : Joined links x y) (notHead : x ≠ head)
      (notLast : x ≠ rest.getLastD first) (notOther : x ≠ other) : Joined changed x y :=
    spliced.kept enter leave pair notHead notLast notOther
  have inside : ∀ x y, x ∈ first :: rest → y ∈ rest → Joined links x y → Joined changed x y := by
    intro x y inFront inBack pair
    have listed : x ∈ lists other := nodes ▸ inFront
    refine kept pair (rings.ne_head otherHead isHead listed) ?_
      (rings.ne_head otherHead otherHead listed)
    rintro rfl
    have leave := closed.joined_last
    rw [List.getLastD_cons] at leave
    obtain rfl := pair.next_unique leave
    exact rings.plain y otherHead y (nodes ▸ List.mem_cons_of_mem _ inBack) otherHead
  cases closed with
  | cons _ front =>
      refine .cons spliced.joinedFirst ?_
      have joinedLast := spliced.joinedLast
      have back := rings.closed head isHead
      have plain := rings.plain head isHead
      have apart : ∀ x ∈ lists head, x ∉ other :: lists other := fun x here =>
        rings.not_mem_other otherHead isHead (Ne.symm different) (List.mem_cons_of_mem _ here)
      cases onto : lists head with
      | nil =>
          rw [onto] at joinedLast
          rw [List.append_nil]
          exact front.retarget joinedLast inside
      | cons node later =>
          rw [onto] at joinedLast back plain apart
          refine (front.retarget joinedLast inside).append ?_
          cases back with
          | cons _ tail =>
              refine tail.mono fun x y inFront _ pair => ?_
              have outside := apart x inFront
              refine kept pair ?_ ?_ ?_
              · rintro rfl
                exact plain x inFront isHead
              · rintro rfl
                exact outside last
              · rintro rfl
                exact outside List.mem_cons_self

/-- The nodes of one list come in front of those of another; the head of the first
is free. -/
theorem splice [DecidableEq Node] (rings : Rings links IsHead lists) (isHead : IsHead head)
    (otherHead : IsHead other) (different : other ≠ head) (nodes : lists other = first :: rest)
    (spliced : Spliced links changed first (rest.getLastD first) head ((lists head).headD head)) :
    Rings changed (fun node => IsHead node ∧ node ≠ other)
      (Function.update lists head (lists other ++ lists head)) := by
  have closed := rings.closed other otherHead
  have nodup := rings.nodup other otherHead
  rw [nodes] at closed nodup
  have members {ring node : Node} (here : node ∈ Function.update lists head
      (lists other ++ lists head) ring) :
      node ∈ lists ring ∨ ring = head ∧ node ∈ lists other := by
    by_cases same : ring = head
    · subst same
      rw [Function.update_self, List.mem_append] at here
      exact here.symm.imp_right fun listed => ⟨rfl, listed⟩
    · rw [Function.update_of_ne same] at here
      exact .inl here
  refine ⟨?_, ?_, ?_, ?_⟩
  · rintro ring ⟨ringHead, notOther⟩
    by_cases same : ring = head
    · subst same
      rw [Function.update_self, nodes]
      exact rings.spliced_ring ringHead otherHead different nodes spliced
    · rw [Function.update_of_ne same]
      refine (rings.closed ring ringHead).mono fun x y inFront inBack pair => ?_
      have apart := rings.not_mem_other isHead ringHead same inFront
      have apartOther := rings.not_mem_other otherHead ringHead notOther inFront
      refine spliced.kept closed.joined_first (rings.closed head isHead).joined_first pair ?_ ?_ ?_
      · rintro rfl
        exact apart List.mem_cons_self
      · rintro rfl
        exact apartOther (nodes ▸ List.mem_cons_of_mem _ List.getLastD_mem_cons)
      · rintro rfl
        exact apartOther List.mem_cons_self
  · rintro ring ⟨ringHead, -⟩ node here ⟨again, -⟩
    rcases members here with listed | ⟨-, listed⟩
    · exact rings.plain ring ringHead node listed again
    · exact rings.plain other otherHead node listed again
  · rintro ring ⟨ringHead, -⟩
    by_cases same : ring = head
    · subst same
      rw [Function.update_self]
      refine List.nodup_append.mpr ⟨rings.nodup other otherHead, rings.nodup ring ringHead, ?_⟩
      rintro node here _ there rfl
      exact different (rings.once other ring otherHead ringHead node here there)
    · rw [Function.update_of_ne same]
      exact rings.nodup ring ringHead
  · rintro one two ⟨oneHead, oneNot⟩ ⟨twoHead, twoNot⟩ node inOne inTwo
    rcases members inOne with oldOne | ⟨rfl, oldOne⟩ <;>
      rcases members inTwo with oldTwo | ⟨rfl, oldTwo⟩
    · exact rings.once one two oneHead twoHead node oldOne oldTwo
    · exact absurd (rings.once one other oneHead otherHead node oldOne oldTwo) oneNot
    · exact absurd (rings.once two other twoHead otherHead node oldTwo oldOne) twoNot
    · rfl

end Rings

end Linked

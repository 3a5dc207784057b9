import UtilsModules.Library.Linked

/-!
The intrusive lists of `list.h`.

A `struct list_head` is the pair of links stored at its node.  A result `none`
says that a link was followed from `NULL` or to memory where nothing is stored.
-/

namespace UtilsModules.Datastruct

open Linked

variable {Node : Type} [DecidableEq Node]

def setNext (links : Node → Option (LinkPair Node)) (node value : Option Node) :
    Option (Node → Option (LinkPair Node)) := do
  let node ← node
  let pair ← links node
  some (Function.update links node (some { pair with next := value }))

def setPrev (links : Node → Option (LinkPair Node)) (node value : Option Node) :
    Option (Node → Option (LinkPair Node)) := do
  let node ← node
  let pair ← links node
  some (Function.update links node (some { pair with prev := value }))

def listAddBetween (links : Node → Option (LinkPair Node)) (new prev next : Option Node) :
    Option (Node → Option (LinkPair Node)) := do
  let links ← setPrev links next new
  let links ← setNext links new next
  let links ← setPrev links new prev
  setNext links prev new

def listAdd (links : Node → Option (LinkPair Node)) (new head : Node) :
    Option (Node → Option (LinkPair Node)) := do
  let pair ← links head
  listAddBetween links (some new) (some head) pair.next

def listDelBetween (links : Node → Option (LinkPair Node)) (prev next : Option Node) :
    Option (Node → Option (LinkPair Node)) := do
  let links ← setPrev links next prev
  setNext links prev next

def listDel (links : Node → Option (LinkPair Node)) (entry : Node) :
    Option (Node → Option (LinkPair Node)) := do
  let pair ← links entry
  let links ← listDelBetween links pair.prev pair.next
  let links ← setNext links (some entry) none
  setPrev links (some entry) none

def listEmpty (links : Node → Option (LinkPair Node)) (head : Node) : Bool :=
  nextOf links head = some (some head)

def initListHead (links : Node → Option (LinkPair Node)) (head : Node) :
    Node → Option (LinkPair Node) :=
  Function.update links head (some ⟨some head, some head⟩)

/-- The rounds of `list_for_each` from a position on.  It is `none` when the
position is `NULL`, when nothing is stored there, and when the rounds are over. -/
def forEachFrom (links : Node → Option (LinkPair Node)) (head : Node) :
    Nat → Option Node → Option (List Node)
  | 0, _ => none
  | _ + 1, none => none
  | rounds + 1, some pos =>
      if pos = head then some []
      else do
        let pair ← links pos
        let visited ← forEachFrom links head rounds pair.next
        some (pos :: visited)

def listForEach (links : Node → Option (LinkPair Node)) (head : Node) (rounds : Nat) :
    Option (List Node) := do
  let pair ← links head
  forEachFrom links head rounds pair.next

variable {links : Node → Option (LinkPair Node)}

theorem setNext_spec {node : Node} {stored : Option Node} (value : Option Node)
    (here : nextOf links node = some stored) :
    ∃ changed, setNext links (some node) value = some changed ∧
      nextOf changed = Function.update (nextOf links) node (some value) ∧
      prevOf changed = prevOf links := by
  obtain ⟨pair, held, -⟩ := Option.map_eq_some_iff.mp here
  refine ⟨Function.update links node (some { pair with next := value }), ?_, ?_, ?_⟩
  · simp only [setNext, Option.bind_eq_bind, Option.bind_some, held]
  · funext other
    by_cases same : other = node
    · subst same
      simp [nextOf]
    · simp [nextOf, same]
  · funext other
    by_cases same : other = node
    · subst same
      simp [prevOf, held]
    · simp [prevOf, same]

theorem setPrev_spec {node : Node} {stored : Option Node} (value : Option Node)
    (here : prevOf links node = some stored) :
    ∃ changed, setPrev links (some node) value = some changed ∧
      nextOf changed = nextOf links ∧
      prevOf changed = Function.update (prevOf links) node (some value) := by
  obtain ⟨pair, held, -⟩ := Option.map_eq_some_iff.mp here
  refine ⟨Function.update links node (some { pair with prev := value }), ?_, ?_, ?_⟩
  · simp only [setPrev, Option.bind_eq_bind, Option.bind_some, held]
  · funext other
    by_cases same : other = node
    · subst same
      simp [nextOf, held]
    · simp [nextOf, same]
  · funext other
    by_cases same : other = node
    · subst same
      simp [prevOf]
    · simp [prevOf, same]

theorem setNext_stored {changed : Node → Option (LinkPair Node)} {node value : Option Node}
    (set : setNext links node value = some changed) (other : Node)
    (stored : ∃ pair, links other = some pair) : ∃ pair, changed other = some pair := by
  simp only [setNext, Option.bind_eq_bind, Option.bind_eq_some_iff, Option.some.injEq] at set
  obtain ⟨node, -, pair, -, rfl⟩ := set
  by_cases same : other = node
  · exact ⟨_, by rw [same, Function.update_self]⟩
  · rwa [Function.update_of_ne same]

theorem setPrev_stored {changed : Node → Option (LinkPair Node)} {node value : Option Node}
    (set : setPrev links node value = some changed) (other : Node)
    (stored : ∃ pair, links other = some pair) : ∃ pair, changed other = some pair := by
  simp only [setPrev, Option.bind_eq_bind, Option.bind_eq_some_iff, Option.some.injEq] at set
  obtain ⟨node, -, pair, -, rfl⟩ := set
  by_cases same : other = node
  · exact ⟨_, by rw [same, Function.update_self]⟩
  · rwa [Function.update_of_ne same]

theorem listAdd_stored {changed : Node → Option (LinkPair Node)} {new head : Node}
    (added : listAdd links new head = some changed) (other : Node)
    (stored : ∃ pair, links other = some pair) : ∃ pair, changed other = some pair := by
  simp only [listAdd, listAddBetween, Option.bind_eq_bind, Option.bind_eq_some_iff] at added
  obtain ⟨_, -, one, oneSet, two, twoSet, three, threeSet, fourSet⟩ := added
  apply setNext_stored fourSet
  apply setPrev_stored threeSet
  apply setNext_stored twoSet
  exact setPrev_stored oneSet other stored

/-- A node that is stored comes between the head and the first node. -/
theorem listAdd_spec {new head first : Node} {pair : LinkPair Node}
    (joined : Joined links head first) (stored : links new = some pair)
    (notHead : new ≠ head) (notFirst : new ≠ first) :
    ∃ changed, listAdd links new head = some changed ∧
      Inserted links changed new head first := by
  obtain ⟨headPair, held, headNext⟩ := Option.map_eq_some_iff.mp joined.next
  have newNext : nextOf links new = some pair.next := by simp [nextOf, stored]
  have newPrev : prevOf links new = some pair.prev := by simp [prevOf, stored]
  obtain ⟨one, oneSet, oneNext, onePrev⟩ := setPrev_spec (some new) joined.prev
  obtain ⟨two, twoSet, twoNext, twoPrev⟩ := @setNext_spec _ _ one new pair.next (some first)
    (by rw [oneNext, newNext])
  obtain ⟨three, threeSet, threeNext, threePrev⟩ := @setPrev_spec _ _ two new pair.prev (some head)
    (by rw [twoPrev, onePrev, Function.update_of_ne notFirst, newPrev])
  obtain ⟨four, fourSet, fourNext, fourPrev⟩ := @setNext_spec _ _ three head (some first) (some new)
    (by rw [threeNext, twoNext, Function.update_of_ne notHead.symm, oneNext, joined.next])
  rw [threeNext, twoNext, oneNext] at fourNext
  rw [threePrev, twoPrev, onePrev] at fourPrev
  refine ⟨four, ?_, ⟨?_, ?_⟩, ⟨?_, ?_⟩, ?_, ?_⟩
  · simp only [listAdd, listAddBetween, held, headNext, oneSet, twoSet, threeSet, fourSet,
      Option.bind_eq_bind, Option.bind_some]
  · rw [fourNext, Function.update_self]
  · rw [fourPrev, Function.update_self]
  · rw [fourNext, Function.update_of_ne notHead, Function.update_self]
  · rw [fourPrev, Function.update_of_ne notFirst.symm, Function.update_self]
  · intro node notHead notNew
    rw [fourNext, Function.update_of_ne notHead, Function.update_of_ne notNew]
  · intro node notFirst notNew
    rw [fourPrev, Function.update_of_ne notNew, Function.update_of_ne notFirst]

/-- A node between two others goes from there; its own links are `NULL`. -/
theorem listDel_spec {node before behind : Node} (enter : Joined links before node)
    (leave : Joined links node behind) (notBefore : before ≠ node) (notBehind : behind ≠ node) :
    ∃ changed, listDel links node = some changed ∧ Removed links changed node before behind ∧
      changed node = some ⟨none, none⟩ := by
  obtain ⟨pair, held, pairNext⟩ := Option.map_eq_some_iff.mp leave.next
  have pairPrev : pair.prev = some before := by
    simpa [prevOf, held] using enter.prev
  obtain ⟨one, oneSet, oneNext, onePrev⟩ := setPrev_spec (some before) leave.prev
  obtain ⟨two, twoSet, twoNext, twoPrev⟩ := @setNext_spec _ _ one before (some node) (some behind)
    (by rw [oneNext, enter.next])
  obtain ⟨three, threeSet, threeNext, threePrev⟩ := @setNext_spec _ _ two node (some behind) none
    (by rw [twoNext, Function.update_of_ne notBefore.symm, oneNext, leave.next])
  obtain ⟨four, fourSet, fourNext, fourPrev⟩ := @setPrev_spec _ _ three node (some before) none
    (by rw [threePrev, twoPrev, onePrev, Function.update_of_ne notBehind.symm, enter.prev])
  rw [threeNext, twoNext, oneNext] at fourNext
  rw [threePrev, twoPrev, onePrev] at fourPrev
  refine ⟨four, ?_, ⟨⟨?_, ?_⟩, ?_, ?_⟩, ?_⟩
  · simp only [listDel, listDelBetween, held, pairNext, pairPrev, oneSet, twoSet, threeSet, fourSet,
      Option.bind_eq_bind, Option.bind_some]
  · rw [fourNext, Function.update_of_ne notBefore, Function.update_self]
  · rw [fourPrev, Function.update_of_ne notBehind, Function.update_self]
  · intro other notBefore notNode
    rw [fourNext, Function.update_of_ne notNode, Function.update_of_ne notBefore]
  · intro other notBehind notNode
    rw [fourPrev, Function.update_of_ne notNode, Function.update_of_ne notBehind]
  · obtain ⟨last, lastHeld, lastNext⟩ : ∃ last, four node = some last ∧ last.next = none := by
      rw [← Option.map_eq_some_iff]
      exact (congrFun fourNext node).trans (Function.update_self ..)
    have lastPrev : last.prev = none := by
      have := congrFun fourPrev node
      simpa [prevOf, lastHeld] using this
    rw [lastHeld]
    cases last
    simp_all

/-- The loop visits the nodes of a ring in their order, and ends. -/
theorem listForEach_segment {head first : Node} {nodes : List Node}
    (segment : Segment links first nodes head) (outside : head ∉ nodes) :
    ∃ pair, links first = some pair ∧
      forEachFrom links head (nodes.length + 1) pair.next = some nodes := by
  induction nodes generalizing first with
  | nil =>
      cases segment with
      | nil joined =>
          obtain ⟨pair, held, next⟩ := Option.map_eq_some_iff.mp joined.next
          exact ⟨pair, held, by simp [next, forEachFrom]⟩
  | cons node rest inductionHypothesis =>
      cases segment with
      | cons joined segment =>
          obtain ⟨pair, held, next⟩ := Option.map_eq_some_iff.mp joined.next
          rw [List.mem_cons, not_or] at outside
          obtain ⟨notNode, notRest⟩ := outside
          obtain ⟨inner, innerHeld, visited⟩ := inductionHypothesis segment notRest
          refine ⟨pair, held, ?_⟩
          rw [next, List.length_cons, forEachFrom, if_neg (Ne.symm notNode)]
          simp [innerHeld, visited]

variable {IsHead : Node → Prop} {lists : Node → List Node} {head node : Node}

theorem listAdd_rings (rings : Rings links IsHead lists) (isHead : IsHead head)
    {pair : LinkPair Node} (stored : links node = some pair) (plain : ¬ IsHead node)
    (outside : ∀ other, IsHead other → node ∉ lists other) :
    ∃ changed, listAdd links node head = some changed ∧
      Rings changed IsHead (Function.update lists head (node :: lists head)) := by
  have notHere := Rings.not_mem_ring plain isHead (outside head isHead)
  obtain ⟨changed, added, inserted⟩ := listAdd_spec (rings.closed head isHead).joined_first stored
    (List.ne_of_not_mem_cons notHere) (by
      rintro same
      cases nodes : lists head with
      | nil => simp_all
      | cons first rest => simp_all)
  exact ⟨changed, added, rings.insert isHead plain outside inserted⟩

theorem listDel_rings (rings : Rings links IsHead lists) (isHead : IsHead head)
    (here : node ∈ lists head) :
    ∃ changed, listDel links node = some changed ∧ changed node = some ⟨none, none⟩ ∧
      Rings changed IsHead (Function.update lists head ((lists head).erase node)) := by
  obtain ⟨before, behind, enter, leave, notBefore, notBehind, -⟩ := rings.around isHead here
  obtain ⟨changed, deleted, removed, cleared⟩ := listDel_spec enter leave notBefore notBehind
  exact ⟨changed, deleted, cleared, rings.remove isHead here enter leave removed⟩

theorem listEmpty_rings (rings : Rings links IsHead lists) (isHead : IsHead head) :
    listEmpty links head = true ↔ lists head = [] := by
  simp only [listEmpty, rings.next_head isHead, decide_eq_true_eq, Option.some.injEq]
  cases nodes : lists head with
  | nil => simp
  | cons first rest =>
      have notHead : first ≠ head := rings.ne_head isHead isHead (by simp [nodes])
      simp [notHead]

theorem initListHead_rings (links : Node → Option (LinkPair Node)) (head : Node) :
    Rings (initListHead links head) (· = head) fun _ => [] where
  closed := by
    rintro other rfl
    refine .nil ⟨?_, ?_⟩
    · simp [nextOf, initListHead]
    · simp [prevOf, initListHead]
  plain := by simp
  nodup := by simp
  once := by simp

theorem listForEach_rings (rings : Rings links IsHead lists) (isHead : IsHead head) :
    listForEach links head ((lists head).length + 1) = some (lists head) := by
  obtain ⟨pair, held, visited⟩ := listForEach_segment (rings.closed head isHead)
    fun again => rings.plain head isHead head again isHead
  simp [listForEach, held, visited]

end UtilsModules.Datastruct

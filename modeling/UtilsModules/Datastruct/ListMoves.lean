import UtilsModules.Datastruct.List

/-!
The functions of `list.h` that take entries from one list to another, and what each
of them does to the lists of a memory.
-/

namespace UtilsModules.Datastruct

open Linked

variable {Node : Type} [DecidableEq Node]

def listAddTail (links : Node → Option (LinkPair Node)) (new head : Node) :
    Option (Node → Option (LinkPair Node)) := do
  let pair ← links head
  listAddBetween links (some new) pair.prev (some head)

def listDelInit (links : Node → Option (LinkPair Node)) (entry : Node) :
    Option (Node → Option (LinkPair Node)) := do
  let pair ← links entry
  let links ← listDelBetween links pair.prev pair.next
  some (initListHead links entry)

def listMove (links : Node → Option (LinkPair Node)) (list head : Node) :
    Option (Node → Option (LinkPair Node)) := do
  let pair ← links list
  let links ← listDelBetween links pair.prev pair.next
  listAdd links list head

def listMoveTail (links : Node → Option (LinkPair Node)) (list head : Node) :
    Option (Node → Option (LinkPair Node)) := do
  let pair ← links list
  let links ← listDelBetween links pair.prev pair.next
  listAddTail links list head

def listSpliceBehind (links : Node → Option (LinkPair Node)) (list head : Node) :
    Option (Node → Option (LinkPair Node)) := do
  let listPair ← links list
  let headPair ← links head
  let links ← setPrev links listPair.next (some head)
  let links ← setNext links (some head) listPair.next
  let links ← setNext links listPair.prev headPair.next
  setPrev links headPair.next listPair.prev

def listSplice (links : Node → Option (LinkPair Node)) (list head : Node) :
    Option (Node → Option (LinkPair Node)) :=
  if listEmpty links list then some links else listSpliceBehind links list head

def listSpliceInit (links : Node → Option (LinkPair Node)) (list head : Node) :
    Option (Node → Option (LinkPair Node)) :=
  if listEmpty links list then some links
  else do
    let links ← listSpliceBehind links list head
    some (initListHead links list)

def forEachPrevFrom (links : Node → Option (LinkPair Node)) (head : Node) :
    Nat → Option Node → Option (List Node)
  | 0, _ => none
  | _ + 1, none => none
  | rounds + 1, some pos =>
      if pos = head then some []
      else do
        let pair ← links pos
        let visited ← forEachPrevFrom links head rounds pair.prev
        some (pos :: visited)

def listForEachPrev (links : Node → Option (LinkPair Node)) (head : Node) (rounds : Nat) :
    Option (List Node) := do
  let pair ← links head
  forEachPrevFrom links head rounds pair.prev

/-- The memory holds these lists; a node without a list is no head. -/
def Represents (links : Node → Option (LinkPair Node)) (lists : Node → Option (List Node)) : Prop :=
  Rings links (fun head => (lists head).isSome) fun head => (lists head).getD []

def Listed (lists : Node → Option (List Node)) (node : Node) : Prop :=
  ∃ head, node ∈ (lists head).getD []

def without (lists : Node → Option (List Node)) (node head : Node) : Option (List Node) :=
  if head = node then none else (lists head).map (·.erase node)

def onList (lists : Node → Option (List Node)) (head : Node) (change : List Node → List Node) :
    Node → Option (List Node) :=
  Function.update lists head ((lists head).map change)

/-- What `__list_del(entry->prev, entry->next)` is for: an entry of a list, or the
head of an empty one. -/
def Linkable (lists : Node → Option (List Node)) (entry : Node) : Prop :=
  Listed lists entry ∨ lists entry = some []

section Lists

variable {links changed : Node → Option (LinkPair Node)} {lists others : Node → Option (List Node)}
  {node head other : Node}

omit [DecidableEq Node] in
theorem Represents.plain (shown : Represents links lists) (isHead : (lists head).isSome) :
    ¬ Listed lists head := by
  rintro ⟨other, here⟩
  cases found : lists other with
  | none => simp [found] at here
  | some nodes => exact Rings.plain shown other (by simp [found]) head here isHead

theorem without_of_not_listed (free : ¬ Listed lists node) :
    without lists node = Function.update lists node none := by
  funext head
  by_cases same : head = node
  · rw [same, Function.update_self, without, if_pos rfl]
  · rw [Function.update_of_ne same, without, if_neg same]
    cases found : lists head with
    | none => rfl
    | some nodes =>
        have outside : node ∉ nodes := fun here => free ⟨head, by simpa [found] using here⟩
        rw [Option.map_some, List.erase_of_not_mem outside]

theorem without_self : without lists node node = none := if_pos rfl

omit [DecidableEq Node] in
theorem Represents.nodup (shown : Represents links lists) {nodes : List Node}
    (found : lists head = some nodes) : nodes.Nodup := by
  simpa [found] using Rings.nodup shown head (by simp [found])

theorem Represents.not_listed_without (shown : Represents links lists) :
    ¬ Listed (without lists node) node := by
  rintro ⟨head, here⟩
  by_cases same : head = node
  · simp [without, same] at here
  · rw [without, if_neg same] at here
    cases found : lists head with
    | none => simp [found] at here
    | some nodes =>
        rw [found] at here
        exact (shown.nodup found).not_mem_erase here

omit [DecidableEq Node] in
theorem Represents.congr_free (shown : Represents links lists) (free : ¬ Listed lists node)
    (plain : lists node = none) (same : ∀ other, other ≠ node → changed other = links other) :
    Represents changed lists := by
  refine Rings.congr shown ?_
  rintro other (isHead | ⟨head, -, here⟩)
  · exact same other fun equal => by simp [equal, plain] at isHead
  · exact same other fun equal => free ⟨head, equal ▸ here⟩

omit [DecidableEq Node] in
theorem joined_pair {before behind : Node} (enter : Joined links before node)
    (leave : Joined links node behind) : links node = some ⟨some behind, some before⟩ := by
  obtain ⟨pair, held, next⟩ := Option.map_eq_some_iff.mp leave.next
  obtain ⟨again, heldAgain, prev⟩ := Option.map_eq_some_iff.mp enter.prev
  obtain rfl := Option.some.inj (held.symm.trans heldAgain)
  rw [held, ← next, ← prev]

theorem listDelBetween_spec {before behind : Node} (enter : Joined links before node)
    (leave : Joined links node behind) :
    ∃ changed, listDelBetween links (some before) (some behind) = some changed ∧
      nextOf changed = Function.update (nextOf links) before (some (some behind)) ∧
      prevOf changed = Function.update (prevOf links) behind (some (some before)) := by
  obtain ⟨one, oneSet, oneNext, onePrev⟩ := setPrev_spec (some before) leave.prev
  obtain ⟨two, twoSet, twoNext, twoPrev⟩ := @setNext_spec _ _ one before (some node) (some behind)
    (by rw [oneNext, enter.next])
  refine ⟨two, ?_, by rw [twoNext, oneNext], by rw [twoPrev, onePrev]⟩
  simp only [listDelBetween, oneSet, twoSet, Option.bind_eq_bind, Option.bind_some]

omit [DecidableEq Node] in
theorem links_ext (next : nextOf changed = nextOf links) (prev : prevOf changed = prevOf links) :
    changed = links := by
  funext node
  have sameNext := congrFun next node
  have samePrev := congrFun prev node
  unfold nextOf at sameNext
  unfold prevOf at samePrev
  cases here : changed node with
  | none =>
      rw [here, Option.map_none] at sameNext
      exact (Option.map_eq_none_iff.mp sameNext.symm).symm
  | some pair =>
      cases there : links node with
      | none => simp [here, there] at sameNext
      | some other =>
          cases pair
          cases other
          simp_all

/-- `__list_del` joins the two neighbours and leaves the links of the node. -/
theorem listDelBetween_removed (enter : Joined links before node) (leave : Joined links node behind)
    (notBefore : before ≠ node) (notBehind : behind ≠ node) :
    ∃ changed, listDelBetween links (some before) (some behind) = some changed ∧
      Removed links changed node before behind ∧ changed node = links node := by
  obtain ⟨changed, deleted, next, prev⟩ := listDelBetween_spec enter leave
  refine ⟨changed, deleted, ⟨⟨?_, ?_⟩, ?_, ?_⟩, ?_⟩
  · rw [next, Function.update_self]
  · rw [prev, Function.update_self]
  · intro other notBefore _
    rw [next, Function.update_of_ne notBefore]
  · intro other notBehind _
    rw [prev, Function.update_of_ne notBehind]
  · rw [joined_pair enter leave]
    have sameNext : nextOf changed node = some (some behind) := by
      rw [next, Function.update_of_ne notBefore.symm, leave.next]
    have samePrev : prevOf changed node = some (some before) := by
      rw [prev, Function.update_of_ne notBehind.symm, enter.prev]
    obtain ⟨pair, held, pairNext⟩ := Option.map_eq_some_iff.mp sameNext
    obtain ⟨again, heldAgain, pairPrev⟩ := Option.map_eq_some_iff.mp samePrev
    obtain rfl := Option.some.inj (held.symm.trans heldAgain)
    rw [held, ← pairNext, ← pairPrev]

theorem Represents.unlink_entry (shown : Represents links lists) {head : Node}
    (here : node ∈ (lists head).getD []) :
    ∃ pair changed, links node = some pair ∧
      listDelBetween links pair.prev pair.next = some changed ∧
        Represents changed (without lists node) ∧ ∃ left, changed node = some left := by
  have isHead : (lists head).isSome := by
    cases found : lists head with
    | none => simp [found] at here
    | some nodes => rfl
  obtain ⟨before, behind, enter, leave, notBefore, notBehind, -⟩ := Rings.around shown isHead here
  obtain ⟨changed, deleted, removed, kept⟩ :=
    listDelBetween_removed enter leave notBefore notBehind
  have stored := joined_pair enter leave
  refine ⟨_, changed, stored, deleted, ?_, _, kept.trans stored⟩
  refine ((Rings.remove shown isHead here enter leave removed).fewer ?_).congr_lists ?_
  · intro ring some
    by_cases same : ring = node
    · simp [without, same] at some
    · rw [without, if_neg same, Option.isSome_map] at some
      exact some
  · intro ring some
    have notNode : ring ≠ node := by
      rintro rfl
      simp [without] at some
    rw [without, if_neg notNode, Option.isSome_map] at some
    rw [without, if_neg notNode]
    obtain ⟨list, listFound⟩ := Option.isSome_iff_exists.mp some
    rw [listFound, Option.map_some, Option.getD_some]
    by_cases same : ring = head
    · subst same
      rw [Function.update_self, listFound, Option.getD_some]
    · rw [Function.update_of_ne same, listFound, Option.getD_some]
      apply List.erase_of_not_mem
      intro again
      have inside : node ∈ (lists ring).getD [] := by simpa [listFound] using again
      exact same (Rings.once shown ring head some isHead node inside here)

/-- The head of an empty list is its own neighbour, and nothing changes. -/
theorem Represents.unlink_head (shown : Represents links lists) (empty : lists node = some []) :
    ∃ pair, links node = some pair ∧ listDelBetween links pair.prev pair.next = some links ∧
      Represents links (without lists node) := by
  have isHead : (lists node).isSome := by rw [empty]; rfl
  have joined : Joined links node node := by
    have closed := Rings.closed shown node isHead
    simp only [empty, Option.getD_some] at closed
    exact closed.joined_first
  obtain ⟨changed, deleted, next, prev⟩ := listDelBetween_spec joined joined
  have same : changed = links := by
    refine links_ext ?_ ?_
    · rw [next, ← joined.next, Function.update_eq_self]
    · rw [prev, ← joined.prev, Function.update_eq_self]
  subst same
  refine ⟨_, joined_pair joined joined, deleted, ?_⟩
  rw [without_of_not_listed (shown.plain isHead)]
  refine (Rings.fewer shown ?_).congr_lists ?_
  · intro ring some
    by_cases same : ring = node
    · simp [same] at some
    · rwa [Function.update_of_ne same] at some
  · intro ring some
    by_cases same : ring = node
    · simp [same] at some
    · rw [Function.update_of_ne same]

theorem Represents.unlink (shown : Represents links lists) (linkable : Linkable lists node) :
    ∃ pair changed, links node = some pair ∧
      listDelBetween links pair.prev pair.next = some changed ∧
        Represents changed (without lists node) ∧ ∃ left, changed node = some left := by
  rcases linkable with ⟨head, here⟩ | empty
  · exact shown.unlink_entry here
  · obtain ⟨pair, stored, deleted, after⟩ := shown.unlink_head empty
    exact ⟨pair, links, stored, deleted, after, pair, stored⟩

theorem Represents.initListHead (shown : Represents links lists) (free : ¬ Listed lists node)
    (plain : lists node = none) :
    Represents (initListHead links node) (Function.update lists node (some [])) := by
  have joined : Joined (UtilsModules.Datastruct.initListHead links node) node node := by
    refine ⟨?_, ?_⟩
    · simp [nextOf, UtilsModules.Datastruct.initListHead]
    · simp [prevOf, UtilsModules.Datastruct.initListHead]
  have raised := Rings.raise shown (by simp [plain]) (fun other _ here => free ⟨other, here⟩) joined
    fun other different => Function.update_of_ne different ..
  refine (raised.fewer ?_).congr_lists ?_
  · intro ring some
    by_cases same : ring = node
    · exact .inl same
    · rw [Function.update_of_ne same] at some
      exact .inr some
  · intro ring _
    by_cases same : ring = node
    · simp [same]
    · simp [same]

theorem Represents.listAdd (shown : Represents links lists) {nodes : List Node}
    (found : lists head = some nodes) {pair : LinkPair Node} (stored : links node = some pair)
    (free : ¬ Listed lists node) (plain : lists node = none) :
    ∃ changed, listAdd links node head = some changed ∧
      Represents changed (onList lists head (node :: ·)) := by
  have isHead : (lists head).isSome := by rw [found]; rfl
  obtain ⟨changed, added, rings⟩ := listAdd_rings shown isHead stored (by simp [plain])
    fun other _ here => free ⟨other, here⟩
  refine ⟨changed, added, (rings.fewer ?_).congr_lists ?_⟩
  · intro ring some
    by_cases same : ring = head
    · exact same ▸ isHead
    · rwa [onList, Function.update_of_ne same] at some
  · intro ring _
    by_cases same : ring = head
    · simp [onList, same, found]
    · simp [onList, same]

omit [DecidableEq Node] in
theorem Represents.joined_last (shown : Represents links lists) {nodes : List Node}
    (found : lists head = some nodes) : Joined links (nodes.getLastD head) head := by
  have closed := Rings.closed shown head (by simp [found])
  simp only [found, Option.getD_some] at closed
  exact closed.joined_last

omit [DecidableEq Node] in
theorem Represents.joined_first (shown : Represents links lists) {nodes : List Node}
    (found : lists head = some nodes) : Joined links head (nodes.headD head) := by
  have closed := Rings.closed shown head (by simp [found])
  simp only [found, Option.getD_some] at closed
  exact closed.joined_first

theorem listAddTail_eq {last : Node} (joined : Joined links last head) :
    listAddTail links node head = listAdd links node last := by
  obtain ⟨pair, held, next⟩ := Option.map_eq_some_iff.mp joined.next
  obtain ⟨headPair, headHeld, prev⟩ := Option.map_eq_some_iff.mp joined.prev
  simp only [UtilsModules.Datastruct.listAddTail, UtilsModules.Datastruct.listAdd, held, headHeld,
    Option.bind_eq_bind, Option.bind_some, next, prev]

theorem Represents.listAddTail (shown : Represents links lists) {nodes : List Node}
    (found : lists head = some nodes) {pair : LinkPair Node} (stored : links node = some pair)
    (free : ¬ Listed lists node) (plain : lists node = none) :
    ∃ changed, listAddTail links node head = some changed ∧
      Represents changed (onList lists head (· ++ [node])) := by
  have isHead : (lists head).isSome := by rw [found]; rfl
  have joined := shown.joined_last found
  have notHead : node ≠ head := by
    rintro rfl
    simp [plain] at found
  have notLast : node ≠ nodes.getLastD head := by
    intro same
    have inRing : node ∈ head :: nodes := same ▸ List.getLastD_mem_cons
    rcases List.mem_cons.mp inRing with equal | here
    · exact notHead equal
    · exact free ⟨head, by simpa [found] using here⟩
  obtain ⟨changed, added, inserted⟩ := listAdd_spec joined stored notLast notHead
  refine ⟨changed, (listAddTail_eq joined).trans added, ?_⟩
  have rings := Rings.insert_last shown isHead (by simp [plain])
    (fun other _ here => free ⟨other, here⟩) (by simpa [found] using inserted)
  refine (rings.fewer ?_).congr_lists ?_
  · intro ring some
    by_cases same : ring = head
    · exact same ▸ isHead
    · rwa [onList, Function.update_of_ne same] at some
  · intro ring _
    by_cases same : ring = head
    · simp [onList, same, found]
    · simp [onList, same]

theorem listSpliceBehind_spec {first last behind : Node} (enter : Joined links other first)
    (leave : Joined links last other) (onto : Joined links head behind) (notHead : last ≠ head)
    (notBehind : first ≠ behind) {before : Node} (backwards : Joined links before head) :
    ∃ changed, listSpliceBehind links other head = some changed ∧
      Spliced links changed first last head behind := by
  have listPair := joined_pair leave enter
  have headPair := joined_pair backwards onto
  obtain ⟨one, oneSet, oneNext, onePrev⟩ := setPrev_spec (some head) enter.prev
  obtain ⟨two, twoSet, twoNext, twoPrev⟩ := @setNext_spec _ _ one head (some behind) (some first)
    (by rw [oneNext, onto.next])
  obtain ⟨three, threeSet, threeNext, threePrev⟩ := @setNext_spec _ _ two last (some other)
    (some behind) (by rw [twoNext, Function.update_of_ne notHead, oneNext, leave.next])
  obtain ⟨four, fourSet, fourNext, fourPrev⟩ := @setPrev_spec _ _ three behind (some head)
    (some last)
    (by rw [threePrev, twoPrev, onePrev, Function.update_of_ne notBehind.symm, onto.prev])
  rw [threeNext, twoNext, oneNext] at fourNext
  rw [threePrev, twoPrev, onePrev] at fourPrev
  refine ⟨four, ?_, ⟨?_, ?_⟩, ⟨?_, ?_⟩, ?_, ?_⟩
  · simp only [listSpliceBehind, listPair, headPair, oneSet, twoSet, threeSet, fourSet,
      Option.bind_eq_bind, Option.bind_some]
  · rw [fourNext, Function.update_of_ne notHead.symm, Function.update_self]
  · rw [fourPrev, Function.update_of_ne notBehind, Function.update_self]
  · rw [fourNext, Function.update_self]
  · rw [fourPrev, Function.update_self]
  · intro node notHead notLast
    rw [fourNext, Function.update_of_ne notLast, Function.update_of_ne notHead]
  · intro node notFirst notBehind
    rw [fourPrev, Function.update_of_ne notBehind, Function.update_of_ne notFirst]

theorem Represents.splice (shown : Represents links lists) {first : Node} {rest nodes : List Node}
    (list : lists other = some (first :: rest)) (found : lists head = some nodes)
    (different : other ≠ head) :
    ∃ changed, listSpliceBehind links other head = some changed ∧
      Represents changed (Function.update (onList lists head (first :: rest ++ ·)) other none) ∧
        ∃ left, changed other = some left := by
  have isHead : (lists head).isSome := by rw [found]; rfl
  have otherHead : (lists other).isSome := by rw [list]; rfl
  have notMember : ∀ node ∈ first :: rest, node ∉ head :: nodes := by
    intro node here
    have outside := Rings.not_mem_other shown isHead otherHead different
      (List.mem_cons_of_mem other (show node ∈ (lists other).getD [] by simpa [list] using here))
    simpa [found] using outside
  have enter := shown.joined_first list
  have leave := shown.joined_last list
  have onto := shown.joined_first found
  rw [List.headD_cons] at enter
  rw [List.getLastD_cons] at leave
  have lastHere : rest.getLastD first ∈ first :: rest := List.getLastD_mem_cons
  have behindHere : nodes.headD head ∈ head :: nodes := by
    cases nodes with
    | nil => exact List.mem_cons_self
    | cons node later => exact List.mem_cons_of_mem _ List.mem_cons_self
  have notHead : rest.getLastD first ≠ head := fun same =>
    notMember _ lastHere (same ▸ List.mem_cons_self)
  have notBehind : first ≠ nodes.headD head := fun same =>
    notMember first List.mem_cons_self (same ▸ behindHere)
  obtain ⟨changed, joined, spliced⟩ := listSpliceBehind_spec enter leave onto notHead notBehind
    (shown.joined_last found)
  have rings := Rings.splice shown isHead otherHead different (by simp [list])
    (show Spliced links changed first (rest.getLastD first) head
      (((lists head).getD []).headD head) by rwa [found])
  have stored : nextOf changed other = some (some first) := by
    rw [spliced.otherNext other different, enter.next]
    intro same
    have inside : other ∈ (lists other).getD [] := by
      rw [list, Option.getD_some]
      exact same ▸ lastHere
    exact Rings.plain shown other otherHead other inside otherHead
  obtain ⟨left, held, -⟩ := Option.map_eq_some_iff.mp stored
  refine ⟨changed, joined, (rings.fewer ?_).congr_lists ?_, left, held⟩
  · intro ring some
    by_cases same : ring = other
    · simp [same] at some
    · rw [Function.update_of_ne same] at some
      refine ⟨?_, same⟩
      by_cases equal : ring = head
      · exact equal ▸ isHead
      · rwa [onList, Function.update_of_ne equal] at some
  · intro ring some
    by_cases same : ring = other
    · simp [same] at some
    · by_cases equal : ring = head
      · subst equal
        simp [onList, same, found, list]
      · simp [onList, same, equal]

omit [DecidableEq Node] in
theorem forEachPrevFrom_eq [DecidableEq Node] (links : Node → Option (LinkPair Node)) (head : Node)
    (rounds : Nat) (pos : Option Node) :
    forEachPrevFrom links head rounds pos = forEachFrom (flipped links) head rounds pos := by
  induction rounds generalizing pos with
  | zero => rfl
  | succ rounds inductionHypothesis =>
      cases pos with
      | none => rfl
      | some pos =>
          rw [forEachPrevFrom, forEachFrom]
          split
          · rfl
          · cases held : links pos with
            | none => simp [flipped, held]
            | some pair => simp [flipped, held, LinkPair.flip, inductionHypothesis]

theorem Represents.listForEach (shown : Represents links lists) {nodes : List Node}
    (found : lists head = some nodes) :
    listForEach links head (nodes.length + 1) = some nodes := by
  simpa [found] using listForEach_rings shown (show (lists head).isSome by simp [found])

/-- The loop backwards visits the nodes in the reverse order. -/
theorem Represents.listForEachPrev (shown : Represents links lists) {nodes : List Node}
    (found : lists head = some nodes) :
    listForEachPrev links head (nodes.length + 1) = some nodes.reverse := by
  have turned := listForEach_rings (Rings.flip shown) (show (lists head).isSome by simp [found])
  rw [found, Option.getD_some, List.length_reverse] at turned
  rw [← turned, UtilsModules.Datastruct.listForEachPrev, UtilsModules.Datastruct.listForEach]
  cases held : links head with
  | none => simp [flipped, held]
  | some pair => simp [flipped, held, LinkPair.flip, forEachPrevFrom_eq]

end Lists

end UtilsModules.Datastruct

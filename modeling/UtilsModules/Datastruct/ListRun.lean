import Mathlib.Data.Fin.VecNotation
import Mathlib.Data.Fintype.Basic
import UtilsModules.Datastruct.ListMoves
import UtilsModules.Library.Transition

/-!
Runs of the functions of `list.h` on the lists of one memory, and the loop whose
body takes entries away.
-/

namespace UtilsModules.Datastruct

open Linked

variable {Node : Type} [DecidableEq Node]

inductive ListCall (Node : Type) where
  | init (head : Node)
  | add (new head : Node)
  | addTail (new head : Node)
  | del (entry : Node)
  | delInit (entry : Node)
  | move (list head : Node)
  | moveTail (list head : Node)
  | splice (list head : Node)
  | spliceInit (list head : Node)
  deriving DecidableEq, Repr

namespace ListCall

def perform (links : Node → Option (LinkPair Node)) :
    ListCall Node → Option (Node → Option (LinkPair Node))
  | .init head => (links head).map fun _ => initListHead links head
  | .add new head => listAdd links new head
  | .addTail new head => listAddTail links new head
  | .del entry => listDel links entry
  | .delInit entry => listDelInit links entry
  | .move list head => listMove links list head
  | .moveTail list head => listMoveTail links list head
  | .splice list head => listSplice links list head
  | .spliceInit list head => listSpliceInit links list head

def apply (lists : Node → Option (List Node)) : ListCall Node → Node → Option (List Node)
  | .init head => Function.update lists head (some [])
  | .add new head | .move new head => onList (without lists new) head (new :: ·)
  | .addTail new head | .moveTail new head => onList (without lists new) head (· ++ [new])
  | .del entry => without lists entry
  | .delInit entry => Function.update (without lists entry) entry (some [])
  | .splice list head =>
      if lists list = some [] then lists
      else Function.update (onList lists head ((lists list).getD [] ++ ·)) list none
  | .spliceInit list head =>
      Function.update (onList lists head ((lists list).getD [] ++ ·)) list (some [])

end ListCall

/-- A memory of links, and the lists that its callers keep in it. -/
structure ListState (Node : Type) where
  links : Node → Option (LinkPair Node)
  lists : Node → Option (List Node)

namespace ListState

def step (state : ListState Node) (call : ListCall Node) : Option (ListState Node) :=
  (call.perform state.links).map fun links => ⟨links, call.apply state.lists⟩

/-- What the callers see to: an entry that is added is on no list, one that is
taken out is on a list or alone, and lists are named by their heads. -/
def Allowed (state : ListState Node) : ListCall Node → Prop
  | .init head => (state.links head).isSome ∧ ¬ Listed state.lists head
  | .add new head | .addTail new head =>
      (state.links new).isSome ∧ ¬ Listed state.lists new ∧ new ≠ head ∧
        (state.lists head).isSome
  | .del entry | .delInit entry => Linkable state.lists entry
  | .move list head | .moveTail list head =>
      Linkable state.lists list ∧ list ≠ head ∧ (state.lists head).isSome
  | .splice list head | .spliceInit list head =>
      (state.lists list).isSome ∧ (state.lists head).isSome ∧ list ≠ head

instance [Fintype Node] (lists : Node → Option (List Node)) (node : Node) :
    Decidable (Listed lists node) :=
  inferInstanceAs (Decidable (∃ head, node ∈ (lists head).getD []))

instance [Fintype Node] (lists : Node → Option (List Node)) (node : Node) :
    Decidable (Linkable lists node) :=
  inferInstanceAs (Decidable (Listed lists node ∨ _))

instance [Fintype Node] : DecidableRel (@Allowed Node)
  | _, .init _ => inferInstanceAs (Decidable (_ ∧ _))
  | _, .add _ _ | _, .addTail _ _ => inferInstanceAs (Decidable (_ ∧ _))
  | _, .del _ | _, .delInit _ => inferInstanceAs (Decidable (Linkable _ _))
  | _, .move _ _ | _, .moveTail _ _ => inferInstanceAs (Decidable (_ ∧ _))
  | _, .splice _ _ | _, .spliceInit _ _ => inferInstanceAs (Decidable (_ ∧ _))

end ListState

section Calls

variable {links : Node → Option (LinkPair Node)} {lists : Node → Option (List Node)}
  {node head other : Node}

theorem Represents.drop (shown : Represents links lists) (free : ¬ Listed lists node) :
    Represents links (without lists node) := by
  rw [without_of_not_listed free]
  refine (Rings.fewer shown ?_).congr_lists ?_
  · intro ring some
    by_cases same : ring = node
    · simp [same] at some
    · rwa [Function.update_of_ne same] at some
  · intro ring some
    by_cases same : ring = node
    · simp [same] at some
    · rw [Function.update_of_ne same]

theorem without_of_ne {nodes : List Node} (different : node ≠ head)
    (found : lists head = some nodes) : without lists node head = some (nodes.erase node) := by
  rw [without, if_neg different.symm, found, Option.map_some]

theorem Represents.listEmpty_iff (shown : Represents links lists) {nodes : List Node}
    (found : lists head = some nodes) : listEmpty links head = true ↔ nodes = [] := by
  have := listEmpty_rings shown (show (lists head).isSome by simp [found])
  simpa [found] using this

theorem Represents.listDel (shown : Represents links lists) (linkable : Linkable lists node) :
    ∃ changed, listDel links node = some changed ∧ Represents changed (without lists node) := by
  obtain ⟨pair, changed, stored, unlinked, kept, left, held⟩ := shown.unlink linkable
  refine ⟨Function.update changed node (some ⟨none, none⟩), ?_, ?_⟩
  · simp only [UtilsModules.Datastruct.listDel, stored, unlinked, setNext, setPrev, held,
      Option.bind_eq_bind, Option.bind_some, Function.update_self, Function.update_idem]
  · exact kept.congr_free shown.not_listed_without without_self
      fun other different => Function.update_of_ne different ..

theorem Represents.listDelInit (shown : Represents links lists) (linkable : Linkable lists node) :
    ∃ changed, listDelInit links node = some changed ∧
      Represents changed (Function.update (without lists node) node (some [])) := by
  obtain ⟨pair, changed, stored, unlinked, kept, -⟩ := shown.unlink linkable
  refine ⟨UtilsModules.Datastruct.initListHead changed node, ?_, ?_⟩
  · simp only [UtilsModules.Datastruct.listDelInit, stored, unlinked, Option.bind_eq_bind,
      Option.bind_some]
  · exact kept.initListHead shown.not_listed_without without_self

theorem Represents.listSplice (shown : Represents links lists) (list : (lists other).isSome)
    (onto : (lists head).isSome) (different : other ≠ head) :
    ∃ changed, listSplice links other head = some changed ∧
      Represents changed ((ListCall.splice other head).apply lists) := by
  obtain ⟨nodes, found⟩ := Option.isSome_iff_exists.mp onto
  obtain ⟨moved, listFound⟩ := Option.isSome_iff_exists.mp list
  cases moved with
  | nil =>
      refine ⟨links, if_pos ((shown.listEmpty_iff listFound).mpr rfl), ?_⟩
      rw [ListCall.apply, if_pos listFound]
      exact shown
  | cons first rest =>
      have notEmpty : ¬ listEmpty links other = true :=
        fun empty => by simpa using (shown.listEmpty_iff listFound).mp empty
      obtain ⟨changed, joined, kept, -⟩ := shown.splice listFound found different
      refine ⟨changed, (if_neg notEmpty).trans joined, ?_⟩
      rw [ListCall.apply, if_neg (by simp [listFound]), listFound]
      exact kept

theorem Represents.listSpliceInit (shown : Represents links lists) (list : (lists other).isSome)
    (onto : (lists head).isSome) (different : other ≠ head) :
    ∃ changed, listSpliceInit links other head = some changed ∧
      Represents changed ((ListCall.spliceInit other head).apply lists) := by
  obtain ⟨nodes, found⟩ := Option.isSome_iff_exists.mp onto
  obtain ⟨moved, listFound⟩ := Option.isSome_iff_exists.mp list
  cases moved with
  | nil =>
      refine ⟨links, if_pos ((shown.listEmpty_iff listFound).mpr rfl), ?_⟩
      have same : (ListCall.spliceInit other head).apply lists = lists := by
        rw [ListCall.apply, listFound, onList, found, Option.map_some, Option.getD_some,
          List.nil_append, ← found, Function.update_eq_self, ← listFound, Function.update_eq_self]
      rw [same]
      exact shown
  | cons first rest =>
      have notEmpty : ¬ listEmpty links other = true :=
        fun empty => by simpa using (shown.listEmpty_iff listFound).mp empty
      obtain ⟨changed, joined, kept, -⟩ := shown.splice listFound found different
      have outside : ¬ Listed
          (Function.update (onList lists head (first :: rest ++ ·)) other none) other := by
        rintro ⟨ring, here⟩
        have plain := shown.plain list
        by_cases same : ring = other
        · simp [same] at here
        · rw [Function.update_of_ne same] at here
          by_cases equal : ring = head
          · subst equal
            rw [onList, Function.update_self, found, Option.map_some, Option.getD_some,
              List.mem_append] at here
            rcases here with inside | inside
            · exact plain ⟨other, by simpa [listFound] using inside⟩
            · exact plain ⟨ring, by simpa [found] using inside⟩
          · rw [onList, Function.update_of_ne equal] at here
            exact plain ⟨ring, here⟩
      have raised := kept.initListHead outside (Function.update_self ..)
      rw [Function.update_idem] at raised
      refine ⟨UtilsModules.Datastruct.initListHead changed other, ?_, ?_⟩
      · rw [UtilsModules.Datastruct.listSpliceInit, if_neg notEmpty, joined]
        rfl
      · rw [ListCall.apply, listFound]
        exact raised

end Calls

namespace ListState

variable {state : ListState Node}

def Faithful (state : ListState Node) : Prop := Represents state.links state.lists

theorem Faithful.step (faithful : state.Faithful) {call : ListCall Node}
    (allowed : state.Allowed call) :
    ∃ next, ListState.step state call = some next ∧ next.lists = call.apply state.lists ∧
      next.Faithful := by
  have shown : Represents state.links state.lists := faithful
  have assembled {changed : Node → Option (LinkPair Node)}
      (performed : call.perform state.links = some changed)
      (kept : Represents changed (call.apply state.lists)) :
      ∃ next, ListState.step state call = some next ∧ next.lists = call.apply state.lists ∧
        next.Faithful :=
    ⟨⟨changed, call.apply state.lists⟩, by rw [ListState.step, performed, Option.map_some], rfl,
      kept⟩
  cases call with
  | init head =>
      obtain ⟨stored, free⟩ := allowed
      obtain ⟨pair, held⟩ := Option.isSome_iff_exists.mp stored
      have raised := (shown.drop free).initListHead shown.not_listed_without without_self
      rw [without_of_not_listed free, Function.update_idem] at raised
      exact assembled (by rw [ListCall.perform, held, Option.map_some]) raised
  | add new head =>
      obtain ⟨stored, free, different, isHead⟩ := allowed
      obtain ⟨pair, held⟩ := Option.isSome_iff_exists.mp stored
      obtain ⟨nodes, found⟩ := Option.isSome_iff_exists.mp isHead
      obtain ⟨changed, added, kept⟩ := (shown.drop free).listAdd
        (without_of_ne different found) held shown.not_listed_without without_self
      exact assembled added kept
  | addTail new head =>
      obtain ⟨stored, free, different, isHead⟩ := allowed
      obtain ⟨pair, held⟩ := Option.isSome_iff_exists.mp stored
      obtain ⟨nodes, found⟩ := Option.isSome_iff_exists.mp isHead
      obtain ⟨changed, added, kept⟩ := (shown.drop free).listAddTail
        (without_of_ne different found) held shown.not_listed_without without_self
      exact assembled added kept
  | del entry =>
      obtain ⟨changed, deleted, kept⟩ := shown.listDel allowed
      exact assembled deleted kept
  | delInit entry =>
      obtain ⟨changed, deleted, kept⟩ := shown.listDelInit allowed
      exact assembled deleted kept
  | move list head =>
      obtain ⟨linkable, different, isHead⟩ := allowed
      obtain ⟨nodes, found⟩ := Option.isSome_iff_exists.mp isHead
      obtain ⟨pair, middle, stored, unlinked, kept, left, held⟩ := shown.unlink linkable
      obtain ⟨changed, added, moved⟩ := kept.listAdd (without_of_ne different found) held
        shown.not_listed_without without_self
      refine assembled ?_ moved
      simp only [ListCall.perform, listMove, stored, unlinked, added, Option.bind_eq_bind,
        Option.bind_some]
  | moveTail list head =>
      obtain ⟨linkable, different, isHead⟩ := allowed
      obtain ⟨nodes, found⟩ := Option.isSome_iff_exists.mp isHead
      obtain ⟨pair, middle, stored, unlinked, kept, left, held⟩ := shown.unlink linkable
      obtain ⟨changed, added, moved⟩ := kept.listAddTail (without_of_ne different found) held
        shown.not_listed_without without_self
      refine assembled ?_ moved
      simp only [ListCall.perform, listMoveTail, stored, unlinked, added, Option.bind_eq_bind,
        Option.bind_some]
  | splice list head =>
      obtain ⟨isList, isHead, different⟩ := allowed
      obtain ⟨changed, joined, kept⟩ := shown.listSplice isList isHead different
      exact assembled joined kept
  | spliceInit list head =>
      obtain ⟨isList, isHead, different⟩ := allowed
      obtain ⟨changed, joined, kept⟩ := shown.listSpliceInit isList isHead different
      exact assembled joined kept

def start (memory : Node → Option (LinkPair Node)) : ListState Node := ⟨memory, fun _ => none⟩

omit [DecidableEq Node] in
theorem start_faithful (memory : Node → Option (LinkPair Node)) : (start memory).Faithful := by
  refine ⟨?_, ?_, ?_, ?_⟩ <;> simp [start]

theorem run_faithful {memory : Node → Option (LinkPair Node)} {calls : List (ListCall Node)}
    (allowed : Transition.Guarded step Allowed (start memory) calls) :
    ∃ last, Transition.run step (start memory) calls = some last ∧ last.Faithful := by
  refine Transition.run_defined_of_guarded step ?_ allowed (start_faithful memory)
  intro state call faithful here
  obtain ⟨next, stepped, -, kept⟩ := faithful.step here
  exact ⟨next, stepped, kept⟩

theorem lists_of_run {last : ListState Node} {calls : List (ListCall Node)}
    (ran : Transition.run step state calls = some last) :
    last.lists = calls.foldl ListCall.apply state.lists := by
  induction calls generalizing state with
  | nil =>
      obtain rfl := Option.some.inj ran
      rfl
  | cons call rest inductionHypothesis =>
      rw [Transition.run_cons, Option.bind_eq_some_iff] at ran
      obtain ⟨next, stepped, ran⟩ := ran
      obtain ⟨links, -, rfl⟩ := Option.map_eq_some_iff.mp stepped
      exact inductionHypothesis ran

/-- Every sequence of calls that names lists by their heads and adds only entries
that are on no list works as on sequences: the two loops visit what the lists are, and
`list_empty` tells the empty ones. -/
theorem run_lists {memory : Node → Option (LinkPair Node)} {calls : List (ListCall Node)}
    (allowed : Transition.Guarded step Allowed (start memory) calls) :
    ∃ last, Transition.run step (start memory) calls = some last ∧
      last.lists = calls.foldl ListCall.apply (fun _ => none) ∧
        ∀ head nodes, last.lists head = some nodes →
          listForEach last.links head (nodes.length + 1) = some nodes ∧
          listForEachPrev last.links head (nodes.length + 1) = some nodes.reverse ∧
          (listEmpty last.links head = true ↔ nodes = []) ∧
          nodes.Nodup ∧
          ∀ other others, last.lists other = some others →
            other ∉ nodes ∧ (other ≠ head → nodes.Disjoint others) := by
  obtain ⟨last, ran, shown⟩ := run_faithful allowed
  have shown : Represents last.links last.lists := shown
  refine ⟨last, ran, lists_of_run ran, fun head nodes found => ?_⟩
  refine ⟨shown.listForEach found, shown.listForEachPrev found, shown.listEmpty_iff found,
    shown.nodup found, fun other others otherFound => ?_⟩
  have otherHead : (last.lists other).isSome := by simp [otherFound]
  refine ⟨fun here => ?_, fun different node here there => ?_⟩
  · exact shown.plain otherHead ⟨head, by simpa [found] using here⟩
  · exact different (Rings.once shown other head otherHead (by simp [found]) node
      (by simpa [otherFound] using there) (by simpa [found] using here))

/-- Two queues: entries are added at both ends, one moves over, and the second is
put in front of the first. -/
theorem run_lists_queues :
    ∃ last, Transition.run step (start fun _ : Fin 7 => some ⟨none, none⟩)
        [.init 0, .init 1, .add 2 0, .addTail 3 0, .add 4 0, .addTail 5 1, .addTail 6 1,
          .move 3 1, .del 5, .spliceInit 1 0, .delInit 2] = some last ∧
      listForEach last.links 0 4 = some [3, 6, 4] ∧
      listForEachPrev last.links 0 4 = some [4, 6, 3] ∧
      listEmpty last.links 1 = true ∧ listEmpty last.links 2 = true := by
  obtain ⟨last, ran, lists, shown⟩ := run_lists
    (show Transition.Guarded step Allowed (start fun _ : Fin 7 => some ⟨none, none⟩)
      [.init 0, .init 1, .add 2 0, .addTail 3 0, .add 4 0, .addTail 5 1, .addTail 6 1,
        .move 3 1, .del 5, .spliceInit 1 0, .delInit 2] by decide)
  have first : last.lists 0 = some [3, 6, 4] := by
    rw [lists]
    decide
  have second : last.lists 1 = some [] := by
    rw [lists]
    decide
  have alone : last.lists 2 = some [] := by
    rw [lists]
    decide
  obtain ⟨forwards, backwards, -⟩ := shown 0 _ first
  exact ⟨last, ran, forwards, backwards, (shown 1 _ second).2.2.1.mpr rfl,
    (shown 2 _ alone).2.2.1.mpr rfl⟩

end ListState

/-- What the body of a safe loop does with the entry it is at. -/
inductive Disposal (Node : Type) where
  | keep
  | del
  | delInit
  | move (head : Node)
  | moveTail (head : Node)
  deriving DecidableEq, Repr

namespace Disposal

def calls (entry : Node) : Disposal Node → List (ListCall Node)
  | .keep => []
  | .del => [.del entry]
  | .delInit => [.delInit entry]
  | .move head => [.move entry head]
  | .moveTail head => [.moveTail entry head]

def target : Disposal Node → Option Node
  | .move head | .moveTail head => some head
  | _ => none

end Disposal

/-- The rounds of `list_for_each_safe` from `pos` on, with `n` read before the body
runs. -/
def forEachSafeFrom (body : Node → Disposal Node) (head : Node) :
    Nat → (Node → Option (LinkPair Node)) → Option Node → Option Node →
      Option ((Node → Option (LinkPair Node)) × List Node)
  | 0, _, _, _ => none
  | _ + 1, _, none, _ => none
  | rounds + 1, links, some pos, n =>
      if pos = head then some (links, [])
      else do
        let links ← ((body pos).calls pos).foldlM ListCall.perform links
        let next ← n
        let pair ← links next
        let (links, visited) ← forEachSafeFrom body head rounds links n pair.next
        some (links, pos :: visited)

/-- `list_for_each_safe`: the memory behind the loop and the nodes it visits. -/
def listForEachSafe (body : Node → Disposal Node) (links : Node → Option (LinkPair Node))
    (head : Node) (rounds : Nat) : Option ((Node → Option (LinkPair Node)) × List Node) := do
  let pair ← links head
  let first ← pair.next
  let firstPair ← links first
  forEachSafeFrom body head rounds links pair.next firstPair.next

namespace ListState

variable {state : ListState Node} {head node : Node} {before rest : List Node}

theorem foldlM_of_run {last : ListState Node} {calls : List (ListCall Node)}
    (ran : Transition.run ListState.step state calls = some last) :
    calls.foldlM ListCall.perform state.links = some last.links := by
  induction calls generalizing state with
  | nil =>
      obtain rfl := Option.some.inj ran
      rfl
  | cons call rest inductionHypothesis =>
      rw [Transition.run_cons, Option.bind_eq_some_iff] at ran
      obtain ⟨next, stepped, ran⟩ := ran
      obtain ⟨links, performed, rfl⟩ := Option.map_eq_some_iff.mp stepped
      rw [List.foldlM_cons, performed]
      exact inductionHypothesis ran

theorem erase_middle (nodup : (before ++ node :: rest).Nodup) :
    (before ++ node :: rest).erase node = before ++ rest := by
  obtain ⟨-, -, apart⟩ := List.nodup_append.mp nodup
  rw [List.erase_append_right _ fun again => apart node again node List.mem_cons_self rfl,
    List.erase_cons_head]

theorem Faithful.dispose (faithful : state.Faithful) (disposal : Disposal Node)
    (found : state.lists head = some (before ++ node :: rest))
    (target : ∀ other ∈ disposal.target, other ≠ head ∧ (state.lists other).isSome) :
    ∃ next, Transition.run ListState.step state (disposal.calls node) = some next ∧ next.Faithful ∧
      next.lists head = some (before ++ (if disposal = .keep then [node] else []) ++ rest) ∧
        ∀ other, other ≠ node → (next.lists other).isSome = (state.lists other).isSome := by
  have shown : Represents state.links state.lists := faithful
  have listed : Listed state.lists node := ⟨head, by simp [found]⟩
  have notHead : node ≠ head := by
    rintro rfl
    exact shown.plain (by simp [found]) listed
  have taken : without state.lists node head = some (before ++ rest) := by
    rw [without_of_ne notHead found, erase_middle (shown.nodup found)]
  have others (other : Node) (different : other ≠ node) :
      (without state.lists node other).isSome = (state.lists other).isSome := by
    rw [without, if_neg different, Option.isSome_map]
  have single {call : ListCall Node} {change : List Node → List Node} {other : Node}
      (allowed : state.Allowed call)
      (lists : call.apply state.lists = onList (without state.lists node) other change)
      (apart : other ≠ head) :
      ∃ next, Transition.run ListState.step state [call] = some next ∧ next.Faithful ∧
        next.lists head = some (before ++ [] ++ rest) ∧
          ∀ other, other ≠ node → (next.lists other).isSome = (state.lists other).isSome := by
    obtain ⟨next, stepped, same, kept⟩ := faithful.step allowed
    refine ⟨next, by simp [stepped], kept, ?_, fun ring different => ?_⟩
    · rw [same, lists, onList, Function.update_of_ne apart.symm, taken, List.append_nil]
    · rw [same, lists, onList]
      by_cases equal : ring = other
      · rw [equal, Function.update_self, Option.isSome_map, others other (equal ▸ different)]
      · rw [Function.update_of_ne equal, others ring different]
  cases disposal with
  | keep =>
      refine ⟨state, rfl, faithful, ?_, fun _ _ => rfl⟩
      rw [found, if_pos rfl, List.append_assoc, List.singleton_append]
  | del =>
      obtain ⟨next, stepped, same, kept⟩ :=
        faithful.step (show state.Allowed (.del node) from .inl listed)
      refine ⟨next, by simp [Disposal.calls, stepped], kept, ?_, fun other different => ?_⟩
      · rw [same, ListCall.apply, taken]
        simp
      · rw [same, ListCall.apply, others other different]
  | delInit =>
      obtain ⟨next, stepped, same, kept⟩ :=
        faithful.step (show state.Allowed (.delInit node) from .inl listed)
      refine ⟨next, by simp [Disposal.calls, stepped], kept, ?_, fun other different => ?_⟩
      · rw [same, ListCall.apply, Function.update_of_ne notHead.symm, taken]
        simp
      · rw [same, ListCall.apply, Function.update_of_ne different, others other different]
  | move other =>
      obtain ⟨apart, isHead⟩ := target other rfl
      have notNode : node ≠ other := fun same => shown.plain isHead (same ▸ listed)
      exact single ⟨.inl listed, notNode, isHead⟩ rfl apart
  | moveTail other =>
      obtain ⟨apart, isHead⟩ := target other rfl
      have notNode : node ≠ other := fun same => shown.plain isHead (same ▸ listed)
      exact single ⟨.inl listed, notNode, isHead⟩ rfl apart

omit [DecidableEq Node] in
theorem Faithful.next_behind (faithful : state.Faithful)
    (found : state.lists head = some (before ++ node :: rest)) :
    ∃ pair, state.links node = some pair ∧ pair.next = some (rest.headD head) := by
  have closed := Rings.closed faithful head (by simp [found])
  simp only [found, Option.getD_some] at closed
  exact Option.map_eq_some_iff.mp closed.split.2.joined_first.next

/-- Every round goes on with the entry that was next, whatever the body has done. -/
theorem Faithful.forEachSafeFrom (faithful : state.Faithful) (body : Node → Disposal Node)
    (found : state.lists head = some (before ++ rest)) {n : Option Node}
    (next : ∀ node later, rest = node :: later → n = some (later.headD head))
    (targets : ∀ node ∈ rest, ∀ other ∈ (body node).target,
      other ≠ head ∧ (state.lists other).isSome) :
    ∃ last, Transition.run ListState.step state (rest.flatMap fun node => (body node).calls node) =
        some last ∧
      UtilsModules.Datastruct.forEachSafeFrom body head (rest.length + 1) state.links
        (some (rest.headD head)) n = some (last.links, rest) ∧
      last.Faithful ∧
      last.lists head = some (before ++ rest.filter fun node => body node = .keep) := by
  induction rest generalizing state before n with
  | nil => exact ⟨state, rfl, by simp [UtilsModules.Datastruct.forEachSafeFrom], faithful, found⟩
  | cons node later inductionHypothesis =>
      have shown : Represents state.links state.lists := faithful
      have isHead : (state.lists head).isSome := by simp [found]
      have listed : Listed state.lists node := ⟨head, by simp [found]⟩
      have notHead : node ≠ head := fun same => shown.plain isHead (same ▸ listed)
      obtain ⟨middle, ran, kept, middleFound, others⟩ := faithful.dispose (body node) found
        (targets node List.mem_cons_self)
      have behind : ∃ pair, middle.links (later.headD head) = some pair ∧
          ∀ node rest, later = node :: rest → pair.next = some (rest.headD head) := by
        cases later with
        | nil =>
            obtain ⟨pair, held, -⟩ := Option.map_eq_some_iff.mp
              (Rings.next_head kept (show (middle.lists head).isSome by simp [middleFound]))
            exact ⟨pair, held, by simp⟩
        | cons first rest =>
            obtain ⟨pair, held, next⟩ := kept.next_behind middleFound
            refine ⟨pair, held, ?_⟩
            rintro node rest ⟨⟩
            exact next
      obtain ⟨pair, held, pairNext⟩ := behind
      have laterTargets : ∀ entry ∈ later, ∀ other ∈ (body entry).target,
          other ≠ head ∧ (middle.lists other).isSome := by
        intro entry here other isTarget
        obtain ⟨apart, otherHead⟩ := targets entry (List.mem_cons_of_mem _ here) other isTarget
        refine ⟨apart, ?_⟩
        rwa [others other fun same => shown.plain otherHead (same ▸ listed)]
      obtain ⟨last, ranLater, looped, lastKept, lastFound⟩ :=
        inductionHypothesis kept middleFound pairNext laterTargets
      refine ⟨last, ?_, ?_, lastKept, ?_⟩
      · rw [List.flatMap_cons, Transition.run_append, ran, Option.bind_some, ranLater]
      · rw [List.length_cons, List.headD_cons, UtilsModules.Datastruct.forEachSafeFrom,
          if_neg notHead, foldlM_of_run ran, next node later rfl]
        simp only [Option.bind_eq_bind, Option.bind_some, held, looped]
      · rw [lastFound, List.filter_cons, List.append_assoc]
        split <;> rename_i isKeep <;> simp_all

/-- In every state reached, the loop visits the entries of a list once each and in the
order they had at its start, although its body takes them out or puts them into other
lists; what it leaves is what the calls of its bodies leave, one after the other. -/
theorem run_safe_loop {memory : Node → Option (LinkPair Node)} {calls : List (ListCall Node)}
    (allowed : Transition.Guarded ListState.step Allowed (start memory) calls) :
    ∃ last, Transition.run ListState.step (start memory) calls = some last ∧
      ∀ head nodes, last.lists head = some nodes → ∀ body : Node → Disposal Node,
        (∀ node ∈ nodes, ∀ other ∈ (body node).target,
          other ≠ head ∧ (last.lists other).isSome) →
        ∃ after,
          Transition.run ListState.step last (nodes.flatMap fun node => (body node).calls node) =
            some after ∧
          listForEachSafe body last.links head (nodes.length + 1) = some (after.links, nodes) ∧
          listForEach after.links head ((nodes.filter fun node => body node = .keep).length + 1) =
            some (nodes.filter fun node => body node = .keep) := by
  obtain ⟨last, ran, faithful⟩ := run_faithful allowed
  refine ⟨last, ran, fun head nodes found body targets => ?_⟩
  have shown : Represents last.links last.lists := faithful
  have joined := shown.joined_first found
  obtain ⟨pair, held, pairNext⟩ := Option.map_eq_some_iff.mp joined.next
  have first : ∃ firstPair, last.links (nodes.headD head) = some firstPair ∧
      ∀ node later, nodes = node :: later → firstPair.next = some (later.headD head) := by
    cases nodes with
    | nil => exact ⟨pair, held, by simp⟩
    | cons node rest =>
        obtain ⟨firstPair, firstHeld, next⟩ := @Faithful.next_behind _ last head node [] rest
          faithful found
        refine ⟨firstPair, firstHeld, ?_⟩
        rintro other later ⟨⟩
        exact next
  obtain ⟨firstPair, firstHeld, next⟩ := first
  obtain ⟨after, ranBodies, looped, kept, keptFound⟩ := @Faithful.forEachSafeFrom _ _ last head []
    nodes faithful body found _ next targets
  refine ⟨after, ranBodies, ?_, ?_⟩
  · rw [listForEachSafe, held]
    simp only [Option.bind_eq_bind, Option.bind_some, pairNext, firstHeld, looped]
  · exact Represents.listForEach kept keptFound

theorem run_safe_loop_mixed :
    ∃ last, Transition.run ListState.step (start fun _ : Fin 6 => some ⟨none, none⟩)
        [.init 0, .init 1, .addTail 2 0, .addTail 3 0, .addTail 4 0, .addTail 5 0] = some last ∧
      ∃ after, listForEachSafe ![.keep, .keep, .keep, .moveTail 1, .del, .delInit] last.links 0 5 =
          some (after, [2, 3, 4, 5]) ∧
        listForEach after 0 2 = some [2] := by
  have allowed : Transition.Guarded ListState.step Allowed
      (start fun _ : Fin 6 => some ⟨none, none⟩)
      [.init 0, .init 1, .addTail 2 0, .addTail 3 0, .addTail 4 0, .addTail 5 0] := by decide
  obtain ⟨last, ran, loop⟩ := run_safe_loop allowed
  have lists := lists_of_run ran
  have found : last.lists 0 = some [2, 3, 4, 5] := by
    rw [lists]
    decide
  have second : last.lists 1 = some [] := by
    rw [lists]
    decide
  obtain ⟨after, -, looped, kept⟩ := loop 0 [2, 3, 4, 5] found
    ![.keep, .keep, .keep, .moveTail 1, .del, .delInit] fun node here other target => by
      have only : other = 1 := by
        revert node other
        decide
      rw [only, second]
      exact ⟨by decide, rfl⟩
  exact ⟨last, ran, after.links, looped, kept⟩

end ListState

end UtilsModules.Datastruct

import Mathlib.Data.List.Basic

/-!
Singly linked chains in a memory.

`next node` is the link stored at a node; it is `none` where no node is stored,
and a stored `none` ends a chain.  `Chain next start nodes` says that the links
lead from `start` through `nodes` to an end.
-/

inductive Chain {Node : Type*} (next : Node → Option (Option Node)) :
    Option Node → List Node → Prop where
  | nil : Chain next none []
  | cons {node after rest} : next node = some after → Chain next after rest →
      Chain next (some node) (node :: rest)

namespace Chain

variable {Node : Type*} {next changed : Node → Option (Option Node)} {start : Option Node}
  {nodes : List Node}

@[simp]
theorem none_iff : Chain next none nodes ↔ nodes = [] := by
  constructor
  · intro chain
    cases chain
    rfl
  · rintro rfl
    exact .nil

theorem some_iff {node : Node} :
    Chain next (some node) nodes ↔
      ∃ after rest, nodes = node :: rest ∧ next node = some after ∧ Chain next after rest := by
  constructor
  · intro chain
    cases chain with
    | cons stored chain => exact ⟨_, _, rfl, stored, chain⟩
  · rintro ⟨after, rest, rfl, stored, chain⟩
    exact .cons stored chain

theorem stored (chain : Chain next start nodes) {node : Node} (membership : node ∈ nodes) :
    ∃ after, next node = some after := by
  induction chain with
  | nil => cases membership
  | cons stored _ inductionHypothesis =>
      rcases List.mem_cons.mp membership with rfl | later
      · exact ⟨_, stored⟩
      · exact inductionHypothesis later

theorem unique {others : List Node} (chain : Chain next start nodes)
    (other : Chain next start others) : nodes = others := by
  induction chain generalizing others with
  | nil =>
      cases other
      rfl
  | cons stored _ inductionHypothesis =>
      obtain ⟨after, rest, rfl, sameStored, chain⟩ := some_iff.mp other
      obtain rfl := Option.some.inj (stored.symm.trans sameStored)
      rw [inductionHypothesis chain]

/-- From a node of a chain the links lead through the rest of it. -/
theorem suffix (chain : Chain next start nodes) {node : Node} (membership : node ∈ nodes) :
    ∃ rest, Chain next (some node) (node :: rest) ∧ (node :: rest).length ≤ nodes.length := by
  induction chain with
  | nil => cases membership
  | @cons first after rest stored chain inductionHypothesis =>
      rcases List.mem_cons.mp membership with rfl | later
      · exact ⟨rest, .cons stored chain, Nat.le_refl _⟩
      · obtain ⟨rest, chain, shorter⟩ := inductionHypothesis later
        exact ⟨rest, chain, Nat.le_succ_of_le shorter⟩

/-- A chain that comes to an end passes each node once. -/
theorem nodup (chain : Chain next start nodes) : nodes.Nodup := by
  induction chain with
  | nil => exact List.nodup_nil
  | @cons node after rest stored chain inductionHypothesis =>
      refine List.nodup_cons.mpr ⟨fun again => ?_, inductionHypothesis⟩
      obtain ⟨others, other, shorter⟩ := chain.suffix again
      have same := (Chain.cons stored chain).unique other
      rw [← same, List.length_cons] at shorter
      exact absurd shorter (Nat.not_succ_le_self _)

/-- Only the links of its own nodes matter to a chain. -/
theorem congr (chain : Chain next start nodes)
    (same : ∀ node ∈ nodes, changed node = next node) : Chain changed start nodes := by
  induction chain with
  | nil => exact .nil
  | cons stored _ inductionHypothesis =>
      apply Chain.cons
      · rw [same _ (by simp), stored]
      · exact inductionHypothesis fun node membership => same node (by simp [membership])

theorem ends (chain : Chain next start nodes) {last : Node}
    (isLast : nodes.getLast? = some last) : next last = some none := by
  induction chain with
  | nil => cases isLast
  | @cons node after rest stored chain inductionHypothesis =>
      cases chain with
      | nil =>
          obtain rfl : node = last := by simpa using isLast
          exact stored
      | cons => exact inductionHypothesis (by rwa [List.getLast?_cons_cons] at isLast)

/-- A chain grows by a node that its last node is made to point at. -/
theorem append (chain : Chain next start nodes) {last new : Node}
    (isLast : nodes.getLast? = some last) (fresh : new ∉ nodes)
    (joined : changed last = some (some new)) (ends : changed new = some none)
    (same : ∀ node ∈ nodes, node ≠ last → changed node = next node) :
    Chain changed start (nodes ++ [new]) := by
  have nodup := chain.nodup
  induction chain with
  | nil => cases isLast
  | @cons node after rest stored chain inductionHypothesis =>
      cases rest with
      | nil =>
          obtain rfl : node = last := by simpa using isLast
          exact .cons joined (.cons ends .nil)
      | cons second rest =>
          rw [List.getLast?_cons_cons] at isLast
          have notLast : node ≠ last := by
            rintro rfl
            exact (List.nodup_cons.mp nodup).1 (List.mem_of_getLast? isLast)
          refine .cons ((same node (by simp) notLast).trans stored) ?_
          apply inductionHypothesis isLast (fun later => fresh (by simp [later]))
          · exact fun other membership => same other (by simp [membership])
          · exact (List.nodup_cons.mp nodup).2

/-- A chain loses a node whose predecessor is made to point past it. -/
theorem remove {before rest : List Node} {previous target : Node} {after : Option Node}
    (chain : Chain next start (before ++ previous :: target :: rest))
    (stored : next target = some after) (bypassed : changed previous = some after)
    (same : ∀ node ∈ before ++ rest, changed node = next node) :
    Chain changed start (before ++ previous :: rest) := by
  induction before generalizing start with
  | nil =>
      cases chain with
      | cons _ chain =>
          cases chain with
          | cons targetStored chain =>
              obtain rfl := Option.some.inj (stored.symm.trans targetStored)
              exact .cons bypassed (chain.congr fun node membership => same node (by simpa using membership))
  | cons first before inductionHypothesis =>
      cases chain with
      | cons firstStored chain =>
          refine .cons ((same first (by simp)).trans firstStored) ?_
          exact inductionHypothesis chain fun node membership => same node (by
            rw [List.cons_append]
            exact List.mem_cons_of_mem _ membership)

theorem erase_middle [DecidableEq Node] {before rest : List Node} {previous target : Node}
    (nodup : (before ++ previous :: target :: rest).Nodup) :
    (before ++ previous :: target :: rest).erase target = before ++ previous :: rest := by
  have regrouped : before ++ previous :: target :: rest =
      (before ++ [previous]) ++ target :: rest := by simp
  rw [regrouped] at nodup ⊢
  have notBefore : target ∉ before ++ [previous] := fun membership =>
    (List.nodup_append.mp nodup).2.2 target membership target (by simp) rfl
  rw [List.erase_append_right _ notBefore, List.erase_cons_head]
  simp

theorem erase [DecidableEq Node] {before rest : List Node} {previous target : Node}
    {after : Option Node} (chain : Chain next start nodes)
    (splitting : nodes = before ++ previous :: target :: rest)
    (stored : next target = some after) (bypassed : changed previous = some after)
    (same : ∀ node ∈ nodes, node ≠ previous → changed node = next node) :
    Chain changed start (nodes.erase target) := by
  subst splitting
  have nodup := chain.nodup
  rw [erase_middle nodup]
  apply chain.remove stored bypassed
  intro node membership
  have notPrevious : previous ∉ before ++ rest := by
    simp only [List.nodup_append, List.nodup_cons, List.mem_cons, List.mem_append] at nodup ⊢
    grind
  apply same node
  · simp only [List.mem_append, List.mem_cons] at membership ⊢
    exact membership.imp_right fun later => .inr (.inr later)
  · rintro rfl
    exact notPrevious membership

end Chain

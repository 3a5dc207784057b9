import UtilsModules.Datastruct.Sort
import Mathlib.Data.List.Induction
import Mathlib.Data.List.Perm.Basic

/-!
`quick_sort` sorts.

During the partition one cell is a hole whose content has been copied.  The
array is seen as the part in front of the segment, the cells known to be
smaller than the pivot, those not yet compared, those known not to be smaller,
and the part behind; the pivot stands for the hole in the multiset.
-/

namespace UtilsModules.Datastruct

open scoped List

/-- The cells of a segment, sorted out by comparison with the pivot so far. -/
structure Partitioned (segment : List Int) (tmp : Int) (lows mids highs : List Int) : Prop where
  perm : (lows ++ tmp :: (mids ++ highs)).Perm segment
  below : ∀ value ∈ lows, value < tmp
  above : ∀ value ∈ highs, tmp ≤ value

/-- A state of the outer loop: the hole is at `i`, left of the open cells. -/
structure HoleLeft (pre post segment : List Int) (tmp : Int) (arr : List Int) (i j : Int)
    (mids : List Int) : Prop where
  shape : ∃ lows hole highs, arr = pre ++ lows ++ hole :: (mids ++ highs ++ post) ∧
    i = (pre ++ lows).length ∧ Partitioned segment tmp lows mids highs
  apart : j = i + mids.length

/-- A state between the two halves of a turn: the hole is at `j`. -/
structure HoleRight (pre post segment : List Int) (tmp : Int) (arr : List Int) (i j : Int)
    (mids : List Int) : Prop where
  shape : ∃ lows hole highs, arr = pre ++ lows ++ mids ++ hole :: (highs ++ post) ∧
    i = (pre ++ lows).length ∧ Partitioned segment tmp lows mids highs
  apart : j = i + mids.length

variable {pre post segment arr front back mids : List Int} {tmp hole i j : Int} {turns : Nat}

/-- The scan from the right passes what is not smaller than the pivot and stops at
the first smaller cell, or at the hole. -/
theorem skipRight_spec (shape : arr = front ++ hole :: (mids ++ back)) (place : i = front.length)
    (apart : j = i + mids.length) (enough : mids.length < turns) :
    ∃ kept moved, mids = kept ++ moved ∧ (∀ value ∈ moved, tmp ≤ value) ∧
      skipRight arr tmp i turns j = some (i + kept.length) ∧
      (kept = [] ∨ ∃ rest last, kept = rest ++ [last] ∧ last < tmp ∧
        Cells.read arr (i + kept.length) = some last) := by
  induction mids using List.reverseRecOn generalizing back turns j with
  | nil =>
      obtain ⟨turns, rfl⟩ := Nat.exists_eq_add_one_of_ne_zero (Nat.ne_of_gt enough)
      have closed : ¬ i < j := by
        rw [apart]
        simp
      refine ⟨[], [], rfl, by simp, ?_, .inl rfl⟩
      rw [skipRight, if_neg closed, apart]
  | append_singleton rest last inductionHypothesis =>
      obtain ⟨turns, rfl⟩ :=
        Nat.exists_eq_add_one_of_ne_zero (Nat.ne_of_gt (Nat.zero_lt_of_lt enough))
      rw [List.length_append, List.length_singleton] at apart enough
      have cell : Cells.read arr j = some last := by
        have regrouped : arr = (front ++ hole :: rest) ++ last :: back := by
          rw [shape]
          simp
        rw [regrouped]
        apply Cells.read_middle
        rw [apart, place, List.length_append, List.length_cons]
        omega
      have opened : i < j := by omega
      by_cases large : last ≥ tmp
      · obtain ⟨kept, moved, split, above, scanned, stopped⟩ :=
          @inductionHypothesis (last :: back) (j - 1) turns (by rw [shape]; simp) (by omega)
            (by omega)
        refine ⟨kept, moved ++ [last], by rw [split, List.append_assoc], ?_, ?_, stopped⟩
        · exact List.forall_mem_append.mpr ⟨above, List.forall_mem_singleton.mpr large⟩
        · simp only [skipRight, if_pos opened, cell, Option.bind_eq_bind, Option.bind_some,
            if_pos large, scanned]
      · have stop : j = i + (rest ++ [last]).length := by
          rw [apart, List.length_append, List.length_singleton]
        refine ⟨rest ++ [last], [], by simp, by simp, ?_,
          .inr ⟨rest, last, rfl, by omega, stop ▸ cell⟩⟩
        simp only [skipRight, if_pos opened, cell, Option.bind_eq_bind, Option.bind_some,
          if_neg large]
        rw [stop]

theorem skipLeft_spec (shape : arr = front ++ mids ++ hole :: back) (place : i = front.length)
    (apart : j = i + mids.length) (enough : mids.length < turns) :
    ∃ moved kept, mids = moved ++ kept ∧ (∀ value ∈ moved, value < tmp) ∧
      skipLeft arr tmp j turns i = some (i + moved.length) ∧
      (kept = [] ∨ ∃ first rest, kept = first :: rest ∧ tmp ≤ first ∧
        Cells.read arr (i + moved.length) = some first) := by
  induction mids generalizing front turns i with
  | nil =>
      obtain ⟨turns, rfl⟩ := Nat.exists_eq_add_one_of_ne_zero (Nat.ne_of_gt enough)
      have closed : ¬ i < j := by
        rw [apart]
        simp
      refine ⟨[], [], rfl, by simp, ?_, .inl rfl⟩
      rw [skipLeft, if_neg closed]
      simp
  | cons first rest inductionHypothesis =>
      obtain ⟨turns, rfl⟩ :=
        Nat.exists_eq_add_one_of_ne_zero (Nat.ne_of_gt (Nat.zero_lt_of_lt enough))
      rw [List.length_cons] at apart enough
      have cell : Cells.read arr i = some first := by
        have regrouped : arr = front ++ first :: (rest ++ hole :: back) := by
          rw [shape]
          simp
        rw [regrouped]
        exact Cells.read_middle place
      have opened : i < j := by omega
      by_cases small : first < tmp
      · obtain ⟨moved, kept, split, below, scanned, stopped⟩ :=
          @inductionHypothesis (front ++ [first]) (i + 1) turns (by rw [shape]; simp)
            (by rw [List.length_append, List.length_singleton]; omega) (by omega) (by omega)
        have further : i + 1 + (moved.length : Int) = i + ((first :: moved).length : Nat) := by
          rw [List.length_cons]
          omega
        rw [further] at scanned stopped
        refine ⟨first :: moved, kept, by rw [split, List.cons_append], ?_, ?_, stopped⟩
        · exact List.forall_mem_cons.mpr ⟨small, below⟩
        · simp only [skipLeft, if_pos opened, cell, Option.bind_eq_bind, Option.bind_some,
            if_pos small, scanned]
      · refine ⟨[], first :: rest, rfl, by simp, ?_, .inr ⟨first, rest, rfl, by omega, by simpa⟩⟩
        simp only [skipLeft, if_pos opened, cell, Option.bind_eq_bind, Option.bind_some,
          if_neg small]
        simp

theorem perm_last_to_front (lows rest later : List Int) (tmp last : Int) :
    (lows ++ [last] ++ tmp :: (rest ++ later)).Perm (lows ++ tmp :: (rest ++ last :: later)) := by
  rw [List.append_assoc]
  apply List.Perm.append_left lows
  calc last :: tmp :: (rest ++ later)
      ~ tmp :: last :: (rest ++ later) := .swap ..
    _ ~ tmp :: (rest ++ last :: later) := List.perm_middle.symm.cons tmp

/-- The cells passed from the left come in front of the pivot, the cell that
stopped the scan behind the open ones. -/
theorem perm_first_to_back (lows moved rest highs : List Int) (tmp first : Int) :
    (lows ++ moved ++ tmp :: (rest ++ first :: highs)).Perm
      (lows ++ tmp :: (moved ++ first :: (rest ++ highs))) := by
  rw [List.append_assoc]
  apply List.Perm.append_left lows
  calc moved ++ tmp :: (rest ++ first :: highs)
      ~ tmp :: (moved ++ (rest ++ first :: highs)) := List.perm_middle
    _ ~ tmp :: (moved ++ first :: (rest ++ highs)) := (List.perm_middle.append_left moved).cons tmp

/-- The first half moves the hole to the right end of what is left open, and
closes at least one cell if there was one. -/
theorem fillLeft_spec (state : HoleLeft pre post segment tmp arr i j mids) :
    ∃ after left right rest, fillLeft arr tmp i j = some (after, left, right) ∧
      HoleRight pre post segment tmp after left right rest ∧ after.length = arr.length ∧
      rest.length ≤ mids.length ∧ (mids ≠ [] → rest.length < mids.length) := by
  obtain ⟨⟨lows, hole, highs, shape, place, parts⟩, apart⟩ := state
  have enough : mids.length < arr.length + 1 := by
    rw [shape]
    simp only [List.length_append, List.length_cons]
    omega
  obtain ⟨kept, moved, split, above, scanned, stopped⟩ :=
    @skipRight_spec arr (pre ++ lows) (highs ++ post) mids tmp hole i j (arr.length + 1)
      (by rw [shape]; simp) place apart enough
  have higher : ∀ value ∈ moved ++ highs, tmp ≤ value :=
    List.forall_mem_append.mpr ⟨above, parts.above⟩
  simp only [fillLeft, scanned, Option.bind_eq_bind, Option.bind_some]
  rcases stopped with rfl | ⟨rest, last, rfl, small, cell⟩
  · -- the scan met the hole: nothing is left open
    refine ⟨arr, i, i, [], by simp, ⟨⟨lows, hole, moved ++ highs, ?_, place, ?_⟩, by simp⟩, rfl,
      Nat.zero_le _, List.length_pos_of_ne_nil⟩
    · rw [shape, split]
      simp
    · exact ⟨by simpa [split] using parts.perm, parts.below, higher⟩
  · have opened : i < i + (rest ++ [last]).length := by
      rw [List.length_append, List.length_singleton]
      omega
    have filled : Cells.write arr i last =
        some (pre ++ lows ++ last :: (mids ++ highs ++ post)) := by
      rw [shape]
      exact Cells.write_middle place last
    rw [if_pos opened, cell, Option.bind_some, filled, Option.bind_some]
    refine ⟨_, _, _, rest, rfl, ⟨⟨lows ++ [last], last, moved ++ highs, ?_, ?_, ?_⟩, ?_⟩,
      ?_, ?_, ?_⟩
    · rw [split]
      simp
    · rw [place]
      simp only [List.length_append, List.length_cons, List.length_nil]
      omega
    · refine ⟨?_, ?_, higher⟩
      · refine .trans ?_ parts.perm
        rw [split]
        simpa using perm_last_to_front lows rest (moved ++ highs) tmp last
      · exact List.forall_mem_append.mpr ⟨parts.below, List.forall_mem_singleton.mpr small⟩
    · rw [List.length_append, List.length_singleton]
      omega
    · rw [shape]
      simp
    · rw [split]
      simp only [List.length_append]
      omega
    · intro _
      rw [split]
      simp only [List.length_append, List.length_singleton]
      omega

/-- The second half moves the hole back to the left end. -/
theorem fillRight_spec (state : HoleRight pre post segment tmp arr i j mids) :
    ∃ after left right rest, fillRight arr tmp i j = some (after, left, right) ∧
      HoleLeft pre post segment tmp after left right rest ∧ after.length = arr.length ∧
      rest.length ≤ mids.length := by
  obtain ⟨⟨lows, hole, highs, shape, place, parts⟩, apart⟩ := state
  have enough : mids.length < arr.length + 1 := by
    rw [shape]
    simp only [List.length_append]
    omega
  obtain ⟨moved, kept, split, below, scanned, stopped⟩ :=
    @skipLeft_spec arr (pre ++ lows) (highs ++ post) mids tmp hole i j (arr.length + 1)
      shape place apart enough
  have lower : ∀ value ∈ lows ++ moved, value < tmp :=
    List.forall_mem_append.mpr ⟨parts.below, below⟩
  simp only [fillRight, scanned, Option.bind_eq_bind, Option.bind_some]
  rcases stopped with rfl | ⟨first, rest, rfl, large, cell⟩
  · -- the scan met the hole: nothing is left open
    have met : i + moved.length = j := by
      rw [apart, split, List.append_nil]
    rw [if_neg (by omega)]
    refine ⟨arr, _, j, [], rfl, ⟨⟨lows ++ moved, hole, highs, ?_, ?_, ?_⟩, by simp [met]⟩, rfl,
      Nat.zero_le _⟩
    · rw [shape, split]
      simp
    · rw [place]
      simp only [List.length_append]
      omega
    · refine ⟨?_, lower, parts.above⟩
      refine .trans ?_ parts.perm
      rw [split, List.append_nil, List.append_assoc]
      exact List.perm_middle.append_left lows
  · have opened : i + moved.length < j := by
      rw [apart, split, List.length_append, List.length_cons]
      omega
    have filled : Cells.write arr j first =
        some (pre ++ lows ++ mids ++ first :: (highs ++ post)) := by
      rw [shape]
      apply Cells.write_middle
      rw [apart, place]
      simp only [List.length_append]
      omega
    rw [if_pos opened, cell, Option.bind_some, filled, Option.bind_some]
    refine ⟨_, _, _, rest, rfl, ⟨⟨lows ++ moved, first, first :: highs, ?_, ?_, ?_⟩, ?_⟩, ?_, ?_⟩
    · rw [split]
      simp
    · rw [place]
      simp only [List.length_append]
      omega
    · refine ⟨?_, lower, ?_⟩
      · refine .trans ?_ parts.perm
        rw [split]
        simpa using perm_first_to_back lows moved rest highs tmp first
      · exact List.forall_mem_cons.mpr ⟨large, parts.above⟩
    · rw [apart, split, List.length_append, List.length_cons]
      omega
    · rw [shape]
      simp
    · rw [split, List.length_append, List.length_cons]
      omega

/-- The outer loop ends with every cell compared, whatever turns are left. -/
theorem adjustLoop_spec (state : HoleLeft pre post segment tmp arr i j mids)
    (enough : mids.length < turns) :
    ∃ after place, adjustLoop tmp turns arr i j = some (after, place) ∧
      HoleLeft pre post segment tmp after place place [] := by
  induction turns generalizing arr i j mids with
  | zero => omega
  | succ turns inductionHypothesis =>
      have apart := state.apart
      by_cases closed : mids = []
      · subst closed
        obtain rfl : j = i := by simpa using apart
        exact ⟨arr, j, by simp [adjustLoop], state⟩
      · have opened : i < j := by
          have := List.length_pos_of_ne_nil closed
          omega
        obtain ⟨half, left, right, open_, filledLeft, between, -, -, fewer⟩ := fillLeft_spec state
        obtain ⟨next, low, high, rest, filledRight, later, -, notMore⟩ := fillRight_spec between
        have less := fewer closed
        obtain ⟨after, place, looped, done⟩ := inductionHypothesis later (by omega)
        refine ⟨after, place, ?_, done⟩
        simp only [adjustLoop, if_pos opened, filledLeft, filledRight, looped,
          Option.bind_eq_bind, Option.bind_some]

theorem adjustArray_spec {rest : List Int} (left : i = pre.length) (right : j = i + rest.length) :
    ∃ lows highs, adjustArray (pre ++ tmp :: rest ++ post) i j =
        some (pre ++ lows ++ tmp :: (highs ++ post), ((pre ++ lows).length : Int)) ∧
      Partitioned (tmp :: rest) tmp lows [] highs := by
  have cell : Cells.read (pre ++ tmp :: rest ++ post) i = some tmp := by
    rw [List.append_assoc]
    exact Cells.read_middle left
  have start : HoleLeft pre post (tmp :: rest) tmp (pre ++ tmp :: rest ++ post) i j rest := by
    refine ⟨⟨[], tmp, [], by simp, by simpa using left, ?_⟩, right⟩
    exact ⟨by simp, by simp, by simp⟩
  obtain ⟨after, place, looped, ⟨lows, hole, highs, shape, middle, parts⟩, -⟩ :=
    @adjustLoop_spec pre post (tmp :: rest) _ rest tmp i j
      ((pre ++ tmp :: rest ++ post).length + 1) start (by simp; omega)
  refine ⟨lows, highs, ?_, parts⟩
  have filled : Cells.write after place tmp = some (pre ++ lows ++ tmp :: (highs ++ post)) := by
    rw [shape]
    exact Cells.write_middle middle tmp
  rw [← middle]
  simp only [adjustArray, cell, looped, filled, Option.bind_eq_bind, Option.bind_some]

theorem Partitioned.sorts {segment lows highs sortedLows sortedHighs : List Int}
    (parts : Partitioned segment tmp lows [] highs) (first : Sorts sortedLows lows)
    (second : Sorts sortedHighs highs) : Sorts (sortedLows ++ tmp :: sortedHighs) segment where
  perm := (first.perm.append (second.perm.cons tmp)).trans parts.perm
  ordered := by
    have above : ∀ value ∈ sortedHighs, tmp ≤ value := fun value membership =>
      parts.above value (second.perm.mem_iff.mp membership)
    have below : ∀ value ∈ sortedLows, value < tmp := fun value membership =>
      parts.below value (first.perm.mem_iff.mp membership)
    refine List.pairwise_append.mpr
      ⟨first.ordered, List.pairwise_cons.mpr ⟨above, second.ordered⟩, ?_⟩
    intro low lowIn high highIn
    have small := below low lowIn
    rcases List.mem_cons.mp highIn with rfl | behind
    · omega
    · have := above high behind
      omega

theorem quickSortRange_spec (enough : segment.length < turns) (left : i = pre.length)
    (right : j = i + segment.length - 1) :
    ∃ sorted, quickSortRange turns (pre ++ segment ++ post) i j = some (pre ++ sorted ++ post) ∧
      Sorts sorted segment := by
  induction turns generalizing segment pre post i j with
  | zero => omega
  | succ turns inductionHypothesis =>
      match segment with
      | [] =>
          have crossed : ¬ i < j := by
            rw [right, List.length_nil]
            omega
          exact ⟨[], by rw [quickSortRange, if_neg crossed], .refl _, .nil⟩
      | [value] =>
          exact ⟨[value], by simp [quickSortRange, right], .refl _, List.pairwise_singleton ..⟩
      | tmp :: second :: rest =>
          have opened : i < j := by
            rw [right]
            simp only [List.length_cons]
            omega
          obtain ⟨lows, highs, adjusted, parts⟩ :=
            @adjustArray_spec pre post tmp i j (second :: rest) left (by
              rw [right]
              simp only [List.length_cons]
              omega)
          have counted := parts.perm.length_eq
          simp only [List.length_append, List.length_cons, List.nil_append] at counted enough
          obtain ⟨sortedLows, ranLows, lowsSorted⟩ := @inductionHypothesis pre
            (tmp :: (highs ++ post)) lows i ((pre ++ lows).length - 1) (by omega) left (by
              rw [left]
              simp only [List.length_append]
              omega)
          have sameLength := lowsSorted.perm.length_eq
          obtain ⟨sortedHighs, ranHighs, highsSorted⟩ := @inductionHypothesis
            (pre ++ sortedLows ++ [tmp]) post highs ((pre ++ lows).length + 1) j (by omega) (by
              simp only [List.length_append, List.length_cons, List.length_nil]
              omega) (by
              rw [right, left]
              simp only [List.length_append, List.length_cons]
              omega)
          refine ⟨sortedLows ++ tmp :: sortedHighs, ?_, parts.sorts lowsSorted highsSorted⟩
          have regrouped : pre ++ sortedLows ++ tmp :: (highs ++ post) =
              pre ++ sortedLows ++ [tmp] ++ highs ++ post := by simp
          simp only [quickSortRange, if_pos opened, adjusted, ranLows, Option.bind_eq_bind,
            Option.bind_some]
          rw [regrouped, ranHighs]
          simp

theorem quickSort_sorts (a : List Int) : ∃ sorted, quickSort a = some sorted ∧ Sorts sorted a := by
  obtain ⟨sorted, ran, sorts⟩ := @quickSortRange_spec [] [] a 0 (a.length - 1) (a.length + 1)
    (by omega) rfl (by omega)
  simp only [List.nil_append, List.append_nil] at ran
  exact ⟨sorted, ran, sorts⟩

end UtilsModules.Datastruct

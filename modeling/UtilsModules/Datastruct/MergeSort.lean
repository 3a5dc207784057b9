import UtilsModules.Datastruct.Sort

/-!
`merge_sort` sorts the array, and what it returns.

The scratch buffer is one and the same for all merges, and each merge fills it
from the beginning.  What the caller gets is the buffer as the last merge has
left it.
-/

namespace UtilsModules.Datastruct

open scoped List

/-- The scratch buffer has the given size and starts with the given values. -/
structure Starts (temp : Scratch) (values : List Int) (size : Nat) : Prop where
  front : values.map some <+: temp
  length : temp.length = size

variable {a pre post front gap back xs ys : List Int} {values : List Int} {temp : Scratch}
  {size turns : Nat} {i j k m n : Int}

theorem starts_nil (temp : Scratch) : Starts temp [] temp.length := ⟨List.nil_prefix, rfl⟩

theorem Starts.write (starts : Starts temp values size) (room : values.length < size)
    (place : k = values.length) (value : Int) :
    ∃ next, Cells.write temp k (some value) = some next ∧
      Starts next (values ++ [value]) size := by
  obtain ⟨⟨rest, rfl⟩, length⟩ := starts
  match rest with
  | [] =>
      rw [List.append_nil, List.length_map] at length
      omega
  | old :: rest =>
      refine ⟨_, Cells.write_middle (by simpa using place) (some value), ⟨rest, by simp⟩, ?_⟩
      rw [← length]
      simp

/-- A state of the first loop: `xs` and `ys` are still to be merged, and the
values written so far come before them. -/
structure Merging (a merged : List Int) (m n : Int) (size : Nat) (i j k : Int) (temp : Scratch)
    (xs ys values : List Int) : Prop where
  shape : ∃ front gap back, a = front ++ xs ++ gap ++ ys ++ back ∧ i = front.length ∧
    m = i + xs.length - 1 ∧ j = i + xs.length + gap.length ∧ n = j + ys.length - 1
  starts : Starts temp values size
  place : k = values.length
  total : values ++ List.merge xs ys = merged
  room : merged.length ≤ size

theorem Merging.length_eq {merged : List Int}
    (state : Merging a merged m n size i j k temp xs ys values) :
    values.length + xs.length + ys.length = merged.length := by
  rw [← state.total, List.length_append, List.length_merge]
  omega

theorem Merging.takeLeft {merged : List Int} {x y : Int}
    (state : Merging a merged m n size i j k temp (x :: xs) (y :: ys) values) (ordered : x ≤ y) :
    ∃ next, Cells.write temp k (some x) = some next ∧
      Merging a merged m n size (i + 1) j (k + 1) next xs (y :: ys) (values ++ [x]) := by
  have counted := state.length_eq
  have room := state.room
  simp only [List.length_cons] at counted
  obtain ⟨front, gap, back, shape, left, leftEnd, right, rightEnd⟩ := state.shape
  obtain ⟨next, written, starts⟩ := state.starts.write (by omega) state.place x
  refine ⟨next, written, ⟨front ++ [x], gap, back, ?_, ?_, ?_, ?_, rightEnd⟩, starts, ?_, ?_, room⟩
  · rw [shape]
    simp
  · rw [left, List.length_append, List.length_singleton]
    omega
  · rw [leftEnd, List.length_cons]
    omega
  · rw [right, List.length_cons]
    omega
  · rw [state.place, List.length_append, List.length_singleton]
    omega
  · rw [← state.total, List.cons_merge_cons, if_pos (by simpa using ordered), List.append_assoc]
    rfl

theorem Merging.takeRight {merged : List Int} {x y : Int}
    (state : Merging a merged m n size i j k temp (x :: xs) (y :: ys) values) (ordered : ¬ x ≤ y) :
    ∃ next, Cells.write temp k (some y) = some next ∧
      Merging a merged m n size i (j + 1) (k + 1) next (x :: xs) ys (values ++ [y]) := by
  have counted := state.length_eq
  have room := state.room
  simp only [List.length_cons] at counted
  obtain ⟨front, gap, back, shape, left, leftEnd, right, rightEnd⟩ := state.shape
  obtain ⟨next, written, starts⟩ := state.starts.write (by omega) state.place y
  refine ⟨next, written, ⟨front, gap ++ [y], back, ?_, left, leftEnd, ?_, ?_⟩, starts, ?_, ?_, room⟩
  · rw [shape]
    simp
  · rw [right, List.length_append, List.length_singleton]
    omega
  · rw [rightEnd, List.length_cons]
    omega
  · rw [state.place, List.length_append, List.length_singleton]
    omega
  · rw [← state.total, List.cons_merge_cons, if_neg (by simpa using ordered), List.append_assoc]
    rfl

theorem Merging.read_left {merged : List Int} {x : Int}
    (state : Merging a merged m n size i j k temp (x :: xs) ys values) :
    Cells.read a i = some x := by
  obtain ⟨front, gap, back, shape, left, -⟩ := state.shape
  have regrouped : a = front ++ x :: (xs ++ gap ++ ys ++ back) := by
    rw [shape]
    simp
  rw [regrouped]
  exact Cells.read_middle left

theorem Merging.read_right {merged : List Int} {y : Int}
    (state : Merging a merged m n size i j k temp xs (y :: ys) values) :
    Cells.read a j = some y := by
  obtain ⟨front, gap, back, shape, left, -, right, -⟩ := state.shape
  have regrouped : a = (front ++ xs ++ gap) ++ y :: (ys ++ back) := by
    rw [shape]
    simp
  rw [regrouped]
  apply Cells.read_middle
  rw [right, left]
  simp only [List.length_append]
  omega

theorem mergeLoop_spec {merged : List Int}
    (state : Merging a merged m n size i j k temp xs ys values)
    (enough : xs.length + ys.length < turns) :
    ∃ low high count next lefts rights done,
      mergeLoop a m n turns i j k temp = some (low, high, count, next) ∧
      Merging a merged m n size low high count next lefts rights done ∧
      (lefts = [] ∨ rights = []) := by
  induction turns generalizing i j k temp xs ys values with
  | zero => omega
  | succ turns inductionHypothesis =>
      obtain ⟨front, gap, back, -, -, leftEnd, -, rightEnd⟩ := state.shape
      match xs, ys with
      | [], ys =>
          have closed : ¬ (i ≤ m ∧ j ≤ n) := by
            simp only [List.length_nil] at leftEnd
            omega
          exact ⟨i, j, k, temp, [], ys, values, by rw [mergeLoop, if_neg closed], state, .inl rfl⟩
      | x :: xs, [] =>
          have closed : ¬ (i ≤ m ∧ j ≤ n) := by
            simp only [List.length_nil] at rightEnd
            omega
          exact ⟨i, j, k, temp, x :: xs, [], values, by rw [mergeLoop, if_neg closed], state,
            .inr rfl⟩
      | x :: xs, y :: ys =>
          simp only [List.length_cons] at leftEnd rightEnd enough
          have opened : i ≤ m ∧ j ≤ n := ⟨by omega, by omega⟩
          have readLeft := state.read_left
          have readRight := state.read_right
          by_cases ordered : x ≤ y
          · obtain ⟨next, written, later⟩ := state.takeLeft ordered
            obtain ⟨low, high, count, last, lefts, rights, done, looped, rest⟩ :=
              inductionHypothesis later (by simp only [List.length_cons]; omega)
            refine ⟨low, high, count, last, lefts, rights, done, ?_, rest⟩
            simp only [mergeLoop, if_pos opened, readLeft, readRight, if_pos ordered, written,
              looped, Option.bind_eq_bind, Option.bind_some]
          · obtain ⟨next, written, later⟩ := state.takeRight ordered
            obtain ⟨low, high, count, last, lefts, rights, done, looped, rest⟩ :=
              inductionHypothesis later (by simp only [List.length_cons]; omega)
            refine ⟨low, high, count, last, lefts, rights, done, ?_, rest⟩
            simp only [mergeLoop, if_pos opened, readLeft, readRight, if_neg ordered, written,
              looped, Option.bind_eq_bind, Option.bind_some]

theorem drainLoop_spec (shape : a = front ++ xs ++ back) (left : i = front.length)
    (leftEnd : m = i + xs.length - 1) (starts : Starts temp values size)
    (place : k = values.length) (room : values.length + xs.length ≤ size)
    (enough : xs.length < turns) :
    ∃ next, drainLoop a m turns i k temp = some (((values ++ xs).length : Int), next) ∧
      Starts next (values ++ xs) size := by
  induction turns generalizing front xs i k temp values with
  | zero => omega
  | succ turns inductionHypothesis =>
      match xs with
      | [] =>
          have closed : ¬ i ≤ m := by
            simp only [List.length_nil] at leftEnd
            omega
          refine ⟨temp, ?_, by rwa [List.append_nil]⟩
          rw [drainLoop, if_neg closed, place, List.append_nil]
      | x :: xs =>
          simp only [List.length_cons] at leftEnd room enough
          have opened : i ≤ m := by omega
          have cell : Cells.read a i = some x := by
            rw [shape, List.append_assoc]
            exact Cells.read_middle left
          obtain ⟨next, written, later⟩ := starts.write (by omega) place x
          obtain ⟨last, looped, done⟩ := @inductionHypothesis (front ++ [x]) xs (values ++ [x])
            next (i + 1) (k + 1) (by rw [shape]; simp)
            (by rw [left, List.length_append, List.length_singleton]; omega) (by omega) later
            (by rw [place, List.length_append, List.length_singleton]; omega)
            (by rw [List.length_append, List.length_singleton]; omega) (by omega)
          rw [List.append_assoc, List.singleton_append] at looped done
          refine ⟨last, ?_, done⟩
          simp only [drainLoop, if_pos opened, cell, written, looped, Option.bind_eq_bind,
            Option.bind_some]

/-- The merged values go back over the stretches they came from. -/
theorem copyBack_spec {first : Int} {copied old todo : List Int}
    (shape : a = pre ++ copied ++ old ++ post) (start : first = pre.length)
    (starts : Starts temp (copied ++ todo) size) (same : old.length = todo.length)
    (place : i = copied.length) (stop : k = i + todo.length) (enough : todo.length < turns) :
    copyBack first k temp turns i a = some (pre ++ copied ++ todo ++ post) := by
  induction turns generalizing a copied old todo i with
  | zero => omega
  | succ turns inductionHypothesis =>
      match todo, old with
      | [], [] =>
          have closed : ¬ i < k := by
            simp only [List.length_nil] at stop
            omega
          rw [copyBack, if_neg closed, shape]
      | value :: todo, previous :: old =>
          simp only [List.length_cons] at same stop enough
          have opened : i < k := by omega
          obtain ⟨rest, filled⟩ := starts.front
          have cell : Cells.read temp i = some (some value) := by
            have regrouped : temp = copied.map some ++ some value :: (todo.map some ++ rest) := by
              rw [← filled]
              simp
            rw [regrouped]
            exact Cells.read_middle (by simpa using place)
          have written : Cells.write a (first + i) value =
              some (pre ++ copied ++ value :: (old ++ post)) := by
            rw [shape, List.append_assoc _ (previous :: old), List.cons_append]
            apply Cells.write_middle
            rw [start, place, List.length_append]
            omega
          have looped := @inductionHypothesis (pre ++ copied ++ value :: (old ++ post))
            (i + 1) (copied ++ [value]) old todo (by simp) (by simpa using starts) (by omega)
            (by rw [place, List.length_append, List.length_singleton]; omega) (by omega) (by omega)
          simp only [copyBack, if_pos opened, cell, written, looped, Option.bind_eq_bind,
            Option.bind_some]
          simp

/-- `mergearray` merges two neighbouring stretches, and leaves what it has merged
at the beginning of the buffer. -/
theorem mergearray_spec {first mid last : Int} (start : first = pre.length)
    (middle : mid = first + xs.length - 1) (stop : last = first + xs.length + ys.length - 1)
    (room : xs.length + ys.length ≤ temp.length) :
    ∃ next, mergearray (pre ++ xs ++ ys ++ post) first mid last temp =
        some (pre ++ List.merge xs ys ++ post, next) ∧
      Starts next (List.merge xs ys) temp.length := by
  have state : Merging (pre ++ xs ++ ys ++ post) (List.merge xs ys) mid last temp.length first
      (mid + 1) 0 temp xs ys [] :=
    ⟨⟨pre, [], post, by simp, start, middle, by simp; omega, by omega⟩, starts_nil temp, rfl, rfl,
      by rwa [List.length_merge]⟩
  have mergeTurns : xs.length + ys.length < (pre ++ xs ++ ys ++ post).length + 1 := by
    simp only [List.length_append]
    omega
  obtain ⟨i, j, k, halfway, lefts, rights, done, merged, after, ended⟩ :=
    mergeLoop_spec state mergeTurns
  obtain ⟨front, gap, back, shape, left, leftEnd, right, rightEnd⟩ := after.shape
  have counted := after.length_eq
  have total : done ++ lefts ++ rights = List.merge xs ys := by
    rw [← after.total]
    rcases ended with rfl | rfl <;> simp
  rw [List.length_merge] at counted
  have longer : (pre ++ xs ++ ys ++ post).length =
      front.length + lefts.length + gap.length + rights.length + back.length := by
    rw [shape]
    simp only [List.length_append]
  obtain ⟨drained, ranLeft, leftDone⟩ := @drainLoop_spec (pre ++ xs ++ ys ++ post) front
    (gap ++ rights ++ back) lefts done halfway temp.length ((pre ++ xs ++ ys ++ post).length + 1)
    i k mid (by rw [shape]; simp) left leftEnd after.starts after.place (by omega) (by omega)
  obtain ⟨filled, ranRight, rightDone⟩ := @drainLoop_spec (pre ++ xs ++ ys ++ post)
    (front ++ lefts ++ gap) back rights (done ++ lefts) drained temp.length
    ((pre ++ xs ++ ys ++ post).length + 1) j (done ++ lefts).length last (by rw [shape])
    (by rw [right, left]; simp only [List.length_append]; omega) rightEnd leftDone rfl
    (by rw [List.length_append]; omega) (by omega)
  rw [total] at ranRight rightDone
  have copied := @copyBack_spec (pre ++ xs ++ ys ++ post) pre post filled temp.length
    ((pre ++ xs ++ ys ++ post).length + 1) 0 (List.merge xs ys).length first [] (xs ++ ys) _
    (by simp) start rightDone (by simp) rfl (by simp) (by rw [List.length_merge]; exact mergeTurns)
  rw [List.append_nil] at copied
  refine ⟨filled, ?_, rightDone⟩
  simp only [mergearray, merged, ranLeft, ranRight, copied, Option.bind_eq_bind, Option.bind_some]

theorem sorts_merge {left right sortedLeft sortedRight : List Int} (first : Sorts sortedLeft left)
    (second : Sorts sortedRight right) :
    Sorts (List.merge sortedLeft sortedRight) (left ++ right) where
  perm := (List.merge_perm_append _).trans (first.perm.append second.perm)
  ordered := by
    have merged := @List.pairwise_merge _ (fun low high : Int => decide (low ≤ high))
      (by simp only [decide_eq_true_eq]; omega)
      (by simp only [Bool.or_eq_true, decide_eq_true_eq]; omega) sortedLeft sortedRight
      (by simpa using first.ordered) (by simpa using second.ordered)
    simpa using merged

/-- `_merge_sort` sorts its segment, if the sum of its last two indices fits an
`int`, and the buffer starts with the result unless there was nothing to merge. -/
theorem mergeSortRange_spec {segment : List Int} {first last : Int}
    (enough : segment.length < turns) (start : first = pre.length)
    (stop : last = first + segment.length - 1) (room : segment.length ≤ temp.length)
    (fits : 2 * last - 1 ≤ intMax) :
    ∃ sorted next, mergeSortRange turns (pre ++ segment ++ post) first last temp =
        some (pre ++ sorted ++ post, next) ∧
      Sorts sorted segment ∧ next.length = temp.length ∧
      (2 ≤ segment.length → Starts next sorted temp.length) := by
  induction turns generalizing segment pre post first last temp with
  | zero => omega
  | succ turns inductionHypothesis =>
      by_cases short : segment.length < 2
      · have closed : ¬ first < last := by omega
        refine ⟨segment, temp, by rw [mergeSortRange, if_neg closed], ⟨.refl _, ?_⟩, rfl,
          fun _ => by omega⟩
        match segment with
        | [] => exact .nil
        | [value] => exact List.pairwise_singleton ..
      · have opened : first < last := by omega
        have inRange : first + last ≤ intMax := by omega
        -- the left half is the longer one
        obtain ⟨left, right, rfl, longer⟩ : ∃ left right, segment = left ++ right ∧
            left.length = (segment.length - 1) / 2 + 1 :=
          ⟨_, _, (List.take_append_drop ((segment.length - 1) / 2 + 1) segment).symm, by
            rw [List.length_take]
            omega⟩
        rw [List.length_append] at enough stop room short longer
        let mid := (first + last) / 2
        have middle : mid = first + left.length - 1 := by
          simp only [mid]
          omega
        obtain ⟨sortedLeft, afterLeft, ranLeft, leftSorts, leftLength, -⟩ :=
          @inductionHypothesis pre (right ++ post) temp left first mid (by omega) start middle
            (by omega) (by omega)
        have leftSame := leftSorts.perm.length_eq
        obtain ⟨sortedRight, afterRight, ranRight, rightSorts, rightLength, -⟩ :=
          @inductionHypothesis (pre ++ sortedLeft) post afterLeft right (mid + 1) last (by omega)
            (by rw [List.length_append]; omega) (by omega) (by omega) fits
        have rightSame := rightSorts.perm.length_eq
        obtain ⟨next, merged, starts⟩ := @mergearray_spec pre post sortedLeft sortedRight afterRight
          first mid last start (by omega) (by omega) (by omega)
        rw [rightLength, leftLength] at starts
        refine ⟨List.merge sortedLeft sortedRight, next, ?_, sorts_merge leftSorts rightSorts,
          starts.length, fun _ => starts⟩
        have split : pre ++ (left ++ right) ++ post = pre ++ left ++ (right ++ post) := by simp
        have regrouped : pre ++ sortedLeft ++ (right ++ post) =
            pre ++ sortedLeft ++ right ++ post := by
          simp
        simp only [mergeSortRange, if_pos opened, if_pos inRange]
        rw [split, ranLeft]
        simp only [Option.bind_eq_bind, Option.bind_some]
        rw [regrouped, ranRight]
        simp only [Option.bind_some]
        exact merged

/-- `merge_sort` sorts the array; with two cells or more the buffer it returns
holds the result. -/
theorem mergeSort_sorts {a : List Int} (fits : a.length ≤ 1073741825) :
    ∃ sorted res, mergeSort a = some (sorted, res) ∧ Sorts sorted a ∧
      (2 ≤ a.length → res = sorted.map some) := by
  obtain ⟨sorted, res, ran, sorts, length, starts⟩ :=
    @mergeSortRange_spec [] [] (List.replicate a.length none) (a.length + 1) a 0 (a.length - 1)
      (by omega) rfl (by omega) (by simp) (by unfold intMax; omega)
  simp only [List.nil_append, List.append_nil] at ran
  refine ⟨sorted, res, ran, sorts, fun several => ?_⟩
  have front := (starts several).front
  symm
  apply front.eq_of_length
  rw [length, List.length_replicate, List.length_map, sorts.perm.length_eq]

/-- The recursion down the right end adds up the last two indices or the last
and the one before them. -/
theorem mergeSortRange_sum_le {first last : Int} {out : List Int × Scratch}
    (ran : mergeSortRange turns a first last temp = some out) (opened : first < last) :
    2 * last - 2 ≤ intMax := by
  induction turns generalizing a first temp out with
  | zero => cases ran
  | succ turns inductionHypothesis =>
      simp only [mergeSortRange, if_pos opened] at ran
      split at ran
      · next inRange =>
        simp only [Option.bind_eq_bind, Option.bind_eq_some_iff] at ran
        obtain ⟨_, -, _, ranRight, -⟩ := ran
        by_cases further : (first + last) / 2 + 1 < last
        · exact inductionHypothesis ranRight further
        · omega
      · cases ran

/-- All cells of the returned buffer have been written, and they are the array in
order. -/
def ReturnsSorted (a : List Int) : Prop :=
  ∃ after res sorted, mergeSort a = some (after, res) ∧ Sorts sorted a ∧ res = sorted.map some

/-- With one cell there is nothing to merge, and the buffer is returned as
`malloc` made it. -/
theorem not_returnsSorted_single (value : Int) : ¬ ReturnsSorted [value] := by
  rintro ⟨after, res, sorted, ran, -, written⟩
  have untouched : mergeSort [value] = some ([value], [none]) := rfl
  obtain ⟨-, rfl⟩ := Prod.mk.inj (Option.some.inj (untouched.symm.trans ran))
  cases sorted with
  | nil => cases written
  | cons => cases written

/-- `merge_sort` returns the sorted array exactly from two cells on, as long as
the sum of the last two indices fits an `int`. -/
theorem merge_sort_returns_sorted_iff {a : List Int} (nonempty : 1 ≤ a.length) :
    ReturnsSorted a ↔ 2 ≤ a.length ∧ a.length ≤ 1073741825 := by
  constructor
  · rintro ⟨after, res, sorted, ran, sorts, written⟩
    have several : 2 ≤ a.length := by
      by_contra single
      obtain ⟨value, rfl⟩ := List.length_eq_one_iff.mp (by omega : a.length = 1)
      exact not_returnsSorted_single value ⟨after, res, sorted, ran, sorts, written⟩
    have bounded := mergeSortRange_sum_le ran (by omega)
    unfold intMax at bounded
    omega
  · rintro ⟨several, fits⟩
    obtain ⟨sorted, res, ran, sorts, written⟩ := mergeSort_sorts fits
    exact ⟨sorted, res, sorted, ran, sorts, written several⟩

theorem merge_sort_returns_sorted_iff_pair : ReturnsSorted [7, 3] :=
  (merge_sort_returns_sorted_iff (by decide)).mpr ⟨by decide, by decide⟩

/-- A single cell: the caller gets a buffer in which nothing has been written. -/
theorem single_cell_unwritten :
    mergeSort [7] = some ([7], [none]) ∧ ¬ ReturnsSorted [7] :=
  ⟨rfl, not_returnsSorted_single 7⟩

end UtilsModules.Datastruct

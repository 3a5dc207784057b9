import UtilsModules.Datastruct.MergeSort
import UtilsModules.Datastruct.QuickSort

/-!
`bubble_sort` sorts, and the three sorts agree.

The inner loop carries the largest value of the open part to its end; the outer
loop keeps the closed part sorted and above the open one.
-/

namespace UtilsModules.Datastruct

open scoped List

variable {a front rest open_ closed back : List Int} {carried i j n limit : Int} {turns : Nat}

/-- The inner loop: the value at `j` is not below what it has passed, and it is
exchanged for every larger one it meets. -/
theorem bubbleInner_spec (shape : a = front ++ carried :: rest ++ back) (place : j = front.length)
    (stop : limit = j + rest.length) (above : ∀ value ∈ front, value ≤ carried)
    (enough : rest.length < turns) :
    ∃ passed largest, bubbleInner limit turns j a = some (passed ++ largest :: back) ∧
      passed ++ [largest] ~ front ++ carried :: rest ∧ ∀ value ∈ passed, value ≤ largest := by
  induction turns generalizing a front carried rest j with
  | zero => omega
  | succ turns inductionHypothesis =>
      match rest with
      | [] =>
          have ended : ¬ j < limit := by
            simp only [List.length_nil] at stop
            omega
          refine ⟨front, carried, ?_, .refl _, above⟩
          rw [bubbleInner, if_neg ended, shape]
          simp
      | value :: rest =>
          simp only [List.length_cons] at stop enough
          have opened : j < limit := by omega
          have lower : Cells.read a j = some carried := by
            rw [shape, List.append_assoc]
            exact Cells.read_middle place
          have regrouped : a = (front ++ [carried]) ++ value :: (rest ++ back) := by
            rw [shape]
            simp
          have next : j + 1 = (front ++ [carried]).length := by
            rw [place, List.length_append, List.length_singleton]
            omega
          have upper : Cells.read a (j + 1) = some value := by
            rw [regrouped]
            exact Cells.read_middle next
          by_cases smaller : value < carried
          · have first : Cells.write a j value =
                some ((front ++ [value]) ++ value :: (rest ++ back)) := by
              rw [shape, List.append_assoc, List.cons_append, Cells.write_middle place]
              simp
            have second : Cells.write ((front ++ [value]) ++ value :: (rest ++ back)) (j + 1)
                carried = some ((front ++ [value]) ++ carried :: (rest ++ back)) :=
              Cells.write_middle (by simpa using next) carried
            obtain ⟨passed, largest, looped, perm, below⟩ := @inductionHypothesis
              ((front ++ [value]) ++ carried :: (rest ++ back)) (front ++ [value]) rest carried
              (j + 1) (by simp) (by simpa using next) (by omega) (List.forall_mem_append.mpr
                ⟨above, List.forall_mem_singleton.mpr (Int.le_of_lt smaller)⟩) (by omega)
            refine ⟨passed, largest, ?_, ?_, below⟩
            · simp only [bubbleInner, if_pos opened, upper, lower, if_pos smaller, first, second,
                looped, Option.bind_eq_bind, Option.bind_some]
            · refine perm.trans ?_
              rw [List.append_assoc]
              exact (List.Perm.swap carried value rest).append_left front
          · have notAbove : carried ≤ value := Int.not_lt.mp smaller
            have higher : ∀ other ∈ front ++ [carried], other ≤ value :=
              List.forall_mem_append.mpr
                ⟨fun other inside => Int.le_trans (above other inside) notAbove,
                  List.forall_mem_singleton.mpr notAbove⟩
            obtain ⟨passed, largest, looped, perm, below⟩ := @inductionHypothesis a
              (front ++ [carried]) rest value (j + 1) (by rw [regrouped]; simp) next (by omega)
              higher (by omega)
            refine ⟨passed, largest, ?_, ?_, below⟩
            · simp only [bubbleInner, if_pos opened, upper, lower, if_neg smaller, looped,
                Option.bind_eq_bind, Option.bind_some]
            · refine perm.trans ?_
              rw [List.append_assoc, List.singleton_append]

/-- The outer loop: the closed part is sorted and nowhere below the open one. -/
theorem bubbleOuter_spec (shape : a = open_ ++ closed) (place : i = closed.length)
    (length : n = a.length) (ordered : closed.Pairwise (· ≤ ·))
    (above : ∀ low ∈ open_, ∀ high ∈ closed, low ≤ high) (enough : open_.length < turns) :
    ∃ sorted, bubbleOuter n turns i a = some sorted ∧ Sorts sorted a := by
  induction turns generalizing a open_ closed i with
  | zero => omega
  | succ turns inductionHypothesis =>
      rw [shape, List.length_append] at length
      match open_ with
      | [] =>
          have ended : ¬ i < n - 1 := by
            simp only [List.length_nil] at length
            omega
          refine ⟨a, by rw [bubbleOuter, if_neg ended], .refl _, ?_⟩
          rw [shape]
          exact ordered
      | [value] =>
          have ended : ¬ i < n - 1 := by
            simp only [List.length_singleton] at length
            omega
          refine ⟨a, by rw [bubbleOuter, if_neg ended], .refl _, ?_⟩
          rw [shape]
          exact List.pairwise_cons.mpr ⟨above value (by simp), ordered⟩
      | carried :: second :: rest =>
          simp only [List.length_cons] at length enough
          have opened : i < n - 1 := by omega
          obtain ⟨passed, largest, inner, perm, below⟩ := @bubbleInner_spec a [] (second :: rest)
            closed carried 0 (n - 1 - i) (a.length + 1) (by rw [shape]; rfl) rfl
            (by simp only [List.length_cons]; omega) (by simp)
            (by rw [shape]; simp only [List.length_append, List.length_cons]; omega)
          rw [List.nil_append] at perm
          have counted := perm.length_eq
          simp only [List.length_append, List.length_cons, List.length_nil] at counted
          have member : ∀ value ∈ passed ++ [largest], value ∈ carried :: second :: rest :=
            fun value => perm.mem_iff.mp
          obtain ⟨sorted, looped, sorts⟩ := @inductionHypothesis (passed ++ largest :: closed)
            passed (largest :: closed) (i + 1) rfl (by rw [place, List.length_cons]; omega)
            (by rw [length]; simp only [List.length_append, List.length_cons]; omega)
            (List.pairwise_cons.mpr ⟨above largest (member largest (by simp)), ordered⟩)
            (by
              intro low lowIn high highIn
              rcases List.mem_cons.mp highIn with rfl | behind
              · exact below low lowIn
              · exact above low (member low (by simp [lowIn])) high behind)
            (by omega)
          refine ⟨sorted, ?_, sorts.perm.trans ?_, sorts.ordered⟩
          · simp only [bubbleOuter, if_pos opened, inner, looped, Option.bind_eq_bind,
              Option.bind_some]
          · rw [shape]
            have := perm.append_right closed
            simpa using this

theorem bubbleSort_sorts (a : List Int) : ∃ sorted, bubbleSort a = some sorted ∧ Sorts sorted a :=
  bubbleOuter_spec (List.append_nil a).symm rfl rfl .nil (by simp) (Nat.lt_succ_self _)

/-- The three sorts come back, without leaving the array, with the same array:
the nondecreasing permutation of the one they were given. -/
theorem sorts_agree {a : List Int} (fits : 2 * (a.length : Int) - 3 ≤ intMax) :
    ∃ sorted res, quickSort a = some sorted ∧ bubbleSort a = some sorted ∧
      mergeSort a = some (sorted, res) ∧ sorted ~ a ∧ sorted.Pairwise (· ≤ ·) := by
  obtain ⟨quick, ranQuick, quickSorts⟩ := quickSort_sorts a
  obtain ⟨bubble, ranBubble, bubbleSorts⟩ := bubbleSort_sorts a
  obtain ⟨merged, res, ranMerge, mergeSorts, -⟩ :=
    @mergeSort_sorts a (by unfold intMax at fits; omega)
  obtain rfl := quickSorts.unique bubbleSorts
  obtain rfl := quickSorts.unique mergeSorts
  exact ⟨quick, res, ranQuick, ranBubble, ranMerge, quickSorts.perm, quickSorts.ordered⟩

theorem sorts_agree_repeated :
    ∃ res, quickSort [3, 1, 3, -2] = some [-2, 1, 3, 3] ∧
      bubbleSort [3, 1, 3, -2] = some [-2, 1, 3, 3] ∧
      mergeSort [3, 1, 3, -2] = some ([-2, 1, 3, 3], res) := by
  obtain ⟨sorted, res, quick, bubble, merge, -⟩ := @sorts_agree [3, 1, 3, -2] (by decide)
  have computed : quickSort [3, 1, 3, -2] = some [-2, 1, 3, 3] := by decide
  obtain rfl := Option.some.inj (quick.symm.trans computed)
  exact ⟨res, quick, bubble, merge⟩

end UtilsModules.Datastruct

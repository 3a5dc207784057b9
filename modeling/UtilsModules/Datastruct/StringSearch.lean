import Mathlib.Data.List.Infix
import UtilsModules.Datastruct.StringCompare

/-!
`strstr` finds the first place where a string is part of another one.
-/

namespace UtilsModules.Strings

open Places

variable {memory : CharMemory} {rounds s1 s2 : Nat} {text pattern : List UInt8}

theorem memcmp_prefix (holds : Holds memory s1 text) (wanted : Holds memory s2 pattern)
    (long : pattern.length ≤ text.length) :
    ∃ res, memcmp memory pattern.length s1 s2 = some res ∧ (res = 0 ↔ pattern <+: text) := by
  rw [← List.take_append_drop pattern.length text, holds_append] at holds
  have length : (text.take pattern.length).length = pattern.length := List.length_take_of_le long
  have ran := memcmp_spec holds.1 wanted length
  rw [length] at ran
  refine ⟨_, ran, ?_⟩
  rw [plainDifference_zero, difference_eq (.inl length), eq_comm, List.prefix_iff_eq_take]

theorem strstrLoop_spec (string : StringAt memory s1 text) (wanted : Holds memory s2 pattern)
    (positive : pattern ≠ []) :
    strstrLoop memory s2 pattern.length text.length s1 =
      some ((text.tails.findIdx? (pattern <+: ·)).map fun index => s1 + index) := by
  induction text generalizing s1 with
  | nil => simp [strstrLoop, positive]
  | cons byte rest inductionHypothesis =>
      obtain ⟨-, -, later⟩ := ended_cons.mp string
      rw [List.length_cons, strstrLoop, List.tails_cons, map_findIdx_cons]
      split
      case isTrue short =>
        have missing : ∀ tail ∈ (byte :: rest).tails, ¬ pattern <+: tail := by
          intro tail member begins
          have tailShort := ((List.mem_tails _ _).mp member).length_le
          have := begins.length_le
          rw [List.length_cons] at tailShort
          omega
        rw [List.tails_cons, List.forall_mem_cons] at missing
        have none : rest.tails.findIdx? (pattern <+: ·) = none :=
          List.findIdx?_eq_none_iff.mpr fun tail member => decide_eq_false (missing.2 tail member)
        simp only [missing.1, none, decide_false, Bool.false_eq_true, if_false, Option.map_none]
      case isFalse long =>
        obtain ⟨res, ran, zero⟩ := memcmp_prefix (holds_append.mp string.1).1 wanted
          (by rw [List.length_cons]; omega)
        rw [ran, Option.bind_eq_bind, Option.bind_some, inductionHypothesis later]
        by_cases begins : pattern <+: byte :: rest
        · simp only [zero.mpr begins, begins, decide_true, if_true]
        · simp only [mt zero.mp begins, begins, decide_false, Bool.false_eq_true, if_false]

/-- `strstr` answers with the first place at which the second string is found in the first
one, and with NULL when it is not a part of it. -/
theorem strstr_first (string : StringAt memory s1 text) (wanted : StringAt memory s2 pattern)
    (enough : text.length < rounds) (enoughToo : pattern.length < rounds)
    (small : text.length < 0x80000000) (smallToo : pattern.length < 0x80000000) :
    ∃ found, strstr rounds memory s1 s2 = some (found.map fun index => s1 + index) ∧
      (found = none ↔ ¬ pattern <:+: text) ∧
      ∀ index, found = some index → pattern <+: text.drop index ∧
        ∀ earlier < index, ¬ pattern <+: text.drop earlier := by
  have found : strstr rounds memory s1 s2 =
      some ((text.tails.findIdx? (pattern <+: ·)).map fun index => s1 + index) := by
    rw [strstr, strlen_spec wanted enoughToo, Option.bind_eq_bind, Option.bind_some]
    split
    case isTrue empty =>
      obtain rfl := List.eq_nil_of_length_eq_zero empty
      cases text with
      | nil => rfl
      | cons byte rest => simp [List.findIdx?_cons]
    case isFalse positive =>
      rw [strlen_spec string enough, Option.bind_some, if_pos ⟨small, smallToo⟩]
      exact strstrLoop_spec string (holds_append.mp wanted.1).1 fun empty =>
        positive (by rw [empty, List.length_nil])
  refine ⟨_, found, ?_, fun index here => ?_⟩
  · rw [List.findIdx?_eq_none_iff]
    simp only [List.mem_tails, decide_eq_false_iff_not, List.infix_iff_prefix_suffix, not_exists,
      not_and]
    exact ⟨fun none tail begins ends => none tail ends begins,
      fun none tail ends begins => none tail begins ends⟩
  · obtain ⟨inside, begins, earlier⟩ := List.findIdx?_eq_some_iff_getElem.mp here
    simp only [List.getElem_tails, decide_eq_true_eq] at begins earlier
    exact ⟨begins, fun place before => earlier place before⟩

theorem strstr_first_second :
    let memory : CharMemory := fun place => ([97, 97, 98, 0, 97, 98, 0] : List UInt8)[place]?
    ∃ found, strstr 4 memory 0 4 = some (found.map fun index => 0 + index) ∧
      (found = none ↔ ¬ ([97, 98] : List UInt8) <:+: [97, 97, 98]) ∧
      ∀ index, found = some index → ([97, 98] : List UInt8) <+: [97, 97, 98].drop index ∧
        ∀ earlier < index, ¬ ([97, 98] : List UInt8) <+: [97, 97, 98].drop earlier :=
  strstr_first (show StringAt _ 0 [97, 97, 98] by decide) (show StringAt _ 4 [97, 98] by decide)
    (by decide) (by decide) (by decide) (by decide)

end UtilsModules.Strings

import UtilsModules.Datastruct.StringBuffer

/-!
Which order the comparisons decide.

All of them answer with a difference of the first two characters that are not the same.
`memcmp` and `module_rstrncmp` have an `int` for it, `strcmp` and `strncmp` a
`signed char`, which does not hold every difference of two characters.
-/

namespace UtilsModules.Strings

open Places

def difference : List UInt8 → List UInt8 → UInt8 × UInt8
  | [], [] => (0, 0)
  | [], two :: _ => (0, two)
  | one :: _, [] => (one, 0)
  | one :: first, two :: second => if one = two then difference first second else (one, two)

def plainDifference (pair : UInt8 × UInt8) : Int := (pair.1.toNat : Int) - pair.2.toNat

/-- The ends of two sequences are at the same place, or marked. -/
def Comparable (first second : List UInt8) : Prop :=
  first.length = second.length ∨ 0 ∉ first ∧ 0 ∉ second

variable {memory : CharMemory} {count rounds cs ct : Nat} {first second : List UInt8}

theorem Comparable.tail {one two : UInt8} (comparable : Comparable (one :: first) (two :: second)) :
    Comparable first second :=
  comparable.imp Nat.succ.inj fun clean =>
    ⟨fun member => clean.1 (List.mem_cons_of_mem _ member),
      fun member => clean.2 (List.mem_cons_of_mem _ member)⟩

theorem difference_eq (comparable : Comparable first second) :
    (difference first second).1 = (difference first second).2 ↔ first = second := by
  induction first, second using difference.induct with
  | case1 => simp [difference]
  | case2 two second =>
      have notNul : two ≠ 0 := fun nul => by simp [Comparable, nul] at comparable
      simp [difference, notNul.symm]
  | case3 one first =>
      have notNul : one ≠ 0 := fun nul => by simp [Comparable, nul] at comparable
      simp [difference, notNul]
  | case4 first two second inductionHypothesis =>
      simp [difference, inductionHypothesis comparable.tail]
  | case5 one first two second different => simp [difference, different]

theorem difference_lt (comparable : Comparable first second) :
    (difference first second).1 < (difference first second).2 ↔ first < second := by
  induction first, second using difference.induct with
  | case1 => simp [difference]
  | case2 two second =>
      have notNul : two ≠ 0 := fun nul => by simp [Comparable, nul] at comparable
      simp only [difference, List.nil_lt_cons, iff_true]
      exact UInt8.pos_iff_ne_zero.mpr notNul
  | case3 one first => simp [difference]
  | case4 first two second inductionHypothesis =>
      simp [difference, inductionHypothesis comparable.tail]
  | case5 one first two second different =>
      simp [difference, List.cons_lt_cons_iff, different]

theorem plainDifference_neg (pair : UInt8 × UInt8) : plainDifference pair < 0 ↔ pair.1 < pair.2 := by
  rw [plainDifference, UInt8.lt_iff_toNat_lt]
  omega

theorem plainDifference_zero (pair : UInt8 × UInt8) : plainDifference pair = 0 ↔ pair.1 = pair.2 := by
  rw [plainDifference, ← UInt8.toNat_inj]
  omega

theorem signedChar_eq (one two : UInt8) :
    signedChar one two = (plainDifference (one, two)).bmod 256 := by
  change (one - two).toBitVec.toInt = _
  rw [BitVec.toInt_eq_toNat_bmod, UInt8.toNat_toBitVec, UInt8.toNat_sub, plainDifference]
  have small := one.toNat_lt
  have smallToo := two.toNat_lt
  simp only [Int.bmod]
  omega

theorem signedChar_zero (one two : UInt8) : signedChar one two = 0 ↔ one = two := by
  rw [signedChar_eq, ← plainDifference_zero (one, two), plainDifference]
  have small := one.toNat_lt
  have smallToo := two.toNat_lt
  simp only [Int.bmod]
  omega

theorem signedChar_neg (one two : UInt8) : (signedChar one two < 0 ↔ one < two) ↔
    -128 ≤ plainDifference (one, two) ∧ plainDifference (one, two) ≤ 127 := by
  rw [signedChar_eq, ← plainDifference_neg (one, two), plainDifference]
  have small := one.toNat_lt
  have smallToo := two.toNat_lt
  simp only [Int.bmod]
  omega

theorem memcmp_spec (holds : Holds memory cs first) (holdsToo : Holds memory ct second)
    (same : first.length = second.length) :
    memcmp memory first.length cs ct = some (plainDifference (difference first second)) := by
  induction first, second using difference.induct generalizing cs ct with
  | case1 => rfl
  | case2 two second => cases same
  | case3 one first => cases same
  | case4 first two second inductionHypothesis =>
      simp only [List.length_cons, memcmp, holds.1, holdsToo.1, Option.bind_eq_bind,
        Option.bind_some, ne_eq, not_true, if_false, difference, if_true,
        inductionHypothesis holds.2 holdsToo.2 (Nat.succ.inj same)]
  | case5 one first two second different =>
      simp only [List.length_cons, memcmp, holds.1, holdsToo.1, Option.bind_eq_bind,
        Option.bind_some, ne_eq, different, not_false_eq_true, if_true, difference, if_false,
        plainDifference]

theorem rstrncmpLoop_spec {n : Nat} (holds : Holds memory cs first)
    (holdsToo : Holds memory ct second) (length : first.length = n + 1)
    (lengthToo : second.length = n + 1) :
    rstrncmpLoop memory cs ct n =
      some (plainDifference (difference first.reverse second.reverse)) := by
  induction n generalizing first second with
  | zero =>
      obtain ⟨one, rfl⟩ := List.length_eq_one_iff.mp length
      obtain ⟨two, rfl⟩ := List.length_eq_one_iff.mp lengthToo
      simp only [rstrncmpLoop, holds.1, holdsToo.1, Option.bind_eq_bind, Option.bind_some,
        List.reverse_singleton, difference]
      by_cases same : one = two
      · simp [same, plainDifference]
      · simp [same, plainDifference]
  | succ n inductionHypothesis =>
      obtain rfl | ⟨front, one, rfl⟩ := first.eq_nil_or_concat'
      · cases length
      obtain rfl | ⟨frontToo, two, rfl⟩ := second.eq_nil_or_concat'
      · cases lengthToo
      rw [List.length_append, List.length_singleton, Nat.add_right_cancel_iff] at length lengthToo
      obtain ⟨earlier, here, -⟩ := holds_append.mp holds
      obtain ⟨earlierToo, hereToo, -⟩ := holds_append.mp holdsToo
      rw [length] at here
      rw [lengthToo] at hereToo
      simp only [rstrncmpLoop, here, hereToo, Option.bind_eq_bind, Option.bind_some,
        List.reverse_append, List.reverse_singleton, List.singleton_append, difference]
      by_cases same : one = two
      · simp only [same, ne_eq, not_true, if_false, if_true,
          inductionHypothesis earlier earlierToo length lengthToo]
      · simp only [same, ne_eq, not_false_eq_true, if_true, if_false, plainDifference]

theorem strncmp_spec (string : StringAt memory cs first) (stringToo : StringAt memory ct second) :
    strncmp memory count cs ct = some (signedChar
      (difference (first.take count) (second.take count)).1
      (difference (first.take count) (second.take count)).2) := by
  induction count generalizing cs ct first second with
  | zero => simp [strncmp, difference, signedChar]
  | succ count inductionHypothesis =>
      cases first with
      | nil =>
          cases second with
          | nil =>
              simp [strncmp, ended_nil.mp string, ended_nil.mp stringToo, difference, signedChar]
          | cons two second =>
              obtain ⟨hereToo, -, -⟩ := ended_cons.mp stringToo
              simp [strncmp, ended_nil.mp string, hereToo, difference]
      | cons one first =>
          obtain ⟨here, notNul, later⟩ := ended_cons.mp string
          cases second with
          | nil =>
              have differs : signedChar one 0 ≠ 0 := mt (signedChar_zero one 0).mp notNul
              simp [strncmp, here, ended_nil.mp stringToo, difference, differs]
          | cons two second =>
              obtain ⟨hereToo, -, laterToo⟩ := ended_cons.mp stringToo
              simp only [strncmp, here, hereToo, Option.bind_eq_bind, Option.bind_some,
                List.take_succ_cons, difference, ne_eq, signedChar_zero, notNul, or_false]
              by_cases same : one = two
              · simp only [same, not_true, if_false, if_true, inductionHypothesis later laterToo]
              · simp only [same, not_false_eq_true, if_true, if_false]

theorem strcmp_of_strncmp (string : StringAt memory cs first) (enough : first.length < rounds) :
    strcmp memory rounds cs ct = strncmp memory rounds cs ct := by
  induction first generalizing cs ct rounds with
  | nil =>
      obtain ⟨left, rfl⟩ := Nat.exists_eq_add_one.mpr enough
      simp [strcmp, strncmp, ended_nil.mp string]
  | cons one first inductionHypothesis =>
      obtain ⟨left, rfl⟩ := Nat.exists_eq_add_one.mpr (Nat.zero_lt_of_lt enough)
      obtain ⟨-, -, later⟩ := ended_cons.mp string
      simp only [strcmp, strncmp, inductionHypothesis later (Nat.lt_of_succ_lt_succ enough)]

/-- `strcmp` and `strncmp` answer with zero for equal strings only, and their sign is the
order of the dictionary exactly where a `signed char` holds the first difference. -/
theorem strcmp_order (string : StringAt memory cs first) (stringToo : StringAt memory ct second)
    (count : Nat) :
    ∃ answer, strncmp memory count cs ct = some answer ∧
      (answer = 0 ↔ first.take count = second.take count) ∧
      ((answer < 0 ↔ first.take count < second.take count) ↔
        -128 ≤ plainDifference (difference (first.take count) (second.take count)) ∧
        plainDifference (difference (first.take count) (second.take count)) ≤ 127) ∧
      (first.length < count → second.length < count → strcmp memory count cs ct = some answer ∧
        first.take count = first ∧ second.take count = second) := by
  have comparable : Comparable (first.take count) (second.take count) :=
    .inr ⟨(take_source string count).2, (take_source stringToo count).2⟩
  refine ⟨_, strncmp_spec string stringToo, ?_, ?_, fun short shortToo => ?_⟩
  · rw [signedChar_zero, difference_eq comparable]
  · rw [← difference_lt comparable]
    exact signedChar_neg _ _
  · rw [strcmp_of_strncmp string short, strncmp_spec string stringToo]
    exact ⟨rfl, List.take_of_length_le (Nat.le_of_lt short),
      List.take_of_length_le (Nat.le_of_lt shortToo)⟩

theorem strcmp_order_wide :
    let memory : CharMemory := fun place => ([97, 0, 233, 0] : List UInt8)[place]?
    ∃ answer, strncmp memory 2 0 2 = some answer ∧ (answer = 0 ↔ ([97] : List UInt8) = [233]) ∧
      ((answer < 0 ↔ ([97] : List UInt8) < [233]) ↔
        -128 ≤ plainDifference (97, 233) ∧ plainDifference (97, 233) ≤ 127) ∧
      (1 < 2 → 1 < 2 → strcmp memory 2 0 2 = some answer ∧
        ([97] : List UInt8) = [97] ∧ ([233] : List UInt8) = [233]) :=
  strcmp_order (show StringAt _ 0 [97] by decide) (show StringAt _ 2 [233] by decide) 2

/-- `memcmp` decides the order of the dictionary for any bytes, and `module_rstrncmp` the
one of the dictionary read from the back. -/
theorem memcmp_order (holds : Holds memory cs first) (holdsToo : Holds memory ct second)
    (same : first.length = second.length) :
    (∃ answer, memcmp memory first.length cs ct = some answer ∧
      (answer = 0 ↔ first = second) ∧ (answer < 0 ↔ first < second)) ∧
    ∃ answer, moduleRstrncmp memory cs ct first.length = some answer ∧
      (answer = 0 ↔ first = second) ∧ (answer < 0 ↔ first.reverse < second.reverse) := by
  have backwards : first.reverse.length = second.reverse.length := by
    rw [List.length_reverse, List.length_reverse, same]
  constructor
  · refine ⟨_, memcmp_spec holds holdsToo same, ?_, ?_⟩
    · rw [plainDifference_zero, difference_eq (.inl same)]
    · rw [plainDifference_neg, difference_lt (.inl same)]
  · have ran : moduleRstrncmp memory cs ct first.length =
        some (plainDifference (difference first.reverse second.reverse)) := by
      rw [moduleRstrncmp]
      split
      case isTrue empty =>
        obtain rfl := List.eq_nil_of_length_eq_zero empty
        obtain rfl := List.eq_nil_of_length_eq_zero same.symm
        rfl
      case isFalse positive =>
        exact rstrncmpLoop_spec holds holdsToo (by omega) (by omega)
    refine ⟨_, ran, ?_, ?_⟩
    · rw [plainDifference_zero, difference_eq (.inl backwards), List.reverse_inj]
    · rw [plainDifference_neg, difference_lt (.inl backwards)]

theorem memcmp_order_three :
    let memory : CharMemory := fun place => ([1, 2, 3, 1, 5, 0] : List UInt8)[place]?
    (∃ answer, memcmp memory 3 0 3 = some answer ∧
      (answer = 0 ↔ ([1, 2, 3] : List UInt8) = [1, 5, 0]) ∧
      (answer < 0 ↔ ([1, 2, 3] : List UInt8) < [1, 5, 0])) ∧
    ∃ answer, moduleRstrncmp memory 0 3 3 = some answer ∧
      (answer = 0 ↔ ([1, 2, 3] : List UInt8) = [1, 5, 0]) ∧
      (answer < 0 ↔ ([3, 2, 1] : List UInt8) < [0, 5, 1]) :=
  memcmp_order (show Holds _ 0 [1, 2, 3] by decide) (show Holds _ 3 [1, 5, 0] by decide) rfl

end UtilsModules.Strings

import Mathlib.Algebra.GroupWithZero.Nat
import UtilsModules.Library.Buffer

/-!
Strings that end with a NUL, in buffers of fixed size.

`Holds` is the state of a cleared buffer after some text has been written to its
beginning: the text, and zeros up to the end.
-/

namespace CString

def nul : Char := '\x00'

def strlen (buffer : List Char) : Nat := (buffer.takeWhile (· ≠ nul)).length

def decimal (number : Nat) : List Char := Nat.toDigits 10 number

def padLeft (width : Nat) (pad : Char) (text : List Char) : List Char :=
  List.replicate (width - text.length) pad ++ text

/-- What `snprintf` with the given size writes at an offset for a formatted text:
as much as fits before the NUL. -/
def snprintf (buffer : List Char) (offset size : Nat) (text : List Char) : Option (List Char) :=
  if size = 0 then some buffer else Buffer.write buffer offset (text.take (size - 1) ++ [nul])

/-- A buffer of `size` characters holds the text and nothing else. -/
def Holds (size : Nat) (buffer text : List Char) : Prop :=
  text.length < size ∧ buffer = text ++ List.replicate (size - text.length) nul

variable {size offset limit : Nat} {buffer text : List Char}

theorem holds_cleared (positive : 0 < size) : Holds size (List.replicate size nul) [] :=
  ⟨positive, rfl⟩

theorem Holds.length_eq (holds : Holds size buffer text) : buffer.length = size := by
  obtain ⟨bounded, rfl⟩ := holds
  rw [List.length_append, List.length_replicate]
  omega

theorem Holds.write (holds : Holds size buffer text) (more : List Char) (zeros : Nat)
    (place : offset = text.length) (room : offset + more.length < size)
    (inside : offset + more.length + zeros ≤ size) :
    ∃ after, Buffer.write buffer offset (more ++ List.replicate zeros nul) = some after ∧
      Holds size after (text ++ more) := by
  subst place
  have length := holds.length_eq
  obtain ⟨bounded, rfl⟩ := holds
  have fits : text.length + (more ++ List.replicate zeros nul).length ≤
      (text ++ List.replicate (size - text.length) nul).length := by
    rw [length, List.length_append, List.length_replicate]
    omega
  refine ⟨_, Buffer.write_of_fits fits, ?_, ?_⟩
  · rw [List.length_append]
    exact room
  · have front : (text ++ List.replicate (size - text.length) nul).take text.length = text :=
      List.take_left
    have rest : (text ++ List.replicate (size - text.length) nul).drop
        (text.length + (more ++ List.replicate zeros nul).length) =
        List.replicate (size - text.length - (more.length + zeros)) nul := by
      rw [List.drop_append, List.drop_of_length_le (by omega), List.nil_append,
        Nat.add_sub_cancel_left, List.drop_replicate, List.length_append, List.length_replicate]
    rw [front, rest]
    simp only [List.append_assoc, List.replicate_append_replicate, List.length_append]
    congr 3
    omega

theorem Holds.snprintf (holds : Holds size buffer text) (more : List Char)
    (place : offset = text.length) (positive : 0 < limit) (inside : offset + limit ≤ size) :
    ∃ after, snprintf buffer offset limit more = some after ∧
      Holds size after (text ++ more.take (limit - 1)) := by
  have shorter : (more.take (limit - 1)).length ≤ limit - 1 := List.length_take_le _ _
  rw [CString.snprintf, if_neg (by omega)]
  exact holds.write _ 1 place (by omega) (by omega)

theorem Holds.write_last (holds : Holds size buffer text) :
    Buffer.write buffer (size - 1) [nul] = some buffer := by
  have length := holds.length_eq
  obtain ⟨bounded, rfl⟩ := holds
  obtain ⟨zeros, more⟩ := Nat.exists_eq_add_one_of_ne_zero (Nat.sub_ne_zero_of_lt bounded)
  have shape : text ++ List.replicate (size - text.length) nul =
      (text ++ List.replicate zeros nul) ++ [nul] := by
    rw [more, List.replicate_succ', List.append_assoc]
  have place : size - 1 = (text ++ List.replicate zeros nul).length := by
    rw [List.length_append, List.length_replicate]
    omega
  have fits : (text ++ List.replicate zeros nul).length + [nul].length ≤
      ((text ++ List.replicate zeros nul) ++ [nul]).length :=
    Nat.le_of_eq List.length_append.symm
  rw [shape, place, Buffer.write_of_fits fits, List.take_left,
    List.drop_of_length_le (Nat.le_of_eq List.length_append), List.append_nil]

theorem strlen_append_nul {front back : List Char} (clean : nul ∉ front) :
    strlen (front ++ nul :: back) = front.length := by
  unfold strlen
  induction front with
  | nil => simp
  | cons first rest inductionHypothesis =>
      rw [List.mem_cons, not_or] at clean
      rw [List.cons_append, List.takeWhile_cons, if_pos (by simpa using Ne.symm clean.1),
        List.length_cons, inductionHypothesis clean.2, List.length_cons]

theorem Holds.strlen_cases (holds : Holds size buffer text) :
    nul ∉ text ∧ strlen buffer = text.length ∨ nul ∈ text ∧ strlen buffer < text.length := by
  obtain ⟨bounded, rfl⟩ := holds
  by_cases dirty : nul ∈ text
  · right
    refine ⟨dirty, ?_⟩
    obtain ⟨before, after, rfl, clean⟩ := List.eq_append_cons_of_mem dirty
    rw [List.append_assoc, List.cons_append, strlen_append_nul clean, List.length_append,
      List.length_cons]
    omega
  · left
    refine ⟨dirty, ?_⟩
    obtain ⟨rest, more⟩ := Nat.exists_eq_add_one_of_ne_zero (Nat.sub_ne_zero_of_lt bounded)
    rw [more, List.replicate_succ, strlen_append_nul dirty]

theorem Holds.strlen_eq_iff (holds : Holds size buffer text) :
    strlen buffer = text.length ↔ nul ∉ text := by
  rcases holds.strlen_cases with ⟨clean, same⟩ | ⟨dirty, shorter⟩
  · exact iff_of_true same clean
  · exact iff_of_false (Nat.ne_of_lt shorter) (not_not_intro dirty)

theorem Holds.strlen_le (holds : Holds size buffer text) : strlen buffer ≤ text.length := by
  rcases holds.strlen_cases with ⟨-, same⟩ | ⟨-, shorter⟩
  · exact Nat.le_of_eq same
  · exact Nat.le_of_lt shorter

theorem Holds.terminated (holds : Holds size buffer text) : nul ∈ buffer := by
  obtain ⟨bounded, rfl⟩ := holds
  apply List.mem_append_right
  rw [List.mem_replicate]
  exact ⟨Nat.sub_ne_zero_of_lt bounded, rfl⟩

theorem nul_not_mem_decimal (number : Nat) : nul ∉ decimal number := by
  intro membership
  have digit := Nat.isDigit_of_mem_toDigits (by decide) (by decide) membership
  exact absurd digit (by decide)

theorem length_padLeft (width : Nat) (pad : Char) (text : List Char) :
    (padLeft width pad text).length = max width text.length := by
  rw [padLeft, List.length_append, List.length_replicate]
  omega

theorem nul_not_mem_padLeft {width : Nat} {pad : Char} {text : List Char} (padded : pad ≠ nul)
    (clean : nul ∉ text) : nul ∉ padLeft width pad text := by
  rw [padLeft, List.mem_append, List.mem_replicate]
  rintro (⟨-, same⟩ | inside)
  · exact padded same.symm
  · exact clean inside

/-- A number below a power of ten fits the width. -/
theorem length_padLeft_decimal {width number : Nat} (positive : 0 < width)
    (small : number < 10 ^ width) (pad : Char) :
    (padLeft width pad (decimal number)).length = width := by
  rw [length_padLeft]
  exact Nat.max_eq_left ((Nat.length_toDigits_le_iff (by decide) positive).mpr small)

end CString

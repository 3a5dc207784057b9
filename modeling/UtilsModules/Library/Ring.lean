import Mathlib.Data.List.Rotate
import Mathlib.Tactic.Ring

/-!
Ring buffers: a list of slots in which a stretch may run over the end and go on
at the beginning.

`window slots start count` is the stretch of `count` slots from `start` on, and
`write slots start data` overwrites a stretch.  Seen from where a stretch
starts, the list is rotated and the stretch is at its front.
-/

namespace Ring

variable {α : Type*}

def splice (slots : List α) (offset : Nat) (data : List α) : List α :=
  slots.take offset ++ data ++ slots.drop (offset + data.length)

/-- Copy a part of one list into another; `none` if the part or its place is not
inside. -/
def copy? (target : List α) (offset : Nat) (source : List α) (start count : Nat) :
    Option (List α) :=
  if offset + count ≤ target.length ∧ start + count ≤ source.length then
    some (splice target offset ((source.drop start).take count))
  else
    none

def window (slots : List α) (start count : Nat) : List α := (slots.rotate start).take count

/-- Overwrite the stretch of slots from a place on, in two pieces where it runs
over the end. -/
def write (slots : List α) (start : Nat) (data : List α) : List α :=
  let place := start % slots.length
  let first := min data.length (slots.length - place)
  splice (splice slots place (data.take first)) 0 (data.drop first)

variable {slots data : List α} {start count : Nat}

theorem length_splice {offset : Nat} (inside : offset + data.length ≤ slots.length) :
    (splice slots offset data).length = slots.length := by
  simp only [splice, List.length_append, List.length_take, List.length_drop]
  omega

theorem window_eq_pieces {first : Nat} (fits : count ≤ slots.length)
    (isFirst : first = min count (slots.length - start % slots.length)) :
    window slots start count =
      (slots.drop (start % slots.length)).take first ++ slots.take (count - first) := by
  subst isFirst
  rw [window, List.rotate_eq_drop_append_take_mod, List.take_append, List.length_drop,
    List.take_take]
  congr 1
  · by_cases wraps : slots.length - start % slots.length < count
    · rw [Nat.min_eq_right (Nat.le_of_lt wraps), List.take_of_length_le (by simp; omega),
        List.take_of_length_le (by simp)]
    · rw [Nat.min_eq_left (by omega)]
  · congr 1
    have := @Nat.mod_lt start slots.length
    omega

theorem window_drop {passed : Nat} (fits : count ≤ slots.length) (inside : passed ≤ count) :
    (window slots start count).drop passed = window slots (start + passed) (count - passed) := by
  have turned : slots.rotate (start + passed) =
      (slots.rotate start).drop passed ++ (slots.rotate start).take passed := by
    rw [← List.rotate_rotate, List.rotate_eq_drop_append_take]
    simp only [List.length_rotate]
    omega
  rw [window, window, turned, List.drop_take, List.take_append_of_le_length]
  simp only [List.length_drop, List.length_rotate]
  omega

theorem window_take {shorter : Nat} (inside : shorter ≤ count) :
    (window slots start count).take shorter = window slots start shorter := by
  rw [window, window, List.take_take, Nat.min_eq_left inside]

theorem splice_nil (slots : List α) (offset : Nat) : splice slots offset [] = slots := by
  simp [splice]

theorem write_nil (slots : List α) (start : Nat) : write slots start [] = slots := by
  simp [write, splice_nil]

theorem rotate_write_straight {place : Nat} (inside : place + data.length ≤ slots.length) :
    (splice slots place data).rotate place = data ++ (slots.rotate place).drop data.length := by
  have long : place ≤ (splice slots place data).length := by
    rw [length_splice inside]
    omega
  rw [List.rotate_eq_drop_append_take long, List.rotate_eq_drop_append_take (by omega)]
  have shortPlace : (slots.take place).length = place := by
    rw [List.length_take]
    omega
  have front : (splice slots place data).take place = slots.take place := by
    rw [splice, List.append_assoc, List.take_append_of_le_length (by omega), List.take_take,
      Nat.min_self]
  have back : (splice slots place data).drop place =
      data ++ slots.drop (place + data.length) := by
    rw [splice, List.append_assoc, List.drop_append_of_le_length (by omega),
      List.drop_of_length_le (by omega), List.nil_append]
  rw [front, back, List.append_assoc, List.drop_append_of_le_length, List.drop_drop]
  rw [List.length_drop]
  omega

theorem rotate_write_wrapped {place : Nat} {first second : List α}
    (atEnd : place + first.length = slots.length) (fits : second.length ≤ place) :
    (splice (splice slots place first) 0 second).rotate place =
      first ++ second ++ (slots.rotate place).drop (first.length + second.length) := by
  have cut : splice slots place first = slots.take place ++ first := by
    rw [splice, atEnd, List.drop_length, List.append_nil]
  have shortPlace : (slots.take place).length = place := by
    rw [List.length_take]
    omega
  have whole : splice (splice slots place first) 0 second =
      (second ++ (slots.take place).drop second.length) ++ first := by
    rw [cut, splice, List.take_zero, List.nil_append, Nat.zero_add,
      List.drop_append_of_le_length (by omega), List.append_assoc]
  have prefixLength : (second ++ (slots.take place).drop second.length).length = place := by
    rw [List.length_append, List.length_drop]
    omega
  have turned := List.rotate_append_length_eq (second ++ (slots.take place).drop second.length) first
  rw [prefixLength] at turned
  have passed : (slots.drop place).length = first.length := by
    rw [List.length_drop]
    omega
  have rest : (slots.rotate place).drop (first.length + second.length) =
      (slots.take place).drop second.length := by
    rw [List.rotate_eq_drop_append_take (by omega), List.drop_append, passed,
      Nat.add_sub_cancel_left, List.drop_of_length_le (by omega), List.nil_append]
  rw [whole, turned, rest, List.append_assoc]

theorem length_write (fits : data.length ≤ slots.length) :
    (write slots start data).length = slots.length := by
  rcases Nat.eq_zero_or_pos slots.length with empty | positive
  · obtain rfl := List.eq_nil_of_length_eq_zero (Nat.le_zero.mp (empty ▸ fits))
    simp [write, splice_nil]
  · have inside := Nat.mod_lt start positive
    have firstInside : start % slots.length +
        (data.take (min data.length (slots.length - start % slots.length))).length ≤
          slots.length := by
      rw [List.length_take]
      omega
    rw [write, length_splice, length_splice firstInside]
    rw [length_splice firstInside, List.length_drop]
    omega

theorem rotate_write (fits : data.length ≤ slots.length) :
    (write slots start data).rotate start =
      data ++ (slots.rotate start).drop data.length := by
  cases empty : slots with
  | nil =>
      rw [empty] at fits
      obtain rfl := List.eq_nil_of_length_eq_zero (Nat.le_zero.mp fits)
      simp [write, splice]
  | cons head tail =>
      rw [← empty]
      have inside : start % slots.length < slots.length :=
        Nat.mod_lt _ (by simp [empty])
      have sameLength := @length_write α slots data start fits
      have turn : (write slots start data).rotate start =
          (write slots start data).rotate (start % slots.length) := by
        rw [← sameLength, List.rotate_mod]
      rw [turn, ← List.rotate_mod slots]
      by_cases wraps : slots.length - start % slots.length < data.length
      · have first : min data.length (slots.length - start % slots.length) =
            slots.length - start % slots.length := by omega
        have pieces := @rotate_write_wrapped α slots (start % slots.length)
          (data.take (slots.length - start % slots.length))
          (data.drop (slots.length - start % slots.length))
          (by rw [List.length_take]; omega) (by rw [List.length_drop]; omega)
        rw [write]
        simp only [first]
        rw [pieces, List.take_append_drop, List.length_take, List.length_drop]
        congr 2
        omega
      · have first : min data.length (slots.length - start % slots.length) = data.length := by
          omega
        rw [write]
        simp only [first]
        rw [List.take_length, List.drop_length, splice_nil]
        exact rotate_write_straight (by omega)

theorem window_write (fits : count + data.length ≤ slots.length) :
    window (write slots (start + count) data) start (count + data.length) =
      window slots start count ++ data := by
  have behind := @rotate_write α slots data (start + count) (by omega)
  have written := @length_write α slots data (start + count) (by omega)
  have frontLength : ((slots.rotate start).take count).length = count := by
    rw [List.length_take, List.length_rotate]
    omega
  have turned : slots.rotate (start + count) =
      (slots.rotate start).drop count ++ (slots.rotate start).take count := by
    rw [← List.rotate_rotate, List.rotate_eq_drop_append_take]
    rw [List.length_rotate]
    omega
  have arranged : (write slots (start + count) data).rotate start =
      (slots.rotate start).take count ++
        (data ++ ((slots.rotate start).drop count).drop data.length) := by
    apply List.rotate_injective count
    have short : data.length ≤ ((slots.rotate start).drop count).length := by
      rw [List.length_drop, List.length_rotate]
      omega
    have turnedBack := List.rotate_append_length_eq ((slots.rotate start).take count)
      (data ++ ((slots.rotate start).drop count).drop data.length)
    rw [frontLength] at turnedBack
    simp only [List.rotate_rotate]
    rw [behind, turned, turnedBack, List.drop_append_of_le_length short, List.append_assoc]
  rw [window, arranged, window, ← List.append_assoc, List.take_append_of_le_length]
  · rw [List.take_of_length_le]
    rw [List.length_append, frontLength]
  · rw [List.length_append, frontLength]

theorem take_splice_pieces {target first second : List α} :
    (splice (splice target 0 first) first.length second).take (first.length + second.length) =
      first ++ second := by
  have front : (splice target 0 first).take first.length = first := by
    rw [splice, List.take_zero, List.nil_append, List.take_append_of_le_length (Nat.le_refl _),
      List.take_length]
  rw [splice, front, List.take_append_of_le_length, List.take_of_length_le]
  · rw [List.length_append]
  · rw [List.length_append]

theorem copy_write (positive : 0 < slots.length) (available : count ≤ data.length)
    (fits : count ≤ slots.length) {first : Nat}
    (isFirst : first = min count (slots.length - start % slots.length)) :
    (copy? slots (start % slots.length) data 0 first).bind
        (fun halfway => copy? halfway 0 data first (count - first)) =
      some (write slots start (data.take count)) := by
  have inside := Nat.mod_lt start positive
  have taken : (data.take count).length = count := by
    rw [List.length_take]
    omega
  have halfway : (splice slots (start % slots.length) (data.take first)).length = slots.length := by
    rw [length_splice]
    rw [List.length_take]
    omega
  rw [copy?, if_pos (by omega), Option.bind_some, List.drop_zero, copy?, if_pos (by omega), write]
  simp only [taken, ← isFirst]
  rw [List.take_take, List.drop_take, Nat.min_eq_left (by omega)]

theorem copy_window {target : List α} (positive : 0 < slots.length)
    (available : count ≤ target.length) (fits : count ≤ slots.length) {first : Nat}
    (isFirst : first = min count (slots.length - start % slots.length)) :
    ∃ filled, (copy? target 0 slots (start % slots.length) first).bind
        (fun halfway => copy? halfway first slots 0 (count - first)) = some filled ∧
      filled.length = target.length ∧ filled.take count = window slots start count := by
  have inside := Nat.mod_lt start positive
  set front := (slots.drop (start % slots.length)).take first with frontEq
  set back := slots.take (count - first) with backEq
  have frontLength : front.length = first := by
    rw [frontEq, List.length_take, List.length_drop]
    omega
  have backLength : back.length = count - first := by
    rw [backEq, List.length_take]
    omega
  have halfway : (splice target 0 front).length = target.length := by
    rw [length_splice (by omega)]
  refine ⟨splice (splice target 0 front) first back, ?_, ?_, ?_⟩
  · rw [copy?, if_pos (by omega), Option.bind_some, ← frontEq, copy?, if_pos (by omega),
      List.drop_zero]
  · rw [length_splice (by omega), halfway]
  · have pieces := @take_splice_pieces _ target front back
    rw [frontLength, backLength, frontEq, backEq, ← window_eq_pieces fits isFirst] at pieces
    rw [← pieces]
    congr 1
    omega

/-- A counter may be kept modulo any multiple of the number of slots. -/
theorem window_mod {space : Nat} (divides : slots.length ∣ space) :
    window slots (start % space) count = window slots start count := by
  rw [window, window, ← List.rotate_mod slots, Nat.mod_mod_of_dvd _ divides, List.rotate_mod]

theorem write_mod {space : Nat} (divides : slots.length ∣ space) :
    write slots (start % space) data = write slots start data := by
  simp only [write, Nat.mod_mod_of_dvd _ divides]

theorem window_eq_iff (fits : count ≤ slots.length) : window slots start count = data ↔
    data.length = count ∧ ∀ index < count, slots[(start + index) % slots.length]? = data[index]? := by
  have length : (window slots start count).length = count := by
    rw [window, List.length_take, List.length_rotate]
    omega
  have slot (index : Nat) (inside : index < count) :
      (window slots start count)[index]? = slots[(start + index) % slots.length]? := by
    rw [window, List.getElem?_take_of_lt inside, List.getElem?_rotate (by omega), Nat.add_comm]
  constructor
  · rintro rfl
    exact ⟨length, fun index inside => (slot index inside).symm⟩
  · rintro ⟨sameLength, sameSlots⟩
    apply List.ext_getElem?
    intro index
    by_cases inside : index < count
    · rw [slot index inside, sameSlots index inside]
    · rw [List.getElem?_eq_none (by omega), List.getElem?_eq_none (by omega)]

theorem slot_ne {turn first second : Nat} (different : first ≠ second)
    (after : second < first + turn) (before : first < second + turn) :
    (start + first) % turn ≠ (start + second) % turn := by
  have increasing {low high : Nat} (below : low < high) (near : high < low + turn) :
      (start + low) % turn ≠ (start + high) % turn := by
    intro same
    have divides : turn ∣ high - low := by
      have := Nat.dvd_of_mod_eq_zero (Nat.sub_mod_eq_zero_of_mod_eq same.symm)
      rwa [Nat.add_sub_add_left] at this
    have := Nat.le_of_dvd (by omega) divides
    omega
  rcases Nat.lt_or_gt_of_ne different with below | above
  · exact increasing below after
  · exact Ne.symm (increasing above before)

theorem getElem?_write {index : Nat} (fits : data.length ≤ slots.length)
    (inside : index < slots.length) :
    (write slots start data)[(start + index) % slots.length]? =
      if index < data.length then data[index]? else slots[(start + index) % slots.length]? := by
  have written : ((write slots start data).rotate start)[index]? =
      (write slots start data)[(start + index) % slots.length]? := by
    rw [List.getElem?_rotate (by rw [length_write fits]; exact inside), length_write fits,
      Nat.add_comm]
  have old : (slots.rotate start)[index]? = slots[(start + index) % slots.length]? := by
    rw [List.getElem?_rotate inside, Nat.add_comm]
  rw [← written, rotate_write fits, ← old]
  split
  · next new => rw [List.getElem?_append_left new]
  · next notNew =>
      rw [List.getElem?_append_right (by omega), List.getElem?_drop]
      congr 1
      omega

theorem exists_slot {place turn : Nat} (inside : place < turn) (start : Nat) :
    ∃ index < turn, place = (start + index) % turn := by
  have below := Nat.mod_lt start (Nat.lt_of_le_of_lt (Nat.zero_le _) inside)
  refine ⟨(place + (turn - start % turn)) % turn, Nat.mod_lt _ (by omega), ?_⟩
  rw [Nat.add_mod_mod, ← Nat.mod_add_mod, show start % turn + (place + (turn - start % turn)) =
    place + turn by omega, Nat.add_mod_right, Nat.mod_eq_of_lt inside]

theorem write_concat (value : α) (fits : data.length < slots.length) :
    write slots start (data ++ [value]) =
      (write slots start data).set ((start + data.length) % slots.length) value := by
  have longer : (data ++ [value]).length ≤ slots.length := by
    rw [List.length_append]
    exact fits
  apply List.ext_getElem?
  intro place
  by_cases inside : place < slots.length
  · obtain ⟨index, near, rfl⟩ := exists_slot inside start
    rw [getElem?_write longer near]
    by_cases same : index = data.length
    · subst same
      rw [List.getElem?_set_self (by rw [length_write (by omega)]; exact inside)]
      simp
    · have apart := @slot_ne start slots.length data.length index (Ne.symm same) (by omega)
        (by omega)
      rw [List.getElem?_set_ne apart, getElem?_write (by omega) near]
      by_cases before : index < data.length
      · rw [if_pos before, if_pos (by simp; omega), List.getElem?_append_left before]
      · rw [if_neg before, if_neg (by simp; omega)]
  · rw [List.getElem?_eq_none (by rw [length_write longer]; omega),
      List.getElem?_eq_none (by rw [List.length_set, length_write (by omega)]; omega)]

end Ring

import Mathlib.Data.List.Basic
import Mathlib.Logic.Function.Basic

/-!
A memory in which only some places may be used.

`memory place` is `none` where nothing may be read or written.  `Holds` says what is
stored from a place on, and `Ended` that a mark which is not in the text follows it.
-/

namespace Places

variable {α : Type*}

def store (memory : Nat → Option α) (place : Nat) (value : α) : Option (Nat → Option α) :=
  (memory place).map fun _ => Function.update memory place (some value)

def Holds (memory : Nat → Option α) : Nat → List α → Prop
  | _, [] => True
  | place, value :: rest => memory place = some value ∧ Holds memory (place + 1) rest

def Usable (memory : Nat → Option α) (place length : Nat) : Prop :=
  ∀ offset < length, (memory (place + offset)).isSome

def SameOutside (changed memory : Nat → Option α) (place length : Nat) : Prop :=
  ∀ other, ¬ (place ≤ other ∧ other < place + length) → changed other = memory other

def Ended (mark : α) (memory : Nat → Option α) (place : Nat) (text : List α) : Prop :=
  Holds memory place (text ++ [mark]) ∧ mark ∉ text

variable {memory changed : Nat → Option α} {place length : Nat} {values more : List α}
  {value mark : α}

theorem holds_append : Holds memory place (values ++ more) ↔
    Holds memory place values ∧ Holds memory (place + values.length) more := by
  induction values generalizing place with
  | nil => simp [Holds]
  | cons value rest inductionHypothesis =>
      rw [List.cons_append, Holds, Holds, inductionHypothesis, and_assoc, List.length_cons,
        Nat.add_right_comm, Nat.add_assoc]

theorem Holds.congr (holds : Holds memory place values)
    (same : ∀ other, place ≤ other → other < place + values.length →
      changed other = memory other) : Holds changed place values := by
  induction values generalizing place with
  | nil => trivial
  | cons value rest inductionHypothesis =>
      rw [List.length_cons] at same
      refine ⟨(same place (Nat.le_refl _) (by omega)).trans holds.1, ?_⟩
      exact inductionHypothesis holds.2 fun other above below => same other (by omega) (by omega)

theorem holds_iff : Holds memory place values ↔
    ∀ offset (inside : offset < values.length), memory (place + offset) = some values[offset] := by
  induction values generalizing place with
  | nil => simp [Holds]
  | cons value rest inductionHypothesis =>
      rw [Holds, inductionHypothesis]
      constructor
      · rintro ⟨here, later⟩ offset inside
        cases offset with
        | zero => exact here
        | succ offset =>
            rw [List.getElem_cons_succ, ← later offset (Nat.lt_of_succ_lt_succ inside),
              Nat.add_right_comm, Nat.add_assoc]
      · intro all
        refine ⟨all 0 (Nat.succ_pos _), fun offset inside => ?_⟩
        rw [← List.getElem_cons_succ value rest offset (Nat.succ_lt_succ inside),
          ← all (offset + 1) (Nat.succ_lt_succ inside), Nat.add_right_comm, Nat.add_assoc]

theorem Holds.usable (holds : Holds memory place values) :
    Usable memory place values.length := by
  intro offset inside
  rw [holds_iff.mp holds offset inside]
  rfl

theorem Usable.mono {shorter : Nat} (usable : Usable memory place length) (less : shorter ≤ length) :
    Usable memory place shorter :=
  fun offset inside => usable offset (Nat.lt_of_lt_of_le inside less)

theorem Usable.drop (usable : Usable memory place length) {offset : Nat} (less : offset ≤ length) :
    Usable memory (place + offset) (length - offset) := by
  intro further inside
  rw [Nat.add_assoc]
  exact usable (offset + further) (by omega)

theorem store_of_usable (usable : (memory place).isSome) (value : α) :
    store memory place value = some (Function.update memory place (some value)) := by
  obtain ⟨old, stored⟩ := Option.isSome_iff_exists.mp usable
  rw [store, stored, Option.map_some]

theorem Usable.update (usable : Usable memory place length) (other : Nat) (value : α) :
    Usable (Function.update memory other (some value)) place length := by
  intro offset inside
  by_cases same : place + offset = other
  · rw [same, Function.update_self]
    rfl
  · rw [Function.update_of_ne same]
    exact usable offset inside

theorem Usable.cons (usable : Usable memory (place + 1) length) (here : memory place = some value) :
    Usable memory place (length + 1) := by
  intro offset inside
  cases offset with
  | zero =>
      rw [Nat.add_zero, here]
      rfl
  | succ offset =>
      rw [Nat.add_comm offset, ← Nat.add_assoc]
      exact usable offset (Nat.lt_of_succ_lt_succ inside)

theorem Usable.congr_outside {start size : Nat} (usable : Usable memory place length)
    (outside : SameOutside changed memory start size) (written : Usable changed start size) :
    Usable changed place length := by
  intro offset inside
  by_cases within : start ≤ place + offset ∧ place + offset < start + size
  · have := written (place + offset - start) (by omega)
    rwa [show start + (place + offset - start) = place + offset by omega] at this
  · rw [outside _ within]
    exact usable offset inside

theorem Holds.congr_outside {start size : Nat} (holds : Holds memory place values)
    (outside : SameOutside changed memory start size)
    (apart : place + values.length ≤ start ∨ start + size ≤ place) : Holds changed place values :=
  holds.congr fun other above below => outside other fun within => by omega

theorem Ended.congr_outside {start size : Nat} (ended : Ended mark memory place values)
    (outside : SameOutside changed memory start size)
    (apart : place + values.length + 1 ≤ start ∨ start + size ≤ place) :
    Ended mark changed place values :=
  ⟨ended.1.congr_outside outside (by rw [List.length_append, List.length_singleton]; omega), ended.2⟩

theorem SameOutside.trans {middle : Nat → Option α} (second : SameOutside changed middle place length)
    (first : SameOutside middle memory place length) : SameOutside changed memory place length :=
  fun other outside => (second other outside).trans (first other outside)

theorem SameOutside.mono {start size : Nat} (outside : SameOutside changed memory place length)
    (below : start ≤ place) (above : place + length ≤ start + size) :
    SameOutside changed memory start size :=
  fun other apart => outside other fun within => apart ⟨by omega, by omega⟩

theorem sameOutside_update (value : α) :
    SameOutside (Function.update memory place (some value)) memory place 1 := by
  intro other outside
  apply Function.update_of_ne
  rintro rfl
  exact outside ⟨Nat.le_refl _, Nat.lt_succ_self _⟩

theorem map_findIdx_cons (found : α → Bool) (value : α) (rest : List α) (place : Nat) :
    ((value :: rest).findIdx? found).map (fun index => place + index) =
      if found value then some place
      else (rest.findIdx? found).map fun index => place + 1 + index := by
  rw [List.findIdx?_cons]
  split
  case isTrue => rfl
  case isFalse =>
    rw [Option.map_map]
    congr 1
    funext index
    exact (Nat.add_right_comm place 1 index).symm

theorem ended_nil : Ended mark memory place [] ↔ memory place = some mark := by
  simp [Ended, Holds]

theorem ended_cons : Ended mark memory place (value :: values) ↔
    memory place = some value ∧ value ≠ mark ∧ Ended mark memory (place + 1) values := by
  simp only [Ended, List.cons_append, Holds, List.mem_cons, not_or, ne_comm]
  constructor
  · rintro ⟨⟨here, later⟩, different, clean⟩
    exact ⟨here, different, later, clean⟩
  · rintro ⟨here, different, later, clean⟩
    exact ⟨⟨here, later⟩, different, clean⟩

theorem ended_append : Ended mark memory place (values ++ more) ↔
    Holds memory place values ∧ mark ∉ values ∧ Ended mark memory (place + values.length) more := by
  simp only [Ended, List.append_assoc, holds_append, List.mem_append, not_or]
  constructor
  · rintro ⟨⟨front, back⟩, clean, cleanBack⟩
    exact ⟨front, clean, back, cleanBack⟩
  · rintro ⟨front, clean, back, cleanBack⟩
    exact ⟨⟨front, back⟩, clean, cleanBack⟩

end Places

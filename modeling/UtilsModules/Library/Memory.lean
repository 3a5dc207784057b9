import UtilsModules.Library.Region

/-!
A flat memory: a value at every address.

Stretches of it are read, written and copied; what is read back depends only on
the addresses that a stretch covers.
-/

namespace Memory

variable {α : Type*}

def read (memory : Nat → α) (address length : Nat) : List α :=
  (List.range length).map fun offset => memory (address + offset)

def write (memory : Nat → α) (address : Nat) (values : List α) : Nat → α :=
  fun place =>
    if address ≤ place then values[place - address]?.getD (memory place) else memory place

def copy (memory : Nat → α) (target source length : Nat) : Nat → α :=
  fun place =>
    if target ≤ place ∧ place < target + length then memory (source + (place - target))
    else memory place

variable {memory : Nat → α} {address : Nat}

@[simp]
theorem length_read (memory : Nat → α) (address length : Nat) :
    (read memory address length).length = length := by
  simp [read]

theorem read_congr {changed : Nat → α} {length : Nat}
    (same : ∀ byte, Region.Covers ⟨address, length⟩ byte → changed byte = memory byte) :
    read changed address length = read memory address length := by
  apply List.map_congr_left
  intro offset inside
  apply same
  rw [List.mem_range] at inside
  exact ⟨Nat.le_add_right _ _, Nat.add_lt_add_left inside address⟩

theorem write_outside {values : List α} {byte : Nat}
    (outside : ¬ Region.Covers ⟨address, values.length⟩ byte) :
    write memory address values byte = memory byte := by
  unfold write
  split
  · next above =>
    have behind : values.length ≤ byte - address := by
      simp only [Region.Covers, Region.stop] at outside
      omega
    rw [List.getElem?_eq_none behind, Option.getD_none]
  · rfl

theorem read_write (memory : Nat → α) (address : Nat) (values : List α) :
    read (write memory address values) address values.length = values := by
  apply List.ext_getElem
  · simp
  · intro offset _ inside
    simp [read, write, List.getElem?_eq_getElem inside]

theorem read_write_of_separate {values : List α} {target length : Nat}
    (separate : Region.Separate ⟨address, length⟩ ⟨target, values.length⟩) :
    read (write memory target values) address length = read memory address length :=
  read_congr fun byte covers => write_outside (Region.separate_iff.mp separate byte covers)

theorem read_copy {target source length offset size : Nat} (within : offset + size ≤ length) :
    read (copy memory target source length) (target + offset) size =
      read memory (source + offset) size := by
  apply List.map_congr_left
  intro place inside
  rw [List.mem_range] at inside
  rw [copy, if_pos ⟨by omega, by omega⟩]
  congr 1
  omega

end Memory

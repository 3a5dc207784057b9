import UtilsModules.Datastruct.PoolArray
import UtilsModules.Library.Transition

/-!
Growable arrays over whole runs.

An array is pushed to while others allocate from the same pool and write to what
they have got.  `ArrayRun` keeps, beside the array, the memory that belongs to
whom and the values that have been pushed.
-/

namespace UtilsModules.Datastruct

open Pool

/-- An array in use.  `storage` is the memory of its elements, `others` that of
the other allocations, and `slot` what the last push has returned. -/
structure ArrayRun where
  state : ArrayState
  header : Region
  storage : Region
  others : List Region
  pushed : List (List UInt8)
  slot : Option Nat

inductive ArrayStep where
  /-- `mdl_push_array`; the value is stored in the slot that it returns. -/
  | push (value : List UInt8) (answer : Option Answer)
  /-- Somebody else asks `mdl_palloc` for memory. -/
  | alloc (size : Nat) (answer : Option Answer)
  | write (address : Nat) (bytes : List UInt8)

namespace ArrayRun

def created (others : List Region) (header : Answer) (state : ArrayState) : ArrayRun where
  state := state
  header := ⟨header.address, sizeofArray⟩
  storage := ⟨state.array.elts, createRequest state.array.nalloc state.array.size⟩
  others := others
  pushed := []
  slot := none

def taken (run : ArrayRun) : List Region := run.header :: run.storage :: run.others

theorem forall_mem_taken {run : ArrayRun} {property : Region → Prop} :
    (∀ region ∈ run.taken, property region) ↔
      property run.header ∧ property run.storage ∧ ∀ region ∈ run.others, property region := by
  rw [taken, List.forall_mem_cons, List.forall_mem_cons]

theorem mem_taken {run : ArrayRun} {region : Region}
    (listed : region ∈ run.header :: run.others) : region ∈ run.taken := by
  rcases List.mem_cons.mp listed with rfl | other
  · exact List.mem_cons_self
  · exact List.mem_cons_of_mem _ (List.mem_cons_of_mem _ other)

def Asks (run : ArrayRun) : Prop :=
  run.state.array.nelts = run.state.array.nalloc ∧ ¬ run.state.LastInPool

instance (run : ArrayRun) : Decidable run.Asks := inferInstanceAs (Decidable (_ ∧ _))

def grown (run : ArrayRun) (answer : Option Answer) : Region :=
  if run.state.array.nelts = run.state.array.nalloc then
    if run.state.LastInPool then
      ⟨run.storage.address, run.storage.size + run.state.array.size⟩
    else
      match answer with
      | none => run.storage
      | some new => ⟨new.address, run.state.array.request⟩
  else
    run.storage

def push (run : ArrayRun) (value : List UInt8) (answer : Option Answer) : ArrayRun :=
  match run.state.mdlPushArray answer with
  | (state, none) => { run with state := state, slot := none }
  | (state, some slot) =>
      { run with
        state := { state with memory := Memory.write state.memory slot value }
        storage := run.grown answer
        pushed := run.pushed ++ [value]
        slot := some slot }

def alloc (run : ArrayRun) (size : Nat) : Option Answer → ArrayRun
  | none => run
  | some new =>
      { run with
        state := { run.state with pool := new.pool }
        others := ⟨new.address, size⟩ :: run.others }

def step (run : ArrayRun) : ArrayStep → Option ArrayRun
  | .push value answer => some (run.push value answer)
  | .alloc size answer => some (run.alloc size answer)
  | .write address bytes =>
      some { run with
        state := { run.state with memory := Memory.write run.state.memory address bytes } }

/-- A value has the size of an element, `mdl_palloc` answers as a bump allocator
may, and others write to what is theirs. -/
def Proper (run : ArrayRun) : ArrayStep → Prop
  | .push value answer =>
      value.length = run.state.array.size ∧
        (run.Asks → ∀ new ∈ answer,
          run.state.pool.Serves run.taken run.state.array.request new)
  | .alloc size answer => ∀ new ∈ answer, run.state.pool.Serves run.taken size new
  | .write address bytes => ∃ region ∈ run.others, Region.Within ⟨address, bytes.length⟩ region

instance (run : ArrayRun) (label : ArrayStep) : Decidable (run.Proper label) :=
  match label with
  | .push _ _ => inferInstanceAs (Decidable (_ ∧ (_ → ∀ _ ∈ _, _)))
  | .alloc _ _ => inferInstanceAs (Decidable (∀ _ ∈ _, _))
  | .write _ _ => inferInstanceAs (Decidable (∃ _ ∈ _, _))

/-- The condition on a push.  There is memory for the element where the array is
not full; `nalloc` can be counted up where it grows in place; where it is copied,
it has an element, and neither its doubled count nor its doubled size wraps. -/
def Fits (run : ArrayRun) : ArrayStep → Prop
  | .push _ answer =>
      let array := run.state.array
      if array.nelts = array.nalloc then
        if run.state.LastInPool then
          array.nalloc + 1 < uintSpace
        else
          answer ≠ none →
            0 < array.nalloc ∧ 2 * array.nalloc < uintSpace ∧
              2 * array.nalloc * array.size < sizeSpace
      else
        (array.nelts + 1) * array.size ≤ array.nalloc * array.size % sizeSpace
  | _ => True

instance (run : ArrayRun) (label : ArrayStep) : Decidable (run.Fits label) := by
  unfold Fits
  split <;> infer_instance

/-- What an array promises: the count is that of the elements and within the
allocation, the last slot is in the array's memory and nobody else's, and every
element is where it was put. -/
structure Keeps (run : ArrayRun) : Prop where
  counted : run.state.array.nelts = run.pushed.length
  within : run.state.array.nelts ≤ run.state.array.nalloc
  slot : ∀ slot ∈ run.slot, Region.Within ⟨slot, run.state.array.size⟩ run.storage ∧
    ∀ region ∈ run.header :: run.others, Region.Separate ⟨slot, run.state.array.size⟩ region
  contents : ∀ i value, run.pushed[i]? = some value →
    Memory.read run.state.memory (run.state.array.elts + i * run.state.array.size)
      run.state.array.size = value

def store (run : ArrayRun) (value : List UInt8) : ArrayRun :=
  { run with
    state :=
      { run.state.takeSlot.1 with
        memory := Memory.write run.state.memory run.state.array.behind value }
    pushed := run.pushed ++ [value]
    slot := some run.state.array.behind }

def ready (run : ArrayRun) (state : ArrayState) (storage : Region) : ArrayRun :=
  { run with state := state, storage := storage, slot := none }

structure Sound (run : ArrayRun) : Prop where
  pool : run.state.pool.Sound
  apart : ∀ region ∈ run.taken, run.state.pool.window.Separate region
  own : ∀ region ∈ run.header :: run.others, run.storage.Separate region
  based : run.storage.address = run.state.array.elts
  sized : run.storage.size = run.state.array.nalloc * run.state.array.size % sizeSpace
  bounded : run.storage.stop < sizeSpace
  element : 0 < run.state.array.size
  countable : run.state.array.nalloc < uintSpace
  counted : run.state.array.nelts = run.pushed.length
  within : run.state.array.nelts ≤ run.state.array.nalloc
  room : run.state.array.nelts * run.state.array.size ≤ run.storage.size
  slot : ∀ slot ∈ run.slot, Region.Within ⟨slot, run.state.array.size⟩ run.storage
  values : ∀ value ∈ run.pushed, value.length = run.state.array.size
  contents : ∀ i value, run.pushed[i]? = some value →
    Memory.read run.state.memory (run.state.array.elts + i * run.state.array.size)
      run.state.array.size = value

namespace Sound

variable {run : ArrayRun}

theorem keeps (sound : run.Sound) : run.Keeps where
  counted := sound.counted
  within := sound.within
  slot := fun slot last =>
    ⟨sound.slot slot last, fun region listed =>
      (sound.own region listed).mono (sound.slot slot last) (.refl region)⟩
  contents := sound.contents

theorem behind_eq (sound : run.Sound) :
    run.state.array.behind =
      run.state.array.elts + run.state.array.nelts * run.state.array.size := by
  have room := sound.room
  have bounded := sound.bounded
  have based := sound.based
  simp only [Region.stop] at bounded
  have product : run.state.array.nelts * run.state.array.size % sizeSpace =
      run.state.array.nelts * run.state.array.size := Nat.mod_eq_of_lt (by omega)
  rw [MdlArray.behind, Nat.mul_comm run.state.array.size, product, Nat.mod_eq_of_lt (by omega)]

theorem filled (sound : run.Sound) (full : run.state.array.nelts = run.state.array.nalloc) :
    run.storage.size = run.state.array.nalloc * run.state.array.size := by
  have room := sound.room
  have sized := sound.sized
  have reduced := Nat.mod_le (run.state.array.nalloc * run.state.array.size) sizeSpace
  rw [full] at room
  omega

theorem element_within (sound : run.Sound) {i : Nat} (inside : i < run.state.array.nelts) :
    Region.Within ⟨run.state.array.elts + i * run.state.array.size, run.state.array.size⟩
      run.storage := by
  have room := sound.room
  have based := sound.based
  have upper : (i + 1) * run.state.array.size ≤ run.state.array.nelts * run.state.array.size :=
    Nat.mul_le_mul_right _ inside
  rw [Nat.succ_mul] at upper
  simp only [Region.Within, Region.stop]
  omega

theorem index_lt (sound : run.Sound) {i : Nat} {value : List UInt8}
    (found : run.pushed[i]? = some value) : i < run.state.array.nelts := by
  rw [sound.counted]
  exact (List.getElem?_eq_some_iff.mp found).1

/-- A value that is stored behind the elements is the last of them, and leaves the
others where they are. -/
theorem contents_append (sound : run.Sound) {value : List UInt8}
    (length : value.length = run.state.array.size) {i : Nat} {other : List UInt8}
    (found : (run.pushed ++ [value])[i]? = some other) :
    Memory.read (Memory.write run.state.memory run.state.array.behind value)
      (run.state.array.elts + i * run.state.array.size) run.state.array.size = other := by
  have behind := sound.behind_eq
  have counted := sound.counted
  by_cases old : i < run.pushed.length
  · rw [List.getElem?_append_left old] at found
    rw [← sound.contents i other found]
    have before : (i + 1) * run.state.array.size ≤
        run.state.array.nelts * run.state.array.size :=
      Nat.mul_le_mul_right _ (sound.index_lt found)
    rw [Nat.succ_mul] at before
    apply Memory.read_write_of_separate
    simp only [Region.Separate, Region.Apart, Region.stop, behind]
    omega
  · rw [List.getElem?_append_right (Nat.le_of_not_lt old), List.getElem?_singleton] at found
    split at found
    · next first =>
      obtain rfl := Option.some.inj found
      have last : i = run.state.array.nelts := by omega
      rw [last, ← behind, ← length]
      exact Memory.read_write _ _ _
    · cases found

theorem fill (sound : run.Sound) {value : List UInt8}
    (more : run.state.array.nelts < run.state.array.nalloc)
    (room : (run.state.array.nelts + 1) * run.state.array.size ≤ run.storage.size)
    (length : value.length = run.state.array.size) :
    (run.store value).Sound := by
  have countable := sound.countable
  have taken : (run.state.array.nelts + 1) % uintSpace = run.state.array.nelts + 1 :=
    Nat.mod_eq_of_lt (by omega)
  have behind := sound.behind_eq
  refine { sound with
    counted := ?counted, within := ?within, room := ?room, slot := ?slot, values := ?values,
    contents := ?contents }
  case counted =>
    simp only [store, ArrayState.takeSlot, taken, List.length_append, List.length_singleton]
    rw [sound.counted]
  case within =>
    simp only [store, ArrayState.takeSlot, taken]
    exact more
  case room =>
    simp only [store, ArrayState.takeSlot, taken]
    exact room
  case slot =>
    rintro slot ⟨⟩
    have based := sound.based
    rw [Nat.succ_mul] at room
    simp only [store, ArrayState.takeSlot, behind, Region.Within, Region.stop]
    omega
  case values =>
    intro other listed
    rcases List.mem_append.mp listed with old | new
    · exact sound.values other old
    · rw [List.mem_singleton.mp new]
      exact length
  case contents => exact fun i other found => sound.contents_append length found

/-- There is free memory for the element behind an array that grows in place. -/
theorem room_behind (sound : run.Sound) (last : run.state.LastInPool) :
    run.state.pool.last + run.state.array.size ≤ run.state.pool.end_ := by
  obtain ⟨ordered, bounded⟩ := sound.pool
  have enough := last.2
  have distance : (run.state.pool.end_ + sizeSpace - run.state.pool.last) % uintSpace ≤
      run.state.pool.end_ - run.state.pool.last := by
    have multiple : sizeSpace = uintSpace * uintSpace := rfl
    have split : run.state.pool.end_ + sizeSpace - run.state.pool.last =
        run.state.pool.end_ - run.state.pool.last + uintSpace * uintSpace := by
      rw [← multiple]
      omega
    rw [split, Nat.add_mul_mod_self_left]
    exact Nat.mod_le _ _
  omega

/-- A full array that is the last allocation takes the next bytes of the pool. -/
theorem extend (sound : run.Sound) (full : run.state.array.nelts = run.state.array.nalloc)
    (last : run.state.LastInPool) (countable : run.state.array.nalloc + 1 < uintSpace) :
    (run.ready run.state.extend
      ⟨run.storage.address, run.storage.size + run.state.array.size⟩).Sound := by
  obtain ⟨ordered, bounded⟩ := sound.pool
  have behind := sound.room_behind last
  have filled := sound.filled full
  have based := sound.based
  have stop : run.storage.address + run.storage.size = run.state.pool.last := by
    rw [← last.1, sound.behind_eq, based, filled, full]
  have moved : (run.state.pool.last + run.state.array.size) % sizeSpace =
      run.state.pool.last + run.state.array.size := Nat.mod_eq_of_lt (by omega)
  have counted : (run.state.array.nalloc + 1) % uintSpace = run.state.array.nalloc + 1 :=
    Nat.mod_eq_of_lt countable
  have left : run.state.extend.pool.window.Within run.state.pool.window := by
    simp only [ArrayState.extend, moved, PallocPool.window, Region.Within, Region.stop]
    omega
  have gained : Region.Within ⟨run.state.pool.last, run.state.array.size⟩ run.state.pool.window := by
    simp only [PallocPool.window, Region.Within, Region.stop]
    omega
  have joined : ∀ region ∈ run.header :: run.others,
      Region.Separate ⟨run.storage.address, run.storage.size + run.state.array.size⟩ region := by
    intro region listed
    apply (sound.own region listed).joined
    rw [stop]
    exact (sound.apart region (mem_taken listed)).mono gained (.refl region)
  refine { sound with
    pool := ?pool, apart := ?apart, own := ?own, based := ?based, sized := ?sized,
    bounded := ?bounded, countable := ?countable, within := ?within, room := ?room,
    slot := ?slot }
  case pool =>
    simp only [ready, ArrayState.extend, moved]
    exact ⟨behind, bounded⟩
  case apart =>
    obtain ⟨fromHeader, -, fromOthers⟩ := forall_mem_taken.mp sound.apart
    refine forall_mem_taken.mpr ⟨fromHeader.mono left (.refl _), ?_, fun region other => ?_⟩
    · simp only [ready, ArrayState.extend, moved, PallocPool.window, Region.Separate, Region.Apart,
        Region.stop]
      omega
    · exact (fromOthers region other).mono left (.refl region)
  case own => exact joined
  case based => exact based
  case sized =>
    have product : (run.state.array.nalloc + 1) * run.state.array.size =
        run.storage.size + run.state.array.size := by
      rw [Nat.succ_mul, filled]
    simp only [ready, ArrayState.extend, counted, product]
    exact (Nat.mod_eq_of_lt (by omega)).symm
  case bounded =>
    simp only [ready, Region.stop]
    omega
  case countable =>
    simp only [ready, ArrayState.extend, counted]
    exact countable
  case within =>
    simp only [ready, ArrayState.extend, counted, full]
    exact Nat.le_succ _
  case room => exact Nat.le_add_right_of_le sound.room
  case slot => simp [ready]

theorem relocate (sound : run.Sound) (full : run.state.array.nelts = run.state.array.nalloc)
    {new : Answer}
    (fresh : PallocPool.Fresh run.taken run.state.array.request new)
    (countable : 2 * run.state.array.nalloc < uintSpace)
    (fits : 2 * run.state.array.nalloc * run.state.array.size < sizeSpace) :
    (run.ready (run.state.relocate new) ⟨new.address, run.state.array.request⟩).Sound := by
  have counted : 2 * run.state.array.nalloc % uintSpace = 2 * run.state.array.nalloc :=
    Nat.mod_eq_of_lt countable
  have request : run.state.array.request = 2 * run.state.array.nalloc * run.state.array.size := by
    rw [MdlArray.request, counted, Nat.mod_eq_of_lt fits]
  have doubled : 2 * run.state.array.nalloc * run.state.array.size =
      run.state.array.nalloc * run.state.array.size +
        run.state.array.nalloc * run.state.array.size := by
    rw [Nat.mul_assoc, Nat.two_mul]
  refine { sound with
    pool := ?pool, apart := ?apart, own := ?own, based := ?based, sized := ?sized,
    bounded := ?bounded, countable := ?countable, within := ?within, room := ?room,
    slot := ?slot, contents := ?contents }
  case pool => exact fresh.sound
  case apart =>
    obtain ⟨fromHeader, -, fromOthers⟩ := forall_mem_taken.mp fresh.left
    exact forall_mem_taken.mpr ⟨fromHeader, fresh.behind, fromOthers⟩
  case own => exact fun region listed => fresh.given region (mem_taken listed)
  case based => rfl
  case sized =>
    simp only [ready, ArrayState.relocate, counted]
    rw [request, Nat.mod_eq_of_lt fits]
  case bounded => exact fresh.bounded
  case countable =>
    simp only [ready, ArrayState.relocate, counted]
    exact countable
  case within =>
    simp only [ready, ArrayState.relocate, counted, full]
    omega
  case room =>
    simp only [ready, ArrayState.relocate, full, request]
    omega
  case slot => simp [ready]
  case contents =>
    intro i value found
    have inside := sound.index_lt found
    have before : (i + 1) * run.state.array.size ≤
        run.state.array.nalloc * run.state.array.size :=
      Nat.mul_le_mul_right _ (full ▸ inside)
    rw [Nat.succ_mul] at before
    have copied : run.state.array.nalloc * run.state.array.size % sizeSpace =
        run.state.array.nalloc * run.state.array.size := Nat.mod_eq_of_lt (by omega)
    simp only [ready, ArrayState.relocate, copied]
    rw [Memory.read_copy before]
    exact sound.contents i value found

theorem refuse (sound : run.Sound) : Sound { run with slot := none } :=
  { sound with slot := by simp }

end Sound

inductive PushCase (run : ArrayRun) (value : List UInt8) (answer : Option Answer) :
    ArrayRun → Prop where
  | room : run.state.array.nelts ≠ run.state.array.nalloc →
      PushCase run value answer (run.store value)
  | last : run.state.array.nelts = run.state.array.nalloc → run.state.LastInPool →
      PushCase run value answer
        ((run.ready run.state.extend
          ⟨run.storage.address, run.storage.size + run.state.array.size⟩).store value)
  | refused : run.Asks → answer = none → PushCase run value answer { run with slot := none }
  | copied (new : Answer) : run.Asks → answer = some new →
      PushCase run value answer
        ((run.ready (run.state.relocate new) ⟨new.address, run.state.array.request⟩).store value)

theorem push_cases (run : ArrayRun) (value : List UInt8) (answer : Option Answer) :
    PushCase run value answer (run.push value answer) := by
  by_cases full : run.state.array.nelts = run.state.array.nalloc
  · by_cases last : run.state.LastInPool
    · have equal : run.push value answer = (run.ready run.state.extend
          ⟨run.storage.address, run.storage.size + run.state.array.size⟩).store value := by
        simp only [push, ArrayState.mdlPushArray, if_pos full, if_pos last, ArrayState.takeSlot,
          grown, store, ready]
      rw [equal]
      exact .last full last
    · cases answer with
      | none =>
          have equal : run.push value none = { run with slot := none } := by
            simp only [push, ArrayState.mdlPushArray, if_pos full, if_neg last]
          rw [equal]
          exact .refused ⟨full, last⟩ rfl
      | some new =>
          have equal : run.push value (some new) = (run.ready (run.state.relocate new)
              ⟨new.address, run.state.array.request⟩).store value := by
            simp only [push, ArrayState.mdlPushArray, if_pos full, if_neg last,
              ArrayState.takeSlot, grown, store, ready]
          rw [equal]
          exact .copied new ⟨full, last⟩ rfl
  · have equal : run.push value answer = run.store value := by
      simp only [push, ArrayState.mdlPushArray, if_neg full, ArrayState.takeSlot, grown, store]
    rw [equal]
    exact .room full

namespace Sound

variable {run : ArrayRun} {value : List UInt8} {answer : Option Answer}

theorem fresh (sound : run.Sound) (proper : run.Proper (.push value answer)) {new : Answer}
    (asks : run.Asks) (answered : answer = some new) :
    PallocPool.Fresh run.taken run.state.array.request new :=
  sound.pool.fresh sound.apart (proper.2 asks new answered)

theorem push (sound : run.Sound) (proper : run.Proper (.push value answer))
    (fits : run.Fits (.push value answer)) : (run.push value answer).Sound := by
  have cases_ := run.push_cases value answer
  generalize run.push value answer = after at cases_
  cases cases_ with
  | room notFull =>
      rw [Fits, if_neg notFull] at fits
      exact sound.fill (Nat.lt_of_le_of_ne sound.within notFull) (sound.sized ▸ fits) proper.1
  | last full last =>
      rw [Fits, if_pos full, if_pos last] at fits
      have filled := sound.filled full
      apply (sound.extend full last fits).fill
      · simp only [ready, ArrayState.extend, full]
        rw [Nat.mod_eq_of_lt fits]
        exact Nat.lt_succ_self _
      · simp only [ready, ArrayState.extend, full]
        rw [Nat.succ_mul, filled]
      · exact proper.1
  | refused => exact sound.refuse
  | copied new asks answered =>
      rw [Fits, if_pos asks.1, if_neg asks.2] at fits
      obtain ⟨positive, countable, small⟩ := fits (by simp [answered])
      have counted : 2 * run.state.array.nalloc % uintSpace = 2 * run.state.array.nalloc :=
        Nat.mod_eq_of_lt countable
      apply (sound.relocate asks.1 (sound.fresh proper asks answered) countable small).fill
      · simp only [ready, ArrayState.relocate, counted, asks.1]
        omega
      · simp only [ready, ArrayState.relocate, asks.1]
        rw [MdlArray.request, counted, Nat.mod_eq_of_lt small]
        exact Nat.mul_le_mul_right _ (by omega)
      · exact proper.1

/-- A slot behind the memory of the elements is not the array's. -/
theorem room_of_keeps (sound : run.Sound) (keeps : (run.store value).Keeps) :
    (run.state.array.nelts + 1) * run.state.array.size ≤ run.storage.size := by
  have inside := (keeps.slot run.state.array.behind rfl).1
  have behind := sound.behind_eq
  have based := sound.based
  rw [Nat.succ_mul]
  simp only [store, ArrayState.takeSlot, Region.Within, Region.stop] at inside
  omega

theorem countable_of_keeps (sound : run.Sound) {state : ArrayState} {storage : Region}
    (keeps : ((run.ready state storage).store value).Keeps)
    (same : state.array.nelts = run.state.array.nelts) :
    run.state.array.nelts + 1 < uintSpace := by
  have counted := keeps.counted
  simp only [store, ready, ArrayState.takeSlot, same, List.length_append, List.length_singleton,
    ← sound.counted] at counted
  have below := Nat.mod_lt (run.state.array.nelts + 1) (by decide : 0 < uintSpace)
  omega

/-- A copy to memory of a size that has wrapped does not hold the new slot. -/
theorem small_of_keeps (sound : run.Sound) {new : Answer} (asks : run.Asks)
    (fresh : PallocPool.Fresh run.taken run.state.array.request new)
    (countable : 2 * run.state.array.nalloc < uintSpace)
    (keeps : ((run.ready (run.state.relocate new)
      ⟨new.address, run.state.array.request⟩).store value).Keeps) :
    2 * run.state.array.nalloc * run.state.array.size < sizeSpace := by
  have filled := sound.filled asks.1
  have stop := sound.bounded
  have limit := fresh.bounded
  have element := sound.element
  have inside := (keeps.slot (run.state.relocate new).array.behind rfl).1
  have counted : 2 * run.state.array.nalloc % uintSpace = 2 * run.state.array.nalloc :=
    Nat.mod_eq_of_lt countable
  simp only [store, ready, ArrayState.takeSlot, ArrayState.relocate, MdlArray.behind,
    MdlArray.request, counted, asks.1, Region.Within, Region.stop,
    Nat.mul_comm run.state.array.size] at inside limit
  rw [Nat.mul_assoc, ← filled] at inside limit ⊢
  simp only [Region.stop] at stop
  rw [sizeSpace_eq] at *
  omega

theorem fits_of_keeps (sound : run.Sound) (proper : run.Proper (.push value answer))
    (keeps : (run.push value answer).Keeps) : run.Fits (.push value answer) := by
  have cases_ := run.push_cases value answer
  generalize run.push value answer = after at cases_ keeps
  cases cases_ with
  | room notFull =>
      rw [Fits, if_neg notFull, ← sound.sized]
      exact sound.room_of_keeps keeps
  | last full last =>
      rw [Fits, if_pos full, if_pos last, ← full]
      exact sound.countable_of_keeps keeps rfl
  | refused asks answered =>
      rw [Fits, if_pos asks.1, if_neg asks.2]
      exact fun some_ => absurd answered some_
  | copied new asks answered =>
      rw [Fits, if_pos asks.1, if_neg asks.2]
      intro _
      have next := sound.countable_of_keeps keeps rfl
      have within := keeps.within
      have bound := sound.countable
      simp only [store, ready, ArrayState.takeSlot, ArrayState.relocate, asks.1] at within next
      rw [Nat.mod_eq_of_lt next] at within
      have countable : 2 * run.state.array.nalloc < uintSpace := by
        by_contra wraps
        rw [Nat.mod_eq_sub_mod (Nat.le_of_not_lt wraps), Nat.mod_eq_of_lt (by omega)] at within
        omega
      rw [Nat.mod_eq_of_lt countable] at within
      exact ⟨by omega, countable,
        sound.small_of_keeps asks (sound.fresh proper asks answered) countable keeps⟩

theorem alloc (sound : run.Sound) {size : Nat}
    (serves : ∀ new ∈ answer, run.state.pool.Serves run.taken size new) :
    (run.alloc size answer).Sound := by
  cases answer with
  | none => exact sound
  | some new =>
      have fresh := sound.pool.fresh sound.apart (serves new rfl)
      refine { sound with pool := ?pool, apart := ?apart, own := ?own }
      case pool => exact fresh.sound
      case apart =>
        obtain ⟨fromHeader, fromStorage, fromOthers⟩ := forall_mem_taken.mp fresh.left
        exact forall_mem_taken.mpr
          ⟨fromHeader, fromStorage, List.forall_mem_cons.mpr ⟨fresh.behind, fromOthers⟩⟩
      case own =>
        obtain ⟨ownHeader, ownOthers⟩ := List.forall_mem_cons.mp sound.own
        obtain ⟨-, apartStorage, -⟩ := forall_mem_taken.mp fresh.given
        exact List.forall_mem_cons.mpr
          ⟨ownHeader, List.forall_mem_cons.mpr ⟨apartStorage.symm, ownOthers⟩⟩

theorem write (sound : run.Sound) {address : Nat} {bytes : List UInt8} {region : Region}
    (owned : region ∈ run.others) (inside : Region.Within ⟨address, bytes.length⟩ region) :
    Sound { run with
      state := { run.state with memory := Memory.write run.state.memory address bytes } } := by
  refine { sound with contents := fun i value found => ?_ }
  rw [← sound.contents i value found]
  apply Memory.read_write_of_separate
  have own := sound.own region (List.mem_cons_of_mem _ owned)
  exact own.mono (sound.element_within (sound.index_lt found)) inside

theorem step (sound : run.Sound) {label : ArrayStep} {next : ArrayRun} (proper : run.Proper label)
    (fits : run.Fits label) (stepped : run.step label = some next) : next.Sound := by
  cases label with
  | push value answer =>
      obtain rfl := Option.some.inj stepped
      exact sound.push proper fits
  | alloc size answer =>
      obtain rfl := Option.some.inj stepped
      exact sound.alloc proper
  | write address bytes =>
      obtain rfl := Option.some.inj stepped
      obtain ⟨region, owned, inside⟩ := proper
      exact sound.write owned inside

theorem step_iff (sound : run.Sound) {label : ArrayStep} {next : ArrayRun}
    (proper : run.Proper label) (stepped : run.step label = some next) :
    run.Fits label ↔ next.Keeps := by
  refine ⟨fun fits => (sound.step proper fits stepped).keeps, fun keeps => ?_⟩
  cases label with
  | push value answer =>
      obtain rfl := Option.some.inj stepped
      exact sound.fits_of_keeps proper keeps
  | alloc size answer => trivial
  | write address bytes => trivial

end Sound

theorem sound_created {pool : PallocPool} {others : List Region} {memory : Nat → UInt8}
    {n size : Nat} {header elts : Answer} {state : ArrayState} (sound : pool.Sound)
    (apart : ∀ region ∈ others, pool.window.Separate region)
    (countable : n < uintSpace) (element : 0 < size)
    (headerServes : pool.Serves others sizeofArray header)
    (eltsServes : header.pool.Serves (⟨header.address, sizeofArray⟩ :: others)
      (createRequest n size) elts)
    (made : mdlCreateArray memory n size (some header) (some elts) = some state) :
    (created others header state).Sound := by
  obtain rfl := Option.some.inj made
  have first := sound.fresh apart headerServes
  have second := first.sound.fresh (List.forall_mem_cons.mpr ⟨first.behind, first.left⟩) eltsServes
  constructor
  case pool => exact second.sound
  case apart =>
    obtain ⟨fromHeader, fromOthers⟩ := List.forall_mem_cons.mp second.left
    exact forall_mem_taken.mpr ⟨fromHeader, second.behind, fromOthers⟩
  case own => exact second.given
  case based => rfl
  case sized => rfl
  case bounded => exact second.bounded
  case element => exact element
  case countable => exact countable
  case counted => rfl
  case within => exact Nat.zero_le _
  case room => simp [created]
  case slot => simp [created]
  case values => simp [created]
  case contents => simp [created]

end ArrayRun

/-- Along every run of an array that has been created, with any other allocations
in between, the array keeps its elements in every state just when every push
fits; and a push that returns `NULL` leaves the array unchanged. -/
theorem array_keeps_iff_fits {pool : PallocPool} {others : List Region} {memory : Nat → UInt8}
    {n size : Nat} {header elts : Answer} {state : ArrayState} {labels : List ArrayStep}
    (sound : pool.Sound) (apart : ∀ region ∈ others, pool.window.Separate region)
    (countable : n < uintSpace) (element : 1 ≤ size)
    (headerServes : pool.Serves others sizeofArray header)
    (eltsServes : header.pool.Serves (⟨header.address, sizeofArray⟩ :: others)
      (createRequest n size) elts)
    (made : mdlCreateArray memory n size (some header) (some elts) = some state)
    (proper : Transition.Guarded ArrayRun.step ArrayRun.Proper
      (.created others header state) labels) :
    ((∀ count middle, Transition.run ArrayRun.step (.created others header state)
        (labels.take count) = some middle → middle.Keeps) ↔
      Transition.Guarded ArrayRun.step ArrayRun.Fits (.created others header state) labels) ∧
    ∀ (state after : ArrayState) (answer : Option Answer),
      state.mdlPushArray answer = (after, none) → after = state := by
  have started := ArrayRun.sound_created sound apart countable element headerServes eltsServes made
  refine ⟨?_, fun _ _ _ pushed => ArrayState.mdlPushArray_null pushed⟩
  refine Iff.symm (@Transition.guarded_iff_of_promised _ _ ArrayRun.step ArrayRun.Proper
    ArrayRun.Fits ArrayRun.Sound ArrayRun.Keeps ?_ ?_ ?_ ?_ _ _ started proper)
  · intro run label _ _
    cases label with
    | push value answer => exact ⟨_, rfl⟩
    | alloc size answer => exact ⟨_, rfl⟩
    | write address bytes => exact ⟨_, rfl⟩
  · exact fun _ _ _ sound proper stepped => sound.step_iff proper stepped
  · exact fun _ _ _ sound proper fits stepped => sound.step proper fits stepped
  · exact fun _ sound => sound.keeps

/-- An array of one element of two bytes that grows in place, is refused memory
after another allocation, and is then copied, to a block that is new. -/
theorem array_keeps_iff_fits_copied :
    ∃ run, Transition.run ArrayRun.step
        (.created [] ⟨1000, ⟨1040, 1100⟩, none⟩ ⟨⟨1042, 1100⟩, ⟨1040, 0, 2, 1⟩, fun _ => 0⟩)
        [.push [1, 2] none, .push [3, 4] none, .alloc 16 (some ⟨1044, ⟨1060, 1100⟩, none⟩),
          .push [5, 6] none, .push [5, 6] (some ⟨5000, ⟨1060, 1100⟩, some ⟨5000, 8⟩⟩),
          .write 1044 [7, 7, 7], .push [8, 9] none] = some run ∧
      run.state.array = ⟨5000, 4, 2, 4⟩ ∧
      Memory.read run.state.memory 5000 8 = [1, 2, 3, 4, 5, 6, 8, 9] ∧ run.Keeps := by
  have along := (@array_keeps_iff_fits ⟨1000, 1100⟩ [] (fun _ => 0) 1 2
    ⟨1000, ⟨1040, 1100⟩, none⟩ ⟨1040, ⟨1042, 1100⟩, none⟩
    ⟨⟨1042, 1100⟩, ⟨1040, 0, 2, 1⟩, fun _ => 0⟩
    [.push [1, 2] none, .push [3, 4] none, .alloc 16 (some ⟨1044, ⟨1060, 1100⟩, none⟩),
      .push [5, 6] none, .push [5, 6] (some ⟨5000, ⟨1060, 1100⟩, some ⟨5000, 8⟩⟩),
      .write 1044 [7, 7, 7], .push [8, 9] none]
    ⟨by decide, by decide⟩ (by simp) (by decide) (by decide) (by decide +kernel)
    (by decide +kernel) rfl (by decide +kernel)).1.mpr (by decide +kernel)
  have view : (Transition.run ArrayRun.step
      (.created [] ⟨1000, ⟨1040, 1100⟩, none⟩ ⟨⟨1042, 1100⟩, ⟨1040, 0, 2, 1⟩, fun _ => 0⟩)
      [.push [1, 2] none, .push [3, 4] none, .alloc 16 (some ⟨1044, ⟨1060, 1100⟩, none⟩),
        .push [5, 6] none, .push [5, 6] (some ⟨5000, ⟨1060, 1100⟩, some ⟨5000, 8⟩⟩),
        .write 1044 [7, 7, 7], .push [8, 9] none]).map
        (fun run => (run.state.array, Memory.read run.state.memory 5000 8)) =
          some (⟨5000, 4, 2, 4⟩, [1, 2, 3, 4, 5, 6, 8, 9]) := by
    decide +kernel
  obtain ⟨run, ran, seen⟩ := Option.map_eq_some_iff.mp view
  obtain ⟨array, contents⟩ := Prod.mk.inj seen
  exact ⟨run, ran, array, contents, along 7 run ran⟩

/-- An array that was created for no element, and is no longer the last allocation
when the first one is pushed: it asks for no memory, and returns a slot in the
free memory of the pool, which is then given to somebody else. -/
theorem push_copies_empty_array :
    PallocPool.Serves ⟨1000, 1100⟩ [] sizeofArray ⟨1000, ⟨1040, 1100⟩, none⟩ ∧
    PallocPool.Serves ⟨1040, 1100⟩ [⟨1000, sizeofArray⟩] (createRequest 0 2)
      ⟨1040, ⟨1040, 1100⟩, none⟩ ∧
    mdlCreateArray (fun _ => 0) 0 2 (some ⟨1000, ⟨1040, 1100⟩, none⟩)
      (some ⟨1040, ⟨1040, 1100⟩, none⟩) = some ⟨⟨1040, 1100⟩, ⟨1040, 0, 2, 0⟩, fun _ => 0⟩ ∧
    ∃ run, Transition.Guarded ArrayRun.step ArrayRun.Proper
        (.created [] ⟨1000, ⟨1040, 1100⟩, none⟩ ⟨⟨1040, 1100⟩, ⟨1040, 0, 2, 0⟩, fun _ => 0⟩)
        [.alloc 16 (some ⟨1040, ⟨1056, 1100⟩, none⟩),
          .push [1, 2] (some ⟨1056, ⟨1056, 1100⟩, none⟩),
          .alloc 8 (some ⟨1056, ⟨1064, 1100⟩, none⟩), .write 1056 [7]] ∧
      Transition.run ArrayRun.step
        (.created [] ⟨1000, ⟨1040, 1100⟩, none⟩ ⟨⟨1040, 1100⟩, ⟨1040, 0, 2, 0⟩, fun _ => 0⟩)
        [.alloc 16 (some ⟨1040, ⟨1056, 1100⟩, none⟩),
          .push [1, 2] (some ⟨1056, ⟨1056, 1100⟩, none⟩),
          .alloc 8 (some ⟨1056, ⟨1064, 1100⟩, none⟩), .write 1056 [7]] = some run ∧
      run.state.array = ⟨1056, 1, 2, 0⟩ ∧ run.slot = some 1056 ∧ ⟨1056, 8⟩ ∈ run.others ∧
      run.pushed = [[1, 2]] ∧ Memory.read run.state.memory 1056 2 = [7, 2] ∧ ¬ run.Keeps := by
  refine ⟨by decide +kernel, by decide +kernel, rfl, _, by decide +kernel, rfl, rfl, rfl,
    List.mem_cons_self, rfl, by decide +kernel, ?_⟩
  intro keeps
  exact absurd keeps.within (by decide)

end UtilsModules.Datastruct

import UtilsModules.Fifo.Traffic

/-!
`__kfifo_put` and `__kfifo_get` of one writer and one reader at the same time.

The steps of the two calls interleave in any way: each reads the counters, copies
byte by byte and then moves its own counter.  Steps take effect in the order in
which they are taken.

The macro `min` evaluates its second argument again where the first one is not
smaller, so the counter of the other user is read once more after the comparison and
may have moved on.  A call that finds more than its buffer holds at that moment copies
beyond the end of the buffer.
-/

namespace UtilsModules.Fifo

/-- A call between reading the counters and moving its own. -/
structure Copying where
  buffer : List UInt8
  len : Nat
  l : Nat
  left : List Nat
  deriving DecidableEq, Repr

inductive Call where
  /-- `min` has compared and evaluates its second argument again. -/
  | sizing (buffer : List UInt8) (len : Nat)
  | copying (copying : Copying)
  deriving DecidableEq, Repr

def Call.buffer : Call → List UInt8
  | .sizing buffer _ => buffer
  | .copying call => call.buffer

def Call.copying? : Call → Option Copying
  | .sizing _ _ => none
  | .copying call => some call

namespace Copying

def begin (fifo : Kfifo) (counter : Nat) (buffer : List UInt8) (len : Nat) : Copying where
  buffer := buffer
  len := len
  l := min len (uintSub fifo.size (counter &&& uintSub fifo.size 1))
  left := List.range len

/-- The first `memcpy` copies `l` bytes and the second one the rest; each copies
its bytes in an order of its own. -/
def Next (copying : Copying) (index : Nat) : Prop :=
  index ∈ copying.left ∧ (index < copying.l ∨ ∀ other ∈ copying.left, copying.l ≤ other)

instance (copying : Copying) (index : Nat) : Decidable (copying.Next index) :=
  inferInstanceAs (Decidable (_ ∧ _))

/-- Where a byte lies in the ring: behind the counter, or at the beginning. -/
def slot (copying : Copying) (fifo : Kfifo) (counter index : Nat) : Nat :=
  if index < copying.l then (counter &&& uintSub fifo.size 1) + index else index - copying.l

end Copying

/-- The ring with its two users, and the bytes that have gone in and come out. -/
structure Shared where
  fifo : Kfifo
  writer : Option Call
  reader : Option Call
  accepted : List UInt8
  delivered : List UInt8
  deriving DecidableEq, Repr

inductive SharedStep where
  | putStart (buffer : List UInt8) (len : Nat)
  | putRoom
  | putByte (index : Nat)
  | putEnd
  | getStart (buffer : List UInt8) (len : Nat)
  | getRoom
  | getByte (index : Nat)
  | getEnd
  deriving DecidableEq, Repr

namespace Shared

def start (buffer : List UInt8) : Shared := ⟨.empty buffer, none, none, [], []⟩

def writing (shared : Shared) : Option Copying := shared.writer.bind Call.copying?

def reading (shared : Shared) : Option Copying := shared.reader.bind Call.copying?

def room (shared : Shared) : Nat :=
  uintAdd (uintSub shared.fifo.size shared.fifo.in_) shared.fifo.out

def step (shared : Shared) : SharedStep → Option Shared
  | .putStart buffer len =>
      let fifo := shared.fifo
      some { shared with
        writer := some (if len < shared.room then .copying (.begin fifo fifo.in_ buffer len)
          else .sizing buffer len) }
  | .putRoom =>
      let fifo := shared.fifo
      match shared.writer with
      | some (.sizing buffer _) =>
          some { shared with
            writer := some (.copying (.begin fifo fifo.in_ buffer shared.room)) }
      | _ => none
  | .putByte index => do
      let copying ← shared.writing
      let fifo := shared.fifo
      let slot := copying.slot fifo fifo.in_ index
      let byte ← copying.buffer[index]?
      if slot < fifo.buffer.length then
        some { shared with
          fifo := { fifo with buffer := fifo.buffer.set slot byte }
          writer := some (.copying { copying with left := copying.left.erase index }) }
      else none
  | .putEnd => do
      let copying ← shared.writing
      some { shared with
        fifo := { shared.fifo with in_ := uintAdd shared.fifo.in_ copying.len }
        writer := none
        accepted := shared.accepted ++ copying.buffer.take copying.len }
  | .getStart buffer len =>
      let fifo := shared.fifo
      some { shared with
        reader := some (if len < kfifoLen fifo then .copying (.begin fifo fifo.out buffer len)
          else .sizing buffer len) }
  | .getRoom =>
      let fifo := shared.fifo
      match shared.reader with
      | some (.sizing buffer _) =>
          some { shared with
            reader := some (.copying (.begin fifo fifo.out buffer (kfifoLen fifo))) }
      | _ => none
  | .getByte index => do
      let copying ← shared.reading
      let fifo := shared.fifo
      let byte ← fifo.buffer[copying.slot fifo fifo.out index]?
      if index < copying.buffer.length then
        some { shared with reader := some (.copying { copying with
          buffer := copying.buffer.set index byte, left := copying.left.erase index }) }
      else none
  | .getEnd => do
      let copying ← shared.reading
      some { shared with
        fifo := { shared.fifo with out := uintAdd shared.fifo.out copying.len }
        reader := none
        delivered := shared.delivered ++ copying.buffer.take copying.len }

/-- The steps that the two users take: a caller gives a buffer of the length it
says, and a call goes through its own steps in order. -/
def Allowed (shared : Shared) : SharedStep → Prop
  | .putStart buffer len => shared.writer = none ∧ len ≤ buffer.length
  | .putRoom => ∃ call ∈ shared.writer, call.copying? = none
  | .putByte index => ∃ copying ∈ shared.writing, copying.Next index
  | .putEnd => ∃ copying ∈ shared.writing, copying.left = []
  | .getStart buffer len => shared.reader = none ∧ len ≤ buffer.length
  | .getRoom => ∃ call ∈ shared.reader, call.copying? = none
  | .getByte index => ∃ copying ∈ shared.reading, copying.Next index
  | .getEnd => ∃ copying ∈ shared.reading, copying.left = []

/-- The second evaluation in `min` gives no more than the buffer of the caller holds. -/
def Settled (shared : Shared) : SharedStep → Prop
  | .putRoom => ∀ call ∈ shared.writer, shared.room ≤ call.buffer.length
  | .getRoom => ∀ call ∈ shared.reader, kfifoLen shared.fifo ≤ call.buffer.length
  | _ => True

instance : DecidableRel Allowed
  | _, .putStart _ _ => inferInstanceAs (Decidable (_ ∧ _))
  | _, .putRoom => inferInstanceAs (Decidable (∃ call ∈ _, _))
  | _, .putByte _ => inferInstanceAs (Decidable (∃ copying ∈ _, _))
  | _, .putEnd => inferInstanceAs (Decidable (∃ copying ∈ _, _))
  | _, .getStart _ _ => inferInstanceAs (Decidable (_ ∧ _))
  | _, .getRoom => inferInstanceAs (Decidable (∃ call ∈ _, _))
  | _, .getByte _ => inferInstanceAs (Decidable (∃ copying ∈ _, _))
  | _, .getEnd => inferInstanceAs (Decidable (∃ copying ∈ _, _))

instance : DecidableRel Settled := by
  intro shared label
  unfold Settled
  split <;> infer_instance

end Shared

/-! ## What holds between the steps -/

structure Copying.Under (copying : Copying) (turn counter room : Nat) (arrived : Nat → Prop) :
    Prop where
  fits : copying.len ≤ room
  given : copying.len ≤ copying.buffer.length
  piece : copying.l = min copying.len (turn - counter % turn)
  inside : ∀ index ∈ copying.left, index < copying.len
  done : ∀ index < copying.len, index ∉ copying.left → arrived index

/-- The ring holds what has gone in and not come out.  Behind it the writer has
put some of its bytes, and the reader has read some of the oldest ones. -/
structure Shared.Sound (shared : Shared) (stored : List UInt8) : Prop where
  stores : shared.fifo.Stores stored
  accounted : shared.accepted = shared.delivered ++ stored
  writing : ∀ copying ∈ shared.writing, copying.Under shared.fifo.size shared.fifo.in_
    (shared.fifo.size - stored.length) fun index =>
      shared.fifo.buffer[(shared.fifo.in_ + index) % shared.fifo.size]? = copying.buffer[index]?
  reading : ∀ copying ∈ shared.reading, copying.Under shared.fifo.size shared.fifo.out
    stored.length fun index => copying.buffer[index]? = stored[index]?

namespace Kfifo.Stores

variable {fifo : Kfifo} {stored : List UInt8}

/-- A byte behind the stored ones is copied to its place in the ring. -/
theorem slot_eq (stores : fifo.Stores stored) {copying : Copying} {counter room index : Nat}
    {arrived : Nat → Prop} (under : copying.Under fifo.size counter room arrived)
    (small : room ≤ fifo.size) (inside : index < copying.len) :
    copying.slot fifo counter index = (counter + index) % fifo.size := by
  have positive := stores.positive
  have below := Nat.mod_lt counter positive
  have fits := under.fits
  have piece := under.piece
  rw [Copying.slot, stores.mask, stores.allocated, ← Nat.mod_add_mod]
  generalize counter % fifo.size = place at below piece ⊢
  split
  · rw [Nat.mod_eq_of_lt (by omega)]
  · rw [Nat.mod_eq_sub_mod (by omega), Nat.mod_eq_of_lt (by omega)]
    omega

theorem in_mod (stores : fifo.Stores stored) (index : Nat) :
    (fifo.in_ + index) % fifo.size = (fifo.out + (stored.length + index)) % fifo.size := by
  have divides := stores.divides
  rw [stores.allocated] at divides
  rw [stores.place, ← Nat.mod_add_mod, Nat.mod_mod_of_dvd _ divides, Nat.mod_add_mod,
    Nat.add_assoc]

theorem window_iff {buffer data : List UInt8} {size : Nat} (sameLength : buffer.length = size)
    (fits : data.length ≤ size) (out : Nat) : Ring.window buffer out data.length = data ↔
      ∀ index < data.length, buffer[(out + index) % size]? = data[index]? := by
  rw [Ring.window_eq_iff (by omega), sameLength]
  exact and_iff_right rfl

theorem byte_eq (stores : fifo.Stores stored) {index : Nat} (inside : index < stored.length) :
    fifo.buffer[(fifo.out + index) % fifo.size]? = stored[index]? :=
  (window_iff stores.allocated stores.fits fifo.out).mp stores.content index inside

theorem setBehind (stores : fifo.Stores stored) {index : Nat} (byte : UInt8)
    (near : stored.length + index < fifo.size) :
    Stores { fifo with
      buffer := fifo.buffer.set ((fifo.in_ + index) % fifo.size) byte } stored := by
  have sameLength : (fifo.buffer.set ((fifo.in_ + index) % fifo.size) byte).length = fifo.size := by
    rw [List.length_set, stores.allocated]
  refine ⟨stores.power, sameLength, stores.inBound, stores.outBound, stores.place, stores.fits, ?_⟩
  rw [window_iff sameLength stores.fits]
  intro other inside
  have apart := @Ring.slot_ne fifo.out fifo.size other (stored.length + index) (by omega)
    (by omega) (by omega)
  rw [stores.in_mod, List.getElem?_set_ne (Ne.symm apart)]
  exact stores.byte_eq inside

theorem moveIn (stores : fifo.Stores stored) {data : List UInt8}
    (room : stored.length + data.length ≤ fifo.size)
    (arrived : ∀ index < data.length,
      fifo.buffer[(fifo.in_ + index) % fifo.size]? = data[index]?) :
    Stores { fifo with in_ := uintAdd fifo.in_ data.length } (stored ++ data) := by
  have length : (stored ++ data).length = stored.length + data.length := List.length_append
  refine ⟨stores.power, stores.allocated, Nat.mod_lt _ (Nat.two_pow_pos 32), stores.outBound, ?_,
    length ▸ room, ?_⟩
  · simp only [uintAdd]
    rw [length, stores.place, Nat.mod_add_mod, Nat.add_assoc]
  · rw [window_iff stores.allocated (length ▸ room)]
    intro index inside
    by_cases old : index < stored.length
    · rw [List.getElem?_append_left old]
      exact stores.byte_eq old
    · have new := arrived (index - stored.length) (by omega)
      rw [stores.in_mod, Nat.add_sub_cancel' (by omega)] at new
      rw [List.getElem?_append_right (by omega)]
      exact new

theorem get_moves {after : Kfifo} {buffer filled : List UInt8} {len ret : Nat}
    (got : kfifoGet fifo buffer len = some (after, filled, ret)) :
    after = { fifo with out := uintAdd fifo.out ret } := by
  simp only [kfifoGet, Option.bind_eq_some_iff, Option.map_eq_some_iff, Prod.mk.injEq] at got
  obtain ⟨_, -, _, -, rfl, -, rfl⟩ := got
  rfl

theorem put_eq (stores : fifo.Stores stored) (buffer : List UInt8) :
    kfifoPut fifo buffer buffer.length = some ({ fifo with
      buffer := Ring.write fifo.buffer fifo.in_
        (buffer.take (min buffer.length (fifo.size - stored.length)))
      in_ := uintAdd fifo.in_ (min buffer.length (fifo.size - stored.length)) },
      min buffer.length (fifo.size - stored.length)) := by
  have small := stores.size_le
  have allocated := stores.allocated
  have positive := stores.positive
  set taken := min buffer.length (fifo.size - stored.length) with takenEq
  set first := min taken (fifo.buffer.length - fifo.in_ % fifo.buffer.length) with firstEq
  have rest : uintSub taken first = taken - first := by
    unfold uintSub uintSpace
    omega
  have copied := @Ring.copy_write _ fifo.buffer buffer fifo.in_ taken (by omega) (by omega)
    (by omega) first firstEq
  obtain ⟨halfway, firstCopy, secondCopy⟩ := Option.bind_eq_some_iff.mp copied
  simp only [kfifoPut, stores.room_eq, stores.mask, stores.piece_eq, ← takenEq, ← firstEq,
    firstCopy, Option.bind_some, rest, secondCopy, Option.map_some]

end Kfifo.Stores

/-! ## The steps of the two users -/

namespace Shared

variable {shared : Shared} {stored : List UInt8}

theorem under_begin (stores : shared.fifo.Stores stored) (counter : Nat) {buffer : List UInt8}
    {len room : Nat} (fits : len ≤ room) (given : len ≤ buffer.length) (arrived : Nat → Prop) :
    (Copying.begin shared.fifo counter buffer len).Under shared.fifo.size counter room arrived where
  fits := fits
  given := given
  piece := by
    rw [Copying.begin, stores.mask, stores.piece_eq, stores.allocated]
  inside := fun _ within => List.mem_range.mp within
  done := fun _ inside outside => absurd (List.mem_range.mpr inside) outside

theorem Sound.beginPut (sound : shared.Sound stored) {buffer : List UInt8} {len : Nat}
    (fits : len ≤ shared.room) (given : len ≤ buffer.length) :
    Sound { shared with
      writer := some (.copying (.begin shared.fifo shared.fifo.in_ buffer len)) } stored where
  stores := sound.stores
  accounted := sound.accounted
  writing := by
    intro copying here
    obtain rfl := Option.some.inj here
    exact under_begin sound.stores _ (sound.stores.room_eq ▸ fits) given _
  reading := sound.reading

theorem Sound.beginGet (sound : shared.Sound stored) {buffer : List UInt8} {len : Nat}
    (fits : len ≤ kfifoLen shared.fifo) (given : len ≤ buffer.length) :
    Sound { shared with
      reader := some (.copying (.begin shared.fifo shared.fifo.out buffer len)) } stored where
  stores := sound.stores
  accounted := sound.accounted
  writing := sound.writing
  reading := by
    intro copying here
    obtain rfl := Option.some.inj here
    exact under_begin sound.stores _ (sound.stores.length_eq ▸ fits) given _

theorem Sound.putStart (sound : shared.Sound stored) {buffer : List UInt8} {len : Nat}
    (allowed : shared.Allowed (.putStart buffer len)) :
    ∃ next, shared.step (.putStart buffer len) = some next ∧ next.Sound stored := by
  refine ⟨_, rfl, ?_⟩
  split
  · next smaller => exact sound.beginPut (Nat.le_of_lt smaller) allowed.2
  · refine ⟨sound.stores, sound.accounted, ?_, sound.reading⟩
    intro copying here
    cases here

theorem Sound.getStart (sound : shared.Sound stored) {buffer : List UInt8} {len : Nat}
    (allowed : shared.Allowed (.getStart buffer len)) :
    ∃ next, shared.step (.getStart buffer len) = some next ∧ next.Sound stored := by
  refine ⟨_, rfl, ?_⟩
  split
  · next smaller => exact sound.beginGet (Nat.le_of_lt smaller) allowed.2
  · refine ⟨sound.stores, sound.accounted, sound.writing, ?_⟩
    intro copying here
    cases here

theorem Sound.putRoom (sound : shared.Sound stored) (allowed : shared.Allowed .putRoom)
    (settled : shared.Settled .putRoom) :
    ∃ next, shared.step .putRoom = some next ∧ next.Sound stored := by
  obtain ⟨call, here, notCopying⟩ := allowed
  cases call with
  | copying copying => cases notCopying
  | sizing buffer len =>
      refine ⟨_, ?_, sound.beginPut (Nat.le_refl _) (settled _ here)⟩
      rw [step, Option.mem_def.mp here]
      rfl

theorem Sound.getRoom (sound : shared.Sound stored) (allowed : shared.Allowed .getRoom)
    (settled : shared.Settled .getRoom) :
    ∃ next, shared.step .getRoom = some next ∧ next.Sound stored := by
  obtain ⟨call, here, notCopying⟩ := allowed
  cases call with
  | copying copying => cases notCopying
  | sizing buffer len =>
      refine ⟨_, ?_, sound.beginGet (Nat.le_refl _) (settled _ here)⟩
      rw [step, Option.mem_def.mp here]
      rfl

theorem step_putByte {copying : Copying} {index slot : Nat} {byte : UInt8}
    (here : shared.writing = some copying)
    (slotEq : copying.slot shared.fifo shared.fifo.in_ index = slot)
    (byteEq : copying.buffer[index]? = some byte) (bound : slot < shared.fifo.buffer.length) :
    shared.step (.putByte index) = some { shared with
      fifo := { shared.fifo with buffer := shared.fifo.buffer.set slot byte }
      writer := some (.copying { copying with left := copying.left.erase index }) } := by
  simp only [step, here, byteEq, slotEq, bound, Option.bind_eq_bind, Option.bind_some, if_true]

theorem step_getByte {copying : Copying} {index slot : Nat} {byte : UInt8}
    (here : shared.reading = some copying)
    (slotEq : copying.slot shared.fifo shared.fifo.out index = slot)
    (byteEq : shared.fifo.buffer[slot]? = some byte) (bound : index < copying.buffer.length) :
    shared.step (.getByte index) = some { shared with
      reader := some (.copying { copying with
        buffer := copying.buffer.set index byte, left := copying.left.erase index }) } := by
  simp only [step, here, byteEq, slotEq, bound, Option.bind_eq_bind, Option.bind_some, if_true]

theorem Sound.putByte (sound : shared.Sound stored) {index : Nat}
    (allowed : shared.Allowed (.putByte index)) :
    ∃ next, shared.step (.putByte index) = some next ∧ next.Sound stored := by
  obtain ⟨stores, accounted, writing, reading⟩ := sound
  obtain ⟨copying, here, next, -⟩ := allowed
  have under := writing copying here
  have inside := under.inside index next
  have fits := under.fits
  have given := under.given
  have small := stores.fits
  have positive := stores.positive
  have slot := stores.slot_eq under (by omega) inside
  have low := Nat.mod_lt (shared.fifo.in_ + index) positive
  obtain ⟨byte, byteEq⟩ : ∃ byte, copying.buffer[index]? = some byte :=
    ⟨_, List.getElem?_eq_getElem (by omega)⟩
  refine ⟨{ shared with
      fifo := { shared.fifo with
        buffer := shared.fifo.buffer.set ((shared.fifo.in_ + index) % shared.fifo.size) byte }
      writer := some (.copying { copying with left := copying.left.erase index }) },
    step_putByte here slot byteEq (by rw [stores.allocated]; exact low),
    stores.setBehind byte (by omega), accounted, ?_, reading⟩
  · intro other otherHere
    obtain rfl := Option.some.inj otherHere
    refine ⟨fits, given, under.piece, ?_, ?_⟩
    · exact fun other within => under.inside other (List.mem_of_mem_erase within)
    · intro other otherInside outside
      change other < copying.len at otherInside
      by_cases same : other = index
      · rw [same, List.getElem?_set_self (by rw [stores.allocated]; exact low), byteEq]
      · have apart := @Ring.slot_ne shared.fifo.in_ shared.fifo.size other index same (by omega)
          (by omega)
        rw [List.getElem?_set_ne (Ne.symm apart)]
        refine under.done other otherInside fun within => outside ?_
        exact (List.mem_erase_of_ne same).mpr within

theorem Sound.getByte (sound : shared.Sound stored) {index : Nat}
    (allowed : shared.Allowed (.getByte index)) :
    ∃ next, shared.step (.getByte index) = some next ∧ next.Sound stored := by
  obtain ⟨stores, accounted, writing, reading⟩ := sound
  obtain ⟨copying, here, next, -⟩ := allowed
  have under := reading copying here
  have inside := under.inside index next
  have fits := under.fits
  have given := under.given
  have slot := stores.slot_eq under stores.fits inside
  have byteEq : shared.fifo.buffer[(shared.fifo.out + index) % shared.fifo.size]? =
      some stored[index] := by
    rw [stores.byte_eq (by omega), List.getElem?_eq_getElem]
  refine ⟨{ shared with reader := some (.copying { copying with
    buffer := copying.buffer.set index stored[index]
    left := copying.left.erase index }) }, step_getByte here slot byteEq (by omega), stores,
    accounted, writing, ?_⟩
  · intro other otherHere
    obtain rfl := Option.some.inj otherHere
    refine ⟨fits, by rwa [List.length_set], under.piece, ?_, ?_⟩
    · exact fun other within => under.inside other (List.mem_of_mem_erase within)
    · intro other otherInside outside
      by_cases same : other = index
      · subst same
        rw [List.getElem?_set_self (by omega), List.getElem?_eq_getElem]
      · rw [List.getElem?_set_ne (Ne.symm same)]
        refine under.done other otherInside fun within => outside ?_
        exact (List.mem_erase_of_ne same).mpr within

theorem Sound.putEnd (sound : shared.Sound stored) (allowed : shared.Allowed .putEnd) :
    ∃ next data, shared.step .putEnd = some next ∧ next.Sound (stored ++ data) := by
  obtain ⟨stores, accounted, writing, reading⟩ := sound
  obtain ⟨copying, here, empty⟩ := allowed
  have under := writing copying here
  have fits := under.fits
  have small := stores.fits
  have length : (copying.buffer.take copying.len).length = copying.len := by
    have given := under.given
    rw [List.length_take]
    omega
  have moved := @Kfifo.Stores.moveIn _ _ stores (copying.buffer.take copying.len) (by omega)
    fun index inside => by
      rw [length] at inside
      rw [List.getElem?_take_of_lt inside]
      exact under.done index inside (by simp [empty])
  rw [length] at moved
  refine ⟨_, copying.buffer.take copying.len, by
    rw [step, Option.mem_def.mp here]
    rfl, moved, ?_, ?_, ?_⟩
  · simp only [accounted, List.append_assoc]
  · intro other otherHere
    cases otherHere
  · intro other otherHere
    have otherUnder := reading other otherHere
    refine ⟨?_, otherUnder.given, otherUnder.piece, otherUnder.inside, ?_⟩
    · have otherFits := otherUnder.fits
      rw [List.length_append]
      omega
    · intro index inside outside
      have otherFits := otherUnder.fits
      rw [List.getElem?_append_left (by omega)]
      exact otherUnder.done index inside outside

theorem Sound.getEnd (sound : shared.Sound stored) (allowed : shared.Allowed .getEnd) :
    ∃ next len, shared.step .getEnd = some next ∧ next.Sound (stored.drop len) := by
  obtain ⟨stores, accounted, writing, reading⟩ := sound
  obtain ⟨copying, here, empty⟩ := allowed
  have under := reading copying here
  have fits := under.fits
  have given := under.given
  have oldest : copying.buffer.take copying.len = stored.take copying.len := by
    apply List.ext_getElem?
    intro index
    by_cases inside : index < copying.len
    · rw [List.getElem?_take_of_lt inside, List.getElem?_take_of_lt inside]
      exact under.done index inside (by simp [empty])
    · rw [List.getElem?_eq_none (by rw [List.length_take]; omega),
        List.getElem?_eq_none (by rw [List.length_take]; omega)]
  have passed := stores.passed copying.len
  rw [Nat.min_eq_left fits] at passed
  refine ⟨_, copying.len, by
    rw [step, Option.mem_def.mp here]
    rfl, passed, ?_, ?_, ?_⟩
  · simp only [accounted, oldest, List.append_assoc, List.take_append_drop]
  · intro other otherHere
    have otherUnder := writing other otherHere
    refine ⟨?_, otherUnder.given, otherUnder.piece, otherUnder.inside, otherUnder.done⟩
    have otherFits := otherUnder.fits
    rw [List.length_drop]
    simp only at otherFits ⊢
    omega
  · intro other otherHere
    cases otherHere

theorem Sound.step (sound : shared.Sound stored) {label : SharedStep}
    (allowed : shared.Allowed label) (settled : shared.Settled label) :
    ∃ next after, shared.step label = some next ∧ next.Sound after := by
  cases label with
  | putStart buffer len =>
      obtain ⟨next, stepped, kept⟩ := sound.putStart allowed
      exact ⟨next, stored, stepped, kept⟩
  | putRoom =>
      obtain ⟨next, stepped, kept⟩ := sound.putRoom allowed settled
      exact ⟨next, stored, stepped, kept⟩
  | putByte index =>
      obtain ⟨next, stepped, kept⟩ := sound.putByte allowed
      exact ⟨next, stored, stepped, kept⟩
  | putEnd =>
      obtain ⟨next, data, stepped, kept⟩ := sound.putEnd allowed
      exact ⟨next, _, stepped, kept⟩
  | getStart buffer len =>
      obtain ⟨next, stepped, kept⟩ := sound.getStart allowed
      exact ⟨next, stored, stepped, kept⟩
  | getRoom =>
      obtain ⟨next, stepped, kept⟩ := sound.getRoom allowed settled
      exact ⟨next, stored, stepped, kept⟩
  | getByte index =>
      obtain ⟨next, stepped, kept⟩ := sound.getByte allowed
      exact ⟨next, stored, stepped, kept⟩
  | getEnd =>
      obtain ⟨next, len, stepped, kept⟩ := sound.getEnd allowed
      exact ⟨next, _, stepped, kept⟩

theorem start_sound {buffer : List UInt8} {exponent : Nat} (small : exponent ≤ 31)
    (sized : buffer.length = 2 ^ exponent) : (start buffer).Sound [] where
  stores := .empty small sized
  accounted := rfl
  writing copying here := by cases here
  reading copying here := by cases here

/-- However the steps of one writer and one reader interleave, as long as the second
evaluation in `min` gives no more than the buffer of the caller holds no copy leaves a
buffer, and the ring holds at every moment just the bytes that have gone in and not come
out, in order. -/
theorem run_fifo {buffer : List UInt8} {exponent : Nat} (small : exponent ≤ 31)
    (sized : buffer.length = 2 ^ exponent) (labels : List SharedStep)
    (allowed : Transition.Guarded step Allowed (start buffer) labels)
    (settled : Transition.Guarded step Settled (start buffer) labels) :
    ∃ last stored, Transition.run step (start buffer) labels = some last ∧
      last.fifo.Stores stored ∧ last.accepted = last.delivered ++ stored ∧
        kfifoLen last.fifo = stored.length := by
  have taken (shared : Shared) (label : SharedStep) (good : ∃ stored, shared.Sound stored)
      (here : shared.Allowed label ∧ shared.Settled label) :
      ∃ next, shared.step label = some next ∧ ∃ stored, next.Sound stored := by
    obtain ⟨stored, sound⟩ := good
    obtain ⟨next, after, stepped, kept⟩ := sound.step here.1 here.2
    exact ⟨next, stepped, after, kept⟩
  obtain ⟨last, ran, stored, sound⟩ := Transition.run_defined_of_guarded step taken
    (Transition.guarded_and step allowed settled) ⟨[], start_sound small sized⟩
  exact ⟨last, stored, ran, sound.stores, sound.accounted, sound.stores.length_eq⟩

/-- Two bytes go over the end of the ring.  The writer finds no room at first and more when
it looks again. -/
def overTheEnd : List SharedStep :=
  [.putStart [7, 8] 2, .putRoom, .putByte 1, .putByte 0, .putEnd, .getStart [0] 1, .getByte 0,
    .putStart [9, 9] 2, .getEnd, .putRoom, .getStart [0, 0, 0] 3, .putByte 0, .getRoom,
    .getByte 0, .putEnd, .getEnd]

theorem run_fifo_wrapped :
    ∃ last, Transition.run step (start [0, 0]) overTheEnd = some last ∧
      last.delivered = [7, 8] ∧ last.fifo.Stores [9] := by
  obtain ⟨last, stored, ran, stores, accounted, -⟩ := @run_fifo [0, 0] 1 (by decide) rfl
    overTheEnd (by decide +kernel) (by decide +kernel)
  have view : (Transition.run step (start [0, 0]) overTheEnd).map
      (fun last => (last.accepted, last.delivered)) = some ([7, 8, 9], [7, 8]) := by
    decide +kernel
  rw [ran] at view
  obtain ⟨accepted, delivered⟩ := Prod.mk.inj (Option.some.inj view)
  rw [accepted, delivered] at accounted
  obtain rfl : stored = [9] := by simpa using accounted.symm
  exact ⟨last, ran, delivered, stores⟩

/-- Three bytes leave the full ring between the two evaluations of the writer, which has
one byte to put. -/
def roomMeanwhile : List SharedStep :=
  [.putStart [1, 2, 3, 4] 4, .putRoom, .putByte 0, .putByte 1, .putByte 2, .putByte 3, .putEnd,
    .getStart [0, 0, 0] 3, .getByte 0, .getByte 1, .getByte 2, .putStart [5] 1, .getEnd, .putRoom,
    .putByte 0]

theorem unsettled_leaves_buffer :
    Transition.Guarded step Allowed (start [0, 0, 0, 0]) (roomMeanwhile ++ [.putByte 1]) ∧
      ((Transition.run step (start [0, 0, 0, 0]) roomMeanwhile).bind writing).map Copying.len =
        some 3 ∧
      Transition.run step (start [0, 0, 0, 0]) (roomMeanwhile ++ [.putByte 1]) = none := by
  decide +kernel

/-! ## Calls that nothing interrupts -/

/-- A step that the users take and that stays inside their buffers. -/
def Proper (shared : Shared) (label : SharedStep) : Prop :=
  shared.Allowed label ∧ shared.Settled label

/-- The steps of `__kfifo_put` up to its copies; the room is evaluated once or twice. -/
def putOpening (buffer : List UInt8) (room : Nat) : List SharedStep :=
  if buffer.length < room then [.putStart buffer buffer.length]
  else [.putStart buffer buffer.length, .putRoom]

def getOpening (buffer : List UInt8) (room : Nat) : List SharedStep :=
  if buffer.length < room then [.getStart buffer buffer.length]
  else [.getStart buffer buffer.length, .getRoom]

def putAlone (buffer : List UInt8) (room : Nat) : List SharedStep :=
  putOpening buffer room ++ ((List.range (min buffer.length room)).map .putByte ++ [.putEnd])

def getAlone (buffer : List UInt8) (room : Nat) : List SharedStep :=
  getOpening buffer room ++ ((List.range (min buffer.length room)).map .getByte ++ [.getEnd])

theorem putOpening_run (idle : shared.writer = none) (buffer : List UInt8) :
    Transition.Guarded step Proper shared (putOpening buffer shared.room) ∧
      Transition.run step shared (putOpening buffer shared.room) = some { shared with
        writer := some (.copying (.begin shared.fifo shared.fifo.in_ buffer
          (min buffer.length shared.room))) } := by
  unfold putOpening
  split
  · next smaller =>
    refine ⟨⟨⟨⟨idle, Nat.le_refl _⟩, trivial⟩, fun _ _ => trivial⟩, ?_⟩
    simp only [Transition.run_cons, Transition.run_nil, step, if_pos smaller, Option.bind_some,
      Nat.min_eq_left (Nat.le_of_lt smaller)]
  · next notSmaller =>
    have most : shared.room ≤ buffer.length := Nat.le_of_not_lt notSmaller
    refine ⟨⟨⟨⟨idle, Nat.le_refl _⟩, trivial⟩, fun next stepped => ?_⟩, ?_⟩
    · simp only [step, if_neg notSmaller, Option.some.injEq] at stepped
      subst stepped
      refine ⟨⟨⟨_, rfl, rfl⟩, fun call here => ?_⟩, fun _ _ => trivial⟩
      obtain rfl := Option.some.inj here
      exact most
    · simp only [Transition.run_cons, Transition.run_nil, step, if_neg notSmaller,
        Option.bind_some, Nat.min_eq_right most]
      rfl

theorem getOpening_run (idle : shared.reader = none) (buffer : List UInt8) :
    Transition.Guarded step Proper shared (getOpening buffer (kfifoLen shared.fifo)) ∧
      Transition.run step shared (getOpening buffer (kfifoLen shared.fifo)) = some { shared with
        reader := some (.copying (.begin shared.fifo shared.fifo.out buffer
          (min buffer.length (kfifoLen shared.fifo)))) } := by
  unfold getOpening
  split
  · next smaller =>
    refine ⟨⟨⟨⟨idle, Nat.le_refl _⟩, trivial⟩, fun _ _ => trivial⟩, ?_⟩
    simp only [Transition.run_cons, Transition.run_nil, step, if_pos smaller, Option.bind_some,
      Nat.min_eq_left (Nat.le_of_lt smaller)]
  · next notSmaller =>
    have most : kfifoLen shared.fifo ≤ buffer.length := Nat.le_of_not_lt notSmaller
    refine ⟨⟨⟨⟨idle, Nat.le_refl _⟩, trivial⟩, fun next stepped => ?_⟩, ?_⟩
    · simp only [step, if_neg notSmaller, Option.some.injEq] at stepped
      subst stepped
      refine ⟨⟨⟨_, rfl, rfl⟩, fun call here => ?_⟩, fun _ _ => trivial⟩
      obtain rfl := Option.some.inj here
      exact most
    · simp only [Transition.run_cons, Transition.run_nil, step, if_neg notSmaller,
        Option.bind_some, Nat.min_eq_right most]

/-- The writer has put its first bytes and the others are left. -/
def putting (shared : Shared) (copying : Copying) (count : Nat) : Shared :=
  { shared with
    fifo := { shared.fifo with
      buffer := Ring.write shared.fifo.buffer shared.fifo.in_ (copying.buffer.take count) }
    writer := some (.copying { copying with left := List.range' count (copying.len - count) }) }

theorem range_next {copying : Copying} {count : Nat} (more : count < copying.len) :
    List.range' count (copying.len - count) =
      count :: List.range' (count + 1) (copying.len - (count + 1)) := by
  rw [show copying.len - count = copying.len - (count + 1) + 1 by omega, List.range'_succ]

theorem next_first {copying : Copying} {count : Nat} (more : count < copying.len) :
    Copying.Next { copying with left := List.range' count (copying.len - count) } count := by
  refine ⟨by simp; omega, ?_⟩
  by_cases before : count < copying.l
  · exact Or.inl before
  · right
    intro other within
    have := (List.mem_range'_1.mp within).1
    simp only
    omega

theorem putting_step {copying : Copying} {count : Nat} (stores : shared.fifo.Stores stored)
    (under : copying.Under shared.fifo.size shared.fifo.in_ (shared.fifo.size - stored.length)
      fun _ => True) (more : count < copying.len) :
    (shared.putting copying count).step (.putByte count) =
      some (shared.putting copying (count + 1)) := by
  have fits := under.fits
  have given := under.given
  have allocated := stores.allocated
  have positive := stores.positive
  have low := Nat.mod_lt (shared.fifo.in_ + count) positive
  have byteEq : copying.buffer[count]? = some copying.buffer[count] :=
    List.getElem?_eq_getElem (by omega)
  have taken : (copying.buffer.take count).length = count := by
    rw [List.length_take]
    omega
  have written := @Ring.length_write _ shared.fifo.buffer (copying.buffer.take count)
    shared.fifo.in_ (by omega)
  have slot := stores.slot_eq under (by omega) more
  have prolonged := @Ring.write_concat _ shared.fifo.buffer (copying.buffer.take count)
    shared.fifo.in_ copying.buffer[count] (by omega)
  rw [taken, allocated, ← List.take_succ_eq_append_getElem (by omega)] at prolonged
  have stepped := @step_putByte (shared.putting copying count)
    { copying with left := List.range' count (copying.len - count) } count _ _ rfl slot byteEq
    (by rw [putting, written, allocated]; exact low)
  have rest : (List.range' count (copying.len - count)).erase count =
      List.range' (count + 1) (copying.len - (count + 1)) := by
    rw [range_next more, List.erase_cons_head]
  rw [stepped, rest, putting, putting, prolonged]

theorem putting_run {copying : Copying} {count : Nat} (stores : shared.fifo.Stores stored)
    (under : copying.Under shared.fifo.size shared.fifo.in_ (shared.fifo.size - stored.length)
      fun _ => True) (more : count ≤ copying.len) :
    Transition.Guarded step Proper (shared.putting copying count)
        ((List.range' count (copying.len - count)).map .putByte ++ [.putEnd]) ∧
      Transition.run step (shared.putting copying count)
          ((List.range' count (copying.len - count)).map .putByte ++ [.putEnd]) =
        (shared.putting copying copying.len).step .putEnd := by
  induction left : copying.len - count generalizing count with
  | zero =>
      obtain rfl : count = copying.len := by omega
      refine ⟨⟨⟨⟨_, rfl, by simp⟩, trivial⟩, fun _ _ => trivial⟩, ?_⟩
      simp
  | succ fewer inductionHypothesis =>
      have before : count < copying.len := by omega
      have stepped := putting_step stores under before
      obtain ⟨guarded, ran⟩ := @inductionHypothesis (count + 1) (by omega) (by omega)
      rw [List.range'_succ, List.map_cons, List.cons_append]
      refine ⟨⟨⟨⟨_, rfl, next_first before⟩, trivial⟩, fun next taken => ?_⟩, ?_⟩
      · obtain rfl := Option.some.inj (stepped.symm.trans taken)
        exact guarded
      · rw [Transition.run_cons, stepped, Option.bind_some, ran]

theorem putAlone_spec (stores : shared.fifo.Stores stored) (idle : shared.writer = none)
    (buffer : List UInt8) :
    ∃ fifo ret, kfifoPut shared.fifo buffer buffer.length = some (fifo, ret) ∧
      Transition.Guarded step Proper shared (putAlone buffer shared.room) ∧
      Transition.run step shared (putAlone buffer shared.room) = some { shared with
        fifo := fifo, accepted := shared.accepted ++ buffer.take ret } := by
  refine ⟨_, _, stores.put_eq buffer, ?_⟩
  have room : shared.room = shared.fifo.size - stored.length := stores.room_eq
  obtain ⟨opened, opening⟩ := putOpening_run idle buffer
  rw [room] at opened opening ⊢
  set taken := min buffer.length (shared.fifo.size - stored.length) with takenEq
  set copying := Copying.begin shared.fifo shared.fifo.in_ buffer taken with copyingEq
  have under : copying.Under shared.fifo.size shared.fifo.in_ (shared.fifo.size - stored.length)
      fun _ => True :=
    under_begin stores _ (Nat.min_le_right _ _) (Nat.min_le_left _ _) _
  have begun : { shared with writer := some (.copying copying) } = shared.putting copying 0 := by
    rw [putting, List.take_zero, Ring.write_nil, copyingEq, Copying.begin, Nat.sub_zero,
      List.range_eq_range']
  obtain ⟨guarded, ran⟩ := putting_run stores under (Nat.zero_le _)
  rw [Nat.sub_zero, ← List.range_eq_range'] at guarded ran
  rw [begun] at opening
  refine ⟨Transition.guarded_append_of_run step opened opening guarded, ?_⟩
  rw [putAlone, Transition.run_append, opening, Option.bind_some, idle]
  exact ran

/-- The reader has read its first bytes and the others are left. -/
def getting (shared : Shared) (copying : Copying) (stored : List UInt8) (count : Nat) : Shared :=
  { shared with reader := some (.copying { copying with
      buffer := stored.take count ++ copying.buffer.drop count
      left := List.range' count (copying.len - count) }) }

theorem getting_step {copying : Copying} {count : Nat} (stores : shared.fifo.Stores stored)
    (under : copying.Under shared.fifo.size shared.fifo.out stored.length fun _ => True)
    (more : count < copying.len) :
    (shared.getting copying stored count).step (.getByte count) =
      some (shared.getting copying stored (count + 1)) := by
  have fits := under.fits
  have given := under.given
  have slot := stores.slot_eq under stores.fits more
  have byteEq : shared.fifo.buffer[(shared.fifo.out + count) % shared.fifo.size]? =
      some stored[count] := by
    rw [stores.byte_eq (by omega), List.getElem?_eq_getElem]
  have front : (stored.take count).length = count := by
    rw [List.length_take]
    omega
  have stepped := @step_getByte (shared.getting copying stored count)
    { copying with
      buffer := stored.take count ++ copying.buffer.drop count
      left := List.range' count (copying.len - count) } count _ _ rfl slot byteEq
    (by simp only [List.length_append, front, List.length_drop]; omega)
  have rest : (List.range' count (copying.len - count)).erase count =
      List.range' (count + 1) (copying.len - (count + 1)) := by
    rw [range_next more, List.erase_cons_head]
  have prolonged : (stored.take count ++ copying.buffer.drop count).set count stored[count] =
      stored.take (count + 1) ++ copying.buffer.drop (count + 1) := by
    rw [List.set_append_right _ _ (by omega), front, Nat.sub_self,
      List.drop_eq_getElem_cons (by omega), List.set_cons_zero,
      List.take_succ_eq_append_getElem (by omega), List.append_assoc, List.singleton_append]
  rw [stepped, rest, prolonged, getting, getting]

theorem getting_run {copying : Copying} {count : Nat} (stores : shared.fifo.Stores stored)
    (under : copying.Under shared.fifo.size shared.fifo.out stored.length fun _ => True)
    (more : count ≤ copying.len) :
    Transition.Guarded step Proper (shared.getting copying stored count)
        ((List.range' count (copying.len - count)).map .getByte ++ [.getEnd]) ∧
      Transition.run step (shared.getting copying stored count)
          ((List.range' count (copying.len - count)).map .getByte ++ [.getEnd]) =
        (shared.getting copying stored copying.len).step .getEnd := by
  induction left : copying.len - count generalizing count with
  | zero =>
      obtain rfl : count = copying.len := by omega
      refine ⟨⟨⟨⟨_, rfl, by simp⟩, trivial⟩, fun _ _ => trivial⟩, ?_⟩
      simp
  | succ fewer inductionHypothesis =>
      have before : count < copying.len := by omega
      have stepped := getting_step stores under before
      obtain ⟨guarded, ran⟩ := @inductionHypothesis (count + 1) (by omega) (by omega)
      rw [List.range'_succ, List.map_cons, List.cons_append]
      refine ⟨⟨⟨⟨_, rfl, @next_first { copying with buffer := _ } _ before⟩, trivial⟩,
        fun next taken => ?_⟩, ?_⟩
      · obtain rfl := Option.some.inj (stepped.symm.trans taken)
        exact guarded
      · rw [Transition.run_cons, stepped, Option.bind_some, ran]

theorem getAlone_spec (stores : shared.fifo.Stores stored) (idle : shared.reader = none)
    (buffer : List UInt8) :
    ∃ fifo filled ret, kfifoGet shared.fifo buffer buffer.length = some (fifo, filled, ret) ∧
      Transition.Guarded step Proper shared (getAlone buffer (kfifoLen shared.fifo)) ∧
      Transition.run step shared (getAlone buffer (kfifoLen shared.fifo)) = some { shared with
        fifo := fifo, delivered := shared.delivered ++ filled.take ret } := by
  obtain ⟨after, filled, got, -, -, front, -⟩ := stores.get (Nat.le_refl buffer.length)
  have length : kfifoLen shared.fifo = stored.length := stores.length_eq
  obtain ⟨opened, opening⟩ := getOpening_run idle buffer
  rw [length] at opened opening ⊢
  set taken := min buffer.length stored.length with takenEq
  set copying := Copying.begin shared.fifo shared.fifo.out buffer taken with copyingEq
  have under : copying.Under shared.fifo.size shared.fifo.out stored.length fun _ => True :=
    under_begin stores _ (Nat.min_le_right _ _) (Nat.min_le_left _ _) _
  have begun : { shared with reader := some (.copying copying) } =
      shared.getting copying stored 0 := by
    rw [getting, List.take_zero, List.nil_append, List.drop_zero, copyingEq, Copying.begin,
      Nat.sub_zero, List.range_eq_range']
  obtain ⟨guarded, ran⟩ := getting_run stores under (Nat.zero_le _)
  rw [Nat.sub_zero, ← List.range_eq_range'] at guarded ran
  rw [begun] at opening
  refine ⟨_, _, _, got, Transition.guarded_append_of_run step opened opening guarded, ?_⟩
  have small : taken ≤ stored.length := Nat.min_le_right _ _
  have copied : (stored.take taken ++ buffer.drop taken).take taken = filled.take taken := by
    rw [front, List.take_append_of_le_length (by rw [List.length_take]; omega), List.take_take,
      Nat.min_self, takenEq, ← List.take_eq_take_min]
  rw [getAlone, Transition.run_append, opening, Option.bind_some, idle,
    Kfifo.Stores.get_moves got, ← copied]
  exact ran

def idle (traffic : Traffic) : Shared :=
  ⟨traffic.fifo, none, none, traffic.accepted, traffic.delivered⟩

def Plain : KfifoCall → Prop
  | .put _ _ | .get _ _ => True
  | .getLocked _ _ | .reset => False

/-- Calls one after the other are one way to interleave their steps. -/
theorem run_alone {traffic : Traffic} {size : Nat} (faithful : traffic.Faithful size)
    {calls : List KfifoCall} (plain : ∀ call ∈ calls, Plain call) :
    ∃ labels last, Transition.run Traffic.step traffic calls = some last ∧
      Transition.Guarded step Proper (idle traffic) labels ∧
        Transition.run step (idle traffic) labels = some (idle last) := by
  induction calls generalizing traffic with
  | nil => exact ⟨[], traffic, rfl, trivial, rfl⟩
  | cons call rest inductionHypothesis =>
      have alone : ∃ labels after, traffic.step call = some after ∧
          Transition.Guarded step Proper (idle traffic) labels ∧
            Transition.run step (idle traffic) labels = some (idle after) := by
        obtain ⟨stored, stores, -, -⟩ := faithful
        cases call with
        | put buffer fits =>
            obtain ⟨fifo, ret, put, guarded, ran⟩ :=
              @putAlone_spec (idle traffic) stored stores rfl buffer
            exact ⟨putAlone buffer (idle traffic).room,
              { traffic with fifo := fifo, accepted := traffic.accepted ++ buffer.take ret },
              by rw [Traffic.step, show kfifoPut traffic.fifo _ _ = _ from put]; rfl, guarded, ran⟩
        | get buffer fits =>
            obtain ⟨fifo, filled, ret, got, guarded, ran⟩ :=
              @getAlone_spec (idle traffic) stored stores rfl buffer
            exact ⟨getAlone buffer (kfifoLen traffic.fifo), traffic.deliver (fifo, filled, ret),
              by rw [Traffic.step, show kfifoGet traffic.fifo _ _ = _ from got]; rfl, guarded, ran⟩
        | getLocked buffer fits => exact (plain _ List.mem_cons_self).elim
        | reset => exact (plain _ List.mem_cons_self).elim
      obtain ⟨labels, after, stepped, guarded, ran⟩ := alone
      obtain ⟨other, otherStepped, kept⟩ := faithful.step call
      obtain rfl := Option.some.inj (stepped.symm.trans otherStepped)
      obtain ⟨later, last, ranCalls, guardedLater, ranLater⟩ :=
        inductionHypothesis kept fun call within => plain call (List.mem_cons_of_mem _ within)
      refine ⟨labels ++ later, last, ?_, ?_, ?_⟩
      · rw [Transition.run_cons, stepped, Option.bind_some, ranCalls]
      · exact Transition.guarded_append_of_run step guarded ran guardedLater
      · rw [Transition.run_append, ran, Option.bind_some, ranLater]

theorem run_alone_wrapped :
    ∃ labels last, Transition.run Traffic.step (.start [0, 0])
        [.put [1] (by decide), .get [0] (by decide), .put [2, 3] (by decide)] = some last ∧
      Transition.Guarded step Proper (idle (.start [0, 0])) labels ∧
        Transition.run step (idle (.start [0, 0])) labels = some (idle last) := by
  have faithful : Traffic.Faithful 2 (.start [0, 0]) :=
    ⟨[], @Kfifo.Stores.empty [0, 0] 1 (by decide) rfl, rfl, rfl⟩
  exact run_alone faithful (by simp [Plain])

end Shared

end UtilsModules.Fifo

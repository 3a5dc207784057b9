import UtilsModules.Fifo.Kfifo

/-!
Runs of a byte ring, with the bytes that have gone in and come out since the
last reset.
-/

namespace UtilsModules.Fifo

/-- A call.  `kfifo_put` is `__kfifo_put` between lock and unlock, so one label
stands for both; a buffer comes with its length, which is an `unsigned int`. -/
inductive KfifoCall where
  | put (buffer : List UInt8) (fits : buffer.length < uintSpace)
  | get (buffer : List UInt8) (fits : buffer.length < uintSpace)
  | getLocked (buffer : List UInt8) (fits : buffer.length < uintSpace)
  | reset

structure Traffic where
  fifo : Kfifo
  accepted : List UInt8
  delivered : List UInt8

namespace Traffic

def start (buffer : List UInt8) : Traffic := ⟨.empty buffer, [], []⟩

def deliver (traffic : Traffic) : Kfifo × List UInt8 × Nat → Traffic
  | (fifo, buffer, ret) =>
      { traffic with fifo := fifo, delivered := traffic.delivered ++ buffer.take ret }

def step (traffic : Traffic) : KfifoCall → Option Traffic
  | .put buffer _ =>
      (kfifoPut traffic.fifo buffer buffer.length).map fun (fifo, ret) =>
        { traffic with fifo := fifo, accepted := traffic.accepted ++ buffer.take ret }
  | .get buffer _ => (kfifoGet traffic.fifo buffer buffer.length).map traffic.deliver
  | .getLocked buffer _ => (kfifoGetLocked traffic.fifo buffer buffer.length).map traffic.deliver
  | .reset => some ⟨kfifoReset traffic.fifo, [], []⟩

/-- The ring holds what has gone in and not come out. -/
def Faithful (size : Nat) (traffic : Traffic) : Prop :=
  ∃ stored, traffic.fifo.Stores stored ∧ traffic.fifo.size = size ∧
    traffic.accepted = traffic.delivered ++ stored

end Traffic

namespace Kfifo.Stores

variable {fifo : Kfifo} {stored : List UInt8}

theorem empty_of_meeting (stores : fifo.Stores stored) (meeting : fifo.in_ = fifo.out) :
    stored = [] := by
  have length := stores.length_eq
  have bound := stores.outBound
  rw [meeting] at length
  apply List.eq_nil_of_length_eq_zero
  rw [← length]
  unfold uintSub
  rw [Nat.add_sub_cancel_left, Nat.mod_self]

theorem getLocked (stores : fifo.Stores stored) {buffer : List UInt8} {len : Nat}
    (available : len ≤ buffer.length) :
    ∃ after filled, kfifoGetLocked fifo buffer len = some (after, filled, min len stored.length) ∧
      after.size = fifo.size ∧ filled.length = buffer.length ∧
      filled.take (min len stored.length) = stored.take len ∧ after.Stores (stored.drop len) := by
  obtain ⟨after, filled, got, size, length, bytes, left⟩ := stores.get available
  refine ⟨if after.in_ = after.out then kfifoReset after else after, filled, ?_, ?_, length, bytes,
    ?_⟩
  · rw [kfifoGetLocked, got, Option.map_some]
  · split
    · exact size
    · exact size
  · split
    · next meeting =>
      rw [left.empty_of_meeting meeting]
      exact left.reset
    · exact left

end Kfifo.Stores

namespace Traffic

variable {traffic : Traffic} {size : Nat}

theorem deliver_faithful {stored filled : List UInt8} {after : Kfifo} {len : Nat}
    (sized : after.size = size) (accounted : traffic.accepted = traffic.delivered ++ stored)
    (bytes : filled.take (min len stored.length) = stored.take len)
    (left : after.Stores (stored.drop len)) :
    Faithful size (traffic.deliver (after, filled, min len stored.length)) := by
  refine ⟨stored.drop len, left, sized, ?_⟩
  simp only [deliver, bytes]
  rw [List.append_assoc, List.take_append_drop]
  exact accounted

theorem Faithful.step (faithful : Faithful size traffic) (call : KfifoCall) :
    ∃ after, traffic.step call = some after ∧ Faithful size after := by
  obtain ⟨stored, stores, sized, accounted⟩ := faithful
  cases call with
  | put buffer fits =>
      obtain ⟨after, put, sameSize, more⟩ := stores.put (Nat.le_refl buffer.length)
      refine ⟨_, by rw [Traffic.step, put, Option.map_some], _, more, sameSize.trans sized, ?_⟩
      simp only [accounted, List.append_assoc]
  | get buffer fits =>
      obtain ⟨after, filled, got, sameSize, -, bytes, left⟩ :=
        stores.get (Nat.le_refl buffer.length)
      refine ⟨_, by rw [Traffic.step, got, Option.map_some], ?_⟩
      exact deliver_faithful (sameSize.trans sized) accounted bytes left
  | getLocked buffer fits =>
      obtain ⟨after, filled, got, sameSize, -, bytes, left⟩ :=
        stores.getLocked (Nat.le_refl buffer.length)
      refine ⟨_, by rw [Traffic.step, got, Option.map_some], ?_⟩
      exact deliver_faithful (sameSize.trans sized) accounted bytes left
  | reset => exact ⟨_, rfl, [], stores.reset, sized, rfl⟩

theorem Faithful.run (faithful : Faithful size traffic) (calls : List KfifoCall) :
    ∃ last, Transition.run Traffic.step traffic calls = some last ∧ Faithful size last := by
  induction calls generalizing traffic with
  | nil => exact ⟨traffic, rfl, faithful⟩
  | cons call rest inductionHypothesis =>
      obtain ⟨after, stepped, kept⟩ := faithful.step call
      obtain ⟨last, ran, finished⟩ := inductionHypothesis kept
      exact ⟨last, by rw [Transition.run_cons, stepped, Option.bind_some, ran], finished⟩

end Traffic

/-- Over every run of a ring whose size is a power of two, all copies stay inside
the buffers, the bytes that came out followed by those still stored are the
bytes that went in, and each call moves as many bytes as it can. -/
theorem kfifo_refines_queue {exponent : Nat} {buffer : List UInt8} (small : exponent ≤ 31)
    (sized : buffer.length = 2 ^ exponent) (calls : List KfifoCall) :
    ∃ traffic stored, Transition.run Traffic.step (.start buffer) calls = some traffic ∧
      traffic.accepted = traffic.delivered ++ stored ∧
      uintSub traffic.fifo.in_ traffic.fifo.out = stored.length ∧
      stored.length ≤ 2 ^ exponent ∧
      (∀ data : List UInt8, data.length < uintSpace → ∃ after,
        kfifoPut traffic.fifo data data.length =
          some (after, min data.length (2 ^ exponent - stored.length))) ∧
      ∀ target : List UInt8, target.length < uintSpace →
        (∃ after filled, kfifoGet traffic.fifo target target.length =
            some (after, filled, min target.length stored.length) ∧
          filled.take (min target.length stored.length) = stored.take target.length) ∧
        ∃ after filled, kfifoGetLocked traffic.fifo target target.length =
            some (after, filled, min target.length stored.length) ∧
          filled.take (min target.length stored.length) = stored.take target.length := by
  have fresh : Traffic.Faithful (2 ^ exponent) (.start buffer) :=
    ⟨[], Kfifo.Stores.empty small sized, sized, rfl⟩
  obtain ⟨traffic, ran, stored, stores, size, accounted⟩ := fresh.run calls
  refine ⟨traffic, stored, ran, accounted, stores.length_eq, size ▸ stores.fits, ?_, ?_⟩
  · intro data _
    obtain ⟨after, put, -⟩ := stores.put (Nat.le_refl data.length)
    exact ⟨after, size ▸ put⟩
  · intro target _
    obtain ⟨after, filled, got, -, -, bytes, -⟩ := stores.get (Nat.le_refl target.length)
    obtain ⟨afterLocked, filledLocked, gotLocked, -, -, bytesLocked, -⟩ :=
      stores.getLocked (Nat.le_refl target.length)
    exact ⟨⟨after, filled, got, bytes⟩, afterLocked, filledLocked, gotLocked, bytesLocked⟩

theorem kfifo_refines_queue_wrapped :
    ∃ traffic, ∃ stored : List UInt8, Transition.run Traffic.step (.start [0, 0, 0, 0])
        [.put [1, 2, 3] (by decide), .get [0, 0] (by decide), .put [4, 5, 6, 7] (by decide),
          .getLocked [0] (by decide)] = some traffic ∧
      traffic.accepted = [1, 2, 3, 4, 5, 6] ∧ traffic.delivered = [1, 2, 3] ∧
      stored = [4, 5, 6] ∧ uintSub traffic.fifo.in_ traffic.fifo.out = 3 := by
  obtain ⟨traffic, stored, ran, accounted, count, -⟩ :=
    @kfifo_refines_queue 2 [0, 0, 0, 0] (by decide) rfl
      [.put [1, 2, 3] (by decide), .get [0, 0] (by decide), .put [4, 5, 6, 7] (by decide),
        .getLocked [0] (by decide)]
  have view : (Transition.run Traffic.step (.start [0, 0, 0, 0])
      [.put [1, 2, 3] (by decide), .get [0, 0] (by decide), .put [4, 5, 6, 7] (by decide),
        .getLocked [0] (by decide)]).map (fun traffic => (traffic.accepted, traffic.delivered)) =
      some ([1, 2, 3, 4, 5, 6], [1, 2, 3]) := by
    decide +kernel
  rw [ran] at view
  obtain ⟨accepted, delivered⟩ := Prod.mk.inj (Option.some.inj view)
  rw [accepted, delivered] at accounted
  have left : stored = [4, 5, 6] := by simpa using accounted.symm
  exact ⟨traffic, stored, ran, accepted, delivered, left, by rw [count, left]; rfl⟩

end UtilsModules.Fifo

import UtilsModules.Udp.Effects

/-!
The sending half of a link, read with unbounded packet numbers.

`Sending link check max data` says that packets up to `check` are acknowledged,
that `max` is the next one to be sent, and that every packet in between is
still stored with the bytes `data` gives it.  Each call is shown to keep this
description, moving the two numbers forward.
-/

namespace UtilsModules.Udp

open Circular

/-- A stored user packet: its number modulo the sequence space and its bytes. -/
structure Holds (pa : PacketAll) (number : Nat) (bytes : List UInt8) : Prop where
  type : pa.head.type = .userData
  seq : pa.head.seq = number % maxPacketSeq
  payload : pa.payload = bytes
  len : pa.len = lenPacketHead + bytes.length
  nonempty : 0 < bytes.length
  fits : bytes.length ≤ maxPacketDataSize

theorem Holds.of_sameData {after before : PacketAll} {number : Nat} {bytes : List UInt8}
    (holds : Holds before number bytes) (same : SameData after before) :
    Holds after number bytes :=
  ⟨same.type.trans holds.type, same.seq.trans holds.seq, same.payload.trans holds.payload,
    same.len.trans holds.len, holds.nonempty, holds.fits⟩

structure Sending (pslink : Link) (check max : Nat) (data : Nat → List UInt8) : Prop where
  seqCheckSend : pslink.seqCheckSend = check % maxPacketSeq
  seqMaxSend : pslink.seqMaxSend = max % maxPacketSeq
  opened : check < max
  window : max < check + maxPacketNumber
  stored : ∀ number, check < number → number < max →
    Holds (pslink.paArraySend (slotOf number)) number (data number)

namespace Sending

variable {pslink after : Link} {check max : Nat} {data : Nat → List UInt8}

theorem nextCheck (sending : Sending pslink check max data) :
    pslink.nextCheck = (check + 1) % maxPacketSeq := by
  rw [Link.nextCheck, sending.seqCheckSend, succ_mod_mod]

theorem seqCheckSend_lt (sending : Sending pslink check max data) :
    pslink.seqCheckSend < maxPacketSeq := by
  rw [sending.seqCheckSend]
  exact mod_maxPacketSeq_lt check

theorem seqMaxSend_lt (sending : Sending pslink check max data) :
    pslink.seqMaxSend < maxPacketSeq := by
  rw [sending.seqMaxSend]
  exact mod_maxPacketSeq_lt max

theorem ahead_max (sending : Sending pslink check max data) :
    ahead maxPacketSeq pslink.seqMaxSend pslink.seqCheckSend = max - check := by
  have := sending.opened
  have := sending.window
  rw [sending.seqMaxSend, sending.seqCheckSend]
  exact ahead_mod (by omega) (by simp only [maxPacketNumber_eq, maxPacketSeq_eq] at *; omega)

theorem congr (sending : Sending pslink check max data)
    (checkSame : after.seqCheckSend = pslink.seqCheckSend)
    (maxSame : after.seqMaxSend = pslink.seqMaxSend)
    (arraySame : ∀ slot, SameData (after.paArraySend slot) (pslink.paArraySend slot)) :
    Sending after check max data where
  seqCheckSend := checkSame.trans sending.seqCheckSend
  seqMaxSend := maxSame.trans sending.seqMaxSend
  opened := sending.opened
  window := sending.window
  stored number above below := (sending.stored number above below).of_sameData (arraySame _)

/-- An acknowledgement that passes the test names a packet in the window. -/
theorem exists_acknowledged (sending : Sending pslink check max data) {seq : Nat}
    (bounded : seq < maxPacketSeq)
    (ordered : CmpSeqOrder pslink.seqCheckSend seq pslink.seqMaxSend) :
    ∃ number, check ≤ number ∧ number < max ∧ number % maxPacketSeq = seq := by
  have checkBound := sending.seqCheckSend_lt
  have passed := ((cmpSeqOrder_iff_ahead checkBound bounded sending.seqMaxSend_lt).mp ordered).1
  rw [sending.ahead_max] at passed
  refine ⟨check + ahead maxPacketSeq seq pslink.seqCheckSend, by omega, by omega, ?_⟩
  calc (check + ahead maxPacketSeq seq pslink.seqCheckSend) % maxPacketSeq
      = (pslink.seqCheckSend + ahead maxPacketSeq seq pslink.seqCheckSend) % maxPacketSeq := by
        rw [sending.seqCheckSend, Nat.mod_add_mod]
    _ = seq := add_ahead_mod bounded checkBound

/-- Moving `SeqCheckSend` forward inside the window forgets packets and keeps
the others. -/
theorem acknowledge (sending : Sending pslink check max data) {number : Nat}
    (forward : check ≤ number) (below : number < max)
    (checkMoved : after.seqCheckSend = number % maxPacketSeq)
    (maxSame : after.seqMaxSend = pslink.seqMaxSend)
    (arraySame : ∀ slot, SameData (after.paArraySend slot) (pslink.paArraySend slot)) :
    Sending after number max data where
  seqCheckSend := checkMoved
  seqMaxSend := maxSame.trans sending.seqMaxSend
  opened := below
  window := by
    have := sending.window
    omega
  stored other above under :=
    (sending.stored other (by omega) under).of_sameData (arraySame _)

/-- Reception with any content moves at most the acknowledged number. -/
theorem of_kept (sending : Sending pslink check max data) {pa : PacketAll}
    (bounded : pa.head.seq < maxPacketSeq) (kept : SendingKept pslink after pa) :
    ∃ number, check ≤ number ∧ Sending after number max data := by
  rcases kept.seqCheckSend with same | ⟨ordered, moved⟩
  · exact ⟨check, le_rfl, sending.congr same kept.seqMaxSend kept.paArraySend⟩
  · obtain ⟨number, forward, below, residue⟩ := sending.exists_acknowledged bounded ordered
    exact ⟨number, forward, sending.acknowledge forward below (moved.trans residue.symm)
      kept.seqMaxSend kept.paArraySend⟩

theorem stored_writeUser_of_ne (sending : Sending pslink check max data) (buf : List UInt8)
    {number : Nat} (above : check < number) (below : number < max) :
    pslink.writeUser buf (slotOf number) = pslink.paArraySend (slotOf number) := by
  have window := sending.window
  have distinct : slotOf number ≠ slotOf pslink.seqMaxSend := by
    rw [sending.seqMaxSend, slotOf_mod]
    intro same
    have := eq_of_slotOf_eq same (by omega) (by omega)
    omega
  simp only [Link.writeUser]
  exact Function.update_of_ne distinct _ _

theorem refused (sending : Sending pslink check max data) (buf : List UInt8) :
    Sending { pslink with paArraySend := pslink.writeUser buf } check max data where
  seqCheckSend := sending.seqCheckSend
  seqMaxSend := sending.seqMaxSend
  opened := sending.opened
  window := sending.window
  stored number above below := by
    dsimp only
    rw [sending.stored_writeUser_of_ne buf above below]
    exact sending.stored number above below

theorem holds_writeUser (sending : Sending pslink check max data) {buf : List UInt8}
    (nonempty : 0 < buf.length) (fits : buf.length ≤ maxPacketDataSize) :
    Holds (pslink.writeUser buf (slotOf max)) max buf := by
  have slot : slotOf pslink.seqMaxSend = slotOf max := by
    rw [sending.seqMaxSend, slotOf_mod]
  have written : pslink.writeUser buf (slotOf max) =
      { pslink.userPacket buf with head := pslink.stamp (pslink.userPacket buf).head } := by
    rw [← slot]
    exact Function.update_self _ _ _
  rw [written]
  refine ⟨rfl, sending.seqMaxSend, ?_, rfl, nonempty, fits⟩
  simp [PacketAll.payload, Link.userPacket]

/-- The test of `exSend` leaves room for one more packet. -/
theorem room (sending : Sending pslink check max data)
    (notFull : (pslink.seqMaxSend + 1) % maxPacketNumber ≠
      pslink.seqCheckSend % maxPacketNumber) : max + 1 < check + maxPacketNumber := by
  have window := sending.window
  have opened := sending.opened
  rw [sending.seqMaxSend, sending.seqCheckSend] at notFull
  simp only [maxPacketNumber_eq, maxPacketSeq_eq] at *
  omega

theorem sent (sending : Sending pslink check max data) {buf : List UInt8}
    {longer : Nat → List UInt8} (nonempty : 0 < buf.length)
    (fits : buf.length ≤ maxPacketDataSize)
    (notFull : (pslink.seqMaxSend + 1) % maxPacketNumber ≠
      pslink.seqCheckSend % maxPacketNumber)
    (extended : ∀ number, check < number → number < max → longer number = data number)
    (last : longer max = buf) :
    Sending { pslink with
      paArraySend := pslink.writeUser buf
      seqMaxSend := (pslink.seqMaxSend + 1) % maxPacketSeq } check (max + 1) longer where
  seqCheckSend := sending.seqCheckSend
  seqMaxSend := by
    dsimp only
    rw [sending.seqMaxSend, succ_mod_mod]
  opened := by
    have := sending.opened
    omega
  window := sending.room notFull
  stored number above below := by
    dsimp only
    rcases Nat.lt_succ_iff_lt_or_eq.mp below with earlier | equal
    · rw [sending.stored_writeUser_of_ne buf above earlier, extended number above earlier]
      exact sending.stored number above earlier
    · subst equal
      rw [last]
      exact sending.holds_writeUser nonempty fits

end Sending

end UtilsModules.Udp

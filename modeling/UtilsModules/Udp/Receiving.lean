import UtilsModules.Udp.Sending

/-!
The receiving half of a link, read with unbounded packet numbers.

`Receiving link read max data` says that packets below `read` have been handed
to the user and that every unread packet in the array is one of those numbered
from `read` to below `max`, in its own slot, with the bytes `data` gives it.
-/

namespace UtilsModules.Udp

structure Receiving (pslink : Link) (read max : Nat) (data : Nat → List UInt8) : Prop where
  seqRead : pslink.seqRead = read % maxPacketSeq
  stored : ∀ slot, (pslink.paArrayRecv slot).len ≠ 0 →
    ∃ number, read ≤ number ∧ number < max ∧ slot = slotOf number ∧
      Holds (pslink.paArrayRecv slot) number (data number)

namespace Receiving

variable {pslink after : Link} {read max : Nat} {data : Nat → List UInt8}

theorem lastRead (receiving : Receiving pslink read max data) (positive : 0 < read) :
    pslink.lastRead = (read - 1) % maxPacketSeq := by
  unfold Link.lastRead
  rw [receiving.seqRead]
  split
  · next zero =>
    rw [maxPacketSeq_eq] at *
    omega
  · next nonzero =>
    rw [maxPacketSeq_eq] at *
    omega

theorem congr (receiving : Receiving pslink read max data)
    (readSame : after.seqRead = pslink.seqRead)
    (arraySame : after.paArrayRecv = pslink.paArrayRecv) : Receiving after read max data where
  seqRead := readSame.trans receiving.seqRead
  stored slot unread := by
    rw [arraySame] at unread ⊢
    exact receiving.stored slot unread

/-- More packets may have been sent since. -/
theorem extend (receiving : Receiving pslink read max data) {longer : Nat} {more : Nat → List UInt8}
    (grown : max ≤ longer)
    (extended : ∀ number, read ≤ number → number < max → more number = data number) :
    Receiving pslink read longer more where
  seqRead := receiving.seqRead
  stored slot unread := by
    obtain ⟨number, above, below, equal, holds⟩ := receiving.stored slot unread
    refine ⟨number, above, by omega, equal, ?_⟩
    rw [extended number above below]
    exact holds

/-- An unread packet in the slot of a number of the window is that number's. -/
theorem holds_of_len (receiving : Receiving pslink read max data)
    (window : max < read + maxPacketNumber) {number : Nat} (above : read ≤ number)
    (below : number < read + maxPacketNumber)
    (unread : (pslink.paArrayRecv (slotOf number)).len ≠ 0) :
    number < max ∧ Holds (pslink.paArrayRecv (slotOf number)) number (data number) := by
  obtain ⟨other, otherAbove, otherBelow, same, holds⟩ := receiving.stored _ unread
  have equal : number = other := eq_of_slotOf_eq same (by omega) (by omega)
  subst equal
  exact ⟨otherBelow, holds⟩

theorem holds_of_readable (receiving : Receiving pslink read max data)
    (window : max < read + maxPacketNumber)
    (readable : pslink.Readable pslink.seqRead) :
    read < max ∧ Holds (pslink.paArrayRecv (slotOf pslink.seqRead)) read (data read) := by
  have unread := readable.2
  rw [receiving.seqRead, slotOf_mod] at unread ⊢
  exact receiving.holds_of_len window le_rfl (Nat.lt_add_of_pos_right (by decide)) unread

/-- Taking the packet at `SeqRead` moves on to the next number. -/
theorem consume (receiving : Receiving pslink read max data)
    (window : max < read + maxPacketNumber) :
    Receiving pslink.consume (read + 1) max data where
  seqRead := by
    simp only [Link.consume]
    rw [receiving.seqRead, succ_mod_mod]
  stored slot unread := by
    simp only [Link.consume] at unread ⊢
    by_cases here : slot = slotOf pslink.seqRead
    · subst here
      simp at unread
    · rw [Function.update_of_ne here] at unread ⊢
      obtain ⟨number, above, below, equal, holds⟩ := receiving.stored slot unread
      have different : number ≠ read := by
        rintro rfl
        apply here
        rw [equal, receiving.seqRead, slotOf_mod]
      exact ⟨number, by omega, below, equal, holds⟩

/-- A data packet that is not too old is stored in its slot or changes
nothing. -/
theorem store (receiving : Receiving pslink read max data)
    (window : max < read + maxPacketNumber) {pa : PacketAll} {number : Nat}
    (holds : Holds pa number (data number)) (below : number < max)
    (notStale : read ≤ number + (maxPacketSeq - maxPacketNumber)) :
    Receiving (userDataRecv pslink pa) read max data := by
  unfold userDataRecv
  split
  · exact receiving
  · split
    · next accepted =>
      rw [holds.seq, receiving.seqRead, accepted_mod_iff (by omega) notStale] at accepted
      split
      · refine ⟨receiving.seqRead, ?_⟩
        intro slot unread
        dsimp only at unread ⊢
        by_cases here : slot = slotOf pa.head.seq
        · subst here
          rw [Function.update_self]
          exact ⟨number, accepted, below, by rw [holds.seq, slotOf_mod], holds⟩
        · rw [Function.update_of_ne here] at unread ⊢
          exact receiving.stored slot unread
      · exact receiving
    · exact receiving

end Receiving

end UtilsModules.Udp

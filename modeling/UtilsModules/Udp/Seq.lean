import UtilsModules.Library.Circular

/-!
Sequence numbers of the reliable UDP layer: the constants of `ex_udp.h` and the
two comparison macros, for any window and any space and for the module's own.
-/

namespace UtilsModules.Udp

open Circular

def maxPacketNumber : Nat := 0x1FF

/-- `MAX_PACKET_SEQ`: sequence numbers run below this multiple of the slots. -/
def maxPacketSeq : Nat := maxPacketNumber <<< 2

theorem maxPacketNumber_eq : maxPacketNumber = 511 := rfl

theorem maxPacketSeq_eq : maxPacketSeq = 2044 := rfl

/-- `CMP_SEQ` for a window `W` in a space `M`. -/
def CmpSeqIn (W M head tail : Nat) : Prop :=
  (head > tail ∧ head < tail + W) ∨ (head < tail ∧ head + M - W < tail)

/-- `CMP_SEQ_ORDER` for a window `W` in a space `M`. -/
def CmpSeqOrderIn (W M head mid tail : Nat) : Prop :=
  (head ≤ mid ∧ mid < tail ∧ head + W > tail) ∨
    (head ≤ mid ∧ head > tail ∧ head > tail + M - W) ∨
    (head > tail ∧ mid < tail ∧ head > tail + M - W)

instance (W M head tail : Nat) : Decidable (CmpSeqIn W M head tail) :=
  inferInstanceAs (Decidable (_ ∨ _))

instance (W M head mid tail : Nat) : Decidable (CmpSeqOrderIn W M head mid tail) :=
  inferInstanceAs (Decidable (_ ∨ _ ∨ _))

abbrev CmpSeq (head tail : Nat) : Prop := CmpSeqIn maxPacketNumber maxPacketSeq head tail

abbrev CmpSeqOrder (head mid tail : Nat) : Prop :=
  CmpSeqOrderIn maxPacketNumber maxPacketSeq head mid tail

theorem cmpSeqIn_iff_ahead {W M head tail : Nat} (space : 2 * W ≤ M)
    (headBound : head < M) (tailBound : tail < M) :
    CmpSeqIn W M head tail ↔ 0 < ahead M head tail ∧ ahead M head tail < W := by
  unfold CmpSeqIn
  by_cases ordered : tail ≤ head
  · rw [ahead_of_le ordered headBound]
    omega
  · rw [ahead_of_lt (by omega) (by omega)]
    omega

theorem cmpSeqOrderIn_iff_ahead {W M head mid tail : Nat} (space : 2 * W ≤ M)
    (headBound : head < M) (midBound : mid < M) (tailBound : tail < M) :
    CmpSeqOrderIn W M head mid tail ↔
      ahead M mid head < ahead M tail head ∧ ahead M tail head < W := by
  unfold CmpSeqOrderIn
  by_cases midOrdered : head ≤ mid
  · rw [ahead_of_le midOrdered midBound]
    by_cases tailOrdered : head ≤ tail
    · rw [ahead_of_le tailOrdered tailBound]
      omega
    · rw [ahead_of_lt (by omega) (by omega)]
      omega
  · rw [ahead_of_lt (a := mid) (by omega) (by omega)]
    by_cases tailOrdered : head ≤ tail
    · rw [ahead_of_le tailOrdered tailBound]
      omega
    · rw [ahead_of_lt (by omega) (by omega)]
      omega

theorem cmpSeq_iff_ahead {head tail : Nat} (headBound : head < maxPacketSeq)
    (tailBound : tail < maxPacketSeq) :
    CmpSeq head tail ↔ 0 < ahead maxPacketSeq head tail ∧
      ahead maxPacketSeq head tail < maxPacketNumber :=
  cmpSeqIn_iff_ahead (by decide) headBound tailBound

theorem cmpSeqOrder_iff_ahead {head mid tail : Nat} (headBound : head < maxPacketSeq)
    (midBound : mid < maxPacketSeq) (tailBound : tail < maxPacketSeq) :
    CmpSeqOrder head mid tail ↔ ahead maxPacketSeq mid head < ahead maxPacketSeq tail head ∧
      ahead maxPacketSeq tail head < maxPacketNumber :=
  cmpSeqOrderIn_iff_ahead (by decide) headBound midBound tailBound

theorem cmpSeqIn_iff_emod {W M head tail : Nat} (space : 2 * W ≤ M)
    (headBound : head < M) (tailBound : tail < M) :
    CmpSeqIn W M head tail ↔
      0 < ((head : Int) - tail) % M ∧ ((head : Int) - tail) % M < W := by
  rw [cmpSeqIn_iff_ahead space headBound tailBound, ← natCast_ahead tailBound.le]
  norm_cast

theorem cmpSeqOrderIn_iff_emod {W M head mid tail : Nat} (space : 2 * W ≤ M)
    (headBound : head < M) (midBound : mid < M) (tailBound : tail < M) :
    CmpSeqOrderIn W M head mid tail ↔
      ((mid : Int) - head) % M < ((tail : Int) - head) % M ∧
        ((tail : Int) - head) % M < W := by
  rw [cmpSeqOrderIn_iff_ahead space headBound midBound tailBound,
    ← natCast_ahead headBound.le, ← natCast_ahead headBound.le]
  norm_cast

/-- Both macros as remainders of differences, for the constants of the module and
for every window and space. -/
theorem comparisons_iff_emod :
    (∀ head mid tail, head < maxPacketSeq → mid < maxPacketSeq → tail < maxPacketSeq →
      (CmpSeq head tail ↔
        0 < ((head : Int) - tail) % maxPacketSeq ∧
          ((head : Int) - tail) % maxPacketSeq < maxPacketNumber) ∧
      (CmpSeqOrder head mid tail ↔
        ((mid : Int) - head) % maxPacketSeq < ((tail : Int) - head) % maxPacketSeq ∧
          ((tail : Int) - head) % maxPacketSeq < maxPacketNumber)) ∧
    ∀ W M, 2 * W ≤ M → ∀ head mid tail, head < M → mid < M → tail < M →
      (CmpSeqIn W M head tail ↔
        0 < ((head : Int) - tail) % M ∧ ((head : Int) - tail) % M < W) ∧
      (CmpSeqOrderIn W M head mid tail ↔
        ((mid : Int) - head) % M < ((tail : Int) - head) % M ∧
          ((tail : Int) - head) % M < W) := by
  constructor
  · intro head mid tail headBound midBound tailBound
    exact ⟨cmpSeqIn_iff_emod (by decide) headBound tailBound,
      cmpSeqOrderIn_iff_emod (by decide) headBound midBound tailBound⟩
  · intro W M space head mid tail headBound midBound tailBound
    exact ⟨cmpSeqIn_iff_emod space headBound tailBound,
      cmpSeqOrderIn_iff_emod space headBound midBound tailBound⟩

/-- A window of three in a space of six, where the order wraps: five, then zero,
then one; and the module's own constants at a wrap. -/
theorem comparisons_wrapped :
    (2 * 3 ≤ 6 ∧ CmpSeqIn 3 6 1 5 ∧ CmpSeqOrderIn 3 6 5 0 1) ∧
      CmpSeq 3 2040 ∧ CmpSeqOrder 2040 0 3 := by
  obtain ⟨constants, general⟩ := comparisons_iff_emod
  have ahead := general 3 6 (by decide) 1 0 5 (by decide) (by decide) (by decide)
  have ordered := general 3 6 (by decide) 5 0 1 (by decide) (by decide) (by decide)
  refine ⟨⟨by decide, ahead.1.mpr (by decide), ordered.2.mpr (by decide)⟩, ?_, ?_⟩
  · exact (constants 3 0 2040 (by decide) (by decide) (by decide)).1.mpr (by decide)
  · exact (constants 2040 0 3 (by decide) (by decide) (by decide)).2.mpr (by decide)

def slotOf (seq : Nat) : Fin maxPacketNumber := ⟨seq % maxPacketNumber, Nat.mod_lt _ (by decide)⟩

theorem slotOf_eq_iff (first second : Nat) :
    slotOf first = slotOf second ↔ first % maxPacketNumber = second % maxPacketNumber := by
  simp [slotOf]

@[simp]
theorem slotOf_mod (number : Nat) : slotOf (number % maxPacketSeq) = slotOf number := by
  rw [slotOf_eq_iff]
  simp only [maxPacketNumber_eq, maxPacketSeq_eq]
  omega

/-- Two numbers less than one window apart share a slot only when they agree. -/
theorem eq_of_slotOf_eq {first second : Nat} (same : slotOf first = slotOf second)
    (upper : first < second + maxPacketNumber) (lower : second < first + maxPacketNumber) :
    first = second := by
  rw [slotOf_eq_iff] at same
  simp only [maxPacketNumber_eq] at *
  omega

/-- Two numbers of one window share a slot only when they agree. -/
theorem eq_of_slotOf_eq_of_ahead {first second cursor : Nat}
    (same : slotOf first = slotOf second) (firstBound : first < maxPacketSeq)
    (secondBound : second < maxPacketSeq) (cursorBound : cursor < maxPacketSeq)
    (firstNear : ahead maxPacketSeq first cursor < maxPacketNumber)
    (secondNear : ahead maxPacketSeq second cursor < maxPacketNumber) : first = second := by
  have firstWalk := add_ahead_mod firstBound cursorBound
  have secondWalk := add_ahead_mod secondBound cursorBound
  rw [← firstWalk, ← secondWalk, slotOf_mod, slotOf_mod] at same
  have := eq_of_slotOf_eq same (by omega) (by omega)
  rw [← firstWalk, ← secondWalk, this]

theorem mod_maxPacketSeq_lt (number : Nat) : number % maxPacketSeq < maxPacketSeq :=
  Nat.mod_lt _ (by decide)

@[simp]
theorem succ_mod_mod (number : Nat) :
    (number % maxPacketSeq + 1) % maxPacketSeq = (number + 1) % maxPacketSeq := by
  rw [Nat.mod_add_mod]

/-- Acceptance test of `UserDataRecv` on unbounded numbers: a packet that is
neither a full window ahead nor too old is wanted exactly when it is not read. -/
theorem accepted_mod_iff {number cursor : Nat}
    (notAhead : number < cursor + maxPacketNumber)
    (notStale : cursor ≤ number + (maxPacketSeq - maxPacketNumber)) :
    (CmpSeq (number % maxPacketSeq) (cursor % maxPacketSeq) ∨
        number % maxPacketSeq = cursor % maxPacketSeq) ↔ cursor ≤ number := by
  rw [cmpSeq_iff_ahead (mod_maxPacketSeq_lt _) (mod_maxPacketSeq_lt _)]
  by_cases ordered : cursor ≤ number
  · rw [ahead_mod ordered (by simp only [maxPacketNumber_eq, maxPacketSeq_eq] at *; omega)]
    refine ⟨fun _ => ordered, fun _ => ?_⟩
    rcases Nat.eq_or_lt_of_le ordered with equal | later
    · exact .inr (by rw [equal])
    · exact .inl ⟨by omega, by omega⟩
  · have behind := ahead_mod_behind (M := maxPacketSeq) (n := number) (r := cursor)
      (by omega) (by simp only [maxPacketNumber_eq, maxPacketSeq_eq] at *; omega)
    rw [behind]
    simp only [maxPacketNumber_eq, maxPacketSeq_eq] at *
    omega

/-- Acknowledgement and retransmission test on unbounded numbers: inside an
open window, a number that is not too old passes exactly when it lies between
the two cursors. -/
theorem ordered_mod_iff {low number high : Nat} (open_ : low ≤ high)
    (window : high < low + maxPacketNumber) (below : number < high)
    (notStale : low ≤ number + (maxPacketSeq - maxPacketNumber)) :
    CmpSeqOrder (low % maxPacketSeq) (number % maxPacketSeq) (high % maxPacketSeq) ↔
      low ≤ number := by
  rw [cmpSeqOrder_iff_ahead (mod_maxPacketSeq_lt _) (mod_maxPacketSeq_lt _)
    (mod_maxPacketSeq_lt _)]
  simp only [maxPacketNumber_eq, maxPacketSeq_eq] at *
  rw [ahead_mod (n := high) open_ (by omega)]
  by_cases ordered : low ≤ number
  · rw [ahead_mod ordered (by omega)]
    omega
  · rw [ahead_mod_behind (by omega) (by omega)]
    omega

end UtilsModules.Udp

import UtilsModules.Library.XorSum
import UtilsModules.Udp.Packet

/-!
`checksummat`, on the bytes of a packet.

The loop is meant to run over all 16-bit words of the packet.  It runs
`(len + 1) % 2` times, which is over the first word or over none.
-/

namespace UtilsModules.Udp

open Bytes XorSum

/-- The memory of an `s_packet_all`: header and buffer, and the length. -/
@[ext]
structure PacketImage where
  bytes : List UInt8
  whole : bytes.length = maxPacketSize
  len : Nat

namespace PacketImage

def byte (pa : PacketImage) (place : Nat) : UInt8 := pa.bytes.getD place 0

def setByte (pa : PacketImage) (place : Nat) (value : UInt8) : PacketImage where
  bytes := pa.bytes.set place value
  whole := by rw [List.length_set, pa.whole]
  len := pa.len

def setChecksum (pa : PacketImage) (low high : UInt8) : PacketImage :=
  (pa.setByte 6 low).setByte 7 high

/-- The packet while the sum is taken: no checksum, and a zero behind an odd
length.  `pa->buf[len - LEN_PACKET_HEAD]` is the byte at `len`. -/
def prepared (pa : PacketImage) : PacketImage :=
  let cleared := pa.setChecksum 0 0
  if pa.len % 2 = 1 ∧ pa.len ≠ maxPacketSize then cleared.setByte pa.len 0 else cleared

end PacketImage

def checksumLoop (bytes : List UInt8) : Nat → Nat → Nat → Nat
  | 0, _, checksum => checksum
  | i + 1, pchecksum, checksum =>
      checksumLoop bytes i (pchecksum + 2) (checksum ^^^ ushortAt bytes pchecksum)

/-- `checksummat`; `EX_UDP_ERROR` comes back as a `USHORT`. -/
def checksummat (pa : PacketImage) : PacketImage × Nat :=
  if pa.len < lenPacketHead ∨ pa.len > maxPacketSize then
    (pa, 65535)
  else
    let checksum := checksumLoop pa.prepared.bytes ((pa.len + 1) % 2) 0 0
    (pa.prepared.setChecksum (pa.byte 6) (pa.byte 7), checksum)

def packetWords (bytes : List UInt8) (count : Nat) : List Nat :=
  (List.range count).map fun place => ushortAt bytes (2 * place)

/-- The exclusive or of all words of the packet, an odd last byte padded with
zero. -/
def PacketImage.xorSum (pa : PacketImage) : Nat :=
  xorAll (packetWords pa.prepared.bytes ((pa.len + 1) / 2))

def PacketImage.flip (pa : PacketImage) (place bit : Nat) : PacketImage :=
  pa.setByte place (pa.byte place ^^^ (1 <<< UInt8.ofNat bit))

/-- The checksum covers the packet: it is the sum over all words, the bytes of
the packet stay as they are, and no bit outside the field can be turned over
without changing it. -/
structure PacketImage.Covered (pa : PacketImage) : Prop where
  sum : (checksummat pa).2 = pa.xorSum
  kept : (checksummat pa).1.bytes.take pa.len = pa.bytes.take pa.len
  detects : ∀ place bit, place < pa.len → place ≠ 6 → place ≠ 7 → bit < 8 →
    (checksummat (pa.flip place bit)).2 ≠ (checksummat pa).2

namespace PacketImage

theorem setByte_comm (pa : PacketImage) {first second : Nat} (apart : first ≠ second)
    (one other : UInt8) :
    (pa.setByte first one).setByte second other = (pa.setByte second other).setByte first one := by
  ext1
  · exact List.set_comm one other apart
  · rfl

theorem setByte_setByte (pa : PacketImage) (place : Nat) (one other : UInt8) :
    (pa.setByte place one).setByte place other = pa.setByte place other := by
  ext1
  · exact List.set_set one
  · rfl

theorem setByte_byte (pa : PacketImage) {place : Nat} (inside : place < maxPacketSize) :
    pa.setByte place (pa.byte place) = pa := by
  have bounded : place < pa.bytes.length := by rwa [pa.whole]
  ext1
  · simp only [setByte, byte, List.getD_eq_getElem?_getD, List.getElem?_eq_getElem bounded,
      Option.getD_some, List.set_getElem_self]
  · rfl

theorem byte_setByte_of_ne (pa : PacketImage) {place other : Nat} (value : UInt8)
    (apart : other ≠ place) : (pa.setByte place value).byte other = pa.byte other := by
  simp only [byte, setByte, List.getD_eq_getElem?_getD, List.getElem?_set_ne (Ne.symm apart)]

/-- A byte outside the field is the same while the sum is taken. -/
theorem byte_prepared (pa : PacketImage) {place : Nat} (notLow : place ≠ 6) (notHigh : place ≠ 7)
    (inside : place ≠ pa.len) : pa.prepared.byte place = pa.byte place := by
  have cleared : (pa.setChecksum 0 0).byte place = pa.byte place := by
    rw [setChecksum, byte_setByte_of_ne _ _ notHigh, byte_setByte_of_ne _ _ notLow]
  unfold prepared
  dsimp only
  split
  · rw [byte_setByte_of_ne _ _ inside, cleared]
  · exact cleared

theorem prepared_setByte (pa : PacketImage) {place : Nat} (value : UInt8) (notLow : place ≠ 6)
    (notHigh : place ≠ 7) (inside : place ≠ pa.len) :
    (pa.setByte place value).prepared = pa.prepared.setByte place value := by
  have cleared : (pa.setByte place value).setChecksum 0 0 =
      (pa.setChecksum 0 0).setByte place value := by
    rw [setChecksum, setByte_comm _ notLow, setByte_comm _ notHigh]
    rfl
  have length : (pa.setByte place value).len = pa.len := rfl
  unfold prepared
  rw [cleared, length]
  dsimp only
  split
  · exact setByte_comm _ inside value 0
  · rfl

/-- Putting the checksum back leaves at most a zero behind the packet. -/
theorem restored (pa : PacketImage) (headed : lenPacketHead ≤ pa.len) :
    pa.prepared.setChecksum (pa.byte 6) (pa.byte 7) = pa ∨
      pa.prepared.setChecksum (pa.byte 6) (pa.byte 7) = pa.setByte pa.len 0 := by
  have back : (pa.setChecksum 0 0).setChecksum (pa.byte 6) (pa.byte 7) = pa := by
    rw [setChecksum, setChecksum, setByte_comm _ (by decide : 7 ≠ 6), setByte_setByte,
      setByte_setByte, setByte_byte _ (by decide), setByte_byte _ (by decide)]
  unfold prepared
  dsimp only
  split
  · right
    unfold lenPacketHead at headed
    rw [setChecksum, setByte_comm _ (by omega : pa.len ≠ 6), setByte_comm _ (by omega : pa.len ≠ 7)]
    exact congrArg (·.setByte pa.len 0) back
  · exact .inl back

end PacketImage

variable {pa : PacketImage} {bytes : List UInt8} {place word count : Nat} {value : UInt8}

theorem byteAt_set_of_ne {index : Nat} (apart : index ≠ place) :
    byteAt (bytes.set place value) index = byteAt bytes index := by
  unfold byteAt
  rw [List.getD_eq_getElem?_getD, List.getD_eq_getElem?_getD, List.getElem?_set_ne (Ne.symm apart)]

theorem byteAt_set_self (inside : place < bytes.length) :
    byteAt (bytes.set place value) place = value.toNat := by
  unfold byteAt
  rw [List.getD_eq_getElem?_getD, List.getElem?_set_self inside]
  rfl

theorem ushortAt_set_of_ne (apart : word ≠ place / 2) :
    ushortAt (bytes.set place value) (2 * word) = ushortAt bytes (2 * word) := by
  unfold ushortAt
  rw [byteAt_set_of_ne (by omega), byteAt_set_of_ne (by omega)]

theorem ushortAt_set_ne (inside : place < bytes.length) (different : value ≠ bytes.getD place 0) :
    ushortAt (bytes.set place value) (2 * (place / 2)) ≠ ushortAt bytes (2 * (place / 2)) := by
  have changed : byteAt (bytes.set place value) place ≠ byteAt bytes place := by
    rw [byteAt_set_self inside]
    exact fun same => different (UInt8.toNat_inj.mp same)
  have lowBound := (bytes.getD (2 * (place / 2)) 0).toNat_lt
  have lowBound' := ((bytes.set place value).getD (2 * (place / 2)) 0).toNat_lt
  unfold ushortAt
  by_cases even : place % 2 = 0
  · have low : 2 * (place / 2) = place := by omega
    rw [low, byteAt_set_of_ne (by omega : place + 1 ≠ place)]
    omega
  · have high : 2 * (place / 2) + 1 = place := by omega
    rw [high]
    unfold byteAt at *
    omega

theorem length_packetWords (bytes : List UInt8) (count : Nat) :
    (packetWords bytes count).length = count := by
  simp [packetWords]

theorem packetWords_set (bytes : List UInt8) (place count : Nat) (value : UInt8) :
    packetWords (bytes.set place value) count = (packetWords bytes count).set (place / 2)
      (ushortAt (bytes.set place value) (2 * (place / 2))) := by
  apply List.ext_getElem
  · simp [length_packetWords]
  · intro word inside _
    rw [List.getElem_set]
    simp only [packetWords, List.getElem_map, List.getElem_range]
    split
    · next here => rw [here]
    · next apart => exact ushortAt_set_of_ne (Ne.symm apart)

theorem checksumLoop_eq (bytes : List UInt8) (i start checksum : Nat) :
    checksumLoop bytes i (2 * start) checksum =
      checksum ^^^ xorAll ((List.range' start i).map fun place => ushortAt bytes (2 * place)) := by
  induction i generalizing start checksum with
  | zero => simp [checksumLoop, xorAll]
  | succ i inductionHypothesis =>
      have next : 2 * start + 2 = 2 * (start + 1) := by omega
      rw [checksumLoop, next, inductionHypothesis, List.range'_succ, List.map_cons, xorAll,
        Nat.xor_assoc]

/-- The two lengths `checksummat` accepts between. -/
def PacketImage.Sized (pa : PacketImage) : Prop := lenPacketHead ≤ pa.len ∧ pa.len ≤ maxPacketSize

theorem checksummat_sum (sized : pa.Sized) :
    (checksummat pa).2 = xorAll (packetWords pa.prepared.bytes ((pa.len + 1) % 2)) := by
  obtain ⟨lower, upper⟩ := sized
  rw [checksummat, if_neg (by omega)]
  have looped := checksumLoop_eq pa.prepared.bytes ((pa.len + 1) % 2) 0 0
  rw [Nat.mul_zero, Nat.zero_xor, ← List.range_eq_range'] at looped
  exact looped

theorem checksummat_kept (sized : pa.Sized) :
    (checksummat pa).1.bytes.take pa.len = pa.bytes.take pa.len := by
  obtain ⟨lower, upper⟩ := sized
  rw [checksummat, if_neg (by omega)]
  rcases pa.restored lower with same | padded
  · exact congrArg (fun image => image.bytes.take pa.len) same
  · refine (congrArg (fun image => image.bytes.take pa.len) padded).trans ?_
    exact List.take_set_of_le (Nat.le_refl _)

theorem sum_eq_iff (sized : pa.Sized) :
    (checksummat pa).2 = pa.xorSum ↔
      xorAll ((packetWords pa.prepared.bytes ((pa.len + 1) / 2)).drop ((pa.len + 1) % 2)) = 0 := by
  have lower := sized.1
  unfold lenPacketHead at lower
  have front : (packetWords pa.prepared.bytes ((pa.len + 1) / 2)).take ((pa.len + 1) % 2) =
      packetWords pa.prepared.bytes ((pa.len + 1) % 2) := by
    rw [packetWords, ← List.map_take, List.take_range, Nat.min_eq_left (by omega)]
    rfl
  have whole := xorAll_append (packetWords pa.prepared.bytes ((pa.len + 1) % 2))
    ((packetWords pa.prepared.bytes ((pa.len + 1) / 2)).drop ((pa.len + 1) % 2))
  rw [← front, List.take_append_drop, front] at whole
  rw [checksummat_sum sized, PacketImage.xorSum, whole]
  constructor
  · intro same
    exact (xor_left_cancel ((Nat.xor_zero _).trans same)).symm
  · intro cancelled
    rw [cancelled, Nat.xor_zero]

/-- No bit from the third byte on has any influence on the checksum. -/
theorem checksummat_blind (sized : pa.Sized) (beyond : 2 ≤ place) (inside : place < pa.len)
    (notLow : place ≠ 6) (notHigh : place ≠ 7) :
    (checksummat (pa.setByte place value)).2 = (checksummat pa).2 := by
  have stillSized : (pa.setByte place value).Sized := sized
  rw [checksummat_sum stillSized, checksummat_sum sized,
    pa.prepared_setByte value notLow notHigh (Nat.ne_of_lt inside)]
  have length : (pa.setByte place value).len = pa.len := rfl
  rw [length]
  congr 1
  apply List.map_congr_left
  intro word few
  rw [List.mem_range] at few
  exact ushortAt_set_of_ne (by omega)

theorem flip_byte_ne (byte : UInt8) {bit : Nat} (bounded : bit < 8) :
    byte ^^^ (1 <<< UInt8.ofNat bit) ≠ byte := by
  intro same
  have both := congrArg (byte ^^^ ·) same
  simp only [UInt8.xor_self, ← UInt8.xor_assoc, UInt8.zero_xor] at both
  have nonzero : ∀ bit < 8, (1 : UInt8) <<< UInt8.ofNat bit ≠ 0 := by decide
  exact nonzero bit bounded both

/-- The sum over all words would notice every bit: what is missing is only the
number of turns. -/
theorem xorSum_flip_ne (sized : pa.Sized) (inside : place < pa.len) (notLow : place ≠ 6)
    (notHigh : place ≠ 7) {bit : Nat} (bounded : bit < 8) :
    (pa.flip place bit).xorSum ≠ pa.xorSum := by
  have upper := sized.2
  have fits : place < pa.prepared.bytes.length := by
    rw [pa.prepared.whole]
    omega
  have same : pa.byte place = pa.prepared.byte place :=
    (pa.byte_prepared notLow notHigh (Nat.ne_of_lt inside)).symm
  have turned : pa.byte place ^^^ (1 <<< UInt8.ofNat bit) ≠ pa.prepared.bytes.getD place 0 := by
    rw [same]
    exact flip_byte_ne _ bounded
  rw [PacketImage.xorSum, PacketImage.xorSum, PacketImage.flip,
    pa.prepared_setByte _ notLow notHigh (Nat.ne_of_lt inside)]
  have length : (pa.setByte place (pa.byte place ^^^ (1 <<< UInt8.ofNat bit))).len = pa.len := rfl
  rw [length, PacketImage.setByte, packetWords_set]
  have member : place / 2 < (packetWords pa.prepared.bytes ((pa.len + 1) / 2)).length := by
    rw [length_packetWords]
    omega
  apply xorAll_set_ne member
  have changed := ushortAt_set_ne fits turned
  simpa [packetWords] using changed

/-- The checksum covers no packet: in each, the lowest bit of `seq` can be turned
over unnoticed. -/
theorem checksum_covers_none (lower : lenPacketHead ≤ pa.len) (upper : pa.len ≤ maxPacketSize) :
    ¬ pa.Covered := by
  intro covered
  have headed := lower
  unfold lenPacketHead at headed
  apply covered.detects 2 0 (by omega) (by decide) (by decide) (by decide)
  exact checksummat_blind ⟨lower, upper⟩ (by decide) (by omega) (by decide) (by decide)

def smallPacket : PacketImage where
  bytes := [4, 2, 5, 0, 1, 0, 0, 0, 65, 66] ++ List.replicate 1462 0
  whole := by rw [List.length_append, List.length_replicate]; rfl
  len := 10

theorem checksum_covers_none_small : ¬ smallPacket.Covered :=
  checksum_covers_none (by decide) (by decide)

/-- An even length: only the first word is taken, and the packet with number 4
has the same checksum. -/
theorem seq_not_covered :
    (checksummat smallPacket).2 = 516 ∧ smallPacket.xorSum = 16449 ∧
      (checksummat (smallPacket.flip 2 0)).2 = 516 ∧ ¬ smallPacket.Covered := by
  have first : (checksummat smallPacket).2 = 516 := by decide +kernel
  have second : (checksummat (smallPacket.flip 2 0)).2 = 516 := by decide +kernel
  refine ⟨first, by decide +kernel, second, fun covered => ?_⟩
  exact covered.detects 2 0 (by decide) (by decide) (by decide) (by decide)
    (second.trans first.symm)

end UtilsModules.Udp

import UtilsModules.Library.Buffer
import UtilsModules.Udp.Recovery
import Mathlib.Data.List.Nodup

/-!
The report of missing packets, with its buffer.

`seqLack` keeps the numbers that are not yet sent as a list.  `seqLackInto` is
the same code on `pa.buf`: numbers are written at `usp`, a write outside the
buffer is refused, and what is sent is what lies in the buffer.
-/

namespace UtilsModules.Udp

open Bytes Circular

/-- The locals of the loop in `SeqLack`: the packet, the offset of `usp` in its
buffer, how many numbers are missing so far, and what was sent. -/
structure LackBuffer where
  iLackCount : Nat
  usp : Nat
  pa : PacketAll
  sent : List Datagram

def clearedLack : PacketAll :=
  { PacketAll.cleared with
    head := { PacketAll.cleared.head with type := .seqLack }
    buf := List.replicate maxPacketDataSize 0 }

def seqLackIntoTurn (pslink : Link) (locals : LackBuffer) (seqReadLast : Nat) :
    Option LackBuffer :=
  if pslink.Readable seqReadLast then
    some locals
  else do
    let iLackCount := locals.iLackCount + 1
    let buf ← Buffer.write locals.pa.buf locals.usp (ushortBytes seqReadLast)
    let pa := { locals.pa with buf }
    if iLackCount * 2 % maxPacketDataSize = 0 then
      let (pa, datagram) ← sendMsg pslink { pa with len := maxPacketSize } maxPacketSize
      return ⟨iLackCount, 0, pa, locals.sent ++ [datagram]⟩
    else
      return ⟨iLackCount, locals.usp + 2, pa, locals.sent⟩

def seqLackIntoLoop (pslink : Link) : Nat → Nat → LackBuffer → Option LackBuffer
  | 0, _, _ => none
  | fuel + 1, seqReadLast, locals => do
      let locals ← seqLackIntoTurn pslink locals seqReadLast
      let seqReadLast := (seqReadLast + 1) % maxPacketSeq
      if seqReadLast ≠ pslink.seqReadMax then seqLackIntoLoop pslink fuel seqReadLast locals
      else some locals

def LackBuffer.finish (pslink : Link) (locals : LackBuffer) : Option (List Datagram) :=
  let rest := locals.iLackCount * 2 % maxPacketDataSize
  if rest ≠ 0 then do
    let (_, datagram) ←
      sendMsg pslink { locals.pa with len := lenPacketHead + rest } (lenPacketHead + rest)
    return locals.sent ++ [datagram]
  else
    some locals.sent

def seqLackInto (pslink : Link) (now : Timeval) : Option (Link × List Datagram) :=
  if getMsDiff now pslink.timeoutReportLack < pslink.timeoutCheckLack.tvUsec.tdiv 1000 then
    some (pslink, [])
  else if CmpSeq pslink.seqReadMax pslink.seqRead then do
    let locals ←
      seqLackIntoLoop pslink (maxPacketSeq + 1) pslink.seqRead ⟨0, 0, clearedLack, []⟩
    let sent ← locals.finish pslink
    return ({ pslink with timeoutReportLack := now }, sent)
  else
    some (pslink, [])

/-- The buffer holds the numbers of the report that are not yet sent, and `usp`
stands behind them. -/
structure LackBuffer.Holds (pslink : Link) (locals : LackBuffer) (report : LackReport) : Prop where
  iLackCount : locals.iLackCount = report.iLackCount
  sent : locals.sent = report.sent
  head : pslink.stamp locals.pa.head = pslink.stamp clearedLack.head
  size : locals.pa.buf.length = maxPacketDataSize
  usp : locals.usp = report.iLackCount * 2 % maxPacketDataSize
  lack : locals.usp = report.lack.length * 2
  front : locals.pa.buf.take locals.usp = report.lack.flatMap ushortBytes

theorem holds_clearedLack (pslink : Link) :
    LackBuffer.Holds pslink ⟨0, 0, clearedLack, []⟩ ⟨0, [], []⟩ where
  iLackCount := rfl
  sent := rfl
  head := rfl
  size := List.length_replicate ..
  usp := rfl
  lack := rfl
  front := rfl

theorem stamp_stamp (pslink : Link) (head : PacketHead) :
    pslink.stamp (pslink.stamp head) = pslink.stamp head := rfl

theorem message_of_front {pslink : Link} {head : PacketHead} {buf : List UInt8} {lack : List Nat}
    {len : Nat} (stamped : pslink.stamp head = pslink.stamp clearedLack.head)
    (whole : len = lenPacketHead + lack.length * 2)
    (front : buf.take (lack.length * 2) = lack.flatMap ushortBytes) :
    pslink.message ⟨head, buf, len⟩ len = pslink.message (lackPacket lack) len := by
  have listed : (lack.flatMap ushortBytes).take (lack.length * 2) = lack.flatMap ushortBytes :=
    List.take_of_length_le (by rw [length_flatMap_ushortBytes]; omega)
  have rest : len - lenPacketHead = lack.length * 2 := by
    rw [whole, Nat.add_sub_cancel_left]
  simp only [Link.message, rest, front, lackPacket, listed]
  rw [stamped]
  rfl

theorem seqLackIntoTurn_holds {pslink : Link} {locals : LackBuffer} {report : LackReport}
    (holds : locals.Holds pslink report) (seqReadLast : Nat) :
    ∃ next, seqLackIntoTurn pslink locals seqReadLast = some next ∧
      next.Holds pslink (seqLackTurn pslink report seqReadLast) := by
  unfold seqLackIntoTurn seqLackTurn
  split
  · exact ⟨locals, rfl, holds⟩
  · have usp := holds.usp
    have lack := holds.lack
    have even : locals.usp + 2 ≤ maxPacketDataSize := by
      simp only [maxPacketDataSize] at *
      omega
    obtain ⟨buf, written, size, front, -⟩ :=
      @Buffer.exists_write _ _ _ (ushortBytes seqReadLast) _ holds.front
        (by rw [holds.size, length_ushortBytes]; exact even)
    rw [written, holds.iLackCount]
    simp only [Option.bind_eq_bind, Option.bind_some]
    rw [length_ushortBytes] at front
    have filled :
        buf.take (locals.usp + 2) = (report.lack ++ [seqReadLast]).flatMap ushortBytes := by
      rw [front, List.flatMap_append, List.flatMap_singleton]
    have longer : locals.usp + 2 = (report.lack ++ [seqReadLast]).length * 2 := by
      rw [List.length_append, List.length_singleton, lack]
      omega
    split
    · next full =>
      -- the buffer is full exactly when the count comes round
      have whole : maxPacketSize = lenPacketHead + (report.lack ++ [seqReadLast]).length * 2 := by
        simp only [maxPacketDataSize, maxPacketSize, lenPacketHead] at *
        omega
      rw [sendMsg_of_le _ _ (by decide), Option.bind_some]
      refine ⟨_, rfl, rfl, ?_, ?_, size.trans holds.size, ?_, rfl, rfl⟩
      · dsimp only
        rw [holds.sent, message_of_front holds.head whole (longer ▸ filled)]
      · dsimp only
        rw [stamp_stamp]
        exact holds.head
      · exact full.symm
    · next room =>
      refine ⟨_, rfl, rfl, holds.sent, holds.head, size.trans holds.size, ?_, longer, filled⟩
      dsimp only
      simp only [maxPacketDataSize] at *
      omega

theorem seqLackIntoLoop_holds {pslink : Link} {fuel seqReadLast : Nat} {locals : LackBuffer}
    {report : LackReport} (holds : locals.Holds pslink report) :
    Option.Rel (fun next last => next.Holds pslink last)
      (seqLackIntoLoop pslink fuel seqReadLast locals)
      (seqLackLoop pslink fuel seqReadLast report) := by
  induction fuel generalizing seqReadLast locals report with
  | zero => exact .none
  | succ fuel inductionHypothesis =>
      obtain ⟨next, turned, kept⟩ := seqLackIntoTurn_holds holds seqReadLast
      simp only [seqLackIntoLoop, seqLackLoop, turned, Option.bind_eq_bind, Option.bind_some]
      split
      · exact inductionHypothesis kept
      · exact .some kept

theorem finish_holds {pslink : Link} {locals : LackBuffer} {report : LackReport}
    (holds : locals.Holds pslink report) :
    locals.finish pslink = some (report.finish pslink) := by
  have usp := holds.usp
  have lack := holds.lack
  have front := holds.front
  unfold LackBuffer.finish LackReport.finish
  dsimp only
  rw [holds.iLackCount]
  split
  · next left =>
    rw [lack] at front usp
    rw [← usp, sendMsg_of_le _ _ (by omega)]
    simp only [Option.bind_eq_bind, Option.bind_some]
    rw [holds.sent, message_of_front holds.head rfl front]
    rfl
  · rw [holds.sent]

/-- The code on the buffer does what `seqLack` says, for every link: no write
leaves `pa.buf`. -/
theorem seqLackInto_eq (pslink : Link) (now : Timeval) :
    seqLackInto pslink now = seqLack pslink now := by
  unfold seqLackInto seqLack
  split
  · rfl
  · split
    · have related := @seqLackIntoLoop_holds pslink (maxPacketSeq + 1) pslink.seqRead _ _
        (holds_clearedLack pslink)
      generalize seqLackLoop pslink (maxPacketSeq + 1) pslink.seqRead ⟨0, [], []⟩ = report at *
      generalize seqLackIntoLoop pslink (maxPacketSeq + 1) pslink.seqRead
        ⟨0, 0, clearedLack, []⟩ = locals at *
      cases related with
      | none => rfl
      | some holds =>
          simp only [Option.bind_eq_bind, Option.bind_some, finish_holds holds]
          rfl
    · rfl

def Datagram.numbers (datagram : Datagram) : List Nat := ushorts datagram.data

def Link.announced (pslink : Link) : Nat := ahead maxPacketSeq pslink.seqReadMax pslink.seqRead

/-- The numbers from `SeqRead` up to but excluding `SeqReadMax`, in circular
order, whose slot does not hold a readable packet. -/
def Link.gap (pslink : Link) : List Nat :=
  ((List.range pslink.announced).map fun step => (pslink.seqRead + step) % maxPacketSeq).filter
    fun seq => ¬ pslink.Readable seq

theorem mem_gap_lt {pslink : Link} {seq : Nat} (membership : seq ∈ pslink.gap) :
    seq < maxPacketSeq := by
  obtain ⟨step, -, rfl⟩ := List.mem_map.mp (List.mem_of_mem_filter membership)
  exact mod_maxPacketSeq_lt _

theorem gap_nodup (pslink : Link) : pslink.gap.Nodup := by
  apply List.Nodup.filter
  have near : pslink.announced < maxPacketSeq := ahead_lt (by decide) _ _
  refine List.Nodup.map_on ?_ List.nodup_range
  intro first firstIn second secondIn same
  simp only [List.mem_range] at firstIn secondIn
  simp only [maxPacketSeq_eq] at *
  omega

theorem gap_eq_missing (pslink : Link) :
    pslink.gap = (pslink.missing pslink.seqRead (pslink.seqRead + pslink.announced)).map
      (· % maxPacketSeq) := by
  have shifted : List.range' pslink.seqRead pslink.announced =
      (List.range pslink.announced).map (pslink.seqRead + ·) := List.range'_eq_map_range ..
  rw [Link.gap, Link.missing, Nat.add_sub_cancel_left, shifted]
  simp only [List.filter_map, List.map_map]
  rfl

theorem lackDatagrams_numbers (pslink : Link) {lack : List Nat}
    (bounded : ∀ seq ∈ lack, seq < maxPacketSeq) :
    (pslink.lackDatagrams lack).flatMap Datagram.numbers = lack ∧
      ∀ datagram ∈ pslink.lackDatagrams lack,
        datagram.head.type = .seqLack ∧ datagram.numbers ≠ [] := by
  by_cases nothing : lack = []
  · simp [Link.lackDatagrams, nothing]
  · have read : ushorts (lack.flatMap ushortBytes) = lack :=
      ushorts_flatMap fun seq membership => (bounded seq membership).trans (by decide)
    rw [lackDatagrams_data pslink nothing]
    simp only [List.flatMap_singleton, List.mem_singleton, forall_eq, Datagram.numbers, read]
    exact ⟨trivial, rfl, nothing⟩

/-- The report of `SeqLack`, exactly: whenever the rate limit lets it pass, it
comes back without writing outside `pa.buf`, and it has asked for the numbers of
the gap, each once and in order, if `SeqReadMax` is less than a window ahead, and
for nothing otherwise. -/
theorem gap_report_exact {pslink : Link} {now : Timeval} (readBound : pslink.seqRead < maxPacketSeq)
    (maxBound : pslink.seqReadMax < maxPacketSeq)
    (due : ¬ getMsDiff now pslink.timeoutReportLack < pslink.timeoutCheckLack.tvUsec.tdiv 1000) :
    ∃ after sent, seqLackInto pslink now = some (after, sent) ∧
      sent.flatMap Datagram.numbers =
        (if 0 < pslink.announced ∧ pslink.announced < maxPacketNumber then pslink.gap else []) ∧
      (sent.flatMap Datagram.numbers).Nodup ∧
      (∀ datagram ∈ sent, datagram.head.type = .seqLack ∧ datagram.numbers ≠ []) ∧
      ∃ time, after = { pslink with timeoutReportLack := time } := by
  rw [seqLackInto_eq]
  split
  · next window =>
    have reached := add_ahead_mod maxBound readBound
    obtain ⟨after, ran, frame⟩ := @seqLack_missing pslink _ (pslink.seqRead + pslink.announced)
      now (Nat.mod_eq_of_lt readBound).symm reached.symm (by omega) (by omega) due
    rw [← gap_eq_missing] at ran
    obtain ⟨numbers, kinds⟩ := lackDatagrams_numbers pslink fun seq => mem_gap_lt
    refine ⟨after, _, ran, numbers, ?_, kinds, frame⟩
    rw [numbers]
    exact gap_nodup pslink
  · next outside =>
    have refused : ¬ CmpSeq pslink.seqReadMax pslink.seqRead := by
      rw [cmpSeq_iff_ahead maxBound readBound]
      exact outside
    refine ⟨pslink, [], ?_, rfl, .nil, by simp, pslink.timeoutReportLack, rfl⟩
    rw [seqLack, if_neg due, if_neg refused]

/-- A link that waits across the end of the sequence numbers and holds only
number 2042. -/
def waitingAcross : Link :=
  { addList 0 3 0 .zero with
    linkState := 2
    seqRead := 2041
    seqReadMax := 1
    paArrayRecv := Function.update (fun _ => .cleared) (slotOf 2042)
      ⟨⟨.userData, 2, 2042, 1, 0⟩, [7], lenPacketHead + 1⟩ }

theorem gap_report_exact_across :
    ∃ after sent, seqLackInto waitingAcross ⟨1, 0⟩ = some (after, sent) ∧
      sent.flatMap Datagram.numbers = [2041, 2043, 0] := by
  obtain ⟨after, sent, ran, numbers, -⟩ :=
    @gap_report_exact waitingAcross ⟨1, 0⟩ (by decide) (by decide) (by decide)
  exact ⟨after, sent, ran, numbers.trans (by decide +kernel)⟩

end UtilsModules.Udp

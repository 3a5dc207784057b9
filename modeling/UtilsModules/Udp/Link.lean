import UtilsModules.Udp.Packet
import Mathlib.Logic.Function.Basic

/-!
One connection of the reliable UDP layer: the state `s_link` and the message
handlers of `ex_udp.c`.

Each handler is a function of the link.  Handlers that send return the
datagrams they hand to `sendto`, in order.  A result `none` says that the call
does not come back, because the process ends in `exit` or a loop does not stop.
The time a handler reads from `gettimeofday` is an argument.
-/

namespace UtilsModules.Udp

open Bytes

def listenInterval : Int := 10000

def checkIntervalInit : Int := 20000

/-- `GET_MS_DIFF`: the mask keeps 21 bits of the seconds, the division
truncates towards zero. -/
def getMsDiff (tv1 tv2 : Timeval) : Int :=
  (tv1.tvSec - tv2.tvSec) % 2097152 * 1000 + (tv1.tvUsec - tv2.tvUsec).tdiv 1000

abbrev PacketArray := Fin maxPacketNumber → PacketAll

/-- `s_link`, without its semaphores, list nodes and bookkeeping that no
handler reads. -/
structure Link where
  linkState : Int
  id : Nat
  socket : Nat
  prioritySendLack : Bool
  timeoutTimes : Nat
  timeout : Timeval
  timeoutSend : Timeval
  timeoutCheckLack : Timeval
  timeoutReportLack : Timeval
  tsWaitTime : Int
  seqRead : Nat
  seqReadMax : Nat
  seqMaxSend : Nat
  seqCheckSend : Nat
  paArrayRecv : PacketArray
  paArraySend : PacketArray

def PacketArray.setSeq (slots : PacketArray) (slot : Fin maxPacketNumber) (seq : Nat) :
    PacketArray :=
  Function.update slots slot { slots slot with head := { (slots slot).head with seq := seq } }

/-- The link `add_list` prepares in memory cleared by `CREATE_LINK`. -/
def addList (id socket : Nat) (tsWaitTime : Int) (now : Timeval) : Link where
  linkState := 0
  id := id
  socket := socket
  prioritySendLack := false
  timeoutTimes := 1
  timeout := .zero
  timeoutSend := now
  timeoutCheckLack := ⟨0, checkIntervalInit⟩
  timeoutReportLack := .zero
  tsWaitTime := tsWaitTime
  seqRead := 1
  seqReadMax := 0
  seqMaxSend := 1
  seqCheckSend := 0
  paArrayRecv := PacketArray.setSeq (fun _ => .cleared) (slotOf 0) 1
  paArraySend := PacketArray.setSeq (fun _ => .cleared) (slotOf 0) 1

namespace Link

/-- The sequence number the sender has next to see acknowledged. -/
def nextCheck (link : Link) : Nat := (link.seqCheckSend + 1) % maxPacketSeq

def lastRead (link : Link) : Nat :=
  if link.seqRead = 0 then maxPacketSeq - 1 else link.seqRead - 1

/-- The slot of a number holds an unread packet with that number. -/
def Readable (link : Link) (seq : Nat) : Prop :=
  (link.paArrayRecv (slotOf seq)).head.seq = seq ∧ (link.paArrayRecv (slotOf seq)).len ≠ 0

instance (link : Link) (seq : Nat) : Decidable (link.Readable seq) :=
  inferInstanceAs (Decidable (_ ∧ _))

end Link

/-- The header fields `SendMsg` fills in: the link's state and its next
unchecked number. -/
def Link.stamp (pslink : Link) (head : PacketHead) : PacketHead :=
  { head with state := (pslink.linkState % 256).toNat, seqCheck := pslink.nextCheck }

def Link.message (pslink : Link) (pa : PacketAll) (len : Nat) : Datagram :=
  ⟨pslink.stamp pa.head, pa.buf.take (len - lenPacketHead)⟩

/-- `SendMsg`: stamp the packet and send `len` bytes of it.  A length below the
header ends the process; callers with a constant length use `Link.message`. -/
def sendMsg (pslink : Link) (pa : PacketAll) (len : Nat) : Option (PacketAll × Datagram) :=
  if lenPacketHead ≤ len then
    some ({ pa with head := pslink.stamp pa.head }, pslink.message pa len)
  else
    none

/-- The locals of the loop in `SeqLack`: how many numbers are missing so far,
those written to the buffer since the last datagram, and what was sent. -/
structure LackReport where
  iLackCount : Nat
  lack : List Nat
  sent : List Datagram

def lackPacket (lack : List Nat) : PacketAll :=
  { PacketAll.cleared with
    head := { PacketAll.cleared.head with type := .seqLack }
    buf := lack.flatMap ushortBytes }

/-- One turn of the loop in `SeqLack`; a full buffer is sent at once. -/
def seqLackTurn (pslink : Link) (report : LackReport) (seqReadLast : Nat) : LackReport :=
  if pslink.Readable seqReadLast then
    report
  else
    let iLackCount := report.iLackCount + 1
    let lack := report.lack ++ [seqReadLast]
    if iLackCount * 2 % maxPacketDataSize = 0 then
      ⟨iLackCount, [], report.sent ++ [pslink.message (lackPacket lack) maxPacketSize]⟩
    else
      ⟨iLackCount, lack, report.sent⟩

/-- The loop in `SeqLack` from `seqReadLast` up to `SeqReadMax`.  The fuel bounds
the number of turns. -/
def seqLackLoop (pslink : Link) : Nat → Nat → LackReport → Option LackReport
  | 0, _, _ => none
  | fuel + 1, seqReadLast, report =>
      let report := seqLackTurn pslink report seqReadLast
      let seqReadLast := (seqReadLast + 1) % maxPacketSeq
      if seqReadLast ≠ pslink.seqReadMax then seqLackLoop pslink fuel seqReadLast report
      else some report

def LackReport.finish (pslink : Link) (report : LackReport) : List Datagram :=
  let rest := report.iLackCount * 2 % maxPacketDataSize
  if rest ≠ 0 then
    report.sent ++ [pslink.message (lackPacket report.lack) (lenPacketHead + rest)]
  else
    report.sent

/-- `SeqLack`: report the numbers missing below `SeqReadMax`, at most once per
check interval. -/
def seqLack (pslink : Link) (now : Timeval) : Option (Link × List Datagram) :=
  if getMsDiff now pslink.timeoutReportLack < pslink.timeoutCheckLack.tvUsec.tdiv 1000 then
    some (pslink, [])
  else if CmpSeq pslink.seqReadMax pslink.seqRead then
    (seqLackLoop pslink (maxPacketSeq + 1) pslink.seqRead ⟨0, [], []⟩).map fun report =>
      ({ pslink with timeoutReportLack := now }, report.finish pslink)
  else
    some (pslink, [])

def seqReport (pslink : Link) (now : Timeval) : Option (Link × List Datagram) :=
  if pslink.linkState = 2 then
    let pa := { PacketAll.cleared with
      head := { PacketAll.cleared.head with type := .seqReport, seq := pslink.lastRead }
      len := lenPacketHead }
    (seqLack pslink now).map fun (after, sent) => (after, pslink.message pa pa.len :: sent)
  else
    some (pslink, [])

/-- The `LINK_SYN` that `thread_listen` sends on a silent connected link. -/
def Link.heartbeat (pslink : Link) : List Datagram :=
  if pslink.linkState = 2 then
    let pa := { PacketAll.cleared with
      head := ⟨.linkSyn, 0, pslink.seqMaxSend, pslink.nextCheck, exUdpVer⟩ }
    [pslink.message pa lenPacketHead]
  else
    []

/-- The adaptive part of `SeqReportAck`: compare the echoed time with the check
interval and double or halve the interval. -/
def adaptBy (timeoutCheckLack : Timeval) (difference : Int) : Timeval :=
  let usec := difference % 2097152 * 1000
  if usec > timeoutCheckLack.tvUsec then
    ⟨0, timeoutCheckLack.tvUsec * 2⟩
  else if usec * 2 < timeoutCheckLack.tvUsec then
    ⟨0, if timeoutCheckLack.tvUsec > listenInterval then timeoutCheckLack.tvUsec / 2
      else timeoutCheckLack.tvUsec⟩
  else
    timeoutCheckLack

/-- `SeqReportAck` on the value that `GET_MS_DIFF` yields. -/
def seqReportAckBy (pslink : Link) (pa : PacketAll) (difference : Int) : Link :=
  if pslink.linkState < 2 then
    pslink
  else if CmpSeqOrder pslink.seqCheckSend pa.head.seq pslink.seqMaxSend then
    { pslink with
      seqCheckSend := pa.head.seq
      timeoutCheckLack :=
        if pa.len > lenPacketHead then adaptBy pslink.timeoutCheckLack difference
        else pslink.timeoutCheckLack }
  else
    pslink

def seqReportAck (pslink : Link) (pa : PacketAll) (now : Timeval) : Link :=
  seqReportAckBy pslink pa (getMsDiff now (Timeval.ofBytes pa.buf))

/-- The loop of `SeqLackAck` over the requested numbers; it stops at the first
one that is not between the cursors. -/
def seqLackAckLoop (seqCheckSend_t : Nat) : Link → List Nat → Option (Link × List Datagram)
  | pslink, [] => some (pslink, [])
  | pslink, usp :: rest =>
      if maxPacketSeq > usp then
        if CmpSeqOrder seqCheckSend_t usp pslink.seqMaxSend then do
          let pspa := pslink.paArraySend (slotOf usp)
          let out ← sendMsg pslink pspa pspa.len
          let pslink := { pslink with
            paArraySend := Function.update pslink.paArraySend (slotOf usp) out.1 }
          let (pslink, sent) ← seqLackAckLoop seqCheckSend_t pslink rest
          return (pslink, out.2 :: sent)
        else
          some (pslink, [])
      else
        some (pslink, [])

def seqLackAck (pslink : Link) (pa : PacketAll) : Option (Link × List Datagram) :=
  if pslink.linkState < 2 then
    some (pslink, [])
  else do
    let requested := (ushorts pa.buf).take ((pa.len - lenPacketHead) / 2)
    let (pslink, sent) ← seqLackAckLoop pslink.nextCheck
      { pslink with prioritySendLack := true } requested
    return ({ pslink with prioritySendLack := false }, sent)

/-- `SeqCheck`, with the socket's `time_listen` and the configured
`LISTEN_LINK_INTERVAL`. -/
def seqCheck (listenLinkInterval : Int) (timeListen : Timeval) (pslink : Link) (now : Timeval) :
    Link × List Datagram :=
  if pslink.linkState = 2 ∧ getMsDiff timeListen pslink.timeout < listenLinkInterval then
    if pslink.seqMaxSend ≠ pslink.nextCheck then
      if getMsDiff now pslink.timeoutSend < pslink.timeoutCheckLack.tvUsec.tdiv 1000 then
        (pslink, [])
      else
        let pa : PacketAll :=
          ⟨⟨.seqCheck, 0, pslink.seqMaxSend, pslink.nextCheck, 0⟩, now.bytes, lenPacketHead + 16⟩
        ({ pslink with timeoutSend := now }, [pslink.message pa pa.len])
    else
      (pslink, [])
  else
    (pslink, [])

def seqCheckAck (pslink : Link) (pa : PacketAll) : Option (Link × List Datagram) :=
  if pslink.linkState < 2 then
    some (pslink, [])
  else if pslink.seqRead = pa.head.seq ∨
      CmpSeqOrder pa.head.seqCheck pslink.seqRead pa.head.seq then
    let pslink := { pslink with seqReadMax := pa.head.seq }
    if pa.head.seqCheck ≠ pslink.seqRead then do
      let report := { pa with head := { pa.head with type := .seqReport, seq := pslink.lastRead } }
      let out ← sendMsg pslink report pa.len
      return (pslink, [out.2])
    else
      some (pslink, [])
  else
    some (pslink, [])

def userDataRecv (pslink : Link) (pa : PacketAll) : Link :=
  if pslink.linkState < 2 then
    pslink
  else if CmpSeq pa.head.seq pslink.seqRead ∨ pa.head.seq = pslink.seqRead then
    if ¬ pslink.Readable pa.head.seq then
      { pslink with paArrayRecv := Function.update pslink.paArrayRecv (slotOf pa.head.seq) pa }
    else
      pslink
  else
    pslink

end UtilsModules.Udp

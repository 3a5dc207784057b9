import UtilsModules.Udp.Link

/-!
The calls that drive one link: the receiving thread and the user's interface.

`threadRecv` is one turn of `thread_recv` after `get_link`.  `exSend`, `exRecv`
and `sendToMsgQueue` are one pass through the loop of the function they are
named after; a caller that blocks is a later pass.
-/

namespace UtilsModules.Udp

/-- The block shared by `LINK_SYN`, `LINK_SYN_ACK` and the half-open case: the
receive array is cleared only if slot 1 holds sequence number 1. -/
def restartRecv (pslink : Link) (seqCheck : Nat) : Link :=
  let cleared : PacketArray :=
    if (pslink.paArrayRecv (slotOf 1)).head.seq = 1 then fun _ => .cleared else pslink.paArrayRecv
  { pslink with paArrayRecv := cleared.setSeq (slotOf 0) 1, seqRead := seqCheck }

/-- The tests a received packet has to pass before its link is looked up. -/
def RecvChecks (pa : PacketAll) : Prop :=
  ¬ (pa.len < lenPacketHead ∨ pa.len > maxPacketSize ∨ pa.head.type = .defaultNull ∨
      pa.head.seq ≥ maxPacketSeq) ∧
    ¬ (pa.head.type = .linkSyn ∧ pa.head.checksum ≠ exUdpVer)

instance (pa : PacketAll) : Decidable (RecvChecks pa) := inferInstanceAs (Decidable (_ ∧ _))

theorem RecvChecks.seq_lt {pa : PacketAll} (checks : RecvChecks pa) :
    pa.head.seq < maxPacketSeq := by
  have := checks.1
  omega

theorem RecvChecks.len_bounds {pa : PacketAll} (checks : RecvChecks pa) :
    lenPacketHead ≤ pa.len ∧ pa.len ≤ maxPacketSize := by
  have := checks.1
  omega

/-- The half-open link learns from any packet that its peer is connected. -/
def recvHalfOpen (pslink : Link) (pa : PacketAll) : Link :=
  if pslink.linkState = 1 ∧ pa.head.state = 2 then
    { restartRecv pslink pa.head.seqCheck with linkState := 2 }
  else
    pslink

def recvLinkSyn (pslink : Link) (pa : PacketAll) : Link × List Datagram :=
  let pslink := if pa.head.state < 2 then restartRecv pslink pa.head.seqCheck else pslink
  let pslink :=
    if pslink.linkState < 2 then
      { pslink with
        linkState := if pa.head.state = 2 then 0 else 1
        seqRead := pa.head.seqCheck }
    else
      pslink
  let reply := { pa with head := { pa.head with type := .linkSynAck } }
  (pslink, [pslink.message reply lenPacketHead])

/-- `case LINK_SYN_ACK`.  The reply overwrites `pa.head.seqCheck`, so a link
that is not yet connected continues with its own number. -/
def recvLinkSynAck (pslink : Link) (pa : PacketAll) : Link × List Datagram :=
  if pa.head.state < 2 then
    let pslink := restartRecv pslink pa.head.seqCheck
    let reply := { pa with head := { pa.head with type := .linkAck } }
    let sent := [pslink.message reply lenPacketHead]
    if pslink.linkState < 2 then
      ({ pslink with linkState := 2, seqRead := pslink.nextCheck }, sent)
    else
      (pslink, sent)
  else if pslink.linkState < 2 then
    ({ pslink with linkState := 2, seqRead := pa.head.seqCheck }, [])
  else
    (pslink, [])

def recvLinkAck (pslink : Link) : Link :=
  if pslink.linkState < 2 then { pslink with linkState := 2 } else pslink

/-- `case LINK_FIN`: `del_list` answers with a `LINK_FIN` of its own and marks
the link dead. -/
def recvLinkFin (pslink : Link) : Link × List Datagram :=
  let pa := { PacketAll.cleared with head := { PacketAll.cleared.head with type := .linkFin } }
  ({ pslink with linkState := -1 }, [pslink.message pa lenPacketHead])

def threadRecv (pslink : Link) (pa : PacketAll) (now : Timeval) : Option (Link × List Datagram) :=
  let pslink := recvHalfOpen pslink pa
  let pslink := { pslink with timeout := { pslink.timeout with tvSec := 0 } }
  match pa.head.type with
  | .linkSyn => some (recvLinkSyn pslink pa)
  | .linkSynAck => some (recvLinkSynAck pslink pa)
  | .linkAck => some (recvLinkAck pslink, [])
  | .userData => some (userDataRecv pslink pa, [])
  | .seqCheck => seqCheckAck pslink pa
  | .seqReport => some (seqReportAck pslink pa now, [])
  | .seqLack => seqLackAck pslink pa
  | .linkFin => some (recvLinkFin pslink)
  | .defaultNull => some (pslink, [])

/-- What a call of `exSend` comes back with in one pass: an error, a number of
bytes, or the caller goes to sleep on `semSendList`. -/
inductive SendReturn where
  | error
  | bytes (count : Nat)
  | wait
  deriving DecidableEq, Repr

def Link.userPacket (pslink : Link) (buf : List UInt8) : PacketAll :=
  let slot := pslink.paArraySend (slotOf pslink.seqMaxSend)
  { head := { slot.head with
      type := .userData, seq := pslink.seqMaxSend, seqCheck := pslink.nextCheck }
    buf := memcpy slot.buf buf
    len := lenPacketHead + buf.length }

/-- The send array after `exSend` has written that packet and `SendMsg` has
stamped it, whether or not `sendto` succeeds. -/
def Link.writeUser (pslink : Link) (buf : List UInt8) : PacketArray :=
  let pa := pslink.userPacket buf
  Function.update pslink.paArraySend (slotOf pslink.seqMaxSend)
    { pa with head := pslink.stamp pa.head }

/-- `exSend` on the bytes of the caller's buffer; `sendtoOk` is whether
`sendto` succeeds.  A length that passes the first test fits one packet. -/
def exSend (pslink : Link) (buf : List UInt8) (sendtoOk : Bool) :
    Link × List Datagram × SendReturn :=
  if buf.length ≤ 0 ∨ buf.length > maxPacketDataSize then
    (pslink, [], .error)
  else if pslink.prioritySendLack = false ∧
      (pslink.seqMaxSend + 1) % maxPacketNumber ≠ pslink.seqCheckSend % maxPacketNumber then
    let pa := pslink.userPacket buf
    if sendtoOk then
      ({ pslink with
          paArraySend := pslink.writeUser buf
          seqMaxSend := (pslink.seqMaxSend + 1) % maxPacketSeq },
        [pslink.message pa pa.len], .bytes buf.length)
    else
      ({ pslink with paArraySend := pslink.writeUser buf }, [], .bytes 0)
  else if pslink.tsWaitTime = 0 then
    (pslink, [], .bytes 0)
  else
    (pslink, [], .wait)

def Link.consume (pslink : Link) : Link :=
  let slot := slotOf pslink.seqRead
  { pslink with
    paArrayRecv := Function.update pslink.paArrayRecv slot { pslink.paArrayRecv slot with len := 0 }
    seqRead := (pslink.seqRead + 1) % maxPacketSeq }

/-- `exRecv`: the payload at `SeqRead`, or a report to the peer when there is
none.  The length is a `USHORT`. -/
def exRecv (pslink : Link) (now : Timeval) : Option (Link × List Datagram × Option (List UInt8)) :=
  if pslink.Readable pslink.seqRead then
    let pa := pslink.paArrayRecv (slotOf pslink.seqRead)
    let len := (pa.len + 65536 - lenPacketHead) % 65536
    if len > maxPacketDataSize then
      none
    else
      some (pslink.consume, [], some (pa.buf.take len))
  else
    (seqReport pslink now).map fun (after, sent) => (after, sent, none)

/-- One pass of the loop of `SendToMsgQueue` on a socket in queue mode;
`msgsndOk` is whether `msgsnd` accepts the message.  Leaving the loop reports
to the peer. -/
def sendToMsgQueue (pslink : Link) (now : Timeval) (msgsndOk : Bool) :
    Option (Link × List Datagram × Option (List UInt8)) :=
  let pa := pslink.paArrayRecv (slotOf pslink.seqRead)
  if pslink.Readable pslink.seqRead ∧ pa.len - lenPacketHead > maxPacketDataSize then
    some (pslink, [], none)
  else if pslink.Readable pslink.seqRead ∧ msgsndOk = true then
    some (pslink.consume, [], some (pa.buf.take (pa.len - lenPacketHead)))
  else
    (seqReport pslink now).map fun (after, sent) => (after, sent, none)

/-- `get_link` as one peer sees it: only a connection request makes a link, and
`created` is the link `CREATE_LINK` would add, if memory and ids allow one. -/
def getLink (known created : Option Link) (type : PacketType) : Option Link :=
  match known with
  | some pslink => some pslink
  | none => if type = .linkSyn ∨ type = .linkSynAck then created else none

def threadRecvBytes (known created : Option Link) (received : List UInt8) (now : Timeval) :
    Option (Option Link × List Datagram) :=
  match PacketAll.ofBytes received with
  | none => some (known, [])
  | some pa =>
      if RecvChecks pa then
        match getLink known created pa.head.type with
        | none => some (known, [])
        | some pslink =>
            (threadRecv pslink pa now).map fun (pslink, sent) =>
              (if pslink.linkState = -1 then none else some pslink, sent)
      else
        some (known, [])

end UtilsModules.Udp

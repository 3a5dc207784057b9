import UtilsModules.Udp.Session

/-!
In-order, exactly-once delivery over the lossy network.

`Flow` relates the sender's window, the receiver's window and every datagram in
flight for one direction of a session.  The lemmas named `sender_` and
`receiver_` say what one end's move does to it; `flow_step` puts them together.
-/

namespace UtilsModules.Udp

open Circular

/-- The bytes accepted under an unbounded number, counting from `base`. -/
def Party.bytesAt (party : Party) (base number : Nat) : List UInt8 :=
  party.accepted.getD (number - base) []

def DataPhase (type : PacketType) : Prop :=
  type = .userData ∨ type = .seqCheck ∨ type = .seqReport ∨ type = .seqLack

def Link.Sends (pslink : Link) : Prop := ∃ check max data, Sending pslink check max data

/-- One direction of a session: `sender` to `receiver`, with the datagrams on
their way to each. -/
structure Flow (base : Nat) (sender receiver : Party) (toReceiver toSender : List Flight) :
    Prop where
  senderState : sender.link.linkState = 2
  receiverState : receiver.link.linkState = 2
  sending : Sending sender.link sender.checkNo sender.maxNo (sender.bytesAt base)
  receiving : Receiving receiver.link receiver.readNo sender.maxNo (sender.bytesAt base)
  peerSends : receiver.link.Sends
  acknowledged : sender.checkNo < receiver.readNo
  unread : receiver.readNo ≤ sender.maxNo
  started : base ≤ sender.checkNo + 1
  acceptedCount : sender.maxNo = base + sender.accepted.length
  deliveredCount : receiver.readNo = base + receiver.delivered.length
  inOrder : receiver.delivered <+: sender.accepted
  data : ∀ flight ∈ toReceiver, flight.datagram.head.type = .userData →
    base ≤ flight.number ∧ flight.number < sender.maxNo ∧
      Holds flight.datagram.packet flight.number (sender.bytesAt base flight.number)
  reports : ∀ flight ∈ toSender, flight.datagram.head.type = .seqReport →
    flight.number < receiver.readNo ∧
      flight.datagram.head.seq = flight.number % maxPacketSeq
  types : ∀ flight ∈ toReceiver ++ toSender, DataPhase flight.datagram.head.type

theorem Holds.of_carries {pa : PacketAll} {datagram : Datagram} {number : Nat}
    {bytes : List UInt8} (holds : Holds pa number bytes) (carries : Carries datagram pa) :
    Holds datagram.packet number bytes where
  type := carries.type.trans holds.type
  seq := carries.seq.trans holds.seq
  payload := by rw [Datagram.packet_payload, carries.data, holds.payload]
  len := by simp only [Datagram.packet, carries.data, holds.payload]
  nonempty := holds.nonempty
  fits := holds.fits

theorem Sending.holds_userPacket {pslink : Link} {check max : Nat} {data : Nat → List UInt8}
    (sending : Sending pslink check max data) {buf : List UInt8} (nonempty : 0 < buf.length)
    (fits : buf.length ≤ maxPacketDataSize) : Holds (pslink.userPacket buf) max buf where
  type := rfl
  seq := sending.seqMaxSend
  payload := by simp [PacketAll.payload, Link.userPacket]
  len := rfl
  nonempty := nonempty
  fits := fits

theorem Sending.retransmitted {pslink : Link} {check max : Nat} {data : Nat → List UInt8}
    (sending : Sending pslink check max data) {requested : List Nat} {datagram : Datagram}
    (again : Retransmitted pslink requested datagram) :
    ∃ number, check < number ∧ number < max ∧ Holds datagram.packet number (data number) := by
  obtain ⟨seq, -, bounded, ordered, carries, -⟩ := again
  have opened := sending.opened
  have window := sending.window
  rw [sending.nextCheck, sending.seqMaxSend, cmpSeqOrder_iff_ahead (mod_maxPacketSeq_lt _)
    bounded (mod_maxPacketSeq_lt _)] at ordered
  have width : ahead maxPacketSeq (max % maxPacketSeq) ((check + 1) % maxPacketSeq) =
      max - (check + 1) :=
    ahead_mod (by omega) (by simp only [maxPacketNumber_eq, maxPacketSeq_eq] at *; omega)
  rw [width] at ordered
  let number := check + 1 + ahead maxPacketSeq seq ((check + 1) % maxPacketSeq)
  have residue : number % maxPacketSeq = seq := by
    simp only [number]
    rw [← Nat.mod_add_mod]
    exact add_ahead_mod bounded (mod_maxPacketSeq_lt _)
  refine ⟨number, by omega, by omega, ?_⟩
  have holds := sending.stored number (by omega) (by omega)
  rw [← slotOf_mod, residue] at holds
  exact holds.of_carries carries

namespace Flow

variable {base : Nat} {sender receiver after : Party} {toReceiver toSender : List Flight}
  {sent : List Datagram}

theorem window (flow : Flow base sender receiver toReceiver toSender) :
    sender.maxNo < receiver.readNo + maxPacketNumber := by
  have := flow.sending.window
  have := flow.acknowledged
  omega

/-- The sender has moved: its two cursors may only have gone forward and what
it accepted before is still the beginning of what it has accepted. -/
theorem of_sender (flow : Flow base sender receiver toReceiver toSender)
    (state : after.link.linkState = 2)
    (sending : Sending after.link after.checkNo after.maxNo (after.bytesAt base))
    (forward : sender.checkNo ≤ after.checkNo) (acknowledged : after.checkNo < receiver.readNo)
    (grown : sender.accepted <+: after.accepted)
    (counted : after.maxNo = base + after.accepted.length) :
    Flow base after receiver toReceiver toSender := by
  have longer : sender.maxNo ≤ after.maxNo := by
    have := flow.acceptedCount
    have := grown.length_le
    omega
  have same : ∀ number, base ≤ number → number < sender.maxNo →
      after.bytesAt base number = sender.bytesAt base number := by
    intro number above below
    have inside : number - base < sender.accepted.length := by
      have := flow.acceptedCount
      omega
    obtain ⟨rest, equal⟩ := grown
    simp only [Party.bytesAt, ← equal, List.getD_eq_getElem?_getD,
      List.getElem?_append_left inside]
  refine ⟨state, flow.receiverState, sending, ?_, flow.peerSends, acknowledged, ?_, ?_, counted,
    flow.deliveredCount, ?_, ?_, flow.reports, flow.types⟩
  · refine flow.receiving.extend longer fun number above below => same number ?_ below
    have := flow.deliveredCount
    omega
  · exact flow.unread.trans longer
  · have := flow.started
    omega
  · exact flow.inOrder.trans grown
  · intro flight membership type
    obtain ⟨above, below, holds⟩ := flow.data flight membership type
    rw [same _ above below]
    exact ⟨above, by omega, holds⟩

theorem of_receiver (flow : Flow base sender receiver toReceiver toSender)
    (state : after.link.linkState = 2)
    (receiving : Receiving after.link after.readNo sender.maxNo (sender.bytesAt base))
    (peerSends : after.link.Sends)
    (forward : receiver.readNo ≤ after.readNo) (unread : after.readNo ≤ sender.maxNo)
    (counted : after.readNo = base + after.delivered.length)
    (inOrder : after.delivered <+: sender.accepted) :
    Flow base sender after toReceiver toSender := by
  refine ⟨flow.senderState, state, flow.sending, receiving, peerSends, ?_, unread, flow.started,
    flow.acceptedCount, counted, inOrder, flow.data, ?_, flow.types⟩
  · have := flow.acknowledged
    omega
  · intro flight membership type
    obtain ⟨below, seq⟩ := flow.reports flight membership type
    exact ⟨by omega, seq⟩

/-- The number given to a packet the sender has just sent from its window. -/
theorem number_userData (flow : Flow base sender receiver toReceiver toSender)
    {datagram : Datagram} {number : Nat} (type : datagram.head.type = .userData)
    (seq : datagram.head.seq = number % maxPacketSeq) (above : sender.checkNo < number)
    (below : number ≤ sender.maxNo) : sender.number datagram = number := by
  have window := flow.sending.window
  have distance : ahead maxPacketSeq sender.link.seqMaxSend datagram.head.seq =
      sender.maxNo - number := by
    rw [flow.sending.seqMaxSend, seq]
    exact ahead_mod below (by simp only [maxPacketNumber_eq, maxPacketSeq_eq] at *; omega)
  simp only [Party.number, type, distance]
  omega

theorem number_seqReport (flow : Flow base sender receiver toReceiver toSender)
    {datagram : Datagram} (type : datagram.head.type = .seqReport)
    (seq : datagram.head.seq = receiver.link.lastRead) :
    receiver.number datagram = receiver.readNo - 1 ∧
      datagram.head.seq = (receiver.readNo - 1) % maxPacketSeq := by
  have positive : 0 < receiver.readNo := by
    have := flow.acknowledged
    omega
  have last := seq.trans (flow.receiving.lastRead positive)
  refine ⟨?_, last⟩
  have distance : ahead maxPacketSeq receiver.link.seqRead datagram.head.seq = 1 := by
    rw [flow.receiving.seqRead, last, ahead_mod (by omega) (by rw [maxPacketSeq_eq]; omega)]
    omega
  simp only [Party.number, type, distance]

theorem launch_sender (flow : Flow base sender receiver toReceiver toSender)
    (phase : ∀ datagram ∈ sent, DataPhase datagram.head.type)
    (stored : ∀ datagram ∈ sent, datagram.head.type = .userData →
      ∃ number, sender.checkNo < number ∧ number < sender.maxNo ∧
        Holds datagram.packet number (sender.bytesAt base number)) :
    Flow base sender receiver (toReceiver ++ sender.launch sent) toSender := by
  refine { flow with data := ?_, types := ?_ }
  · intro flight membership type
    rcases List.mem_append.mp membership with old | new
    · exact flow.data flight old type
    · obtain ⟨datagram, inSent, rfl⟩ := List.mem_map.mp new
      obtain ⟨number, above, below, holds⟩ := stored datagram inSent type
      dsimp only
      rw [flow.number_userData type holds.seq above below.le]
      have := flow.started
      exact ⟨by omega, below, holds⟩
  · intro flight membership
    rw [List.append_assoc, List.mem_append, List.mem_append] at membership
    rcases membership with old | new | old
    · exact flow.types flight (List.mem_append_left _ old)
    · obtain ⟨datagram, inSent, rfl⟩ := List.mem_map.mp new
      exact phase datagram inSent
    · exact flow.types flight (List.mem_append_right _ old)

theorem launch_receiver (flow : Flow base sender receiver toReceiver toSender)
    (phase : ∀ datagram ∈ sent, DataPhase datagram.head.type)
    (reported : ∀ datagram ∈ sent, datagram.head.type = .seqReport →
      datagram.head.seq = receiver.link.lastRead) :
    Flow base sender receiver toReceiver (toSender ++ receiver.launch sent) := by
  refine { flow with reports := ?_, types := ?_ }
  · intro flight membership type
    rcases List.mem_append.mp membership with old | new
    · exact flow.reports flight old type
    · obtain ⟨datagram, inSent, rfl⟩ := List.mem_map.mp new
      obtain ⟨number, seq⟩ := flow.number_seqReport type (reported datagram inSent type)
      have := flow.acknowledged
      dsimp only
      rw [number]
      exact ⟨by omega, seq⟩
  · intro flight membership
    rw [← List.append_assoc] at membership
    rcases List.mem_append.mp membership with old | new
    · exact flow.types flight old
    · obtain ⟨datagram, inSent, rfl⟩ := List.mem_map.mp new
      exact phase datagram inSent

end Flow

/-! ## What a connected link does in the data phase -/

structure DataRecv (before after : Link) (pa : PacketAll) (sent : List Datagram) : Prop where
  linkState : after.linkState = before.linkState
  sending : SendingKept before after pa
  acknowledging : after.seqCheckSend = before.seqCheckSend ∨
    pa.head.type = .seqReport ∧ sent = []
  seqRead : after.seqRead = before.seqRead
  paArrayRecv : after.paArrayRecv = before.paArrayRecv ∨
    pa.head.type = .userData ∧ after.paArrayRecv = (userDataRecv before pa).paArrayRecv
  sent : ∀ datagram ∈ sent,
    datagram.head.type = .seqReport ∧ datagram.head.seq = before.lastRead ∨
      Retransmitted before (Bytes.ushorts pa.buf) datagram

theorem recvHalfOpen_of_connected {pslink : Link} (state : pslink.linkState = 2)
    (pa : PacketAll) : recvHalfOpen pslink pa = pslink := by
  unfold recvHalfOpen
  rw [if_neg]
  rintro ⟨half, -⟩
  rw [state] at half
  cases half

theorem userDataRecv_timeout (pslink : Link) (timeout : Timeval) (pa : PacketAll) :
    userDataRecv { pslink with timeout := timeout } pa =
      { userDataRecv pslink pa with timeout := timeout } := by
  have moved : ({ pslink with timeout := timeout } : Link).Readable pa.head.seq ↔
      pslink.Readable pa.head.seq := Iff.rfl
  unfold userDataRecv
  split
  · rfl
  · split
    · by_cases readable : pslink.Readable pa.head.seq
      · rw [if_neg (not_not.mpr readable), if_neg (not_not.mpr (moved.mpr readable))]
      · rw [if_pos readable, if_pos (moved.not.mpr readable)]
    · rfl

theorem threadRecv_data {pslink after : Link} {pa : PacketAll} {now : Timeval}
    {sent : List Datagram} (state : pslink.linkState = 2) (phase : DataPhase pa.head.type)
    (ran : threadRecv pslink pa now = some (after, sent)) : DataRecv pslink after pa sent := by
  have sending := threadRecv_sending ran
  have heard : pslink.heard pa = { pslink with timeout := { pslink.timeout with tvSec := 0 } } := by
    rw [Link.heard, recvHalfOpen_of_connected state]
  have effect := threadRecv_effect ran
  rw [heard] at effect
  cases effect with
  | userData slots type stored =>
      rw [userDataRecv_timeout] at stored
      have array : slots = (userDataRecv pslink pa).paArrayRecv :=
        (congrArg Link.paArrayRecv stored).symm
      exact ⟨rfl, sending, .inl rfl, rfl, .inr ⟨type, array⟩, by simp⟩
  | seqCheck seq _ type _ kinds =>
      refine ⟨rfl, sending, .inl rfl, rfl, .inl rfl, ?_⟩
      intro datagram membership
      obtain ⟨report, length, ⟨isReport, last⟩, rfl⟩ := kinds datagram membership
      exact .inl ⟨isReport, last⟩
  | seqReport seq time type =>
      exact ⟨rfl, sending, .inr ⟨type, rfl⟩, rfl, .inl rfl, by simp⟩
  | seqLack slots flag _ type _ kinds =>
      exact ⟨rfl, sending, .inl rfl, rfl, .inl rfl, fun datagram membership =>
        .inr (kinds datagram membership)⟩
  | linkSyn type | linkSynAck type | linkAck type | linkFin type | defaultNull type =>
      rw [type] at phase
      simp [DataPhase] at phase

/-- `exSend` leaves the receiving half alone and sends only user data. -/
theorem exSend_receiving (pslink : Link) (buf : List UInt8) (sendtoOk : Bool) :
    (exSend pslink buf sendtoOk).1.linkState = pslink.linkState ∧
      (exSend pslink buf sendtoOk).1.seqRead = pslink.seqRead ∧
      (exSend pslink buf sendtoOk).1.paArrayRecv = pslink.paArrayRecv ∧
      ∀ datagram ∈ (exSend pslink buf sendtoOk).2.1, datagram.head.type = .userData := by
  rcases exSend_cases pslink buf sendtoOk with
    ⟨back, equal, -⟩ | ⟨-, -, -, ⟨-, equal⟩ | ⟨-, equal⟩⟩
  · rw [equal]
    exact ⟨rfl, rfl, rfl, by simp⟩
  · rw [equal]
    exact ⟨rfl, rfl, rfl, by simp⟩
  · rw [equal]
    refine ⟨rfl, rfl, rfl, ?_⟩
    simp only [List.mem_singleton, forall_eq]
    rfl

namespace Link.Sends

variable {pslink after : Link}

theorem of_kept (sends : pslink.Sends) {pa : PacketAll} (bounded : pa.head.seq < maxPacketSeq)
    (kept : SendingKept pslink after pa) : after.Sends := by
  obtain ⟨check, max, data, sending⟩ := sends
  obtain ⟨number, -, moved⟩ := sending.of_kept bounded kept
  exact ⟨number, max, data, moved⟩

theorem of_same (sends : pslink.Sends) (maxSame : after.seqMaxSend = pslink.seqMaxSend)
    (checkSame : after.seqCheckSend = pslink.seqCheckSend)
    (arraySame : after.paArraySend = pslink.paArraySend) : after.Sends :=
  @of_kept _ _ sends .cleared (by decide) (.of_eq ⟨maxSame, checkSame, arraySame⟩)

theorem exSend (sends : pslink.Sends) (buf : List UInt8) (sendtoOk : Bool) :
    (exSend pslink buf sendtoOk).1.Sends := by
  obtain ⟨check, max, data, sending⟩ := sends
  rcases exSend_cases pslink buf sendtoOk with
    ⟨back, equal, -⟩ | ⟨nonempty, fits, notFull, ⟨-, equal⟩ | ⟨-, equal⟩⟩
  · rw [equal]
    exact ⟨check, max, data, sending⟩
  · rw [equal]
    exact ⟨check, max, data, sending.refused buf⟩
  · rw [equal]
    refine ⟨check, max + 1, Function.update data max buf, sending.sent nonempty fits notFull ?_ ?_⟩
    · intro number above below
      exact Function.update_of_ne (by omega) _ _
    · exact Function.update_self _ _ _

theorem type_of_retransmitted (sends : pslink.Sends) {requested : List Nat} {datagram : Datagram}
    (again : Retransmitted pslink requested datagram) : datagram.head.type = .userData := by
  obtain ⟨check, max, data, sending⟩ := sends
  obtain ⟨number, -, -, holds⟩ := sending.retransmitted again
  exact holds.type

end Link.Sends

namespace Flow

variable {base : Nat} {sender receiver : Party} {toReceiver toSender : List Flight}
  {sent : List Datagram} {after : Link}

/-! ## The sender's moves -/

theorem sender_idle (flow : Flow base sender receiver toReceiver toSender) (after : Link)
    (state : after.linkState = sender.link.linkState)
    (checkSame : after.seqCheckSend = sender.link.seqCheckSend)
    (maxSame : after.seqMaxSend = sender.link.seqMaxSend)
    (arraySame : ∀ slot, SameData (after.paArraySend slot) (sender.link.paArraySend slot))
    (delivered : List (List UInt8)) :
    Flow base { sender.follow after with delivered := delivered } receiver toReceiver toSender := by
  have checkNo : (sender.follow after).checkNo = sender.checkNo := by
    simp [Party.follow, checkSame]
  have maxNo : (sender.follow after).maxNo = sender.maxNo := by
    simp [Party.follow, maxSame]
  refine flow.of_sender (state.trans flow.senderState) ?_ checkNo.ge ?_ (List.prefix_refl _) ?_
  · dsimp only
    rw [checkNo, maxNo]
    exact flow.sending.congr checkSame maxSame arraySame
  · exact checkNo.trans_lt flow.acknowledged
  · exact maxNo.trans flow.acceptedCount

theorem sender_acknowledge (flow : Flow base sender receiver toReceiver toSender)
    {flight : Flight} (membership : flight ∈ toSender) (timely : sender.Timely flight)
    (type : flight.datagram.head.type = .seqReport)
    (state : after.linkState = sender.link.linkState)
    (kept : SendingKept sender.link after flight.datagram.packet) :
    Flow base (sender.follow after) receiver toReceiver toSender := by
  rcases kept.seqCheckSend with same | ⟨ordered, moved⟩
  · exact flow.sender_idle _ state same kept.seqMaxSend kept.paArraySend _
  · obtain ⟨read, seq⟩ := flow.reports flight membership type
    have below : flight.number < sender.maxNo := by
      have := flow.unread
      omega
    have window := flow.sending.window
    simp only [Party.Timely, type] at timely
    rw [Datagram.packet_head, seq] at ordered moved
    rw [flow.sending.seqCheckSend, flow.sending.seqMaxSend,
      ordered_mod_iff flow.sending.opened.le window below timely] at ordered
    have checkNo : (sender.follow after).checkNo = flight.number := by
      have distance : ahead maxPacketSeq after.seqCheckSend sender.link.seqCheckSend =
          flight.number - sender.checkNo := by
        rw [moved, flow.sending.seqCheckSend]
        exact ahead_mod ordered (by simp only [maxPacketNumber_eq, maxPacketSeq_eq] at *; omega)
      simp only [Party.follow, distance]
      omega
    have maxNo : (sender.follow after).maxNo = sender.maxNo := by
      simp [Party.follow, kept.seqMaxSend]
    refine flow.of_sender (state.trans flow.senderState) ?_ (by omega) (by omega)
      (List.prefix_refl _) (maxNo.trans flow.acceptedCount)
    rw [checkNo, maxNo]
    exact flow.sending.acknowledge ordered below moved kept.seqMaxSend kept.paArraySend

theorem sender_recv (flow : Flow base sender receiver toReceiver toSender)
    {flight : Flight} (membership : flight ∈ toSender) (timely : sender.Timely flight)
    (received : DataRecv sender.link after flight.datagram.packet sent) :
    Flow base (sender.follow after) receiver
      (toReceiver ++ (sender.follow after).launch sent) toSender := by
  rcases received.acknowledging with same | ⟨type, rfl⟩
  · have moved : Flow base (sender.follow after) receiver toReceiver toSender :=
      flow.sender_idle _ received.linkState same received.sending.seqMaxSend
        received.sending.paArraySend _
    refine moved.launch_sender ?_ ?_
    · intro datagram inSent
      rcases received.sent datagram inSent with ⟨type, -⟩ | again
      · exact .inr (.inr (.inl type))
      · obtain ⟨number, -, -, holds⟩ := flow.sending.retransmitted again
        exact .inl holds.type
    · intro datagram inSent type
      rcases received.sent datagram inSent with ⟨report, -⟩ | again
      · rw [type] at report
        cases report
      · obtain ⟨number, above, below, holds⟩ := flow.sending.retransmitted again
        refine ⟨number, ?_, ?_, holds⟩
        · simpa [Party.follow, same] using above
        · simpa [Party.follow, received.sending.seqMaxSend] using below
  · simpa [Party.launch] using
      flow.sender_acknowledge membership timely type received.linkState received.sending

theorem sender_report (flow : Flow base sender receiver toReceiver toSender)
    (phase : ∀ datagram ∈ sent, DataPhase datagram.head.type ∧ datagram.head.type ≠ .userData) :
    Flow base sender receiver (toReceiver ++ sender.launch sent) toSender :=
  flow.launch_sender (fun datagram inSent => (phase datagram inSent).1)
    fun datagram inSent type => absurd type (phase datagram inSent).2

theorem sender_exSend (flow : Flow base sender receiver toReceiver toSender)
    {buf : List UInt8} (nonempty : 0 < buf.length) (fits : buf.length ≤ maxPacketDataSize)
    (notFull : (sender.link.seqMaxSend + 1) % maxPacketNumber ≠
      sender.link.seqCheckSend % maxPacketNumber) :
    Flow base
      { sender.follow { sender.link with
          paArraySend := sender.link.writeUser buf
          seqMaxSend := (sender.link.seqMaxSend + 1) % maxPacketSeq } with
        accepted := sender.accepted ++ [buf] } receiver toReceiver toSender := by
  have maxNo : sender.maxNo + ahead maxPacketSeq ((sender.link.seqMaxSend + 1) % maxPacketSeq)
      sender.link.seqMaxSend = sender.maxNo + 1 := by
    rw [flow.sending.seqMaxSend, succ_mod_mod, ahead_mod (by omega) (by rw [maxPacketSeq_eq]; omega)]
    omega
  have counted := flow.acceptedCount
  refine flow.of_sender flow.senderState ?_ ?_ ?_ (List.prefix_append _ _) ?_
  · simp only [Party.follow, ahead_self, Nat.add_zero]
    rw [maxNo]
    refine flow.sending.sent nonempty fits notFull ?_ ?_
    · intro number above below
      have started := flow.started
      have inside : number - base < sender.accepted.length := by omega
      simp only [Party.bytesAt, List.getD_eq_getElem?_getD, List.getElem?_append_left inside]
    · have last : sender.maxNo - base = sender.accepted.length := by omega
      simp [Party.bytesAt, last]
  · simp [Party.follow]
  · simpa [Party.follow] using flow.acknowledged
  · simp only [Party.follow, List.length_append, List.length_singleton]
    omega

theorem sender_refused (flow : Flow base sender receiver toReceiver toSender)
    (buf : List UInt8) :
    Flow base (sender.follow { sender.link with paArraySend := sender.link.writeUser buf })
      receiver toReceiver toSender := by
  refine flow.of_sender flow.senderState ?_ ?_ ?_ (List.prefix_refl _) ?_
  · simp only [Party.follow, ahead_self, Nat.add_zero]
    exact flow.sending.refused buf
  · simp [Party.follow]
  · simpa [Party.follow] using flow.acknowledged
  · simpa [Party.follow] using flow.acceptedCount

/-! ## The receiver's moves -/

theorem receiver_idle (flow : Flow base sender receiver toReceiver toSender) (after : Link)
    (state : after.linkState = receiver.link.linkState)
    (readSame : after.seqRead = receiver.link.seqRead)
    (arraySame : after.paArrayRecv = receiver.link.paArrayRecv) (sends : after.Sends)
    (accepted : List (List UInt8)) :
    Flow base sender { receiver.follow after with accepted := accepted } toReceiver toSender := by
  have readNo : (receiver.follow after).readNo = receiver.readNo := by
    simp [Party.follow, readSame]
  refine flow.of_receiver (state.trans flow.receiverState) ?_ sends readNo.ge ?_ ?_ flow.inOrder
  · dsimp only
    rw [readNo]
    exact flow.receiving.congr readSame arraySame
  · exact readNo.trans_le flow.unread
  · exact readNo.trans flow.deliveredCount

theorem receiver_recv (flow : Flow base sender receiver toReceiver toSender)
    {flight : Flight} (membership : flight ∈ toReceiver) (timely : receiver.Timely flight)
    (bounded : flight.datagram.head.seq < maxPacketSeq)
    (received : DataRecv receiver.link after flight.datagram.packet sent) :
    Flow base sender (receiver.follow after) toReceiver
      (toSender ++ (receiver.follow after).launch sent) := by
  have sends : after.Sends := flow.peerSends.of_kept bounded received.sending
  have lastRead : after.lastRead = receiver.link.lastRead := by
    simp only [Link.lastRead, received.seqRead]
  have moved : Flow base sender (receiver.follow after) toReceiver toSender := by
    rcases received.paArrayRecv with same | ⟨type, stored⟩
    · exact flow.receiver_idle _ received.linkState received.seqRead same sends _
    · obtain ⟨-, below, holds⟩ := flow.data flight membership type
      simp only [Party.Timely, Datagram.packet_head] at timely type
      rw [type] at timely
      have readNo : (receiver.follow after).readNo = receiver.readNo := by
        simp [Party.follow, received.seqRead]
      obtain ⟨slots, frame⟩ := userDataRecv_frame receiver.link flight.datagram.packet
      refine flow.of_receiver (received.linkState.trans flow.receiverState) ?_ sends readNo.ge
        (readNo.trans_le flow.unread) (readNo.trans flow.deliveredCount) flow.inOrder
      rw [readNo]
      refine (flow.receiving.store flow.window holds below timely).congr ?_ stored
      rw [frame]
      exact received.seqRead
  refine moved.launch_receiver ?_ ?_
  · intro datagram inSent
    rcases received.sent datagram inSent with ⟨type, -⟩ | again
    · exact .inr (.inr (.inl type))
    · exact .inl (flow.peerSends.type_of_retransmitted again)
  · intro datagram inSent type
    rcases received.sent datagram inSent with ⟨-, last⟩ | again
    · exact last.trans lastRead.symm
    · rw [flow.peerSends.type_of_retransmitted again] at type
      cases type

theorem receiver_take (flow : Flow base sender receiver toReceiver toSender) {length : Nat}
    (readable : receiver.link.Readable receiver.link.seqRead)
    (short : lenPacketHead ≤ (receiver.link.paArrayRecv (slotOf receiver.link.seqRead)).len →
      (receiver.link.paArrayRecv (slotOf receiver.link.seqRead)).len ≤ maxPacketSize →
      length = (receiver.link.paArrayRecv (slotOf receiver.link.seqRead)).len - lenPacketHead) :
    Flow base sender
      { receiver.follow receiver.link.consume with
        delivered := receiver.delivered ++
          [(receiver.link.paArrayRecv (slotOf receiver.link.seqRead)).buf.take length] }
      toReceiver toSender := by
  obtain ⟨below, holds⟩ := flow.receiving.holds_of_readable flow.window readable
  have whole : (receiver.link.paArrayRecv (slotOf receiver.link.seqRead)).buf.take length =
      sender.bytesAt base receiver.readNo := by
    have lengthEqual := short (by rw [holds.len]; omega) (by
      have := holds.fits
      rw [holds.len]
      simp only [lenPacketHead, maxPacketSize, maxPacketDataSize] at *
      omega)
    rw [lengthEqual]
    exact holds.payload
  have counted := flow.deliveredCount
  have readNo : (receiver.follow receiver.link.consume).readNo = receiver.readNo + 1 := by
    simp only [Party.follow, Link.consume]
    rw [flow.receiving.seqRead, succ_mod_mod,
      ahead_mod (by omega) (by rw [maxPacketSeq_eq]; omega)]
    omega
  refine flow.of_receiver flow.receiverState ?_ (flow.peerSends.of_same rfl rfl rfl) ?_ ?_ ?_ ?_
  · dsimp only
    rw [readNo]
    exact flow.receiving.consume flow.window
  · dsimp only
    omega
  · dsimp only
    omega
  · simp only [List.length_append, List.length_singleton]
    omega
  · -- the next payload in order is the one at the number just read
    dsimp only
    rw [whole]
    obtain ⟨rest, equal⟩ := flow.inOrder
    have total := flow.acceptedCount
    have inside : receiver.delivered.length < sender.accepted.length := by omega
    cases rest with
    | nil =>
        rw [List.append_nil] at equal
        rw [equal] at inside
        exact absurd inside (lt_irrefl _)
    | cons next later =>
        have here : sender.bytesAt base receiver.readNo = next := by
          have position : receiver.readNo - base = receiver.delivered.length := by omega
          simp [Party.bytesAt, position, ← equal]
        exact ⟨later, by rw [here, ← equal, List.append_assoc, List.singleton_append]⟩

theorem report_phase {pslink : Link}
    (kinds : ∀ datagram ∈ sent, SentBy pslink (fun pa => IsReport pslink pa ∨ IsLack pa) datagram) :
    ∀ datagram ∈ sent, DataPhase datagram.head.type ∧ datagram.head.type ≠ .userData := by
  intro datagram inSent
  obtain ⟨pa, length, ⟨type, -⟩ | type, rfl⟩ := kinds datagram inSent
  · rw [message_type, type]
    exact ⟨.inr (.inr (.inl rfl)), by decide⟩
  · rw [message_type, type]
    exact ⟨.inr (.inr (.inr rfl)), by decide⟩

theorem sender_read (flow : Flow base sender receiver toReceiver toSender)
    {data : Option (List UInt8)} (effect : ReadEffect sender.link after sent data)
    (delivered : List (List UInt8)) :
    Flow base { sender.follow after with delivered := delivered } receiver
      (toReceiver ++ Party.launch { sender.follow after with delivered := delivered } sent)
      toSender := by
  cases effect with
  | report frame kinds =>
      obtain ⟨time, rfl⟩ := frame
      refine sender_report ?_ (report_phase kinds)
      exact flow.sender_idle { sender.link with timeoutReportLack := time } rfl rfl rfl
        (fun _ => .refl _) delivered
  | take length readable =>
      refine sender_report ?_ (by simp)
      exact flow.sender_idle sender.link.consume rfl rfl rfl (fun _ => .refl _) delivered

theorem receiver_read (flow : Flow base sender receiver toReceiver toSender)
    {data : Option (List UInt8)} (effect : ReadEffect receiver.link after sent data) :
    Flow base sender
      { receiver.follow after with delivered := receiver.delivered ++ data.toList } toReceiver
      (toSender ++ Party.launch
        { receiver.follow after with delivered := receiver.delivered ++ data.toList } sent) := by
  cases effect with
  | report frame kinds =>
      obtain ⟨time, rfl⟩ := frame
      simp only [Option.toList_none, List.append_nil]
      refine launch_receiver ?_ (fun datagram inSent => (report_phase kinds datagram inSent).1) ?_
      · exact flow.receiver_idle { receiver.link with timeoutReportLack := time } rfl rfl rfl
          (flow.peerSends.of_same rfl rfl rfl) _
      intro datagram inSent type
      obtain ⟨pa, length, ⟨-, last⟩ | lack, rfl⟩ := kinds datagram inSent
      · exact last
      · rw [message_type, lack] at type
        cases type
  | take length readable short =>
      simpa [Party.launch] using flow.receiver_take readable short

end Flow

/-! ## Whole runs -/

def Session.Flows (session : Session) (base : Nat) (sender : Side) : Prop :=
  Flow base (session.party sender) (session.party sender.other) (session.net sender.other)
    (session.net sender)

theorem flows_advance_sender {session : Session} {base : Nat} {sender : Side} {party : Party}
    {sent : List Datagram}
    (flow : Flow base party (session.party sender.other)
      (session.net sender.other ++ party.launch sent) (session.net sender)) :
    (session.advance sender party sent).Flows base sender := by
  simpa [Session.Flows, Session.advance, (Side.other_ne sender).symm] using flow

theorem flows_advance_receiver {session : Session} {base : Nat} {sender : Side} {party : Party}
    {sent : List Datagram}
    (flow : Flow base (session.party sender) party (session.net sender.other)
      (session.net sender ++ party.launch sent)) :
    (session.advance sender.other party sent).Flows base sender := by
  simpa [Session.Flows, Session.advance, (Side.other_ne sender).symm] using flow

theorem flows_exSend {session next : Session} {base : Nat} {sender : Side}
    (flow : session.Flows base sender) {side : Side} {buf : List UInt8} {sendtoOk : Bool}
    (stepped : session.step (.exSend side buf sendtoOk) = some next) :
    next.Flows base sender := by
  obtain rfl := Option.some.inj stepped
  dsimp only
  by_cases role : side = sender
  · subst role
    apply flows_advance_sender
    rcases exSend_cases (session.party side).link buf sendtoOk with
      ⟨back, equal, zero⟩ | ⟨nonempty, fits, notFull, ⟨-, equal⟩ | ⟨-, equal⟩⟩
    · rw [equal]
      have nothing : back.accepted buf = [] := by
        cases back with
        | bytes count =>
            obtain rfl := zero count rfl
            rfl
        | error => rfl
        | wait => rfl
      simp only [nothing, List.append_nil]
      refine Flow.sender_report ?_ (by simp)
      exact flow.sender_idle _ rfl rfl rfl (fun _ => .refl _) _
    · rw [equal]
      simp only [SendReturn.accepted, lt_irrefl, if_false, List.append_nil]
      exact Flow.sender_report (flow.sender_refused buf) (by simp)
    · rw [equal]
      simp only [SendReturn.accepted, if_pos nonempty]
      have moved := flow.sender_exSend nonempty fits notFull
      refine moved.launch_sender ?_ ?_
      · simp only [List.mem_singleton, forall_eq]
        exact .inl rfl
      · simp only [List.mem_singleton, forall_eq]
        intro type
        refine ⟨(session.party side).maxNo, ?_, ?_, ?_⟩
        · simpa [Party.follow] using flow.sending.opened
        · have next := moved.acceptedCount
          have counted := flow.acceptedCount
          simp only [List.length_append, List.length_singleton] at next
          omega
        · have last : (session.party side).maxNo - base = (session.party side).accepted.length := by
            have := flow.acceptedCount
            omega
          have bytes : Party.bytesAt { (session.party side).follow
              { (session.party side).link with
                paArraySend := (session.party side).link.writeUser buf
                seqMaxSend := ((session.party side).link.seqMaxSend + 1) % maxPacketSeq } with
              accepted := (session.party side).accepted ++ [buf] } base (session.party side).maxNo =
              buf := by
            simp [Party.bytesAt, last]
          rw [bytes]
          exact (flow.sending.holds_userPacket nonempty fits).of_carries (message_carries _ _)
  · obtain rfl := Side.eq_other_of_ne role
    apply flows_advance_receiver
    obtain ⟨state, readSame, arraySame, types⟩ :=
      exSend_receiving (session.party sender.other).link buf sendtoOk
    refine Flow.launch_receiver ?_ (fun datagram inSent => .inl (types datagram inSent)) ?_
    · exact flow.receiver_idle _ state readSame arraySame (flow.peerSends.exSend buf sendtoOk) _
    · intro datagram inSent type
      rw [types datagram inSent] at type
      cases type

theorem flows_read {session : Session} {base : Nat} {sender : Side}
    (flow : session.Flows base sender) {side : Side} {after : Link} {sent : List Datagram}
    {data : Option (List UInt8)}
    (effect : ReadEffect (session.party side).link after sent data) :
    (session.advance side { (session.party side).follow after with
      delivered := (session.party side).delivered ++ data.toList } sent).Flows base sender := by
  by_cases role : side = sender
  · subst role
    exact flows_advance_sender (flow.sender_read effect _)
  · obtain rfl := Side.eq_other_of_ne role
    exact flows_advance_receiver (flow.receiver_read effect)

theorem flows_seqCheck {session : Session} {base : Nat} {sender : Side}
    (flow : session.Flows base sender) (side : Side) (interval : Int) (timeListen now : Timeval) :
    (session.advance side
      ((session.party side).follow
        (seqCheck interval timeListen (session.party side).link now).1)
      (seqCheck interval timeListen (session.party side).link now).2).Flows base sender := by
  obtain ⟨⟨time, frame⟩, kinds⟩ :=
    seqCheck_effect interval timeListen (session.party side).link now
  have types : ∀ datagram ∈ (seqCheck interval timeListen (session.party side).link now).2,
      datagram.head.type = .seqCheck := by
    intro datagram inSent
    obtain ⟨pa, length, ⟨type, -⟩, rfl⟩ := kinds datagram inSent
    exact type
  by_cases role : side = sender
  · subst role
    apply flows_advance_sender
    refine Flow.sender_report ?_ ?_
    · rw [frame]
      exact flow.sender_idle { (session.party side).link with timeoutSend := time } rfl rfl rfl
        (fun _ => .refl _) _
    · intro datagram inSent
      rw [types datagram inSent]
      exact ⟨.inr (.inl rfl), by decide⟩
  · obtain rfl := Side.eq_other_of_ne role
    apply flows_advance_receiver
    refine Flow.launch_receiver ?_ ?_ ?_
    · rw [frame]
      exact flow.receiver_idle { (session.party sender.other).link with timeoutSend := time }
        rfl rfl rfl (flow.peerSends.of_same rfl rfl rfl) _
    · intro datagram inSent
      exact .inr (.inl (types datagram inSent))
    · intro datagram inSent type
      rw [types datagram inSent] at type
      cases type

theorem flows_deliver {session : Session} {base : Nat} {sender : Side}
    (flow : session.Flows base sender) {side : Side} {flight : Flight} {now : Timeval}
    {after : Link} {sent : List Datagram} (membership : flight ∈ session.net side)
    (timely : (session.party side).Timely flight) (checks : RecvChecks flight.datagram.packet)
    (ran : threadRecv (session.party side).link flight.datagram.packet now = some (after, sent)) :
    (session.advance side ((session.party side).follow after) sent).Flows base sender := by
  by_cases role : side = sender
  · subst role
    have phase := flow.types flight (List.mem_append_right _ membership)
    exact flows_advance_sender
      (flow.sender_recv membership timely (threadRecv_data flow.senderState phase ran))
  · obtain rfl := Side.eq_other_of_ne role
    have phase := flow.types flight (List.mem_append_left _ membership)
    exact flows_advance_receiver (flow.receiver_recv membership timely checks.seq_lt
      (threadRecv_data flow.receiverState phase ran))

/-- Every step of either end or of the network keeps the direction in order. -/
theorem flows_step {base : Nat} {sender : Side} (session : Session) (action : Action)
    (next : Session) (flow : session.Flows base sender)
    (stepped : session.step action = some next) : next.Flows base sender := by
  cases action with
  | exSend side buf sendtoOk => exact flows_exSend flow stepped
  | exRecv side now =>
      obtain ⟨⟨after, sent, data⟩, ran, rfl⟩ := Option.map_eq_some_iff.mp stepped
      exact flows_read flow (exRecv_effect ran)
  | sendToMsgQueue side now msgsndOk =>
      obtain ⟨⟨after, sent, data⟩, ran, rfl⟩ := Option.map_eq_some_iff.mp stepped
      exact flows_read flow (sendToMsgQueue_effect ran)
  | seqCheck side interval timeListen now =>
      obtain rfl := Option.some.inj stepped
      exact flows_seqCheck flow side interval timeListen now
  | deliver side index now =>
      simp only [Session.step] at stepped
      split at stepped
      · cases stepped
      · next flight found =>
        split at stepped
        · next timely =>
          split at stepped
          · next checks =>
            obtain ⟨⟨after, sent⟩, ran, rfl⟩ := Option.map_eq_some_iff.mp stepped
            exact flows_deliver flow (List.mem_of_getElem? found) timely checks ran
          · obtain rfl := Option.some.inj stepped
            exact flow
        · cases stepped

theorem flows_of_fresh {session : Session} {sender : Side} (fresh : session.Fresh sender) :
    session.Flows ((session.party sender).link.seqCheckSend + 1) sender := by
  have opened : ∀ side, Sending (session.party side).link
      (session.party side).link.seqCheckSend ((session.party side).link.seqCheckSend + 1)
      ((session.party sender).bytesAt ((session.party sender).link.seqCheckSend + 1)) := by
    intro side
    refine ⟨(Nat.mod_eq_of_lt (fresh.checkBound side)).symm, fresh.nothingOutstanding side,
      Nat.lt_succ_self _, ?_, ?_⟩
    · exact Nat.add_lt_add_left (by decide) _
    · intro number above below
      omega
  have checkNo := fresh.checkNo
  have maxNo := fresh.maxNo
  have readNo := fresh.readNo
  refine ⟨fresh.connected _, fresh.connected _, ?_, ?_, ⟨_, _, _, opened sender.other⟩, ?_, ?_,
    ?_, ?_, ?_, ?_, ?_, ?_, ?_⟩
  · rw [checkNo, maxNo]
    exact opened sender
  · refine ⟨by rw [readNo, fresh.seqRead], ?_⟩
    intro slot unread
    exact absurd (fresh.nothingReadable slot) unread
  · omega
  · omega
  · omega
  · simp [maxNo, fresh.accepted]
  · simp [readNo, fresh.delivered]
  · simp [fresh.delivered]
  · simp [fresh.network]
  · simp [fresh.network]
  · simp [fresh.network]

/-- In-order exactly-once delivery: from two freshly connected ends, whatever is
sent, lost, duplicated, delayed, reordered, acknowledged, retransmitted and
read, the payloads handed to the user are the first ones `exSend` accepted. -/
theorem delivered_prefix_accepted (session last : Session) (sender : Side)
    (fresh : session.Fresh sender) (actions : List Action)
    (ran : Transition.run Session.step session actions = some last) :
    (last.party sender.other).delivered <+: (last.party sender).accepted :=
  (Transition.run_invariant Session.step flows_step (flows_of_fresh fresh) ran).inOrder

def connectedLink : Link := { addList 0 3 0 .zero with linkState := 2 }

def connectedSession : Session where
  party _ := ⟨connectedLink, 1, 1, 0, [], []⟩
  net _ := []

theorem connectedSession_fresh (sender : Side) : connectedSession.Fresh sender where
  connected _ := rfl
  checkBound _ := (by decide : 0 < maxPacketSeq)
  nothingOutstanding _ := rfl
  seqRead := rfl
  nothingReadable slot := by
    by_cases first : slot = slotOf 0
    · subst first
      rfl
    · simp [connectedSession, connectedLink, addList, PacketArray.setSeq,
        Function.update_of_ne first, PacketAll.cleared]
  network _ := rfl
  checkNo := rfl
  maxNo := rfl
  readNo := rfl
  accepted := rfl
  delivered := rfl

/-- Two packets that arrive in the wrong order, the second one twice. -/
def reorderedActions : List Action :=
  [.exSend .left [7] true, .exSend .left [8, 9] true, .deliver .right 1 .zero,
    .exRecv .right .zero, .deliver .right 0 .zero, .deliver .right 1 .zero,
    .exRecv .right .zero, .sendToMsgQueue .right .zero true, .deliver .right 0 .zero]

theorem delivered_prefix_accepted_reordered :
    ∃ last, Transition.run Session.step connectedSession reorderedActions = some last ∧
      (last.party .right).delivered = [[7], [8, 9]] ∧
      (last.party Side.left.other).delivered <+: (last.party .left).accepted :=
  ⟨_, rfl, rfl, delivered_prefix_accepted connectedSession _ .left (connectedSession_fresh .left)
    reorderedActions rfl⟩

end UtilsModules.Udp

import UtilsModules.Library.Transition
import UtilsModules.Udp.Reception

/-!
Two processes from before they are connected.

Neither process deletes its link.  The network keeps every datagram that was
sent and may deliver any of them any number of times, in any order, or never.
A connection request that arrives late looks like a peer that starts again:
`Calm` says that no such datagram reaches an end that has begun to hand data to
its user, and under it the stream of that end is never disturbed.
-/

namespace UtilsModules.Udp

open Circular

/-- One process as its peer sees it: what a new link is made from, the link if
there is one, and the payloads handed to the user. -/
structure Process where
  id : Nat
  socket : Nat
  tsWaitTime : Int
  link : Option Link
  delivered : List (List UInt8)

/-- Both processes, and for each the datagrams addressed to it. -/
structure Connection where
  process : Side → Process
  net : Side → List Datagram

inductive Move where
  | exConnect (side : Side)
  | exSend (side : Side) (buf : List UInt8) (sendtoOk : Bool)
  | exRecv (side : Side) (now : Timeval)
  | sendToMsgQueue (side : Side) (now : Timeval) (msgsndOk : Bool)
  | seqCheck (side : Side) (listenLinkInterval : Int) (timeListen now : Timeval)
  | heartbeat (side : Side)
  | deliver (side : Side) (index : Nat) (now : Timeval)

/-- The `LINK_SYN` each pass through the loop of `exConnect` hands to
`sendto`. -/
def connectDatagram : Datagram := ⟨⟨.linkSyn, 0, 1, 1, exUdpVer⟩, []⟩

namespace Connection

/-- One end's link changes, sends to the other end and may hand a payload to
the user. -/
def advance (connection : Connection) (side : Side) (after : Link) (sent : List Datagram)
    (data : Option (List UInt8)) : Connection where
  process := Function.update connection.process side
    { connection.process side with
      link := some after, delivered := (connection.process side).delivered ++ data.toList }
  net := Function.update connection.net side.other (connection.net side.other ++ sent)

/-- The link a packet is handled by: the one known or the one `get_link`
adds. -/
def linkFor (connection : Connection) (side : Side) (type : PacketType) (now : Timeval) :
    Option Link :=
  let process := connection.process side
  getLink process.link (some (addList process.id process.socket process.tsWaitTime now)) type

def step (connection : Connection) : Move → Option Connection
  | .exConnect side =>
      some { connection with
        net := Function.update connection.net side.other
          (connection.net side.other ++ [connectDatagram]) }
  | .exSend side buf sendtoOk =>
      (connection.process side).link.map fun pslink =>
        let result := Udp.exSend pslink buf sendtoOk
        connection.advance side result.1 result.2.1 none
  | .exRecv side now => do
      let pslink ← (connection.process side).link
      let (after, sent, data) ← Udp.exRecv pslink now
      return connection.advance side after sent data
  | .sendToMsgQueue side now msgsndOk => do
      let pslink ← (connection.process side).link
      let (after, sent, data) ← Udp.sendToMsgQueue pslink now msgsndOk
      return connection.advance side after sent data
  | .seqCheck side listenLinkInterval timeListen now =>
      (connection.process side).link.map fun pslink =>
        let result := Udp.seqCheck listenLinkInterval timeListen pslink now
        connection.advance side result.1 result.2 none
  | .heartbeat side =>
      (connection.process side).link.map fun pslink =>
        connection.advance side pslink pslink.heartbeat none
  | .deliver side index now => do
      let datagram ← (connection.net side)[index]?
      if RecvChecks datagram.packet then
        match connection.linkFor side datagram.head.type now with
        | none => some connection
        | some pslink => do
            let (after, sent) ← threadRecv pslink datagram.packet now
            return connection.advance side after sent none
      else
        some connection

structure Initial (connection : Connection) : Prop where
  link : ∀ side, (connection.process side).link = none
  delivered : ∀ side, (connection.process side).delivered = []
  net : ∀ side, connection.net side = []

/-- The process is connected and has handed data to its user. -/
def Started (connection : Connection) (side : Side) (pslink : Link) : Prop :=
  (connection.process side).link = some pslink ∧ pslink.linkState = 2 ∧
    (connection.process side).delivered ≠ []

/-- The move does not deliver a connection request of an unconnected sender to
an end that has started. -/
def Calm (connection : Connection) : Move → Prop
  | .deliver side index _ => ∀ datagram ∈ (connection.net side)[index]?,
      ∀ pslink ∈ (connection.process side).link, pslink.linkState = 2 →
        (connection.process side).delivered ≠ [] → ¬ datagram.packet.IsReset
  | _ => True

instance (connection : Connection) : ∀ move, Decidable (connection.Calm move)
  | .deliver side index _ => inferInstanceAs (Decidable (∀ datagram ∈ (connection.net side)[index]?,
      ∀ pslink ∈ (connection.process side).link, pslink.linkState = 2 →
        (connection.process side).delivered ≠ [] → ¬ datagram.packet.IsReset))
  | .exConnect _ | .exSend .. | .exRecv .. | .sendToMsgQueue .. | .seqCheck .. | .heartbeat _ =>
      isTrue trivial

end Connection

def Link.Keeps (before after : Link) (seq : Nat) : Prop :=
  after.Readable seq ∧ after.paArrayRecv (slotOf seq) = before.paArrayRecv (slotOf seq)

def Move.Reads (move : Move) (side : Side) : Prop :=
  (∃ now, move = .exRecv side now) ∨ ∃ now msgsndOk, move = .sendToMsgQueue side now msgsndOk

/-- The stream of an end that has started is not disturbed by a move: `SeqRead`
stays, or is moved on by a read, and no unread packet but the one just read is
lost. -/
def Undisturbed (before after : Connection) (move : Move) (side : Side) : Prop :=
  ∀ pslink, before.Started side pslink →
    ∃ next, after.Started side next ∧
      ((next.seqRead = pslink.seqRead ∧ ∀ seq, pslink.Readable seq → pslink.Keeps next seq) ∨
        (move.Reads side ∧ pslink.Readable pslink.seqRead ∧
          next.seqRead = (pslink.seqRead + 1) % maxPacketSeq ∧
          ∀ seq, pslink.Readable seq → seq ≠ pslink.seqRead → pslink.Keeps next seq))

/-! ## Invariants of one link -/

structure Linked (pslink : Link) : Prop where
  sends : pslink.Sends
  stateBounds : 0 ≤ pslink.linkState ∧ pslink.linkState ≤ 2
  idle : pslink.linkState < 2 → pslink.seqCheckSend = 0
  empty : pslink.linkState < 2 → ∀ seq, ¬ pslink.Readable seq
  readBound : pslink.seqRead < maxPacketSeq
  window : ∀ seq, pslink.Readable seq →
    seq < maxPacketSeq ∧ ahead maxPacketSeq seq pslink.seqRead < maxPacketNumber

theorem not_readable_addList (id socket : Nat) (tsWaitTime : Int) (now : Timeval) (seq : Nat) :
    ¬ (addList id socket tsWaitTime now).Readable seq := by
  rintro ⟨-, unread⟩
  simp only [addList, PacketArray.setSeq] at unread
  by_cases first : slotOf seq = slotOf 0
  · rw [first, Function.update_self] at unread
    exact unread rfl
  · rw [Function.update_of_ne first] at unread
    exact unread rfl

theorem linked_addList (id socket : Nat) (tsWaitTime : Int) (now : Timeval) :
    Linked (addList id socket tsWaitTime now) where
  sends := ⟨0, 1, fun _ => [], rfl, rfl, by decide, by decide, fun number above below => by omega⟩
  stateBounds := ⟨le_rfl, by simp [addList]⟩
  idle _ := rfl
  empty _ := not_readable_addList id socket tsWaitTime now
  readBound := (by decide : 1 < maxPacketSeq)
  window seq readable := absurd readable (not_readable_addList id socket tsWaitTime now seq)

namespace Linked

variable {pslink after : Link} {sent : List Datagram}

theorem connected_of_readable (linked : Linked pslink) {seq : Nat}
    (readable : pslink.Readable seq) : pslink.linkState = 2 := by
  have bounds := linked.stateBounds
  by_contra other
  exact linked.empty (by omega) seq readable

/-- A link whose receiving half and acknowledgements are untouched. -/
theorem of_same (linked : Linked pslink) (sends : after.Sends)
    (half : after.receivingHalf = pslink.receivingHalf)
    (check : after.seqCheckSend = pslink.seqCheckSend) : Linked after := by
  have state : after.linkState = pslink.linkState := congrArg ReceivingHalf.linkState half
  have read : after.seqRead = pslink.seqRead := congrArg ReceivingHalf.seqRead half
  have slots : after.paArrayRecv = pslink.paArrayRecv := congrArg ReceivingHalf.paArrayRecv half
  have readable : ∀ seq, after.Readable seq → pslink.Readable seq := by
    intro seq
    simp only [Link.Readable, slots]
    exact id
  refine ⟨sends, by rw [state]; exact linked.stateBounds, ?_, ?_, ?_, ?_⟩
  · rw [state, check]
    exact linked.idle
  · rw [state]
    exact fun unconnected seq unread => linked.empty unconnected seq (readable seq unread)
  · rw [read]
    exact linked.readBound
  · rw [read]
    exact fun seq unread => linked.window seq (readable seq unread)

theorem consume (linked : Linked pslink) (readable : pslink.Readable pslink.seqRead) :
    Linked pslink.consume := by
  have connected := linked.connected_of_readable readable
  have other : ∀ seq, pslink.consume.Readable seq →
      pslink.Readable seq ∧ seq ≠ pslink.seqRead := by
    rintro seq ⟨same, unread⟩
    simp only [Link.consume] at same unread
    by_cases here : slotOf seq = slotOf pslink.seqRead
    · rw [here, Function.update_self] at unread
      exact absurd rfl unread
    · rw [Function.update_of_ne here] at same unread
      exact ⟨⟨same, unread⟩, fun equal => here (by rw [equal])⟩
  refine ⟨linked.sends.of_same rfl rfl rfl, linked.stateBounds, ?_, ?_, mod_maxPacketSeq_lt _, ?_⟩
  · intro unconnected
    simp only [Link.consume, connected] at unconnected
    omega
  · intro unconnected
    simp only [Link.consume, connected] at unconnected
    omega
  · intro seq unread
    obtain ⟨before, different⟩ := other seq unread
    obtain ⟨bounded, near⟩ := linked.window seq before
    have closer := ahead_succ_mod bounded linked.readBound different
    refine ⟨bounded, ?_⟩
    simp only [Link.consume]
    omega

/-- Reception keeps the link in order as long as it does not move `SeqRead` of a
connected link. -/
theorem recv (linked : Linked pslink) {pa : PacketAll} {now : Timeval}
    (checks : RecvChecks pa) (unfinished : pa.head.type ≠ .linkFin)
    (ran : threadRecv pslink pa now = some (after, sent))
    (steady : ¬ pslink.linkState < 2 → after.seqRead = pslink.seqRead)
    (bounded : after.seqRead < maxPacketSeq) : Linked after := by
  have bounds := linked.stateBounds
  have states := threadRecv_linkState ran unfinished
  refine ⟨linked.sends.of_kept checks.seq_lt (threadRecv_sending ran), by omega, ?_, ?_, bounded, ?_⟩
  · intro unconnected
    rcases threadRecv_seqCheckSend ran with same | ⟨-, -, connected⟩
    · rw [same]
      exact linked.idle (by omega)
    · exact absurd unconnected connected
  · intro unconnected seq readable
    rcases threadRecv_readable ran readable with ⟨before, -⟩ | ⟨-, -, -, connected, -⟩
    · exact linked.empty (by omega) seq before
    · exact connected unconnected
  · intro seq readable
    rcases threadRecv_readable ran readable with ⟨before, -⟩ | ⟨-, same, -, -, wanted⟩
    · have connected := linked.connected_of_readable before
      rw [steady (by omega)]
      exact linked.window seq before
    · subst same
      refine ⟨checks.seq_lt, ?_⟩
      rcases wanted with later | here
      · exact ((cmpSeq_iff_ahead checks.seq_lt bounded).mp later).2
      · rw [here, ahead_self]
        decide

/-- A packet that is no reset leaves the stream of a connected link alone. -/
theorem keeps (linked : Linked pslink) {pa : PacketAll} {now : Timeval}
    (checks : RecvChecks pa) (connected : pslink.linkState = 2)
    (unfinished : pa.head.type ≠ .linkFin) (calm : ¬ pa.IsReset)
    (ran : threadRecv pslink pa now = some (after, sent)) :
    after.linkState = 2 ∧ after.seqRead = pslink.seqRead ∧
      ∀ seq, pslink.Readable seq → pslink.Keeps after seq := by
  have notHalf : ¬ pslink.CompletesHalfOpen pa := by
    rintro ⟨half, -⟩
    omega
  have states := threadRecv_linkState ran unfinished
  refine ⟨by omega, ?_, ?_⟩
  · have notSets : ¬ pslink.SetsRead pa := by
      rintro (half | ⟨type, fresh | unconnected⟩ | ⟨type, ⟨fresh, -⟩ | ⟨-, unconnected⟩⟩)
      · exact notHalf half
      · exact calm ⟨.inl type, fresh⟩
      · omega
      · exact calm ⟨.inr type, fresh⟩
      · omega
    have notOwn : ¬ pslink.SetsOwnRead pa := by
      rintro ⟨-, -, unconnected⟩
      omega
    rw [threadRecv_seqRead ran, if_neg notSets, if_neg notOwn]
  · intro seq readable
    have slot : after.paArrayRecv (slotOf seq) = pslink.paArrayRecv (slotOf seq) := by
      rw [threadRecv_paArrayRecv ran, recvHalfOpen_of_connected connected]
      split
      · rcases userDataRecv_cases pslink pa with ignored | ⟨-, wanted, free, stored⟩
        · rw [ignored]
        · rw [stored]
          apply Function.update_of_ne
          intro here
          obtain ⟨seqBound, near⟩ := linked.window seq readable
          have newNear : ahead maxPacketSeq pa.head.seq pslink.seqRead < maxPacketNumber := by
            rcases wanted with later | same
            · exact ((cmpSeq_iff_ahead checks.seq_lt linked.readBound).mp later).2
            · rw [same, ahead_self]
              decide
          have equal := eq_of_slotOf_eq_of_ahead here seqBound checks.seq_lt linked.readBound near
            newNear
          exact free (equal ▸ readable)
      · rw [if_neg (by rintro (reset | half); exacts [calm reset, notHalf half])]
    exact ⟨⟨by rw [slot]; exact readable.1, by rw [slot]; exact readable.2⟩, slot⟩

end Linked

/-! ## Invariants of the connection -/

/-- Until an end has handed data to its user, nothing has been read or
acknowledged there, and every datagram on its way says so. -/
structure Unstarted (connection : Connection) (side : Side) : Prop where
  own : ∀ pslink, (connection.process side).link = some pslink → pslink.seqRead = 1
  peer : ∀ pslink, (connection.process side.other).link = some pslink → pslink.seqCheckSend = 0
  towards : ∀ datagram ∈ connection.net side, datagram.head.seqCheck = 1
  reports : ∀ datagram ∈ connection.net side.other, datagram.head.type = .seqReport →
    datagram.head.seq = 0

structure Orderly (connection : Connection) : Prop where
  linked : ∀ side pslink, (connection.process side).link = some pslink → Linked pslink
  started : ∀ side, (connection.process side).delivered ≠ [] →
    ∃ pslink, (connection.process side).link = some pslink ∧ pslink.linkState = 2
  unstarted : ∀ side, (connection.process side).delivered = [] → Unstarted connection side
  unfinished : ∀ side, ∀ datagram ∈ connection.net side, datagram.head.type ≠ .linkFin

theorem orderly_initial {connection : Connection} (initial : connection.Initial) :
    Orderly connection where
  linked side pslink known := by simp [initial.link] at known
  started side started := absurd (initial.delivered side) started
  unstarted side _ :=
    ⟨fun pslink known => by simp [initial.link] at known,
      fun pslink known => by simp [initial.link] at known,
      fun datagram membership => by simp [initial.net] at membership,
      fun datagram membership => by simp [initial.net] at membership⟩
  unfinished side datagram membership := by simp [initial.net] at membership

/-- A link after a move and what it sent, for an end that has or has not
started and a peer that has or has not. -/
structure Moved (unstarted peerUnstarted : Prop) (after : Link) (sent : List Datagram) :
    Prop where
  linked : Linked after
  read : unstarted → after.seqRead = 1
  check : peerUnstarted → after.seqCheckSend = 0
  unfinished : ∀ datagram ∈ sent, datagram.head.type ≠ .linkFin
  stamped : peerUnstarted → ∀ datagram ∈ sent, datagram.head.seqCheck = 1
  reports : unstarted → ∀ datagram ∈ sent, datagram.head.type = .seqReport →
    datagram.head.seq = 0

theorem nextCheck_of_zero {pslink : Link} (zero : pslink.seqCheckSend = 0) :
    pslink.nextCheck = 1 := by
  rw [Link.nextCheck, zero]
  decide

theorem lastRead_of_one {pslink : Link} (one : pslink.seqRead = 1) : pslink.lastRead = 0 := by
  rw [Link.lastRead, one]
  decide

/-- What the link knows of its own end and its peer before a move. -/
structure Settled (unstarted peerUnstarted : Prop) (pslink : Link) : Prop where
  linked : Linked pslink
  read : unstarted → pslink.seqRead = 1
  check : peerUnstarted → pslink.seqCheckSend = 0

def SentPlain (pslink : Link) (sent : List Datagram) : Prop :=
  ∀ datagram ∈ sent, datagram.head.seqCheck = pslink.nextCheck ∧
    datagram.head.type ≠ .linkFin ∧
    (datagram.head.type = .seqReport → datagram.head.seq = pslink.lastRead)

namespace Settled

variable {unstarted peerUnstarted : Prop} {pslink after : Link} {sent : List Datagram}

/-- A move that leaves the receiving half and the acknowledgements alone. -/
theorem quiet (settled : Settled unstarted peerUnstarted pslink) (sends : after.Sends)
    (half : after.receivingHalf = pslink.receivingHalf)
    (check : after.seqCheckSend = pslink.seqCheckSend) (plain : SentPlain pslink sent) :
    Moved unstarted peerUnstarted after sent where
  linked := settled.linked.of_same sends half check
  read early := (congrArg ReceivingHalf.seqRead half).trans (settled.read early)
  check early := check.trans (settled.check early)
  unfinished datagram membership := (plain datagram membership).2.1
  stamped early datagram membership :=
    (plain datagram membership).1.trans (nextCheck_of_zero (settled.check early))
  reports early datagram membership type :=
    ((plain datagram membership).2.2 type).trans (lastRead_of_one (settled.read early))

theorem exSend (settled : Settled unstarted peerUnstarted pslink) (buf : List UInt8)
    (sendtoOk : Bool) :
    Moved unstarted peerUnstarted (exSend pslink buf sendtoOk).1
      (exSend pslink buf sendtoOk).2.1 := by
  have sends := settled.linked.sends.exSend buf sendtoOk
  rcases exSend_cases pslink buf sendtoOk with
    ⟨back, equal, -⟩ | ⟨-, -, -, ⟨-, equal⟩ | ⟨-, equal⟩⟩
  all_goals
    rw [equal] at sends ⊢
    apply settled.quiet sends rfl rfl
    intro datagram membership
  · cases membership
  · cases membership
  · rw [List.mem_singleton.mp membership]
    exact ⟨rfl, nofun, nofun⟩

theorem sentPlain_report
    (kinds : ∀ datagram ∈ sent, SentBy pslink (fun pa => IsReport pslink pa ∨ IsLack pa) datagram) :
    SentPlain pslink sent := by
  intro datagram membership
  obtain ⟨pa, length, ⟨type, last⟩ | type, rfl⟩ := kinds datagram membership
  · exact ⟨rfl, by rw [message_type, type]; decide, fun _ => last⟩
  · exact ⟨rfl, by rw [message_type, type]; decide, by rw [message_type, type]; nofun⟩

theorem seqCheck (settled : Settled unstarted peerUnstarted pslink) (interval : Int)
    (timeListen now : Timeval) :
    Moved unstarted peerUnstarted (seqCheck interval timeListen pslink now).1
      (seqCheck interval timeListen pslink now).2 := by
  obtain ⟨⟨time, frame⟩, kinds⟩ := seqCheck_effect interval timeListen pslink now
  rw [frame]
  refine settled.quiet (settled.linked.sends.of_same rfl rfl rfl) rfl rfl ?_
  intro datagram membership
  obtain ⟨pa, length, ⟨type, -⟩, rfl⟩ := kinds datagram membership
  exact ⟨rfl, by rw [message_type, type]; decide, by rw [message_type, type]; nofun⟩

theorem heartbeat (settled : Settled unstarted peerUnstarted pslink) :
    Moved unstarted peerUnstarted pslink pslink.heartbeat := by
  apply settled.quiet settled.linked.sends rfl rfl
  intro datagram membership
  unfold Link.heartbeat at membership
  split at membership
  · rw [List.mem_singleton.mp membership]
    exact ⟨rfl, nofun, nofun⟩
  · cases membership

theorem read_moved (settled : Settled unstarted peerUnstarted pslink)
    {data : Option (List UInt8)} (effect : ReadEffect pslink after sent data) :
    Moved (unstarted ∧ data = none) peerUnstarted after sent := by
  cases effect with
  | report frame kinds =>
      obtain ⟨time, rfl⟩ := frame
      have moved := @quiet unstarted peerUnstarted pslink
        { pslink with timeoutReportLack := time } sent settled
        (settled.linked.sends.of_same rfl rfl rfl) rfl rfl (sentPlain_report kinds)
      exact { moved with
        read := fun early => moved.read early.1, reports := fun early => moved.reports early.1 }
  | take length readable =>
      exact ⟨settled.linked.consume readable, nofun, settled.check, by simp, by simp, by simp⟩

theorem recv (settled : Settled unstarted peerUnstarted pslink) {pa : PacketAll} {now : Timeval}
    (checks : RecvChecks pa) (unfinished : pa.head.type ≠ .linkFin)
    (towards : unstarted → pa.head.seqCheck = 1)
    (reports : peerUnstarted → pa.head.type = .seqReport → pa.head.seq = 0)
    (calm : ¬ unstarted → pslink.linkState = 2 ∧ ¬ pa.IsReset)
    (ran : threadRecv pslink pa now = some (after, sent)) :
    Moved unstarted peerUnstarted after sent := by
  have plain := threadRecv_sent settled.linked.sends ran unfinished
  have read : unstarted → after.seqRead = 1 := by
    intro early
    rw [threadRecv_seqRead ran]
    split
    · exact towards early
    · split
      · next own => exact nextCheck_of_zero (settled.linked.idle own.2.2)
      · exact settled.read early
  have steady : ¬ pslink.linkState < 2 → after.seqRead = pslink.seqRead := by
    intro connected
    by_cases early : unstarted
    · rw [read early, settled.read early]
    · obtain ⟨state, notReset⟩ := calm early
      exact (settled.linked.keeps checks state unfinished notReset ran).2.1
  have bounded : after.seqRead < maxPacketSeq := by
    by_cases early : unstarted
    · rw [read early]
      decide
    · obtain ⟨state, -⟩ := calm early
      rw [steady (by omega)]
      exact settled.linked.readBound
  refine ⟨settled.linked.recv checks unfinished ran steady bounded, read, ?_, ?_, ?_, ?_⟩
  · intro early
    rcases threadRecv_seqCheckSend ran with same | ⟨type, moved, -⟩
    · exact same.trans (settled.check early)
    · exact moved.trans (reports early type)
  · exact fun datagram membership => (plain datagram membership).2.1
  · intro early datagram membership
    exact (plain datagram membership).1.trans (nextCheck_of_zero (settled.check early))
  · intro early datagram membership type
    refine ((plain datagram membership).2.2 type).trans (lastRead_of_one ?_)
    rw [recvHalfOpen_fields]
    split
    · exact towards early
    · exact settled.read early

end Settled

namespace Orderly

variable {connection : Connection}

theorem settled (orderly : Orderly connection) {side : Side} {pslink : Link}
    (known : (connection.process side).link = some pslink) :
    Settled ((connection.process side).delivered = [])
      ((connection.process side.other).delivered = []) pslink where
  linked := orderly.linked side pslink known
  read early := (orderly.unstarted side early).own pslink known
  check early := (orderly.unstarted side.other early).peer pslink (by simpa using known)

theorem process_advance_self (connection : Connection) (side : Side) (after : Link)
    (sent : List Datagram) (data : Option (List UInt8)) :
    (connection.advance side after sent data).process side =
      { connection.process side with
        link := some after
        delivered := (connection.process side).delivered ++ data.toList } :=
  Function.update_self _ _ _

theorem process_advance_other (connection : Connection) (side : Side) (after : Link)
    (sent : List Datagram) (data : Option (List UInt8)) :
    (connection.advance side after sent data).process side.other =
      connection.process side.other :=
  Function.update_of_ne (Side.other_ne side) _ _

theorem net_advance_self (connection : Connection) (side : Side) (after : Link)
    (sent : List Datagram) (data : Option (List UInt8)) :
    (connection.advance side after sent data).net side = connection.net side :=
  Function.update_of_ne (Side.other_ne side).symm _ _

theorem net_advance_other (connection : Connection) (side : Side) (after : Link)
    (sent : List Datagram) (data : Option (List UInt8)) :
    (connection.advance side after sent data).net side.other =
      connection.net side.other ++ sent :=
  Function.update_self _ _ _

/-- The moving end has still handed nothing to its user. -/
theorem unstarted_self {side : Side} (before : Unstarted connection side) {after : Link}
    {sent : List Datagram} (data : Option (List UInt8)) (read : after.seqRead = 1)
    (reports : ∀ datagram ∈ sent, datagram.head.type = .seqReport → datagram.head.seq = 0) :
    Unstarted (connection.advance side after sent data) side := by
  refine ⟨?_, ?_, ?_, ?_⟩
  · rw [process_advance_self]
    intro pslink known
    obtain rfl := Option.some.inj known
    exact read
  · rw [process_advance_other]
    exact before.peer
  · rw [net_advance_self]
    exact before.towards
  · rw [net_advance_other]
    intro datagram membership type
    rcases List.mem_append.mp membership with old | new
    · exact before.reports datagram old type
    · exact reports datagram new type

/-- The peer of the moving end has handed nothing to its user. -/
theorem unstarted_other {side : Side} (before : Unstarted connection side.other) {after : Link}
    {sent : List Datagram} (data : Option (List UInt8)) (check : after.seqCheckSend = 0)
    (stamped : ∀ datagram ∈ sent, datagram.head.seqCheck = 1) :
    Unstarted (connection.advance side after sent data) side.other := by
  refine ⟨?_, ?_, ?_, ?_⟩
  · rw [process_advance_other]
    exact before.own
  · rw [Side.other_other, process_advance_self]
    intro pslink known
    obtain rfl := Option.some.inj known
    exact check
  · rw [net_advance_other]
    intro datagram membership
    rcases List.mem_append.mp membership with old | new
    · exact before.towards datagram old
    · exact stamped datagram new
  · rw [Side.other_other, net_advance_self]
    simpa using before.reports

theorem advance (orderly : Orderly connection) {side : Side} {after : Link}
    {sent : List Datagram} {data : Option (List UInt8)}
    (moved : Moved ((connection.process side).delivered = [] ∧ data = none)
      ((connection.process side.other).delivered = []) after sent)
    (connected : (connection.process side).delivered ++ data.toList ≠ [] → after.linkState = 2) :
    Orderly (connection.advance side after sent data) := by
  have sides : ∀ other : Side, other = side ∨ other = side.other := by
    intro other
    by_cases same : other = side
    · exact .inl same
    · exact .inr (Side.eq_other_of_ne same)
  refine ⟨?_, ?_, ?_, ?_⟩
  · intro other pslink known
    rcases sides other with rfl | rfl
    · rw [process_advance_self] at known
      obtain rfl := Option.some.inj known
      exact moved.linked
    · rw [process_advance_other] at known
      exact orderly.linked _ pslink known
  · intro other started
    rcases sides other with rfl | rfl
    · rw [process_advance_self] at started ⊢
      exact ⟨after, rfl, connected started⟩
    · rw [process_advance_other] at started ⊢
      exact orderly.started _ started
  · intro other early
    rcases sides other with rfl | rfl
    · rw [process_advance_self] at early
      have both : (connection.process other).delivered = [] ∧ data = none := by
        simpa using early
      exact unstarted_self (orderly.unstarted other both.1) data (moved.read both)
        (moved.reports both)
    · rw [process_advance_other] at early
      exact unstarted_other (orderly.unstarted _ early) data (moved.check early)
        (moved.stamped early)
  · intro other datagram membership
    rcases sides other with rfl | rfl
    · rw [net_advance_self] at membership
      exact orderly.unfinished _ datagram membership
    · rw [net_advance_other] at membership
      rcases List.mem_append.mp membership with old | new
      · exact orderly.unfinished _ datagram old
      · exact moved.unfinished datagram new

theorem connect (orderly : Orderly connection) (side : Side) :
    Orderly { connection with
      net := Function.update connection.net side.other
        (connection.net side.other ++ [connectDatagram]) } := by
  have known : ∀ other datagram, datagram ∈ Function.update connection.net side.other
      (connection.net side.other ++ [connectDatagram]) other →
      datagram ∈ connection.net other ∨ datagram = connectDatagram := by
    intro other datagram membership
    by_cases target : other = side.other
    · subst target
      rw [Function.update_self] at membership
      simpa using membership
    · rw [Function.update_of_ne target] at membership
      exact .inl membership
  refine ⟨orderly.linked, orderly.started, ?_, ?_⟩
  · intro other early
    have before := orderly.unstarted other early
    refine ⟨before.own, before.peer, ?_, ?_⟩
    · intro datagram membership
      rcases known other datagram membership with old | rfl
      · exact before.towards datagram old
      · rfl
    · intro datagram membership type
      rcases known other.other datagram membership with old | rfl
      · exact before.reports datagram old type
      · cases type
  · intro other datagram membership
    rcases known other datagram membership with old | rfl
    · exact orderly.unfinished other datagram old
    · exact nofun

theorem state_of_started (orderly : Orderly connection) {side : Side} {pslink : Link}
    (known : (connection.process side).link = some pslink)
    (started : (connection.process side).delivered ≠ []) : pslink.linkState = 2 := by
  obtain ⟨other, otherKnown, state⟩ := orderly.started side started
  obtain rfl := Option.some.inj (known.symm.trans otherKnown)
  exact state

theorem advance_none (orderly : Orderly connection) {side : Side} {pslink after : Link}
    {sent : List Datagram} (known : (connection.process side).link = some pslink)
    (state : after.linkState = pslink.linkState)
    (moved : Moved ((connection.process side).delivered = [])
      ((connection.process side.other).delivered = []) after sent) :
    Orderly (connection.advance side after sent none) := by
  refine orderly.advance ?_ ?_
  · simpa using moved
  · simp only [Option.toList_none, List.append_nil]
    exact fun started => state.trans (orderly.state_of_started known started)

theorem read (orderly : Orderly connection) {side : Side} {pslink after : Link}
    {sent : List Datagram} {data : Option (List UInt8)}
    (known : (connection.process side).link = some pslink)
    (effect : ReadEffect pslink after sent data) :
    Orderly (connection.advance side after sent data) := by
  have settled := orderly.settled known
  apply orderly.advance (settled.read_moved effect)
  cases effect with
  | report frame =>
      obtain ⟨time, rfl⟩ := frame
      simp only [Option.toList_none, List.append_nil]
      exact orderly.state_of_started known
  | take length readable =>
      exact fun _ => settled.linked.connected_of_readable readable

/-- The link that handles a packet is in order, also when it was just added. -/
theorem settled_linkFor (orderly : Orderly connection) {side : Side} {type : PacketType}
    {now : Timeval} {pslink : Link} (found : connection.linkFor side type now = some pslink) :
    Settled ((connection.process side).delivered = [])
      ((connection.process side.other).delivered = []) pslink ∧
      ((connection.process side).delivered ≠ [] →
        (connection.process side).link = some pslink) := by
  unfold Connection.linkFor getLink at found
  cases known : (connection.process side).link with
  | some old =>
      simp only [known, Option.some.injEq] at found
      subst found
      exact ⟨orderly.settled known, fun _ => rfl⟩
  | none =>
      simp only [known] at found
      split at found
      · obtain rfl := Option.some.inj found
        refine ⟨⟨linked_addList _ _ _ _, fun _ => rfl, fun _ => rfl⟩, fun started => ?_⟩
        obtain ⟨old, oldKnown, -⟩ := orderly.started side started
        rw [known] at oldKnown
        cases oldKnown
      · cases found

theorem deliver (orderly : Orderly connection) {side : Side} {datagram : Datagram}
    {now : Timeval} {pslink after : Link} {sent : List Datagram}
    (membership : datagram ∈ connection.net side) (checks : RecvChecks datagram.packet)
    (calm : ∀ pslink, connection.Started side pslink → ¬ datagram.packet.IsReset)
    (found : connection.linkFor side datagram.head.type now = some pslink)
    (ran : threadRecv pslink datagram.packet now = some (after, sent)) :
    Orderly (connection.advance side after sent none) := by
  obtain ⟨settled, known⟩ := orderly.settled_linkFor found
  have unfinished := orderly.unfinished side datagram membership
  have connected : (connection.process side).delivered ≠ [] → pslink.linkState = 2 :=
    fun started => orderly.state_of_started (known started) started
  have moved : Moved ((connection.process side).delivered = [])
      ((connection.process side.other).delivered = []) after sent := by
    refine settled.recv checks unfinished ?_ ?_ ?_ ran
    · exact fun early => (orderly.unstarted side early).towards datagram membership
    · exact fun early => (orderly.unstarted side.other early).reports datagram (by simpa using membership)
    · exact fun started => ⟨connected started, calm pslink ⟨known started, connected started, started⟩⟩
  apply orderly.advance (by simpa using moved)
  simp only [Option.toList_none, List.append_nil]
  intro started
  have states := threadRecv_linkState ran unfinished
  have state := connected started
  omega

end Orderly

/-- Delivery drops the datagram or hands it to the link it belongs to. -/
theorem deliver_cases {connection next : Connection} {side : Side} {index : Nat} {now : Timeval}
    (stepped : connection.step (.deliver side index now) = some next) :
    next = connection ∨
      ∃ datagram pslink after sent, (connection.net side)[index]? = some datagram ∧
        RecvChecks datagram.packet ∧
        connection.linkFor side datagram.head.type now = some pslink ∧
        threadRecv pslink datagram.packet now = some (after, sent) ∧
        next = connection.advance side after sent none := by
  simp only [Connection.step, Option.bind_eq_bind, Option.bind_eq_some_iff] at stepped
  obtain ⟨datagram, found, stepped⟩ := stepped
  split at stepped
  · next checks =>
    split at stepped
    · exact .inl (Option.some.inj stepped).symm
    · next pslink linked =>
      simp only [Option.bind_eq_some_iff] at stepped
      obtain ⟨⟨after, sent⟩, ran, equal⟩ := stepped
      exact .inr ⟨datagram, pslink, after, sent, found, checks, linked, ran,
        (Option.some.inj equal).symm⟩
  · exact .inl (Option.some.inj stepped).symm

theorem read_cases {connection next : Connection} {side : Side}
    {call : Link → Option (Link × List Datagram × Option (List UInt8))}
    (stepped : (do
      let pslink ← (connection.process side).link
      let (after, sent, data) ← call pslink
      return connection.advance side after sent data) = some next) :
    ∃ pslink after sent data, (connection.process side).link = some pslink ∧
      call pslink = some (after, sent, data) ∧ next = connection.advance side after sent data := by
  simp only [Option.bind_eq_bind, Option.bind_eq_some_iff] at stepped
  obtain ⟨pslink, known, ⟨after, sent, data⟩, ran, equal⟩ := stepped
  exact ⟨pslink, after, sent, data, known, ran, (Option.some.inj equal).symm⟩

theorem orderly_step (connection : Connection) (move : Move) (next : Connection)
    (orderly : Orderly connection) (calm : connection.Calm move)
    (stepped : connection.step move = some next) : Orderly next := by
  cases move with
  | exConnect side =>
      obtain rfl := Option.some.inj stepped
      exact orderly.connect side
  | exSend side buf sendtoOk =>
      obtain ⟨pslink, known, rfl⟩ := Option.map_eq_some_iff.mp stepped
      exact orderly.advance_none known (exSend_receiving pslink buf sendtoOk).1
        ((orderly.settled known).exSend buf sendtoOk)
  | exRecv side now =>
      obtain ⟨pslink, after, sent, data, known, ran, rfl⟩ := read_cases stepped
      exact orderly.read known (exRecv_effect ran)
  | sendToMsgQueue side now msgsndOk =>
      obtain ⟨pslink, after, sent, data, known, ran, rfl⟩ := read_cases stepped
      exact orderly.read known (sendToMsgQueue_effect ran)
  | seqCheck side interval timeListen now =>
      obtain ⟨pslink, known, rfl⟩ := Option.map_eq_some_iff.mp stepped
      refine orderly.advance_none known ?_ ((orderly.settled known).seqCheck interval timeListen now)
      obtain ⟨⟨time, frame⟩, -⟩ := seqCheck_effect interval timeListen pslink now
      rw [frame]
  | heartbeat side =>
      obtain ⟨pslink, known, rfl⟩ := Option.map_eq_some_iff.mp stepped
      exact orderly.advance_none known rfl (orderly.settled known).heartbeat
  | deliver side index now =>
      rcases deliver_cases stepped with
        rfl | ⟨datagram, pslink, after, sent, found, checks, linked, ran, rfl⟩
      · exact orderly
      · exact orderly.deliver (List.mem_of_getElem? found) checks
          (fun pslink started => calm datagram found pslink started.1 started.2.1 started.2.2)
          linked ran

/-! ## The stream of an end that has started -/

theorem Link.Keeps.of_slots {before after : Link} {seq : Nat}
    (slots : after.paArrayRecv = before.paArrayRecv) (readable : before.Readable seq) :
    before.Keeps after seq := by
  refine ⟨?_, by rw [slots]⟩
  simpa only [Link.Readable, slots] using readable

section Undisturbed

variable {connection : Connection} {move : Move} {side : Side}

theorem undisturbed_of_process {next : Connection}
    (same : next.process side = connection.process side) :
    Undisturbed connection next move side := by
  intro pslink started
  refine ⟨pslink, ?_, .inl ⟨rfl, fun seq readable => .of_slots rfl readable⟩⟩
  simpa only [Connection.Started, same] using started

theorem undisturbed_other {mover : Side} (different : side ≠ mover) (after : Link)
    (sent : List Datagram) (data : Option (List UInt8)) :
    Undisturbed connection (connection.advance mover after sent data) move side :=
  undisturbed_of_process (Function.update_of_ne different _ _)

theorem started_advance {pslink after : Link} (started : connection.Started side pslink)
    (state : after.linkState = 2) (sent : List Datagram) (data : Option (List UInt8)) :
    (connection.advance side after sent data).Started side after := by
  rw [Connection.Started, Orderly.process_advance_self]
  exact ⟨rfl, state, by simp [started.2.2]⟩

theorem undisturbed_quiet {pslink after : Link}
    (known : (connection.process side).link = some pslink)
    (half : after.receivingHalf = pslink.receivingHalf) (sent : List Datagram) :
    Undisturbed connection (connection.advance side after sent none) move side := by
  intro other started
  obtain rfl := Option.some.inj (known.symm.trans started.1)
  have state : after.linkState = pslink.linkState := congrArg ReceivingHalf.linkState half
  refine ⟨after, started_advance started (state.trans started.2.1) sent none, .inl ⟨?_, ?_⟩⟩
  · exact congrArg ReceivingHalf.seqRead half
  · exact fun seq readable => .of_slots (congrArg ReceivingHalf.paArrayRecv half) readable

theorem undisturbed_read {pslink after : Link} {sent : List Datagram}
    {data : Option (List UInt8)} (reads : move.Reads side)
    (known : (connection.process side).link = some pslink)
    (effect : ReadEffect pslink after sent data) (linked : Linked pslink) :
    Undisturbed connection (connection.advance side after sent data) move side := by
  cases effect with
  | report frame =>
      obtain ⟨time, rfl⟩ := frame
      exact @undisturbed_quiet _ _ _ _ { pslink with timeoutReportLack := time } known rfl sent
  | take length readable =>
      intro other started
      obtain rfl := Option.some.inj (known.symm.trans started.1)
      have next := @started_advance _ _ _ pslink.consume started started.2.1 []
        (some ((pslink.paArrayRecv (slotOf pslink.seqRead)).buf.take length))
      refine ⟨pslink.consume, next, .inr ⟨reads, readable, rfl, ?_⟩⟩
      intro seq unread different
      obtain ⟨seqBound, near⟩ := linked.window seq unread
      obtain ⟨readBound, readNear⟩ := linked.window _ readable
      have apart : slotOf seq ≠ slotOf pslink.seqRead := fun same => different
        (eq_of_slotOf_eq_of_ahead same seqBound readBound linked.readBound near readNear)
      have slot : pslink.consume.paArrayRecv (slotOf seq) = pslink.paArrayRecv (slotOf seq) :=
        Function.update_of_ne apart _ _
      exact ⟨⟨by rw [slot]; exact unread.1, by rw [slot]; exact unread.2⟩, slot⟩

end Undisturbed

theorem undisturbed_step {connection next : Connection} {move : Move} (orderly : Orderly connection)
    (calm : connection.Calm move) (stepped : connection.step move = some next) (side : Side) :
    Undisturbed connection next move side := by
  cases move with
  | exConnect mover =>
      obtain rfl := Option.some.inj stepped
      exact undisturbed_of_process rfl
  | exSend mover buf sendtoOk =>
      obtain ⟨pslink, known, rfl⟩ := Option.map_eq_some_iff.mp stepped
      by_cases here : side = mover
      · subst here
        refine undisturbed_quiet known ?_ _
        obtain ⟨state, read, slots, -⟩ := exSend_receiving pslink buf sendtoOk
        simp only [Link.receivingHalf, state, read, slots]
      · exact undisturbed_other here _ _ _
  | exRecv mover now =>
      obtain ⟨pslink, after, sent, data, known, ran, rfl⟩ := read_cases stepped
      by_cases here : side = mover
      · subst here
        exact undisturbed_read (.inl ⟨now, rfl⟩) known (exRecv_effect ran)
          (orderly.linked side pslink known)
      · exact undisturbed_other here _ _ _
  | sendToMsgQueue mover now msgsndOk =>
      obtain ⟨pslink, after, sent, data, known, ran, rfl⟩ := read_cases stepped
      by_cases here : side = mover
      · subst here
        exact undisturbed_read (.inr ⟨now, msgsndOk, rfl⟩) known (sendToMsgQueue_effect ran)
          (orderly.linked side pslink known)
      · exact undisturbed_other here _ _ _
  | seqCheck mover interval timeListen now =>
      obtain ⟨pslink, known, rfl⟩ := Option.map_eq_some_iff.mp stepped
      by_cases here : side = mover
      · subst here
        obtain ⟨⟨time, frame⟩, -⟩ := seqCheck_effect interval timeListen pslink now
        refine undisturbed_quiet known ?_ _
        rw [frame]
        rfl
      · exact undisturbed_other here _ _ _
  | heartbeat mover =>
      obtain ⟨pslink, known, rfl⟩ := Option.map_eq_some_iff.mp stepped
      by_cases here : side = mover
      · subst here
        exact undisturbed_quiet known rfl _
      · exact undisturbed_other here _ _ _
  | deliver mover index now =>
      rcases deliver_cases stepped with
        rfl | ⟨datagram, pslink, after, sent, found, checks, linked, ran, rfl⟩
      · exact undisturbed_of_process rfl
      · by_cases here : side = mover
        · subst here
          intro other started
          obtain ⟨settled, known⟩ := orderly.settled_linkFor linked
          obtain rfl := Option.some.inj ((known started.2.2).symm.trans started.1)
          obtain ⟨state, read, kept⟩ := settled.linked.keeps checks started.2.1
            (orderly.unfinished side datagram (List.mem_of_getElem? found))
            (calm datagram found pslink started.1 started.2.1 started.2.2) ran
          exact ⟨after, started_advance started state sent none, .inl ⟨read, kept⟩⟩
        · exact undisturbed_other here _ _ _

/-- In every run in which no connection request of an unconnected sender is
delivered to an end that has started, no move disturbs the stream of such an
end. -/
theorem stream_undisturbed_of_calm (start before after : Connection) (initial : start.Initial)
    (moves : List Move) (move : Move)
    (calm : Transition.Guarded Connection.step Connection.Calm start (moves ++ [move]))
    (ran : Transition.run Connection.step start moves = some before)
    (stepped : before.step move = some after) (side : Side) :
    Undisturbed before after move side := by
  obtain ⟨calmBefore, calmHere⟩ := Transition.guarded_append Connection.step calm ran
  have orderly := Transition.run_invariant_of_guarded Connection.step orderly_step calmBefore
    (orderly_initial initial) ran
  exact undisturbed_step orderly calmHere.1 stepped side

def strangers : Connection where
  process _ := ⟨0, 3, 0, none, []⟩
  net _ := []

theorem strangers_initial : strangers.Initial := ⟨fun _ => rfl, fun _ => rfl, fun _ => rfl⟩

/-- `exConnect` sends its request twice; the first copy connects the two ends
and one packet is sent, received and read. -/
def connectMoves : List Move :=
  [.exConnect .left, .exConnect .left, .deliver .right 0 .zero, .deliver .left 0 .zero,
    .deliver .right 2 .zero, .exSend .left [7] true, .deliver .right 3 .zero,
    .exRecv .right .zero]

def connectedPair : Connection :=
  (Transition.run Connection.step strangers connectMoves).getD strangers

def lateRequest : Move := .deliver .right 1 .zero

theorem stream_undisturbed_of_calm_connected :
    ∃ after, connectedPair.step (.deliver .right 3 .zero) = some after ∧
      (∃ pslink, connectedPair.Started .right pslink) ∧
      Undisturbed connectedPair after (.deliver .right 3 .zero) .right :=
  ⟨_, rfl, ⟨_, rfl, rfl, by decide⟩,
    stream_undisturbed_of_calm strangers connectedPair _ strangers_initial connectMoves
      (.deliver .right 3 .zero) (by decide) rfl rfl .right⟩

/-- The late copy moves `SeqRead` back from 2 to 1. -/
theorem late_request_disturbs :
    Transition.run Connection.step strangers connectMoves = some connectedPair ∧
      ∃ after, connectedPair.step lateRequest = some after ∧
        ¬ Undisturbed connectedPair after lateRequest .right := by
  refine ⟨rfl, _, rfl, ?_⟩
  intro undisturbed
  obtain ⟨next, started, same | moved⟩ := undisturbed _ ⟨rfl, rfl, by decide⟩
  · obtain rfl := Option.some.inj started.1
    exact absurd same.1 (by decide)
  · obtain rfl := Option.some.inj started.1
    exact absurd moved.2.2.1 (by decide)

end UtilsModules.Udp

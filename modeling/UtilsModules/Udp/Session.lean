import UtilsModules.Library.Transition
import UtilsModules.Udp.Receiving

/-!
Two connected endpoints and the network between them, in the data phase.

The network keeps every datagram ever sent and may deliver any of them any
number of times, in any order, or never.  A datagram travels with the
unbounded number of its packet, and each party counts how far its cursors have
moved; delivery is refused once the cursor a datagram is compared with has
moved more than `MAX_PACKET_SEQ - MAX_PACKET_NUMBER` past that number.
-/

namespace UtilsModules.Udp

open Circular

inductive Side where
  | left
  | right
  deriving DecidableEq, Repr

namespace Side

def other : Side → Side
  | left => right
  | right => left

@[simp]
theorem other_other (side : Side) : side.other.other = side := by
  cases side <;> rfl

@[simp]
theorem other_ne (side : Side) : side.other ≠ side := by
  cases side <;> decide

theorem eq_other_of_ne {first second : Side} (different : first ≠ second) :
    first = second.other := by
  cases first <;> cases second <;> first | rfl | exact absurd rfl different

end Side

/-- One end: its link, the distance its cursors have moved in unbounded
numbers, the payloads `exSend` accepted and those handed to the user. -/
structure Party where
  link : Link
  readNo : Nat
  maxNo : Nat
  checkNo : Nat
  accepted : List (List UInt8)
  delivered : List (List UInt8)

namespace Party

/-- Replace the link and count how far each cursor has moved. -/
def follow (party : Party) (after : Link) : Party :=
  { party with
    link := after
    readNo := party.readNo + ahead maxPacketSeq after.seqRead party.link.seqRead
    maxNo := party.maxNo + ahead maxPacketSeq after.seqMaxSend party.link.seqMaxSend
    checkNo := party.checkNo + ahead maxPacketSeq after.seqCheckSend party.link.seqCheckSend }

/-- The unbounded number of a packet the party has just sent: the latest one at
or before the cursor the sequence number was taken from. -/
def number (party : Party) (datagram : Datagram) : Nat :=
  match datagram.head.type with
  | .userData => party.maxNo - ahead maxPacketSeq party.link.seqMaxSend datagram.head.seq
  | .seqReport => party.readNo - ahead maxPacketSeq party.link.seqRead datagram.head.seq
  | _ => 0

end Party

structure Flight where
  datagram : Datagram
  number : Nat

def Party.launch (party : Party) (sent : List Datagram) : List Flight :=
  sent.map fun datagram => ⟨datagram, party.number datagram⟩

/-- The datagram is not delivered too late for the cursor it is compared with. -/
def Party.Timely (party : Party) (flight : Flight) : Prop :=
  match flight.datagram.head.type with
  | .userData => party.readNo ≤ flight.number + (maxPacketSeq - maxPacketNumber)
  | .seqReport => party.checkNo ≤ flight.number + (maxPacketSeq - maxPacketNumber)
  | _ => True

instance (party : Party) (flight : Flight) : Decidable (party.Timely flight) := by
  unfold Party.Timely
  split <;> infer_instance

/-- Both ends, and for each the datagrams addressed to it. -/
structure Session where
  party : Side → Party
  net : Side → List Flight

inductive Action where
  | exSend (side : Side) (buf : List UInt8) (sendtoOk : Bool)
  | exRecv (side : Side) (now : Timeval)
  | sendToMsgQueue (side : Side) (now : Timeval) (msgsndOk : Bool)
  | seqCheck (side : Side) (listenLinkInterval : Int) (timeListen now : Timeval)
  | deliver (side : Side) (index : Nat) (now : Timeval)

/-- The payloads a call of `exSend` has accepted: its buffer, if the call
returned a positive count. -/
def SendReturn.accepted (back : SendReturn) (buf : List UInt8) : List (List UInt8) :=
  match back with
  | .bytes count => if 0 < count then [buf] else []
  | .error => []
  | .wait => []

namespace Session

def advance (session : Session) (side : Side) (party : Party) (sent : List Datagram) : Session where
  party := Function.update session.party side party
  net := Function.update session.net side.other (session.net side.other ++ party.launch sent)

def step (session : Session) : Action → Option Session
  | .exSend side buf sendtoOk =>
      let party := session.party side
      let result := exSend party.link buf sendtoOk
      some (session.advance side
        { party.follow result.1 with accepted := party.accepted ++ result.2.2.accepted buf }
        result.2.1)
  | .exRecv side now =>
      let party := session.party side
      (exRecv party.link now).map fun (after, sent, data) =>
        session.advance side
          { party.follow after with delivered := party.delivered ++ data.toList } sent
  | .sendToMsgQueue side now msgsndOk =>
      let party := session.party side
      (sendToMsgQueue party.link now msgsndOk).map fun (after, sent, data) =>
        session.advance side
          { party.follow after with delivered := party.delivered ++ data.toList } sent
  | .seqCheck side listenLinkInterval timeListen now =>
      let party := session.party side
      let result := seqCheck listenLinkInterval timeListen party.link now
      some (session.advance side (party.follow result.1) result.2)
  | .deliver side index now =>
      let party := session.party side
      match (session.net side)[index]? with
      | none => none
      | some flight =>
          if party.Timely flight then
            if RecvChecks flight.datagram.packet then
              (threadRecv party.link flight.datagram.packet now).map fun (after, sent) =>
                session.advance side (party.follow after) sent
            else
              some session
          else
            none

/-- Freshly connected, seen in the direction from `sender` to its peer: both
links are in state 2 with nothing outstanding, the receiver reads next what the
sender will send next, nothing is buffered and no datagram is on its way. -/
structure Fresh (session : Session) (sender : Side) : Prop where
  connected : ∀ side, (session.party side).link.linkState = 2
  checkBound : ∀ side, (session.party side).link.seqCheckSend < maxPacketSeq
  nothingOutstanding : ∀ side, (session.party side).link.seqMaxSend =
    ((session.party side).link.seqCheckSend + 1) % maxPacketSeq
  seqRead : (session.party sender.other).link.seqRead =
    ((session.party sender).link.seqCheckSend + 1) % maxPacketSeq
  nothingReadable : ∀ slot, ((session.party sender.other).link.paArrayRecv slot).len = 0
  network : ∀ side, session.net side = []
  checkNo : (session.party sender).checkNo = (session.party sender).link.seqCheckSend
  maxNo : (session.party sender).maxNo = (session.party sender).link.seqCheckSend + 1
  readNo : (session.party sender.other).readNo = (session.party sender).link.seqCheckSend + 1
  accepted : (session.party sender).accepted = []
  delivered : (session.party sender.other).delivered = []

end Session

end UtilsModules.Udp

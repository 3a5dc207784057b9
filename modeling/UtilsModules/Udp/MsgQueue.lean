import UtilsModules.Library.Bytes
import UtilsModules.Library.Ring
import UtilsModules.Library.Transition
import UtilsModules.Udp.Packet

/-!
The message queue that stands in for System V messages on WIN32.

A slot is the memory image of an `st_msg_packet`.  `msgsnd` writes as many bytes
as the message has; `msgrcv` works out the size again from the `len` field of
the slot, also for a message that has no such field.  The two semaphores that
serialise the callers are left out: a call is one step, and one that waits for
room or for a message is not taken before it can go on.
-/

namespace UtilsModules.Udp

open Bytes

def maxMsgQueue : Nat := 0x1FFF

def sizeofLong : Nat := 4

/-- `sizeof(int)`, the size of the fields `id` and `len`. -/
def sizeofInt : Nat := 4

def sizeofMsgPacket : Nat := sizeofLong + sizeofInt + sizeofInt + maxPacketDataSize

def lenMsgHead : Nat := sizeofMsgPacket - maxPacketDataSize - sizeofLong

def msgExUdpPacket : Nat := 2 ^ 8

def msgtypeUnconnected : Nat := 2 ^ 9

def offsetLen : Nat := sizeofLong + sizeofInt

structure MsgQueue where
  msgQueue : Nat → List UInt8
  read : Nat
  write : Nat

def MsgQueue.zero : MsgQueue := ⟨fun _ => List.replicate sizeofMsgPacket 0, 0, 0⟩

def msgsnd (queue : MsgQueue) (msgp : List UInt8) (msgsz : Nat) (nowait : Bool) :
    Option (MsgQueue × Int) :=
  if (queue.write + 1) % maxMsgQueue ≠ queue.read then
    (Ring.copy? (queue.msgQueue queue.write) 0 msgp 0 (msgsz + sizeofLong)).map fun slot =>
      ({ queue with
          msgQueue := Function.update queue.msgQueue queue.write slot
          write := (queue.write + 1) % maxMsgQueue }, msgsz)
  else if nowait then
    some (queue, -1)
  else
    none

/-- The number of bytes `msgrcv` copies for a slot.  A negative `int` is larger
than any size it is compared with. -/
def receivedSize (slot : List UInt8) (msgsz : Nat) : Nat :=
  let ret : Int := (sizeofMsgPacket - maxPacketDataSize : Nat) + intAt slot offsetLen
  if ret < 0 ∨ ret > msgsz + sizeofLong then msgsz + sizeofLong else ret.toNat

def msgrcv (queue : MsgQueue) (msgsz : Nat) (nowait : Bool) :
    Option (MsgQueue × Int × List UInt8) :=
  if msgsz = 0 then
    some (queue, -1, [])
  else if queue.write ≠ queue.read then
    let slot := queue.msgQueue queue.read
    let ret := receivedSize slot msgsz
    if ret ≤ slot.length then
      some ({ queue with read := (queue.read + 1) % maxMsgQueue }, ret - sizeofLong, slot.take ret)
    else
      none
  else if nowait then
    some (queue, -1, [])
  else
    none

/-- The messages the program sends: the data of a packet (`SendToMsgQueue`), and
the end of a connection (`thread_recv` and `thread_listen`). -/
inductive Message where
  | packet (id : Nat) (data : List UInt8) (short : data.length ≤ maxPacketDataSize)
  | unconnected (id : Nat)
  deriving DecidableEq

namespace Message

def msgsz : Message → Nat
  | packet _ data _ => lenMsgHead + data.length
  | unconnected _ => sizeofInt

def bytes : Message → List UInt8
  | packet id data _ => intBytes msgExUdpPacket ++ intBytes id ++ intBytes data.length ++ data
  | unconnected id => intBytes msgtypeUnconnected ++ intBytes id

@[simp]
theorem length_bytes (message : Message) : message.bytes.length = message.msgsz + sizeofLong := by
  cases message with
  | packet id data short =>
      simp only [bytes, msgsz, List.length_append, length_intBytes, lenMsgHead, sizeofMsgPacket,
        sizeofLong, sizeofInt]
      omega
  | unconnected id => rfl

theorem length_bytes_le (message : Message) : message.bytes.length ≤ sizeofMsgPacket := by
  rw [length_bytes]
  cases message with
  | packet id data short =>
      simp only [msgsz, lenMsgHead, sizeofMsgPacket, sizeofLong, sizeofInt] at *
      omega
  | unconnected id =>
      simp only [msgsz, sizeofMsgPacket, sizeofLong, sizeofInt]
      omega

end Message

structure Receipt where
  message : Message
  msgsz : Nat
  result : Int
  bytes : List UInt8

/-- With a buffer that is large enough, the message has come out as it went in. -/
def Receipt.Exact (receipt : Receipt) : Prop :=
  receipt.message.msgsz ≤ receipt.msgsz →
    receipt.result = receipt.message.msgsz ∧ receipt.bytes = receipt.message.bytes

/-- The queue with the messages that have been sent and not been received. -/
structure Mailbox where
  queue : MsgQueue
  pending : List Message
  receipts : List Receipt

inductive MailboxCall where
  | msgsnd (message : Message) (nowait : Bool)
  | msgrcv (msgsz : Nat) (nowait : Bool)

namespace Mailbox

def start : Mailbox := ⟨.zero, [], []⟩

/-- A call that completes.  A result of `-1` moves no message. -/
def step (mailbox : Mailbox) : MailboxCall → Option Mailbox
  | .msgsnd message nowait =>
      (Udp.msgsnd mailbox.queue message.bytes message.msgsz nowait).map fun (queue, result) =>
        if result = -1 then { mailbox with queue := queue }
        else { mailbox with queue := queue, pending := mailbox.pending ++ [message] }
  | .msgrcv msgsz nowait =>
      (Udp.msgrcv mailbox.queue msgsz nowait).map fun (queue, result, bytes) =>
        match mailbox.pending with
        | [] => { mailbox with queue := queue }
        | message :: rest =>
            if result = -1 then { mailbox with queue := queue }
            else ⟨queue, rest, mailbox.receipts ++ [⟨message, msgsz, result, bytes⟩]⟩

/-- The condition on a call: a message about the end of a connection is received
with a buffer of exactly its size, or with one that is too small for it. -/
def Sized (mailbox : Mailbox) : MailboxCall → Prop
  | .msgrcv msgsz _ =>
      match mailbox.pending with
      | .unconnected _ :: _ => msgsz ≤ sizeofInt
      | _ => True
  | _ => True

instance (mailbox : Mailbox) (call : MailboxCall) : Decidable (mailbox.Sized call) := by
  unfold Sized
  split
  · split <;> infer_instance
  · infer_instance

/-- A slot of the right size whose `len` field is that of some packet. -/
def SlotOk (slot : List UInt8) : Prop :=
  slot.length = sizeofMsgPacket ∧ 0 ≤ intAt slot offsetLen ∧
    intAt slot offsetLen ≤ maxPacketDataSize

def Holds (slot : List UInt8) (message : Message) : Prop :=
  slot.take message.bytes.length = message.bytes

/-- The pending messages lie in the slots from `read` on. -/
structure Kept (mailbox : Mailbox) : Prop where
  readBound : mailbox.queue.read < maxMsgQueue
  write : mailbox.queue.write = (mailbox.queue.read + mailbox.pending.length) % maxMsgQueue
  count : mailbox.pending.length < maxMsgQueue
  slots : ∀ index, SlotOk (mailbox.queue.msgQueue index)
  held : ∀ index message, mailbox.pending[index]? = some message →
    Holds (mailbox.queue.msgQueue ((mailbox.queue.read + index) % maxMsgQueue)) message

theorem kept_start : start.Kept where
  readBound := by decide
  write := rfl
  count := by decide
  slots := by
    have zero : SlotOk (List.replicate sizeofMsgPacket 0) := by
      refine ⟨List.length_replicate, ?_⟩
      decide +kernel
    exact fun _ => zero
  held := by simp [start]

theorem splice_slot {slot : List UInt8} (ok : SlotOk slot) (message : Message) :
    SlotOk (Ring.splice slot 0 message.bytes) ∧ Holds (Ring.splice slot 0 message.bytes) message := by
  obtain ⟨length, low, high⟩ := ok
  have fits := message.length_bytes_le
  have front : Ring.splice slot 0 message.bytes =
      message.bytes ++ slot.drop message.bytes.length := by
    simp [Ring.splice]
  refine ⟨⟨?_, ?_⟩, ?_⟩
  · rw [Ring.length_splice (by omega), length]
  · rw [front]
    cases message with
    | packet id data short =>
        have stored := @intAt_intBytes (intBytes msgExUdpPacket ++ intBytes id)
          (data ++ slot.drop (Message.packet id data short).bytes.length) data.length
          (by unfold maxPacketDataSize at short; omega)
        simp only [Message.bytes, List.append_assoc, List.length_append, length_intBytes] at stored ⊢
        unfold offsetLen sizeofLong sizeofInt
        rw [stored]
        omega
    | unconnected id =>
        -- the bytes of `len` are those of an earlier message
        rw [intAt_behind (by simp [Message.msgsz, offsetLen, sizeofLong, sizeofInt])]
        exact ⟨low, high⟩
  · rw [Holds, front, List.take_append_of_le_length (Nat.le_refl _), List.take_length]

variable {mailbox next : Mailbox}

namespace Kept

/-- The mailbox with a message copied into the slot behind the pending ones. -/
theorem push (kept : mailbox.Kept) (message : Message)
    (notFull : mailbox.pending.length + 1 < maxMsgQueue) :
    Kept { mailbox with
      queue := { mailbox.queue with
        msgQueue := Function.update mailbox.queue.msgQueue mailbox.queue.write
          (Ring.splice (mailbox.queue.msgQueue mailbox.queue.write) 0 message.bytes)
        write := (mailbox.queue.write + 1) % maxMsgQueue }
      pending := mailbox.pending ++ [message] } := by
  obtain ⟨readBound, write, count, slots, held⟩ := kept
  obtain ⟨written, holds⟩ := splice_slot (slots mailbox.queue.write) message
  constructor
  case readBound => exact readBound
  case write =>
    simp only [List.length_append, List.length_singleton, write, Nat.mod_add_mod, Nat.add_assoc]
  case count =>
    simp only [List.length_append, List.length_singleton]
    exact notFull
  case slots =>
    intro index
    simp only
    by_cases same : index = mailbox.queue.write
    · rw [same, Function.update_self]
      exact written
    · rw [Function.update_of_ne same]
      exact slots index
  case held =>
    intro index other pending
    simp only
    rcases Nat.lt_trichotomy index mailbox.pending.length with old | new | beyond
    · have elsewhere := @Ring.slot_ne mailbox.queue.read maxMsgQueue index mailbox.pending.length
        (by omega) (by omega) (by omega)
      rw [write, Function.update_of_ne elsewhere]
      apply held index other
      rw [← pending, List.getElem?_append_left old]
    · subst new
      rw [List.getElem?_append_right (Nat.le_refl _), Nat.sub_self] at pending
      obtain rfl := Option.some.inj pending
      rw [write, Function.update_self, ← write]
      exact holds
    · rw [List.getElem?_eq_none (by simp; omega)] at pending
      cases pending

theorem msgsnd_room (kept : mailbox.Kept) (message : Message) (nowait : Bool)
    (room : (mailbox.queue.write + 1) % maxMsgQueue ≠ mailbox.queue.read) :
    msgsnd mailbox.queue message.bytes message.msgsz nowait = some ({ mailbox.queue with
      msgQueue := Function.update mailbox.queue.msgQueue mailbox.queue.write
        (Ring.splice (mailbox.queue.msgQueue mailbox.queue.write) 0 message.bytes)
      write := (mailbox.queue.write + 1) % maxMsgQueue }, (message.msgsz : Int)) := by
  have fits := message.length_bytes_le
  have enough : 0 + message.bytes.length ≤ (mailbox.queue.msgQueue mailbox.queue.write).length := by
    rw [(kept.slots mailbox.queue.write).1, Nat.zero_add]
    exact fits
  rw [msgsnd, if_pos room, ← message.length_bytes, Ring.copy?,
    if_pos ⟨enough, Nat.le_of_eq (Nat.zero_add _)⟩, List.drop_zero, List.take_length,
    Option.map_some]

theorem room_iff (kept : mailbox.Kept) :
    (mailbox.queue.write + 1) % maxMsgQueue ≠ mailbox.queue.read ↔
      mailbox.pending.length + 1 < maxMsgQueue := by
  have count := kept.count
  have readBound := kept.readBound
  rw [kept.write]
  unfold maxMsgQueue at *
  omega

theorem send_room (kept : mailbox.Kept) (message : Message) (nowait : Bool)
    (notFull : mailbox.pending.length + 1 < maxMsgQueue) :
    ∃ next, mailbox.step (.msgsnd message nowait) = some next ∧
      next.pending = mailbox.pending ++ [message] ∧ next.receipts = mailbox.receipts ∧
      next.Kept := by
  refine ⟨{ mailbox with queue := _, pending := _ }, ?_, rfl, rfl, kept.push message notFull⟩
  rw [step, kept.msgsnd_room message nowait (kept.room_iff.mpr notFull), Option.map_some]
  simp only
  rw [if_neg (by omega)]

theorem send_full (kept : mailbox.Kept) {message : Message} {nowait : Bool}
    (full : ¬ mailbox.pending.length + 1 < maxMsgQueue)
    (stepped : mailbox.step (.msgsnd message nowait) = some next) : next = mailbox := by
  rw [step, msgsnd, if_neg (mt kept.room_iff.mp full)] at stepped
  cases nowait with
  | true => exact (Option.some.inj stepped).symm
  | false => cases stepped

/-- A message is put behind the pending ones, or there is no room for it. -/
theorem send (kept : mailbox.Kept) {message : Message} {nowait : Bool}
    (stepped : mailbox.step (.msgsnd message nowait) = some next) :
    next.Kept ∧ next.receipts = mailbox.receipts := by
  by_cases notFull : mailbox.pending.length + 1 < maxMsgQueue
  · obtain ⟨after, sent, -, receipts, keptAfter⟩ := kept.send_room message nowait notFull
    obtain rfl := Option.some.inj (sent.symm.trans stepped)
    exact ⟨keptAfter, receipts⟩
  · obtain rfl := kept.send_full notFull stepped
    exact ⟨kept, rfl⟩

theorem len_of_packet {slot : List UInt8} {id : Nat} {data : List UInt8}
    {short : data.length ≤ maxPacketDataSize} (holds : Holds slot (.packet id data short)) :
    intAt slot offsetLen = data.length := by
  have whole : slot = intBytes msgExUdpPacket ++ intBytes id ++ intBytes data.length ++
      (data ++ slot.drop (Message.packet id data short).bytes.length) := by
    rw [← List.append_assoc]
    conv_lhs => rw [← List.take_append_drop (Message.packet id data short).bytes.length slot]
    rw [holds]
    rfl
  have stored := @intAt_intBytes (intBytes msgExUdpPacket ++ intBytes id)
    (data ++ slot.drop (Message.packet id data short).bytes.length) data.length
    (by unfold maxPacketDataSize at short; omega)
  rw [← whole] at stored
  exact stored

theorem receivedSize_eq {slot : List UInt8} (ok : SlotOk slot) (msgsz : Nat) :
    receivedSize slot msgsz = min (12 + (intAt slot offsetLen).toNat) (msgsz + 4) := by
  obtain ⟨-, low, -⟩ := ok
  unfold receivedSize sizeofMsgPacket sizeofLong sizeofInt maxPacketDataSize
  simp only
  split
  · omega
  · omega

/-- The receipt for a message in a slot is exact unless the message has no `len`
field and the buffer is larger than the message. -/
theorem exact_iff {slot : List UInt8} {message : Message} (ok : SlotOk slot)
    (holds : Holds slot message) {msgsz : Nat} :
    Receipt.Exact ⟨message, msgsz, receivedSize slot msgsz - sizeofLong,
        slot.take (receivedSize slot msgsz)⟩ ↔
      match message with
      | .unconnected _ => msgsz ≤ sizeofInt
      | _ => True := by
  have size := receivedSize_eq ok msgsz
  have whole : receivedSize slot msgsz = message.bytes.length →
      (receivedSize slot msgsz : Int) - sizeofLong = message.msgsz ∧
        slot.take (receivedSize slot msgsz) = message.bytes := by
    intro same
    rw [same, holds, message.length_bytes]
    refine ⟨?_, rfl⟩
    push_cast
    omega
  cases message with
  | packet id data short =>
      have len := len_of_packet holds
      refine iff_of_true ?_ trivial
      intro large
      apply whole
      rw [size, Message.length_bytes, len]
      simp only [Message.msgsz, lenMsgHead, sizeofMsgPacket, sizeofLong, sizeofInt] at large ⊢
      omega
  | unconnected id =>
      simp only [Receipt.Exact, Message.msgsz]
      constructor
      · intro exact
        by_contra larger
        obtain ⟨result, -⟩ := exact (by omega)
        rw [size] at result
        unfold sizeofInt sizeofLong at *
        omega
      · intro small large
        apply whole
        rw [size, Message.length_bytes]
        simp only [Message.msgsz, sizeofLong]
        unfold sizeofInt at *
        omega

theorem receive_nil (kept : mailbox.Kept) {msgsz : Nat} {nowait : Bool}
    (empty : mailbox.pending = [])
    (stepped : mailbox.step (.msgrcv msgsz nowait) = some next) : next = mailbox := by
  have meeting : mailbox.queue.write = mailbox.queue.read := by
    rw [kept.write, empty, List.length_nil, Nat.add_zero, Nat.mod_eq_of_lt kept.readBound]
  obtain ⟨⟨queue, result, bytes⟩, received, stepped⟩ := Option.map_eq_some_iff.mp stepped
  have same : queue = mailbox.queue := by
    rw [msgrcv, if_neg (by simp [meeting] : ¬ mailbox.queue.write ≠ mailbox.queue.read)] at received
    split at received
    · exact (congrArg Prod.fst (Option.some.inj received)).symm
    · split at received
      · exact (congrArg Prod.fst (Option.some.inj received)).symm
      · cases received
  simp only [empty] at stepped
  rw [← stepped, same]
  simp only [← empty]

theorem receive_none (mailbox : Mailbox) (nowait : Bool) :
    mailbox.step (.msgrcv 0 nowait) = some mailbox := by
  rw [step, msgrcv, if_pos rfl, Option.map_some]
  obtain ⟨queue, pending, receipts⟩ := mailbox
  cases pending <;> rfl

/-- The oldest pending message is taken, if the caller has any buffer. -/
theorem receive_cons (kept : mailbox.Kept) {msgsz : Nat} (nowait : Bool) {message : Message}
    {rest : List Message} (pending : mailbox.pending = message :: rest) (positive : msgsz ≠ 0) :
    ∃ next, mailbox.step (.msgrcv msgsz nowait) = some next ∧ next.Kept ∧ next.pending = rest ∧
      next.receipts = mailbox.receipts ++ [⟨message, msgsz,
        receivedSize (mailbox.queue.msgQueue mailbox.queue.read) msgsz - sizeofLong,
        (mailbox.queue.msgQueue mailbox.queue.read).take
          (receivedSize (mailbox.queue.msgQueue mailbox.queue.read) msgsz)⟩] := by
  obtain ⟨readBound, write, count, slots, held⟩ := kept
  rw [pending, List.length_cons] at write count
  have filled : mailbox.queue.write ≠ mailbox.queue.read := by
    rw [write]
    unfold maxMsgQueue at *
    omega
  have ok := slots mailbox.queue.read
  have size := receivedSize_eq ok msgsz
  have inside : receivedSize (mailbox.queue.msgQueue mailbox.queue.read) msgsz ≤
      (mailbox.queue.msgQueue mailbox.queue.read).length := by
    obtain ⟨length, low, high⟩ := ok
    rw [size, length]
    unfold sizeofMsgPacket sizeofLong sizeofInt maxPacketDataSize at *
    omega
  refine ⟨⟨{ mailbox.queue with read := (mailbox.queue.read + 1) % maxMsgQueue }, rest, _⟩, ?_, ?_,
    rfl, rfl⟩
  · rw [step, msgrcv, if_neg positive, if_pos filled]
    simp only [if_pos inside, Option.map_some, pending]
    rw [if_neg (by unfold sizeofLong; omega)]
  constructor
  case readBound => exact Nat.mod_lt _ (by decide)
  case write =>
    simp only [write]
    rw [Nat.mod_add_mod]
    congr 1
    omega
  case count => exact Nat.lt_of_succ_lt count
  case slots => exact slots
  case held =>
    intro index other waiting
    have shifted := held (index + 1) other (by rw [pending, List.getElem?_cons_succ, waiting])
    simp only
    rw [Nat.mod_add_mod, Nat.add_assoc, Nat.add_comm 1 index]
    exact shifted

end Kept

theorem Kept.step (kept : mailbox.Kept) {call : MailboxCall}
    (stepped : mailbox.step call = some next) :
    next.Kept ∧
      (mailbox.Sized call ∧ next.receipts = mailbox.receipts ∨
        ∃ receipt, next.receipts = mailbox.receipts ++ [receipt] ∧
          mailbox.pending = receipt.message :: next.pending ∧
          (mailbox.Sized call ↔ receipt.Exact)) := by
  cases call with
  | msgsnd message nowait =>
      obtain ⟨keptNext, receipts⟩ := kept.send stepped
      exact ⟨keptNext, .inl ⟨trivial, receipts⟩⟩
  | msgrcv msgsz nowait =>
      cases pending : mailbox.pending with
      | nil =>
          obtain rfl := kept.receive_nil pending stepped
          refine ⟨kept, .inl ⟨?_, rfl⟩⟩
          simp only [Sized, pending]
      | cons message rest =>
          by_cases none : msgsz = 0
          · subst none
            obtain rfl := Option.some.inj ((Kept.receive_none mailbox nowait).symm.trans stepped)
            refine ⟨kept, .inl ⟨?_, rfl⟩⟩
            simp only [Sized, pending]
            split
            · exact Nat.zero_le _
            · trivial
          · obtain ⟨after, received, keptNext, left, receipts⟩ :=
              kept.receive_cons nowait pending none
            obtain rfl := Option.some.inj (received.symm.trans stepped)
            have holds := kept.held 0 message (by simp [pending])
            rw [Nat.add_zero, Nat.mod_eq_of_lt kept.readBound] at holds
            refine ⟨keptNext, .inr ⟨_, receipts, by rw [left], ?_⟩⟩
            rw [Kept.exact_iff (kept.slots _) holds]
            simp only [Sized, pending]
            cases message <;> exact Iff.rfl

/-- Every receipt so far is exact. -/
def AllExact (mailbox : Mailbox) : Prop := ∀ receipt ∈ mailbox.receipts, receipt.Exact

theorem Kept.step_iff (kept : mailbox.Kept) (exact : mailbox.AllExact) {call : MailboxCall}
    (stepped : mailbox.step call = some next) : mailbox.Sized call ↔ next.AllExact := by
  obtain ⟨-, ⟨sized, receipts⟩ | ⟨receipt, receipts, -, sized⟩⟩ := kept.step stepped
  · refine iff_of_true sized ?_
    rw [AllExact, receipts]
    exact exact
  · rw [sized, AllExact, receipts]
    constructor
    · intro isExact other membership
      rcases List.mem_append.mp membership with earlier | new
      · exact exact other earlier
      · rw [List.mem_singleton.mp new]
        exact isExact
    · intro all
      exact all receipt (by simp)

end Mailbox

/-- Over every run of the queue the messages sent and not received lie untouched
in their slots, at most `MAX_MSG_QUEUE - 1` of them; with room a message is stored behind
them; `msgrcv` with any buffer takes the oldest one and nothing else moves; and all that are
received with a large enough buffer are as they were sent just when no message about the
end of a connection is received with a larger buffer. -/
theorem msg_queue_exact_iff_sized {calls : List MailboxCall} {last : Mailbox}
    (ran : Transition.run Mailbox.step .start calls = some last) :
    last.pending.length ≤ maxMsgQueue - 1 ∧
    (∀ index message, last.pending[index]? = some message →
      (last.queue.msgQueue ((last.queue.read + index) % maxMsgQueue)).take message.bytes.length =
        message.bytes) ∧
    (∀ message nowait, last.pending.length < maxMsgQueue - 1 →
      ∃ next, last.step (.msgsnd message nowait) = some next ∧
        next.pending = last.pending ++ [message] ∧ next.receipts = last.receipts) ∧
    (∀ message nowait next, last.pending.length = maxMsgQueue - 1 →
      last.step (.msgsnd message nowait) = some next → next = last) ∧
    (∀ nowait, last.step (.msgrcv 0 nowait) = some last) ∧
    (∀ msgsz nowait next, last.pending = [] →
      last.step (.msgrcv msgsz nowait) = some next → next = last) ∧
    (∀ msgsz nowait message rest, msgsz ≠ 0 → last.pending = message :: rest →
      ∃ next result bytes, last.step (.msgrcv msgsz nowait) = some next ∧ next.pending = rest ∧
        next.receipts = last.receipts ++ [⟨message, msgsz, result, bytes⟩]) ∧
    ((∀ count middle, Transition.run Mailbox.step .start (calls.take count) = some middle →
        middle.AllExact) ↔
      Transition.Guarded Mailbox.step Mailbox.Sized .start calls) := by
  have kept : last.Kept := Transition.run_invariant Mailbox.step
    (fun _ _ _ before stepped => (Mailbox.Kept.step before stepped).1) Mailbox.kept_start ran
  refine ⟨Nat.le_pred_of_lt kept.count, kept.held, ?_, ?_, Mailbox.Kept.receive_none last, ?_, ?_,
    ?_⟩
  · intro message nowait room
    obtain ⟨next, sent, pending, receipts, -⟩ := kept.send_room message nowait (by omega)
    exact ⟨next, sent, pending, receipts⟩
  · intro message nowait next full stepped
    exact kept.send_full (by omega) stepped
  · intro msgsz nowait next empty stepped
    exact kept.receive_nil empty stepped
  · intro msgsz nowait message rest positive pending
    obtain ⟨next, received, -, left, receipts⟩ := kept.receive_cons nowait pending positive
    exact ⟨next, _, _, received, left, receipts⟩
  · refine Iff.symm (@Transition.guarded_iff_of_visible _ _ Mailbox.step Mailbox.Sized
      (fun mailbox => mailbox.Kept ∧ mailbox.AllExact) Mailbox.AllExact ?_ ?_ ?_ _ last calls
      ⟨Mailbox.kept_start, by simp [Mailbox.AllExact, Mailbox.start]⟩ ran)
    · intro mailbox call next before stepped
      exact before.1.step_iff before.2 stepped
    · intro mailbox call next before sized stepped
      exact ⟨(before.1.step stepped).1, (before.1.step_iff before.2 stepped).mp sized⟩
    · exact fun mailbox before => before.2

theorem msg_queue_exact_iff_sized_mixed :
    ∃ mailbox, Transition.run Mailbox.step .start
        [.msgsnd (.packet 5 [1, 2, 3] (by decide)) false, .msgsnd (.unconnected 5) false,
          .msgrcv 1472 false, .msgrcv 4 true, .msgrcv 1472 true] = some mailbox ∧
      mailbox.receipts.map Receipt.result = [11, 4] ∧ mailbox.AllExact := by
  have view : (Transition.run Mailbox.step .start
      [.msgsnd (.packet 5 [1, 2, 3] (by decide)) false, .msgsnd (.unconnected 5) false,
        .msgrcv 1472 false, .msgrcv 4 true, .msgrcv 1472 true]).map
          (fun mailbox => mailbox.receipts.map Receipt.result) = some [11, 4] := by
    decide +kernel
  obtain ⟨mailbox, ran, results⟩ := Option.map_eq_some_iff.mp view
  refine ⟨mailbox, ran, results, ?_⟩
  exact (msg_queue_exact_iff_sized ran).2.2.2.2.2.2.2.mpr (by decide +kernel) 5 mailbox ran

/-- The end of a connection is received with the buffer of a packet: eight bytes
are returned where four were sent. -/
theorem unconnected_message_grows :
    ∃ mailbox, Transition.run Mailbox.step .start
        [.msgsnd (.unconnected 5) false, .msgrcv 1472 false] = some mailbox ∧
      mailbox.receipts.map Receipt.result = [8] ∧ (Message.unconnected 5).msgsz = 4 ∧
      ¬ mailbox.AllExact := by
  have view : (Transition.run Mailbox.step .start
      [.msgsnd (.unconnected 5) false, .msgrcv 1472 false]).map (fun mailbox =>
        mailbox.receipts.map fun receipt => (receipt.message, receipt.msgsz, receipt.result)) =
      some [(.unconnected 5, 1472, 8)] := by
    decide +kernel
  obtain ⟨mailbox, ran, seen⟩ := Option.map_eq_some_iff.mp view
  obtain ⟨receipt, receipts, fields⟩ := List.map_eq_singleton_iff.mp seen
  obtain ⟨isMessage, rest⟩ := Prod.mk.inj fields
  obtain ⟨isSize, isResult⟩ := Prod.mk.inj rest
  refine ⟨mailbox, ran, by rw [receipts]; simp [isResult], rfl, fun all => ?_⟩
  have exact := all receipt (by simp [receipts])
  rw [Receipt.Exact, isMessage, isSize, isResult] at exact
  exact absurd (exact (by decide)).1 (by decide)

end UtilsModules.Udp

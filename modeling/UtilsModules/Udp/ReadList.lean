import Mathlib.Data.List.Nodup
import UtilsModules.Library.Transition
import UtilsModules.Udp.Effects

/-!
How the receiving thread wakes the thread that fills the message queue.

`thread_recv` puts a link on the list of readable links and posts `semRecvToMsg`;
`thread_RecvToMsg` hands over the packets of the first link of the list and takes it off.
The statements of the two threads come in any order.  The messages are those of connected
links, `USER_DATA` and `SEQ_CHECK`; no link is reset by a `LINK_SYN` or `LINK_SYN_ACK` and
none is deleted meanwhile.  `list_empty` asks whether a node is on the list, and
`list_erase` takes it off, as `del_listRead` relies on.
-/

namespace UtilsModules.Udp

/-- What `UserDataRecv` asks of the number of a packet. -/
def Link.Expects (pslink : Link) (pa : PacketAll) : Prop :=
  ¬ pslink.linkState < 2 ∧
    (CmpSeq pa.head.seq pslink.seqRead ∨ pa.head.seq = pslink.seqRead)

instance (pslink : Link) (pa : PacketAll) : Decidable (pslink.Expects pa) :=
  inferInstanceAs (Decidable (_ ∧ _))

/-- What `SeqCheckAck` asks before it takes over the numbers. -/
def Link.TakesCheck (pslink : Link) (pa : PacketAll) : Prop :=
  ¬ pslink.linkState < 2 ∧ (pslink.seqRead = pa.head.seq ∨
    CmpSeqOrder pa.head.seqCheck pslink.seqRead pa.head.seq)

instance (pslink : Link) (pa : PacketAll) : Decidable (pslink.TakesCheck pa) :=
  inferInstanceAs (Decidable (_ ∧ _))

def Link.store (pslink : Link) (pa : PacketAll) : Link :=
  { pslink with paArrayRecv := Function.update pslink.paArrayRecv (slotOf pa.head.seq) pa }

/-- `paArrayRecv[SeqRead % MAX_PACKET_NUMBER]`. -/
def Link.pending (pslink : Link) : PacketAll := pslink.paArrayRecv (slotOf pslink.seqRead)

def Link.clearPending (pslink : Link) : Link :=
  { pslink with
    paArrayRecv := Function.update pslink.paArrayRecv (slotOf pslink.seqRead)
      { pslink.pending with len := 0 } }

def Link.countRead (pslink : Link) : Link :=
  { pslink with seqRead := (pslink.seqRead + 1) % maxPacketSeq }

inductive RecvPlace where
  | idle
  /-- In `UserDataRecv`: before the slot is looked at, the store and the comparison. -/
  | checking (id : Nat) (pa : PacketAll)
  | storing (id : Nat) (pa : PacketAll)
  | comparing (id seq : Nat)
  | adding (id : Nat)
  deriving DecidableEq, Repr

/-- The link of a packet that `UserDataRecv` has in hand. -/
def RecvPlace.carries? : RecvPlace → Option Nat
  | checking id _ | storing id _ => some id
  | _ => none

inductive MsgPlace where
  | waiting
  | choosing
  /-- At the condition of the loop of `SendToMsgQueue`. -/
  | sending (id : Nat)
  /-- In the loop: before `msg.len`, `memcpy`, `msgsnd`, `len = 0` and `SeqRead + 1`. -/
  | found (id : Nat)
  | measured (id len : Nat)
  | copied (id : Nat) (message : List UInt8)
  | sent (id : Nat)
  | cleared (id : Nat)
  /-- Behind the loop and before `del_listRead`. -/
  | deleting (id : Nat)
  | reporting (id : Nat)
  deriving DecidableEq, Repr

namespace MsgPlace

/-- The link whose packets are handed over and that is still on the list. -/
def worksOn? : MsgPlace → Option Nat
  | sending id | found id | measured id _ | copied id _ | sent id | cleared id | deleting id =>
      some id
  | _ => none

def holds? : MsgPlace → Option Nat
  | found id | measured id _ | copied id _ | sent id | cleared id => some id
  | _ => none

/-- The link of a packet in work whose slot has not been cleared. -/
def reads? : MsgPlace → Option Nat
  | found id | measured id _ | copied id _ | sent id => some id
  | _ => none

def hands? : MsgPlace → Option Nat
  | copied id _ => some id
  | _ => none

theorem worksOn_of_holds {place : MsgPlace} {id : Nat} (held : place.holds? = some id) :
    place.worksOn? = some id := by
  cases place <;> first | exact held | cases held

theorem holds_of_reads {place : MsgPlace} {id : Nat} (read : place.reads? = some id) :
    place.holds? = some id := by
  cases place <;> first | exact read | cases read

end MsgPlace

/-- The links of a socket in queue mode, the list of readable ones with its semaphore, the
two threads and the messages handed over. -/
structure ReadList where
  links : Nat → Link
  listIDMsgRead : List Nat
  semRecvToMsg : Nat
  receiver : RecvPlace
  sender : MsgPlace
  queue : List (Nat × List UInt8)

inductive ReadStep where
  | userData (id : Nat) (pa : PacketAll)
  | seqCheck (id : Nat) (pa : PacketAll)
  | receive
  /-- The next statement of `thread_RecvToMsg`; `msgsndOk` is the answer of `msgsnd`. -/
  | send (now : Timeval) (msgsndOk : Bool)

namespace ReadList

def start (links : Nat → Link) : ReadList := ⟨links, [], 0, .idle, .waiting, []⟩

def setLink (state : ReadList) (id : Nat) (pslink : Link) : ReadList :=
  { state with links := Function.update state.links id pslink }

def addListRead (state : ReadList) (id : Nat) : ReadList :=
  if id ∈ state.listIDMsgRead then
    state
  else
    { state with
      listIDMsgRead := state.listIDMsgRead ++ [id]
      semRecvToMsg := state.semRecvToMsg + 1 }

def delListRead (state : ReadList) (id : Nat) : ReadList :=
  { state with listIDMsgRead := state.listIDMsgRead.erase id }

/-- The link has a packet to be handed over. -/
def Ready (state : ReadList) (id : Nat) : Prop :=
  (state.links id).Readable (state.links id).seqRead

instance (state : ReadList) (id : Nat) : Decidable (state.Ready id) :=
  inferInstanceAs (Decidable (Link.Readable _ _))

def userData (state : ReadList) (id : Nat) (pa : PacketAll) : ReadList :=
  { state with receiver := if (state.links id).Expects pa then .checking id pa else .idle }

def seqCheck (state : ReadList) (id : Nat) (pa : PacketAll) : Option ReadList :=
  (seqCheckAck (state.links id) pa).map fun answered =>
    { state.setLink id answered.1 with
      receiver := if (state.links id).TakesCheck pa then .adding id else .idle }

def receive (state : ReadList) : Option ReadList :=
  match state.receiver with
  | .idle => none
  | .checking id pa =>
      some { state with
        receiver := if (state.links id).Readable pa.head.seq then .idle else .storing id pa }
  | .storing id pa =>
      some { state.setLink id ((state.links id).store pa) with
        receiver := .comparing id pa.head.seq }
  | .comparing id seq =>
      some { state with
        receiver := if seq = (state.links id).seqRead then .adding id else .idle }
  | .adding id => some { state.addListRead id with receiver := .idle }

/-- The next statement of `thread_RecvToMsg`; `none` while the semaphore is 0.  A packet
that is too long ends the call of `SendToMsgQueue`. -/
def send (state : ReadList) (now : Timeval) (msgsndOk : Bool) : Option ReadList :=
  match state.sender with
  | .waiting =>
      if state.semRecvToMsg = 0 then none
      else some { state with semRecvToMsg := state.semRecvToMsg - 1, sender := .choosing }
  | .choosing =>
      match state.listIDMsgRead with
      | [] => some { state with sender := .waiting }
      | id :: _ => some { state with sender := .sending id }
  | .sending id =>
      some { state with sender := if state.Ready id then .found id else .deleting id }
  | .found id =>
      let len := (state.links id).pending.len - lenPacketHead
      some { state with
        sender := if len > maxPacketDataSize then .choosing else .measured id len }
  | .measured id len =>
      some { state with sender := .copied id ((state.links id).pending.buf.take len) }
  | .copied id message =>
      if msgsndOk then some { state with queue := state.queue ++ [(id, message)], sender := .sent id }
      else some { state with sender := .deleting id }
  | .sent id => some { state.setLink id (state.links id).clearPending with sender := .cleared id }
  | .cleared id => some { state.setLink id (state.links id).countRead with sender := .sending id }
  | .deleting id => some { state.delListRead id with sender := .reporting id }
  | .reporting id =>
      (seqReport (state.links id) now).map fun reported =>
        { state.setLink id reported.1 with sender := .choosing }

def step (state : ReadList) : ReadStep → Option ReadList
  | .userData id pa => if state.receiver = .idle then some (state.userData id pa) else none
  | .seqCheck id pa => if state.receiver = .idle then state.seqCheck id pa else none
  | .receive => state.receive
  | .send now msgsndOk => state.send now msgsndOk

def Idle (state : ReadList) : Prop :=
  state.receiver = .idle ∧ state.sender = .waiting ∧ state.semRecvToMsg = 0

instance (state : ReadList) : Decidable state.Idle := inferInstanceAs (Decidable (_ ∧ _ ∧ _))

/-- `add_listRead` does not come between the loop of `SendToMsgQueue` and its
`del_listRead`, and `msgsnd` takes the packets of the link. -/
def Undisturbed (id : Nat) (state : ReadList) : ReadStep → Prop
  | .receive => ¬ (state.receiver = .adding id ∧ state.sender = .deleting id)
  | .send _ msgsndOk => state.sender.hands? = some id → msgsndOk = true
  | _ => True

instance (id : Nat) : DecidableRel (Undisturbed id) := fun state label =>
  match label with
  | .userData .. | .seqCheck .. => isTrue trivial
  | .receive => inferInstanceAs (Decidable (¬ _))
  | .send _ msgsndOk =>
      inferInstanceAs (Decidable (state.sender.hands? = some id → msgsndOk = true))

/-- The list, its semaphore and the thread that works it off. -/
structure Sane (state : ReadList) : Prop where
  nodup : state.listIDMsgRead.Nodup
  listed : ∀ id, state.sender.worksOn? = some id → id ∈ state.listIDMsgRead
  woken : state.listIDMsgRead ≠ [] → state.sender ≠ .waiting ∨ 0 < state.semRecvToMsg

/-- The link is on the list and stays there until it has been looked at, or the receiving
thread is about to put it there. -/
def Noticed (state : ReadList) (id : Nat) : Prop :=
  id ∈ state.listIDMsgRead ∧ state.sender ≠ .deleting id ∨ state.receiver = .adding id ∨
    state.receiver = .comparing id (state.links id).seqRead

variable {state next : ReadList} {id other : Nat} {pslink : Link} {pa : PacketAll}

theorem setLink_self (state : ReadList) (id : Nat) (pslink : Link) :
    (state.setLink id pslink).links id = pslink := Function.update_self ..

theorem setLink_other (state : ReadList) (pslink : Link) (different : id ≠ other) :
    (state.setLink other pslink).links id = state.links id := Function.update_of_ne different ..

/-- Storing a link that has the old one's packets and its next number. -/
theorem setLink_keeps (slots : pslink.paArrayRecv = (state.links other).paArrayRecv)
    (seqRead : pslink.seqRead = (state.links other).seqRead) (id : Nat) :
    ((state.setLink other pslink).links id).paArrayRecv = (state.links id).paArrayRecv ∧
      ((state.setLink other pslink).links id).seqRead = (state.links id).seqRead := by
  by_cases same : id = other
  · subst same
    rw [setLink_self]
    exact ⟨slots, seqRead⟩
  · rw [setLink_other state pslink same]
    exact ⟨rfl, rfl⟩

theorem seqCheck_keeps (stepped : state.seqCheck other pa = some next) (id : Nat) :
    (next.links id).paArrayRecv = (state.links id).paArrayRecv ∧
      (next.links id).seqRead = (state.links id).seqRead ∧
      next.listIDMsgRead = state.listIDMsgRead ∧ next.sender = state.sender ∧
      next.queue = state.queue ∧ (next.receiver = .adding other ∨ next.receiver = .idle) := by
  obtain ⟨⟨answered, sent⟩, ran, rfl⟩ := Option.map_eq_some_iff.mp stepped
  obtain ⟨⟨seq, same, -⟩, -⟩ := seqCheckAck_effect ran
  obtain ⟨slots, seqRead⟩ := @setLink_keeps state other answered (by rw [same]) (by rw [same]) id
  exact ⟨slots, seqRead, rfl, rfl, rfl, ite_eq_or_eq ..⟩

/-- What a statement of `thread_RecvToMsg` can do. -/
inductive Sends (state : ReadList) (msgsndOk : Bool) : ReadList → Prop where
  | wakes : state.sender = .waiting → Sends state msgsndOk
      { state with semRecvToMsg := state.semRecvToMsg - 1, sender := .choosing }
  | rests : state.sender = .choosing → state.listIDMsgRead = [] →
      Sends state msgsndOk { state with sender := .waiting }
  | chooses (id : Nat) (rest : List Nat) : state.sender = .choosing →
      state.listIDMsgRead = id :: rest → Sends state msgsndOk { state with sender := .sending id }
  | finds (id : Nat) : state.sender = .sending id → state.Ready id →
      Sends state msgsndOk { state with sender := .found id }
  | ends (id : Nat) : state.sender = .sending id → ¬ state.Ready id →
      Sends state msgsndOk { state with sender := .deleting id }
  | refuses (id : Nat) : state.sender = .found id →
      Sends state msgsndOk { state with sender := .choosing }
  | measures (id : Nat) : state.sender = .found id → Sends state msgsndOk
      { state with sender := .measured id ((state.links id).pending.len - lenPacketHead) }
  | copies (id len : Nat) : state.sender = .measured id len → Sends state msgsndOk
      { state with sender := .copied id ((state.links id).pending.buf.take len) }
  | hands (id : Nat) (message : List UInt8) : state.sender = .copied id message →
      Sends state msgsndOk
        { state with queue := state.queue ++ [(id, message)], sender := .sent id }
  | fails (id : Nat) (message : List UInt8) : state.sender = .copied id message →
      msgsndOk = false → Sends state msgsndOk { state with sender := .deleting id }
  | clears (id : Nat) : state.sender = .sent id → Sends state msgsndOk
      { state.setLink id (state.links id).clearPending with sender := .cleared id }
  | counts (id : Nat) : state.sender = .cleared id → Sends state msgsndOk
      { state.setLink id (state.links id).countRead with sender := .sending id }
  | deletes (id : Nat) : state.sender = .deleting id →
      Sends state msgsndOk { state.delListRead id with sender := .reporting id }
  | reports (id : Nat) (pslink : Link) : state.sender = .reporting id →
      pslink.paArrayRecv = (state.links id).paArrayRecv →
      pslink.seqRead = (state.links id).seqRead →
      Sends state msgsndOk { state.setLink id pslink with sender := .choosing }

theorem sends_of_send {now : Timeval} {msgsndOk : Bool}
    (stepped : state.send now msgsndOk = some next) : state.Sends msgsndOk next := by
  unfold send at stepped
  split at stepped
  case h_1 here =>
    split at stepped
    · cases stepped
    · obtain rfl := Option.some.inj stepped
      exact .wakes here
  case h_2 here =>
    split at stepped
    · next empty =>
      obtain rfl := Option.some.inj stepped
      exact .rests here empty
    · next id rest first =>
      obtain rfl := Option.some.inj stepped
      exact .chooses id rest here first
  case h_3 id here =>
    obtain rfl := Option.some.inj stepped
    split
    · next ready => exact .finds id here ready
    · next unread => exact .ends id here unread
  case h_4 id here =>
    obtain rfl := Option.some.inj stepped
    split
    · exact .refuses id here
    · exact .measures id here
  case h_5 id len here =>
    obtain rfl := Option.some.inj stepped
    exact .copies id len here
  case h_6 id message here =>
    split at stepped
    · obtain rfl := Option.some.inj stepped
      exact .hands id message here
    · next refused =>
      obtain rfl := Option.some.inj stepped
      exact .fails id message here (Bool.not_eq_true _ ▸ refused)
  case h_7 id here =>
    obtain rfl := Option.some.inj stepped
    exact .clears id here
  case h_8 id here =>
    obtain rfl := Option.some.inj stepped
    exact .counts id here
  case h_9 id here =>
    obtain rfl := Option.some.inj stepped
    exact .deletes id here
  case h_10 id here =>
    obtain ⟨⟨reported, sent⟩, ran, rfl⟩ := Option.map_eq_some_iff.mp stepped
    obtain ⟨⟨time, same⟩, -⟩ := seqReport_effect ran
    exact .reports id reported here (by rw [same]) (by rw [same])

/-! ## What the handlers do to the packet that is next -/

theorem userDataRecv_eq (pslink : Link) (pa : PacketAll) : userDataRecv pslink pa =
    if pslink.Expects pa ∧ ¬ pslink.Readable pa.head.seq then pslink.store pa else pslink := by
  split
  · next stores =>
    rw [userDataRecv, if_neg stores.1.1, if_pos stores.1.2, if_pos stores.2, Link.store]
  · next ignores =>
    rcases userDataRecv_cases pslink pa with same | ⟨connected, near, unread, -⟩
    · exact same
    · exact absurd ⟨⟨connected, near⟩, unread⟩ ignores

theorem store_self (pslink : Link) (pa : PacketAll) :
    (pslink.store pa).paArrayRecv (slotOf pa.head.seq) = pa := Function.update_self ..

theorem store_other (pslink : Link) {slot : Fin maxPacketNumber}
    (different : slot ≠ slotOf pa.head.seq) :
    (pslink.store pa).paArrayRecv slot = pslink.paArrayRecv slot :=
  Function.update_of_ne different ..

theorem readable_store (ready : (pslink.store pa).Readable pslink.seqRead) :
    pslink.Readable pslink.seqRead ∨ pa.head.seq = pslink.seqRead := by
  obtain ⟨number, filled⟩ := ready
  by_cases slot : slotOf pslink.seqRead = slotOf pa.head.seq
  · rw [slot, store_self] at number
    exact .inr number
  · rw [store_other pslink slot] at number filled
    exact .inl ⟨number, filled⟩

theorem ready_congr (slots : (next.links id).paArrayRecv = (state.links id).paArrayRecv)
    (seqRead : (next.links id).seqRead = (state.links id).seqRead) :
    next.Ready id ↔ state.Ready id := by
  simp only [Ready, Link.Readable, slots, seqRead]

/-- Without interruption the statements are `UserDataRecv`. -/
theorem receive_alone (idle : state.receiver = .idle) (expects : (state.links id).Expects pa)
    (unread : ¬ (state.links id).Readable pa.head.seq) :
    Transition.run ReadList.step state [.userData id pa, .receive, .receive] =
      some { state.setLink id (userDataRecv (state.links id) pa) with
        receiver := .comparing id pa.head.seq } := by
  have tested : state.step (.userData id pa) = some { state with receiver := .checking id pa } := by
    rw [ReadList.step, if_pos idle, userData, if_pos expects]
  have checked : ReadList.step { state with receiver := .checking id pa } .receive =
      some { state with receiver := .storing id pa } := by
    simp only [ReadList.step, receive, if_neg unread]
  rw [Transition.run_cons, tested, Option.bind_some, Transition.run_cons, checked,
    Option.bind_some, Transition.run_cons, userDataRecv_eq, if_pos ⟨expects, unread⟩]
  rfl

/-- Without interruption a turn of the loop is one of `SendToMsgQueue`. -/
theorem turn_alone {now : Timeval} {sent : List Datagram} {message : List UInt8}
    (sending : state.sender = .sending id)
    (handed : sendToMsgQueue (state.links id) now true = some (pslink, sent, some message)) :
    Transition.run ReadList.step state (List.replicate 6 (.send now true)) =
      some { state.setLink id pslink with
        queue := state.queue ++ [(id, message)]
        sender := .sending id } := by
  unfold sendToMsgQueue at handed
  simp only at handed
  split at handed
  · cases handed
  · split at handed
    · next notLong ready =>
      obtain ⟨rfl, -, rfl⟩ : _ ∧ _ ∧ _ := by simpa using handed
      have fits : ¬ (state.links id).pending.len - lenPacketHead > maxPacketDataSize :=
        fun long => notLong ⟨ready.1, long⟩
      have isReady : state.Ready id := ready.1
      have found : state.step (.send now true) = some { state with sender := .found id } := by
        simp only [ReadList.step, send, sending, if_pos isReady]
      have measured : ReadList.step { state with sender := .found id } (.send now true) =
          some { state with
            sender := .measured id ((state.links id).pending.len - lenPacketHead) } := by
        simp only [ReadList.step, send, if_neg fits]
      simp only [List.replicate, Transition.run_cons, found, Option.bind_some, measured]
      simp only [ReadList.step, send, if_true, Option.bind_some, Transition.run_nil, setLink,
        Function.update_self, Function.update_idem]
      rfl
    · obtain ⟨reported, -, same⟩ := Option.map_eq_some_iff.mp handed
      cases same

/-! ## The list -/

theorem mem_addListRead (state : ReadList) (id : Nat) :
    id ∈ (state.addListRead id).listIDMsgRead := by
  unfold addListRead
  split
  case isTrue here => exact here
  case isFalse => exact List.mem_append_right _ (List.mem_singleton_self _)

theorem subset_addListRead (state : ReadList) (id : Nat) :
    state.listIDMsgRead ⊆ (state.addListRead id).listIDMsgRead := by
  unfold addListRead
  split
  case isTrue => exact List.Subset.refl _
  case isFalse => exact List.subset_append_left _ _

theorem addListRead_keeps (state : ReadList) (id : Nat) :
    (state.addListRead id).links = state.links ∧ (state.addListRead id).sender = state.sender := by
  unfold addListRead
  split <;> exact ⟨rfl, rfl⟩

theorem Sane.addListRead (sane : state.Sane) (id : Nat) : (state.addListRead id).Sane := by
  by_cases here : id ∈ state.listIDMsgRead
  · rwa [ReadList.addListRead, if_pos here]
  · rw [ReadList.addListRead, if_neg here]
    exact ⟨List.Nodup.append sane.nodup (List.nodup_singleton _)
        (List.disjoint_singleton.mpr here),
      fun other working => List.mem_append_left _ (sane.listed other working),
      fun _ => .inr (Nat.succ_pos _)⟩

theorem Sane.onward (sane : state.Sane) (working : state.sender.worksOn? = some id)
    (list : next.listIDMsgRead = state.listIDMsgRead)
    (place : next.sender.worksOn? = some id ∨ next.sender = .choosing) : next.Sane := by
  refine ⟨list ▸ sane.nodup, fun other onOther => ?_, fun _ => .inl ?_⟩
  · rw [list]
    rcases place with place | place
    · obtain rfl := Option.some.inj (place.symm.trans onOther)
      exact sane.listed id working
    · rw [place] at onOther
      cases onOther
  · rintro waits
    rw [waits] at place
    rcases place with place | place <;> cases place

theorem Sane.send (sane : state.Sane) {msgsndOk : Bool} (sends : state.Sends msgsndOk next) :
    next.Sane := by
  have onward {id : Nat} {place : MsgPlace} (here : state.sender = place)
      (working : place.worksOn? = some id) :=
    @sane.onward _ next _ ((congrArg MsgPlace.worksOn? here).trans working)
  cases sends with
  | wakes here => exact ⟨sane.nodup, nofun, fun _ => .inl nofun⟩
  | rests here empty => exact ⟨sane.nodup, nofun, fun some => absurd empty some⟩
  | chooses id rest here first =>
      refine ⟨sane.nodup, fun other working => ?_, fun _ => .inl nofun⟩
      obtain rfl := Option.some.inj working
      simp [first]
  | finds id here ready => exact onward here rfl rfl (.inl rfl)
  | ends id here unread => exact onward here rfl rfl (.inl rfl)
  | refuses id here => exact onward here rfl rfl (.inr rfl)
  | measures id here => exact onward here rfl rfl (.inl rfl)
  | copies id len here => exact onward here rfl rfl (.inl rfl)
  | hands id message here => exact onward here rfl rfl (.inl rfl)
  | fails id message here refused => exact onward here rfl rfl (.inl rfl)
  | clears id here => exact onward here rfl rfl (.inl rfl)
  | counts id here => exact onward here rfl rfl (.inl rfl)
  | deletes id here => exact ⟨sane.nodup.erase id, nofun, fun _ => .inl nofun⟩
  | reports id pslink here slots seqRead => exact ⟨sane.nodup, nofun, fun _ => .inl nofun⟩

theorem Sane.step (sane : state.Sane) {label : ReadStep} (stepped : state.step label = some next) :
    next.Sane := by
  cases label with
  | userData id pa =>
      rw [ReadList.step] at stepped
      split at stepped
      · obtain rfl := Option.some.inj stepped
        exact ⟨sane.nodup, sane.listed, sane.woken⟩
      · cases stepped
  | seqCheck id pa =>
      rw [ReadList.step] at stepped
      split at stepped
      · obtain ⟨answered, -, rfl⟩ := Option.map_eq_some_iff.mp stepped
        exact ⟨sane.nodup, sane.listed, sane.woken⟩
      · cases stepped
  | receive =>
      rw [ReadList.step, receive] at stepped
      split at stepped
      · cases stepped
      · obtain rfl := Option.some.inj stepped
        exact ⟨sane.nodup, sane.listed, sane.woken⟩
      · obtain rfl := Option.some.inj stepped
        exact ⟨sane.nodup, sane.listed, sane.woken⟩
      · obtain rfl := Option.some.inj stepped
        exact ⟨sane.nodup, sane.listed, sane.woken⟩
      · next id _ =>
        obtain rfl := Option.some.inj stepped
        have added := sane.addListRead id
        exact ⟨added.nodup, added.listed, added.woken⟩
  | send now msgsndOk => exact sane.send (sends_of_send stepped)

/-! ## The notice of one link -/

def Announced (state : ReadList) (id : Nat) : Prop := state.Ready id → state.Noticed id

theorem Announced.listed (announced : state.Announced id)
    (notAdding : state.receiver ≠ .adding id)
    (notComparing : state.receiver ≠ .comparing id (state.links id).seqRead)
    (ready : state.Ready id) : id ∈ state.listIDMsgRead ∧ state.sender ≠ .deleting id := by
  rcases announced ready with listed | adding | comparing
  · exact listed
  · exact absurd adding notAdding
  · exact absurd comparing notComparing

/-- A step that leaves the link, the list and the receiving thread as they are. -/
theorem Announced.congr (announced : state.Announced id)
    (slots : (next.links id).paArrayRecv = (state.links id).paArrayRecv)
    (seqRead : (next.links id).seqRead = (state.links id).seqRead)
    (list : id ∈ state.listIDMsgRead → state.sender ≠ .deleting id →
      id ∈ next.listIDMsgRead ∧ next.sender ≠ .deleting id)
    (receiver : next.receiver = state.receiver) : next.Announced id := by
  intro ready
  rcases announced ((ready_congr slots seqRead).mp ready) with ⟨here, kept⟩ | adding | comparing
  · exact .inl (list here kept)
  · exact .inr (.inl (receiver.trans adding))
  · exact .inr (.inr (by rw [receiver, comparing, seqRead]))

theorem Announced.userData (announced : state.Announced id) (idle : state.receiver = .idle)
    (other : Nat) (pa : PacketAll) : (state.userData other pa).Announced id :=
  fun ready => .inl (announced.listed (by simp [idle]) (by simp [idle]) ready)

theorem Announced.store (announced : state.Announced id) {other : Nat} {pa : PacketAll}
    (storing : state.receiver = .storing other pa) :
    Announced { state.setLink other ((state.links other).store pa) with
      receiver := .comparing other pa.head.seq } id := by
  have before := announced.listed (by simp [storing]) (by simp [storing])
  intro ready
  by_cases same : id = other
  · subst same
    have link := setLink_self state id ((state.links id).store pa)
    have seqRead : ((state.links id).store pa).seqRead = (state.links id).seqRead := rfl
    simp only [Ready, link, seqRead] at ready
    rcases readable_store ready with old | new
    · exact .inl (before old)
    · refine .inr (.inr ?_)
      simp only [link, seqRead, new]
  · have link := setLink_other state ((state.links other).store pa) same
    simp only [Ready, link] at ready
    exact .inl (before ready)

theorem Announced.seqCheck (announced : state.Announced id) (idle : state.receiver = .idle)
    (stepped : state.seqCheck other pa = some next) : next.Announced id := by
  obtain ⟨slots, seqRead, list, sender, -, -⟩ := seqCheck_keeps stepped id
  intro ready
  rw [Noticed, list, sender]
  exact .inl (announced.listed (by simp [idle]) (by simp [idle])
    ((ready_congr slots seqRead).mp ready))

theorem Announced.receive (announced : state.Announced id)
    (apart : ¬ (state.receiver = .adding id ∧ state.sender = .deleting id))
    (stepped : state.receive = some next) : next.Announced id := by
  unfold ReadList.receive at stepped
  split at stepped
  case h_1 => cases stepped
  case h_2 other pa checking =>
    obtain rfl := Option.some.inj stepped
    exact fun ready => .inl (announced.listed (by simp [checking]) (by simp [checking]) ready)
  case h_3 other pa storing =>
    obtain rfl := Option.some.inj stepped
    exact announced.store storing
  case h_4 other seq here =>
    obtain rfl := Option.some.inj stepped
    intro ready
    rcases announced ready with listed | adding | comparing
    · exact .inl listed
    · rw [here] at adding
      cases adding
    · rw [here] at comparing
      obtain ⟨rfl, rfl⟩ := RecvPlace.comparing.inj comparing
      exact .inr (.inl (if_pos rfl))
  case h_5 other here =>
    obtain rfl := Option.some.inj stepped
    obtain ⟨links, sender⟩ := state.addListRead_keeps other
    intro ready
    have before : state.Ready id := by
      simpa only [Ready, links] using ready
    refine .inl ⟨?_, ?_⟩
    · rcases announced before with listed | adding | comparing
      · exact state.subset_addListRead other listed.1
      · obtain rfl := RecvPlace.adding.inj (here.symm.trans adding)
        exact state.mem_addListRead other
      · rw [here] at comparing
        cases comparing
    · rw [show ({ state.addListRead other with receiver := .idle } : ReadList).sender =
        state.sender from sender]
      rcases announced before with listed | adding | comparing
      · exact listed.2
      · exact fun deleting => apart ⟨adding, deleting⟩
      · rw [here] at comparing
        cases comparing

/-- A thread that goes on with its link has not taken it off the list. -/
theorem Announced.onward (announced : state.Announced id) (sane : state.Sane) {other : Nat}
    (working : state.sender.worksOn? = some other)
    (list : next.listIDMsgRead = state.listIDMsgRead) (receiver : next.receiver = state.receiver)
    (links : ∀ id, id ≠ other → next.links id = state.links id)
    (place : next.sender ≠ .deleting id) : next.Announced id := by
  by_cases same : id = other
  · subst same
    exact fun _ => .inl ⟨list ▸ sane.listed id working, place⟩
  · exact announced.congr (by rw [links id same]) (by rw [links id same])
      (fun here _ => ⟨list ▸ here, place⟩) receiver

theorem Announced.leave (announced : state.Announced id) {other : Nat}
    (nothing : id = other → ¬ state.Ready id) :
    Announced { state with sender := .deleting other } id := by
  intro ready
  have different : id ≠ other := fun same => nothing same ready
  exact announced.congr rfl rfl (fun here _ => ⟨here, by simpa using Ne.symm different⟩) rfl ready

theorem Announced.send (announced : state.Announced id) (sane : state.Sane) {msgsndOk : Bool}
    (taken : state.sender.hands? = some id → msgsndOk = true)
    (sends : state.Sends msgsndOk next) : next.Announced id := by
  have onward {other : Nat} {place : MsgPlace} (here : state.sender = place)
      (working : place.worksOn? = some other) :=
    @announced.onward _ next _ sane other ((congrArg MsgPlace.worksOn? here).trans working)
  cases sends with
  | wakes here => exact announced.congr rfl rfl (fun here _ => ⟨here, nofun⟩) rfl
  | rests here empty => exact announced.congr rfl rfl (fun here _ => ⟨here, nofun⟩) rfl
  | chooses other rest here first =>
      exact announced.congr rfl rfl (fun here _ => ⟨here, nofun⟩) rfl
  | finds other here ready => exact onward here rfl rfl rfl (fun _ _ => rfl) nofun
  | ends other here unread => exact announced.leave fun same => same ▸ unread
  | refuses other here => exact onward here rfl rfl rfl (fun _ _ => rfl) nofun
  | measures other here => exact onward here rfl rfl rfl (fun _ _ => rfl) nofun
  | copies other len here => exact onward here rfl rfl rfl (fun _ _ => rfl) nofun
  | hands other message here => exact onward here rfl rfl rfl (fun _ _ => rfl) nofun
  | fails other message here refused =>
      refine announced.leave fun same _ => ?_
      have took := taken (by rw [here, same]; rfl)
      rw [refused] at took
      cases took
  | clears other here =>
      exact onward here rfl rfl rfl (fun _ different => setLink_other state _ different) nofun
  | counts other here =>
      exact onward here rfl rfl rfl (fun _ different => setLink_other state _ different) nofun
  | deletes other here =>
      refine announced.congr rfl rfl (fun listed kept => ⟨?_, nofun⟩) rfl
      rw [here] at kept
      exact (List.mem_erase_of_ne fun same => kept (congrArg _ same.symm)).mpr listed
  | reports other pslink here slots seqRead =>
      obtain ⟨slots, seqRead⟩ := setLink_keeps slots seqRead id
      exact announced.congr slots seqRead (fun here _ => ⟨here, nofun⟩) rfl

theorem Announced.step (announced : state.Announced id) (sane : state.Sane) {label : ReadStep}
    (undisturbed : Undisturbed id state label) (stepped : state.step label = some next) :
    next.Announced id := by
  cases label with
  | userData other pa =>
      rw [ReadList.step] at stepped
      split at stepped
      case isTrue idle =>
        obtain rfl := Option.some.inj stepped
        exact announced.userData idle other pa
      case isFalse => cases stepped
  | seqCheck other pa =>
      rw [ReadList.step] at stepped
      split at stepped
      case isTrue idle => exact announced.seqCheck idle stepped
      case isFalse => cases stepped
  | receive => exact announced.receive undisturbed stepped
  | send now msgsndOk => exact announced.send sane undisturbed (sends_of_send stepped)

def connected : Nat → Link := fun id => { addList id 0 0 .zero with linkState := 2 }

end ReadList

end UtilsModules.Udp

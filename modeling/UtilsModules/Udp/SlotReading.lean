import UtilsModules.Udp.ReadList

/-!
`SendToMsgQueue` reads a slot while `UserDataRecv` stores packets.

No slot is written while it is read: of the packets that `UserDataRecv` expects only the
one at `SeqRead` has the slot of `SeqRead`, and it is stored there only when nothing of
that number is to be read.
-/

namespace UtilsModules.Udp

open Circular

def Link.Near (pslink : Link) (seq : Nat) : Prop := CmpSeq seq pslink.seqRead ∨ seq = pslink.seqRead

namespace Link.Near

variable {pslink : Link} {seq : Nat}

theorem ahead_lt (near : pslink.Near seq) (bound : pslink.seqRead < maxPacketSeq)
    (seqBound : seq < maxPacketSeq) : ahead maxPacketSeq seq pslink.seqRead < maxPacketNumber := by
  rcases near with later | rfl
  · exact ((cmpSeq_iff_ahead seqBound bound).mp later).2
  · rw [ahead_self]
    decide

theorem slot (near : pslink.Near seq) (bound : pslink.seqRead < maxPacketSeq)
    (seqBound : seq < maxPacketSeq) (same : slotOf pslink.seqRead = slotOf seq) :
    pslink.seqRead = seq := by
  refine eq_of_slotOf_eq_of_ahead same bound seqBound bound ?_ (near.ahead_lt bound seqBound)
  rw [ahead_self]
  decide

theorem countRead (near : pslink.Near seq) (bound : pslink.seqRead < maxPacketSeq)
    (seqBound : seq < maxPacketSeq) (different : pslink.seqRead ≠ seq) :
    pslink.countRead.Near seq := by
  have later : CmpSeq seq pslink.seqRead := near.resolve_right (Ne.symm different)
  simp only [Link.Near, Link.countRead, CmpSeqIn, maxPacketNumber_eq, maxPacketSeq_eq] at *
  omega

end Link.Near

namespace ReadList

def handed (state : ReadList) (id : Nat) : List (List UInt8) :=
  (state.queue.filter (·.1 = id)).map Prod.snd

variable {state next : ReadList} {id other : Nat} {pa : PacketAll}

theorem handed_append_self (state : ReadList) (id : Nat) (message : List UInt8) :
    ({ state with queue := state.queue ++ [(id, message)] } : ReadList).handed id =
      state.handed id ++ [message] := by
  simp [handed]

theorem handed_append_other (state : ReadList) (message : List UInt8) (different : id ≠ other) :
    ({ state with queue := state.queue ++ [(other, message)] } : ReadList).handed id =
      state.handed id := by
  simp [handed, Ne.symm different]

inductive Turns (state : ReadList) (id : Nat) : ReadList → Prop where
  | finds : state.sender = .sending id → state.Ready id →
      Turns state id { state with sender := .found id }
  | measures : state.sender = .found id →
      Turns state id { state with
        sender := .measured id ((state.links id).pending.len - lenPacketHead) }
  | copies (len : Nat) : state.sender = .measured id len →
      Turns state id { state with
        sender := .copied id ((state.links id).pending.buf.take len) }
  | hands (message : List UInt8) : state.sender = .copied id message →
      Turns state id { state with queue := state.queue ++ [(id, message)], sender := .sent id }
  | clears : state.sender = .sent id →
      Turns state id
        { state.setLink id (state.links id).clearPending with sender := .cleared id }
  | counts : state.sender = .cleared id →
      Turns state id { state.setLink id (state.links id).countRead with sender := .sending id }
  | leaves (next : ReadList) : state.sender ≠ .sent id → state.sender ≠ .cleared id →
      next.sender.holds? = none → next.receiver = state.receiver → next.links = state.links →
      next.queue = state.queue → Turns state id next

theorem Sends.turns {msgsndOk : Bool} (sends : state.Sends msgsndOk next)
    (working : state.sender.worksOn? = some id) : state.Turns id next := by
  have same {other : Nat} {place : MsgPlace} (here : state.sender = place)
      (works : place.worksOn? = some other) : other = id := by
    rw [here, works] at working
    exact Option.some.inj working
  cases sends with
  | wakes here => simp [here, MsgPlace.worksOn?] at working
  | rests here empty => simp [here, MsgPlace.worksOn?] at working
  | chooses other rest here first => simp [here, MsgPlace.worksOn?] at working
  | reports other pslink here slots seqRead => simp [here, MsgPlace.worksOn?] at working
  | finds other here ready =>
      obtain rfl := same here rfl
      exact .finds here ready
  | ends other here unread => exact .leaves _ (by simp [here]) (by simp [here]) rfl rfl rfl rfl
  | refuses other here => exact .leaves _ (by simp [here]) (by simp [here]) rfl rfl rfl rfl
  | measures other here =>
      obtain rfl := same here rfl
      exact .measures here
  | copies other len here =>
      obtain rfl := same here rfl
      exact .copies len here
  | hands other message here =>
      obtain rfl := same here rfl
      exact .hands message here
  | fails other message here refused =>
      exact .leaves _ (by simp [here]) (by simp [here]) rfl rfl rfl rfl
  | clears other here =>
      obtain rfl := same here rfl
      exact .clears here
  | counts other here =>
      obtain rfl := same here rfl
      exact .counts here
  | deletes other here => exact .leaves _ (by simp [here]) (by simp [here]) rfl rfl rfl rfl

structure Aside (state : ReadList) (id : Nat) (next : ReadList) : Prop where
  before : state.sender.holds? ≠ some id
  after : next.sender.holds? ≠ some id
  receiver : next.receiver = state.receiver
  slots : (next.links id).paArrayRecv = (state.links id).paArrayRecv
  seqRead : (next.links id).seqRead = (state.links id).seqRead
  messages : next.handed id = state.handed id

theorem Sends.aside {msgsndOk : Bool} (sends : state.Sends msgsndOk next)
    (away : state.sender.worksOn? ≠ some id) : state.Aside id next := by
  have before : state.sender.holds? ≠ some id := fun held => away (MsgPlace.worksOn_of_holds held)
  have different {other : Nat} {place : MsgPlace} (here : state.sender = place)
      (works : place.worksOn? = some other) : id ≠ other := by
    rintro rfl
    exact away ((congrArg MsgPlace.worksOn? here).trans works)
  -- a packet in work is one of another link, before the statement and after it
  have elsewhere {other : Nat} {place : MsgPlace} (here : state.sender = place)
      (works : place.worksOn? = some other) (held : next.sender.holds? = some other) :
      next.sender.holds? ≠ some id := by
    rw [held]
    exact fun same => different here works (Option.some.inj same).symm
  cases sends with
  | wakes here => exact ⟨before, nofun, rfl, rfl, rfl, rfl⟩
  | rests here empty => exact ⟨before, nofun, rfl, rfl, rfl, rfl⟩
  | chooses other rest here first => exact ⟨before, nofun, rfl, rfl, rfl, rfl⟩
  | deletes other here => exact ⟨before, nofun, rfl, rfl, rfl, rfl⟩
  | ends other here unread => exact ⟨before, nofun, rfl, rfl, rfl, rfl⟩
  | refuses other here => exact ⟨before, nofun, rfl, rfl, rfl, rfl⟩
  | fails other message here refused => exact ⟨before, nofun, rfl, rfl, rfl, rfl⟩
  | reports other pslink here slots seqRead =>
      obtain ⟨slots, seqRead⟩ := setLink_keeps slots seqRead id
      exact ⟨before, nofun, rfl, slots, seqRead, rfl⟩
  | finds other here ready =>
      exact ⟨before, elsewhere here rfl rfl, rfl, rfl, rfl, rfl⟩
  | measures other here => exact ⟨before, elsewhere here rfl rfl, rfl, rfl, rfl, rfl⟩
  | copies other len here => exact ⟨before, elsewhere here rfl rfl, rfl, rfl, rfl, rfl⟩
  | hands other message here =>
      exact ⟨before, elsewhere here rfl rfl, rfl, rfl, rfl,
        state.handed_append_other message (different here rfl)⟩
  | clears other here =>
      have link := setLink_other state (state.links other).clearPending (different here rfl)
      exact ⟨before, elsewhere here rfl rfl, rfl, congrArg Link.paArrayRecv link,
        congrArg Link.seqRead link, rfl⟩
  | counts other here =>
      have link := setLink_other state (state.links other).countRead (different here rfl)
      exact ⟨before, nofun, rfl, congrArg Link.paArrayRecv link, congrArg Link.seqRead link, rfl⟩

/-- Nothing is to be read in the slot of the packet, and nothing with another number is in
work there. -/
def Free (state : ReadList) (id : Nat) (pa : PacketAll) : Prop :=
  ((state.links id).paArrayRecv (slotOf pa.head.seq)).len = 0 ∧
    (state.sender.holds? = some id → slotOf (state.links id).seqRead = slotOf pa.head.seq →
      (state.links id).seqRead = pa.head.seq)

structure Kept (id : Nat) (state : ReadList) : Prop where
  bound : (state.links id).seqRead < maxPacketSeq
  held : state.sender.holds? = some id →
    (state.links id).pending.head.seq = (state.links id).seqRead
  unread : state.sender.reads? = some id → (state.links id).pending.len ≠ 0
  checking : ∀ pa, state.receiver = .checking id pa → pa.head.seq < maxPacketSeq ∧
    ((state.links id).Near pa.head.seq ∨ state.Free id pa ∨
      ((state.links id).paArrayRecv (slotOf pa.head.seq)).head.seq = pa.head.seq)
  storing : ∀ pa, state.receiver = .storing id pa → pa.head.seq < maxPacketSeq ∧
    (state.Free id pa ∨ (state.links id).Near pa.head.seq ∧
      ((state.links id).paArrayRecv (slotOf pa.head.seq)).head.seq ≠ pa.head.seq)

theorem Kept.ready (kept : Kept id state) (reads : state.sender.reads? = some id) :
    state.Ready id :=
  ⟨kept.held (MsgPlace.holds_of_reads reads), kept.unread reads⟩

theorem free_congr (slots : (next.links id).paArrayRecv = (state.links id).paArrayRecv)
    (seqRead : (next.links id).seqRead = (state.links id).seqRead)
    (holds : next.sender.holds? = some id → state.sender.holds? = some id)
    (free : state.Free id pa) : next.Free id pa := by
  refine ⟨slots ▸ free.1, fun held same => ?_⟩
  rw [seqRead] at same ⊢
  exact free.2 (holds held) same

/-- A step that leaves the slots and both places as they are, or puts down what the sending
thread has in work. -/
theorem Kept.congr (kept : Kept id state)
    (slots : (next.links id).paArrayRecv = (state.links id).paArrayRecv)
    (seqRead : (next.links id).seqRead = (state.links id).seqRead)
    (holds : next.sender.holds? = some id → state.sender.holds? = some id)
    (reads : next.sender.reads? = some id → state.sender.reads? = some id)
    (receiver : next.receiver = state.receiver ∨ next.receiver.carries? ≠ some id) :
    Kept id next := by
  have pending : (next.links id).pending = (state.links id).pending := by
    rw [Link.pending, Link.pending, slots, seqRead]
  refine ⟨seqRead ▸ kept.bound, fun held => ?_, fun read => ?_, fun pa checks => ?_,
    fun pa stores => ?_⟩
  · rw [pending, seqRead]
    exact kept.held (holds held)
  · rw [pending]
    exact kept.unread (reads read)
  · rcases receiver with receiver | elsewhere
    · obtain ⟨bound, near | free | same⟩ := kept.checking pa (receiver ▸ checks)
      · exact ⟨bound, .inl (by rwa [Link.Near, seqRead])⟩
      · exact ⟨bound, .inr (.inl (free_congr slots seqRead holds free))⟩
      · exact ⟨bound, .inr (.inr (by rwa [slots]))⟩
    · exact absurd (checks ▸ rfl) elsewhere
  · rcases receiver with receiver | elsewhere
    · obtain ⟨bound, free | ⟨near, other⟩⟩ := kept.storing pa (receiver ▸ stores)
      · exact ⟨bound, .inl (free_congr slots seqRead holds free)⟩
      · exact ⟨bound, .inr ⟨by rwa [Link.Near, seqRead], by rwa [slots]⟩⟩
    · exact absurd (stores ▸ rfl) elsewhere

/-- A step of the receiving thread that has no packet of the link in hand afterwards. -/
theorem Kept.dropped (kept : Kept id state)
    (slots : (next.links id).paArrayRecv = (state.links id).paArrayRecv)
    (seqRead : (next.links id).seqRead = (state.links id).seqRead)
    (sender : next.sender = state.sender)
    (empty : next.receiver.carries? ≠ some id) : Kept id next :=
  kept.congr slots seqRead (fun held => sender ▸ held) (fun reads => sender ▸ reads) (.inr empty)

/-- The slot that a packet is stored in is not the one in work, unless that has been
cleared and is the one of the packet itself. -/
theorem Kept.apart (kept : Kept id state) (storing : state.receiver = .storing id pa)
    (holds : state.sender.holds? = some id)
    (same : slotOf (state.links id).seqRead = slotOf pa.head.seq) :
    (state.links id).seqRead = pa.head.seq ∧ state.sender.reads? ≠ some id := by
  obtain ⟨bound, ⟨empty, only⟩ | ⟨near, other⟩⟩ := kept.storing pa storing
  · refine ⟨only holds same, fun reads => kept.unread reads ?_⟩
    rw [Link.pending, same]
    exact empty
  · have number := near.slot kept.bound bound same
    refine absurd ?_ other
    rw [← number]
    exact kept.held holds

theorem Kept.check (kept : Kept id state) (checking : state.receiver = .checking id pa)
    (unread : ¬ (state.links id).Readable pa.head.seq) :
    Kept id { state with receiver := .storing id pa } := by
  obtain ⟨bound, rest⟩ := kept.checking pa checking
  refine ⟨kept.bound, kept.held, kept.unread, nofun, fun packet here => ?_⟩
  obtain rfl := (RecvPlace.storing.inj here).2
  refine ⟨bound, ?_⟩
  rcases rest with near | free | number
  · by_cases number : ((state.links id).paArrayRecv (slotOf pa.head.seq)).head.seq = pa.head.seq
    · refine .inl ⟨?_, fun _ same => near.slot kept.bound bound same⟩
      exact not_not.mp fun filled => unread ⟨number, filled⟩
    · exact .inr ⟨near, number⟩
  · exact .inl free
  · refine .inl ⟨not_not.mp fun filled => unread ⟨number, filled⟩, fun held same => ?_⟩
    rw [← kept.held held, Link.pending, same]
    exact number

theorem Kept.store (kept : Kept id state) (storing : state.receiver = .storing id pa) :
    Kept id { state.setLink id ((state.links id).store pa) with
      receiver := .comparing id pa.head.seq } := by
  have link := setLink_self state id ((state.links id).store pa)
  have seqRead : ((state.links id).store pa).seqRead = (state.links id).seqRead := rfl
  refine ⟨?_, fun held => ?_, fun reads => ?_, nofun, nofun⟩
  · rw [link, seqRead]
    exact kept.bound
  · rw [link, Link.pending, seqRead]
    by_cases same : slotOf (state.links id).seqRead = slotOf pa.head.seq
    · rw [same, store_self]
      exact (kept.apart storing held same).1.symm
    · rw [store_other _ same]
      exact kept.held held
  · rw [link, Link.pending, seqRead]
    have same : slotOf (state.links id).seqRead ≠ slotOf pa.head.seq := fun same =>
      (kept.apart storing (MsgPlace.holds_of_reads reads) same).2 reads
    rw [store_other _ same]
    exact kept.unread reads

theorem Kept.receive (kept : Kept id state) (stepped : state.receive = some next) :
    Kept id next := by
  unfold ReadList.receive at stepped
  split at stepped
  case h_1 => cases stepped
  case h_2 other pa checking =>
    obtain rfl := Option.some.inj stepped
    split
    · exact kept.dropped rfl rfl rfl (by simp [RecvPlace.carries?])
    · next unread =>
      by_cases same : other = id
      · subst same
        exact kept.check checking unread
      · exact kept.dropped rfl rfl rfl (by simpa [RecvPlace.carries?] using same)
  case h_3 other pa storing =>
    obtain rfl := Option.some.inj stepped
    by_cases same : id = other
    · subst same
      exact kept.store storing
    · have link := setLink_other state ((state.links other).store pa) same
      exact kept.dropped (congrArg Link.paArrayRecv link) (congrArg Link.seqRead link) rfl
        (by simp [RecvPlace.carries?])
  case h_4 other seq _ =>
    obtain rfl := Option.some.inj stepped
    refine kept.dropped rfl rfl rfl ?_
    simp only
    split <;> simp [RecvPlace.carries?]
  case h_5 other _ =>
    obtain rfl := Option.some.inj stepped
    obtain ⟨links, sender⟩ := state.addListRead_keeps other
    exact kept.dropped (congrArg (Link.paArrayRecv <| · id) links)
      (congrArg (Link.seqRead <| · id) links) sender (by simp [RecvPlace.carries?])

theorem Kept.find (kept : Kept id state)
    (ready : state.Ready id) : Kept id { state with sender := .found id } := by
  have other {pa : PacketAll} (free : state.Free id pa) :
      Free { state with sender := .found id } id pa := by
    refine ⟨free.1, fun _ same => absurd free.1 ?_⟩
    rw [← same]
    exact ready.2
  refine ⟨kept.bound, fun _ => ready.1, fun _ => ready.2, fun pa checks => ?_, fun pa stores => ?_⟩
  · obtain ⟨bound, near | free | same⟩ := kept.checking pa checks
    · exact ⟨bound, .inl near⟩
    · exact ⟨bound, .inr (.inl (other free))⟩
    · exact ⟨bound, .inr (.inr same)⟩
  · obtain ⟨bound, free | near⟩ := kept.storing pa stores
    · exact ⟨bound, .inl (other free)⟩
    · exact ⟨bound, .inr near⟩

theorem clearPending_slot (pslink : Link) (slot : Fin maxPacketNumber) :
    (pslink.clearPending.paArrayRecv slot).head = (pslink.paArrayRecv slot).head ∧
      ((pslink.paArrayRecv slot).len = 0 → (pslink.clearPending.paArrayRecv slot).len = 0) := by
  by_cases here : slot = slotOf pslink.seqRead
  · subst here
    simp [Link.clearPending, Link.pending]
  · simp [Link.clearPending, Function.update_of_ne here]

theorem Kept.clear (kept : Kept id state) (place : state.sender = .sent id) :
    Kept id { state.setLink id (state.links id).clearPending with sender := .cleared id } := by
  have held : state.sender.holds? = some id := place ▸ rfl
  have link := setLink_self state id (state.links id).clearPending
  have seqRead : (state.links id).clearPending.seqRead = (state.links id).seqRead := rfl
  have slots := clearPending_slot (state.links id)
  have other {pa : PacketAll} (free : state.Free id pa) :
      Free { state.setLink id (state.links id).clearPending with sender := .cleared id } id pa := by
    rw [Free, link, seqRead]
    exact ⟨(slots _).2 free.1, fun _ same => free.2 held same⟩
  refine ⟨?_, fun _ => ?_, nofun, fun pa checks => ?_, fun pa stores => ?_⟩
  · rw [link, seqRead]
    exact kept.bound
  · rw [link, Link.pending, seqRead, (slots _).1]
    exact kept.held held
  · obtain ⟨bound, near | free | same⟩ := kept.checking pa checks
    · exact ⟨bound, .inl (by rwa [link, Link.Near, seqRead])⟩
    · exact ⟨bound, .inr (.inl (other free))⟩
    · exact ⟨bound, .inr (.inr (by rwa [link, (slots _).1]))⟩
  · obtain ⟨bound, free | ⟨near, number⟩⟩ := kept.storing pa stores
    · exact ⟨bound, .inl (other free)⟩
    · exact ⟨bound, .inr ⟨by rwa [link, Link.Near, seqRead], by rwa [link, (slots _).1]⟩⟩

/-- `SeqRead` passes no packet that is about to be stored. -/
theorem Kept.count (kept : Kept id state) (place : state.sender = .cleared id) :
    Kept id { state.setLink id (state.links id).countRead with sender := .sending id } := by
  have held := kept.held (place ▸ rfl)
  have link := setLink_self state id (state.links id).countRead
  have other {pa : PacketAll} (free : state.Free id pa) :
      Free { state.setLink id (state.links id).countRead with sender := .sending id } id pa := by
    rw [Free, link]
    exact ⟨free.1, nofun⟩
  have passed {seq : Nat} (equal : (state.links id).seqRead = seq) :
      ((state.links id).paArrayRecv (slotOf seq)).head.seq = seq := by
    rw [← equal]
    exact held
  refine ⟨?_, nofun, nofun, fun pa checks => ?_, fun pa stores => ?_⟩
  · rw [link]
    exact mod_maxPacketSeq_lt _
  · obtain ⟨bound, near | free | same⟩ := kept.checking pa checks
    · refine ⟨bound, ?_⟩
      rw [link]
      by_cases equal : (state.links id).seqRead = pa.head.seq
      · exact .inr (.inr (passed equal))
      · exact .inl (near.countRead kept.bound bound equal)
    · exact ⟨bound, .inr (.inl (other free))⟩
    · exact ⟨bound, .inr (.inr (by rw [link]; exact same))⟩
  · obtain ⟨bound, free | ⟨near, number⟩⟩ := kept.storing pa stores
    · exact ⟨bound, .inl (other free)⟩
    · refine ⟨bound, .inr ?_⟩
      rw [link]
      exact ⟨near.countRead kept.bound bound fun equal => number (passed equal), number⟩

theorem Kept.turn (kept : Kept id state) (turns : state.Turns id next) : Kept id next := by
  cases turns with
  | finds _ ready => exact kept.find ready
  | measures place => exact kept.congr rfl rfl (fun _ => place ▸ rfl) (fun _ => place ▸ rfl) (.inl rfl)
  | copies len place =>
      exact kept.congr rfl rfl (fun _ => place ▸ rfl) (fun _ => place ▸ rfl) (.inl rfl)
  | hands message place =>
      exact kept.congr rfl rfl (fun _ => place ▸ rfl) (fun _ => place ▸ rfl) (.inl rfl)
  | clears place => exact kept.clear place
  | counts place => exact kept.count place
  | leaves _ _ _ nothing receiver links _ =>
      have holds (held : next.sender.holds? = some id) : False := by
        rw [nothing] at held
        cases held
      exact kept.congr (by rw [links]) (by rw [links]) (fun held => (holds held).elim)
        (fun reads => (holds (MsgPlace.holds_of_reads reads)).elim) (.inl receiver)

theorem Kept.userData (kept : Kept id state) (other : Nat)
    (bound : other = id → pa.head.seq < maxPacketSeq) : Kept id (state.userData other pa) := by
  unfold ReadList.userData
  split
  · next expects =>
    by_cases same : other = id
    · subst same
      refine ⟨kept.bound, kept.held, kept.unread, fun packet here => ?_, fun packet here => ?_⟩
      · obtain rfl := (RecvPlace.checking.inj here).2
        exact ⟨bound rfl, .inl expects.2⟩
      · cases here
    · exact kept.dropped rfl rfl rfl (by simpa [RecvPlace.carries?] using same)
  · exact kept.dropped rfl rfl rfl (by simp [RecvPlace.carries?])

theorem Kept.step (kept : Kept id state) {label : ReadStep}
    (bounded : ∀ other pa, label = .userData other pa → other = id → pa.head.seq < maxPacketSeq)
    (stepped : state.step label = some next) : Kept id next := by
  cases label with
  | userData other pa =>
      rw [ReadList.step] at stepped
      split at stepped
      · obtain rfl := Option.some.inj stepped
        exact kept.userData other (bounded other pa rfl)
      · cases stepped
  | seqCheck other pa =>
      rw [ReadList.step] at stepped
      split at stepped
      · obtain ⟨slots, seqRead, -, sender, -, receiver⟩ := seqCheck_keeps stepped id
        refine kept.dropped slots seqRead sender ?_
        rcases receiver with receiver | receiver
        · simp [receiver, RecvPlace.carries?]
        · simp [receiver, RecvPlace.carries?]
      · cases stepped
  | receive => exact kept.receive stepped
  | send now msgsndOk =>
      by_cases working : state.sender.worksOn? = some id
      · exact kept.turn ((sends_of_send stepped).turns working)
      · have aside := (sends_of_send stepped).aside working
        exact kept.congr aside.slots aside.seqRead (fun held => absurd held aside.after)
          (fun reads => absurd (MsgPlace.holds_of_reads reads) aside.after) (.inl aside.receiver)

end ReadList

end UtilsModules.Udp

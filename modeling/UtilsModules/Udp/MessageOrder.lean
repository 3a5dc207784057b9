import UtilsModules.Udp.SlotReading

/-!
What `thread_RecvToMsg` puts into the message queue while packets arrive.

The messages of a link carry consecutive numbers, whatever the receiving thread does
between the statements of `SendToMsgQueue`.
-/

namespace UtilsModules.Udp

def numberAfter (seqRead : Nat) : Nat → Nat
  | 0 => seqRead
  | count + 1 => (numberAfter seqRead count + 1) % maxPacketSeq

namespace ReadList

/-- The number that is handed over next.  `SeqRead` moves on after `msgsnd` only. -/
def nextNumber (state : ReadList) (id : Nat) : Nat :=
  if state.sender = .sent id ∨ state.sender = .cleared id then
    ((state.links id).seqRead + 1) % maxPacketSeq
  else (state.links id).seqRead

variable {initial : Link} {links : Nat → Link} {received : PacketAll → Prop}
  {state next : ReadList} {id other : Nat} {pa : PacketAll}

theorem queue_addListRead (state : ReadList) (id : Nat) :
    (state.addListRead id).queue = state.queue := by
  unfold addListRead
  split <;> rfl

/-- The messages of a link carry consecutive packets that were received for it. -/
structure InOrder (initial : Link) (received : PacketAll → Prop) (id : Nat) (state : ReadList) :
    Prop where
  arriving : ∀ pa, state.receiver = .checking id pa ∨ state.receiver = .storing id pa → received pa
  stored : ∀ slot, ((state.links id).paArrayRecv slot).len ≠ 0 →
    received ((state.links id).paArrayRecv slot)
  number : state.nextNumber id = numberAfter initial.seqRead (state.handed id).length
  packets : ∀ count message, (state.handed id)[count]? = some message →
    ∃ pa, received pa ∧ pa.head.seq = numberAfter initial.seqRead count ∧
      message = pa.buf.take (pa.len - lenPacketHead)
  measured : ∀ len, state.sender = .measured id len →
    len = (state.links id).pending.len - lenPacketHead
  copied : ∀ message, state.sender = .copied id message → ∃ pa, received pa ∧
    pa.head.seq = (state.links id).seqRead ∧ message = pa.buf.take (pa.len - lenPacketHead)

/-- A step that leaves the link, its messages and the sending thread as they are. -/
theorem InOrder.congr (inOrder : InOrder initial received id state)
    (arriving : ∀ pa, next.receiver = .checking id pa ∨ next.receiver = .storing id pa →
      received pa)
    (slots : (next.links id).paArrayRecv = (state.links id).paArrayRecv)
    (seqRead : (next.links id).seqRead = (state.links id).seqRead)
    (queue : next.queue = state.queue) (sender : next.sender = state.sender) :
    InOrder initial received id next := by
  have messages : next.handed id = state.handed id := by rw [handed, handed, queue]
  have number : next.nextNumber id = state.nextNumber id := by
    rw [nextNumber, nextNumber, sender, seqRead]
  have pending : (next.links id).pending = (state.links id).pending := by
    rw [Link.pending, Link.pending, slots, seqRead]
  refine ⟨arriving, fun slot => ?_, ?_, fun count message => ?_, fun len place => ?_,
    fun message place => ?_⟩
  · rw [slots]
    exact inOrder.stored slot
  · rw [number, messages]
    exact inOrder.number
  · rw [messages]
    exact inOrder.packets count message
  · rw [pending]
    exact inOrder.measured len (sender ▸ place)
  · rw [seqRead]
    exact inOrder.copied message (sender ▸ place)

theorem InOrder.idle (inOrder : InOrder initial received id state)
    (before : state.sender ≠ .sent id ∧ state.sender ≠ .cleared id)
    (after : next.sender.holds? ≠ some id) (receiver : next.receiver = state.receiver)
    (slots : (next.links id).paArrayRecv = (state.links id).paArrayRecv)
    (seqRead : (next.links id).seqRead = (state.links id).seqRead)
    (messages : next.handed id = state.handed id) : InOrder initial received id next := by
  have number : next.nextNumber id = state.nextNumber id := by
    have afterwards : ¬ (next.sender = .sent id ∨ next.sender = .cleared id) := by
      rintro (place | place)
      · exact after (place ▸ rfl)
      · exact after (place ▸ rfl)
    rw [nextNumber, nextNumber, if_neg afterwards, if_neg (not_or.mpr before), seqRead]
  refine ⟨receiver ▸ inOrder.arriving, fun slot => ?_, ?_, fun count message => ?_,
    fun len place => absurd (place ▸ rfl) after, fun message place => absurd (place ▸ rfl) after⟩
  · rw [slots]
    exact inOrder.stored slot
  · rw [number, messages]
    exact inOrder.number
  · rw [messages]
    exact inOrder.packets count message

/-- The packet of the link goes on to its next place before `msgsnd`. -/
theorem InOrder.moved (inOrder : InOrder initial received id state) {place : MsgPlace}
    (before : state.sender ≠ .sent id ∧ state.sender ≠ .cleared id)
    (after : place ≠ .sent id ∧ place ≠ .cleared id)
    (measured : ∀ len, place = .measured id len →
      len = (state.links id).pending.len - lenPacketHead)
    (copied : ∀ message, place = .copied id message → ∃ pa, received pa ∧
      pa.head.seq = (state.links id).seqRead ∧ message = pa.buf.take (pa.len - lenPacketHead)) :
    InOrder initial received id { state with sender := place } where
  arriving := inOrder.arriving
  stored := inOrder.stored
  number := by
    rw [nextNumber, if_neg (not_or.mpr after)]
    refine Eq.trans ?_ inOrder.number
    rw [nextNumber, if_neg (not_or.mpr before)]
  packets := inOrder.packets
  measured := measured
  copied := copied

theorem InOrder.hand (inOrder : InOrder initial received id state) {message : List UInt8}
    (place : state.sender = .copied id message) :
    InOrder initial received id
      { state with queue := state.queue ++ [(id, message)], sender := .sent id } := by
  obtain ⟨pa, arrived, seq, bytes⟩ := inOrder.copied message place
  have before : (state.links id).seqRead = numberAfter initial.seqRead (state.handed id).length := by
    rw [← inOrder.number, nextNumber, if_neg (by simp [place])]
  have messages : ({ state with queue := state.queue ++ [(id, message)], sender := .sent id } :
      ReadList).handed id = state.handed id ++ [message] := state.handed_append_self id message
  refine ⟨inOrder.arriving, inOrder.stored, ?_, fun count other there => ?_, nofun, nofun⟩
  · rw [messages, List.length_append, List.length_singleton, numberAfter, ← before, nextNumber]
    exact if_pos (.inl rfl)
  · rw [messages] at there
    rcases Nat.lt_or_ge count (state.handed id).length with early | late
    · rw [List.getElem?_append_left early] at there
      exact inOrder.packets count other there
    · obtain rfl : count = (state.handed id).length := by
        have := (List.getElem?_eq_some_iff.mp there).1
        rw [List.length_append, List.length_singleton] at this
        omega
      rw [List.getElem?_concat_length] at there
      exact ⟨pa, arrived, seq.trans before, (Option.some.inj there).symm.trans bytes⟩

theorem InOrder.clear (inOrder : InOrder initial received id state)
    (place : state.sender = .sent id) :
    InOrder initial received id
      { state.setLink id (state.links id).clearPending with sender := .cleared id } := by
  refine ⟨inOrder.arriving, fun slot unread => ?_, ?_, inOrder.packets, nofun, nofun⟩
  · simp only [setLink_self, Link.clearPending] at unread ⊢
    by_cases here : slot = slotOf (state.links id).seqRead
    · simp [here] at unread
    · rw [Function.update_of_ne here] at unread ⊢
      exact inOrder.stored slot unread
  · refine Eq.trans ?_ inOrder.number
    rw [nextNumber, nextNumber, if_pos (.inr rfl), if_pos (.inl place)]
    simp only [setLink_self, Link.clearPending]

theorem InOrder.count (inOrder : InOrder initial received id state)
    (place : state.sender = .cleared id) :
    InOrder initial received id
      { state.setLink id (state.links id).countRead with sender := .sending id } := by
  refine ⟨inOrder.arriving, fun slot unread => ?_, ?_, inOrder.packets, nofun, nofun⟩
  · simp only [setLink_self, Link.countRead] at unread ⊢
    exact inOrder.stored slot unread
  · refine Eq.trans ?_ inOrder.number
    rw [nextNumber, nextNumber, if_neg (by simp), if_pos (.inr place)]
    simp only [setLink_self, Link.countRead]

theorem InOrder.store (inOrder : InOrder initial received id state) (kept : Kept id state)
    (storing : state.receiver = .storing id pa) :
    InOrder initial received id { state.setLink id ((state.links id).store pa) with
      receiver := .comparing id pa.head.seq } := by
  have link := setLink_self state id ((state.links id).store pa)
  have seqRead : ((state.links id).store pa).seqRead = (state.links id).seqRead := rfl
  refine ⟨fun _ arrives => ?_, fun slot filled => ?_, ?_, inOrder.packets, fun len place => ?_,
    fun message place => ?_⟩
  · rcases arrives with arrives | arrives <;> cases arrives
  · rw [link] at filled ⊢
    by_cases here : slot = slotOf pa.head.seq
    · rw [here, store_self]
      exact inOrder.arriving pa (.inr storing)
    · rw [store_other _ here] at filled ⊢
      exact inOrder.stored slot filled
  · refine Eq.trans ?_ inOrder.number
    rw [nextNumber, nextNumber, link, seqRead]
    rfl
  · have reads : state.sender.reads? = some id := by
      rw [show state.sender = .measured id len from place]
      rfl
    have apart : slotOf (state.links id).seqRead ≠ slotOf pa.head.seq := fun same =>
      (kept.apart storing (MsgPlace.holds_of_reads reads) same).2 reads
    rw [link, Link.pending, seqRead, store_other _ apart]
    exact inOrder.measured len place
  · rw [link, seqRead]
    exact inOrder.copied message place

theorem InOrder.receive (inOrder : InOrder initial received id state) (kept : Kept id state)
    (stepped : state.receive = some next) : InOrder initial received id next := by
  have nothing {next : ReadList} (empty : next.receiver.carries? ≠ some id) :
      ∀ pa, next.receiver = .checking id pa ∨ next.receiver = .storing id pa → received pa := by
    rintro pa (here | here) <;> exact absurd (here ▸ rfl) empty
  unfold ReadList.receive at stepped
  split at stepped
  case h_1 => cases stepped
  case h_2 other pa checking =>
    obtain rfl := Option.some.inj stepped
    refine inOrder.congr (fun packet arrives => ?_) rfl rfl rfl rfl
    simp only at arrives
    split at arrives
    · rcases arrives with arrives | arrives <;> cases arrives
    · rcases arrives with arrives | arrives
      · cases arrives
      · cases arrives
        exact inOrder.arriving pa (.inl checking)
  case h_3 other pa storing =>
    obtain rfl := Option.some.inj stepped
    by_cases same : id = other
    · subst same
      exact inOrder.store kept storing
    · have link := setLink_other state ((state.links other).store pa) same
      exact inOrder.congr (nothing (by simp [RecvPlace.carries?]))
        (congrArg Link.paArrayRecv link) (congrArg Link.seqRead link) rfl rfl
  case h_4 other seq _ =>
    obtain rfl := Option.some.inj stepped
    refine inOrder.congr (nothing ?_) rfl rfl rfl rfl
    simp only
    split <;> simp [RecvPlace.carries?]
  case h_5 other _ =>
    obtain rfl := Option.some.inj stepped
    obtain ⟨links, sender⟩ := state.addListRead_keeps other
    exact inOrder.congr (nothing (by simp [RecvPlace.carries?]))
      (congrArg (Link.paArrayRecv <| · id) links) (congrArg (Link.seqRead <| · id) links)
      (state.queue_addListRead other) sender

theorem InOrder.turn (inOrder : InOrder initial received id state) (kept : Kept id state)
    (turns : state.Turns id next) : InOrder initial received id next := by
  cases turns with
  | finds place _ => exact inOrder.moved (by simp [place]) (by simp) nofun nofun
  | measures place =>
      refine inOrder.moved (by simp [place]) (by simp) (fun len here => ?_) nofun
      exact (MsgPlace.measured.inj here).2.symm
  | copies len place =>
      obtain ⟨seq, filled⟩ := kept.ready (place ▸ rfl)
      refine inOrder.moved (by simp [place]) (by simp) nofun fun message here => ?_
      refine ⟨(state.links id).pending, inOrder.stored _ filled, seq, ?_⟩
      rw [← inOrder.measured len place]
      exact (MsgPlace.copied.inj here).2.symm
  | hands message place => exact inOrder.hand place
  | clears place => exact inOrder.clear place
  | counts place => exact inOrder.count place
  | leaves _ notSent notCleared nothing receiver links queue =>
      refine inOrder.idle ⟨notSent, notCleared⟩ (by simp [nothing]) receiver (by rw [links])
        (by rw [links]) ?_
      rw [handed, handed, queue]

theorem InOrder.step (inOrder : InOrder initial received id state) (kept : Kept id state)
    {label : ReadStep} (arrived : ∀ pa, label = .userData id pa → received pa)
    (stepped : state.step label = some next) : InOrder initial received id next := by
  cases label with
  | userData other pa =>
      rw [ReadList.step] at stepped
      split at stepped
      · obtain rfl := Option.some.inj stepped
        refine inOrder.congr (fun packet arrives => ?_) rfl rfl rfl rfl
        unfold ReadList.userData at arrives
        simp only at arrives
        split at arrives
        · rcases arrives with arrives | arrives
          · cases arrives
            exact arrived pa rfl
          · cases arrives
        · rcases arrives with arrives | arrives <;> cases arrives
      · cases stepped
  | seqCheck other pa =>
      rw [ReadList.step] at stepped
      split at stepped
      · obtain ⟨slots, seqRead, -, sender, queue, receiver⟩ := seqCheck_keeps stepped id
        refine inOrder.congr (fun _ arrives => ?_) slots seqRead queue sender
        rcases receiver with receiver | receiver
        · simp [receiver] at arrives
        · simp [receiver] at arrives
      · cases stepped
  | receive => exact inOrder.receive kept stepped
  | send now msgsndOk =>
      by_cases working : state.sender.worksOn? = some id
      · exact inOrder.turn kept ((sends_of_send stepped).turns working)
      · have aside := (sends_of_send stepped).aside working
        have before : state.sender ≠ .sent id ∧ state.sender ≠ .cleared id :=
          ⟨fun place => aside.before (place ▸ rfl), fun place => aside.before (place ▸ rfl)⟩
        exact inOrder.idle before aside.after aside.receiver aside.slots aside.seqRead
          aside.messages

/-- The packets that come in for the link are ones that `thread_recv` lets pass. -/
def Admitted (id : Nat) : ReadStep → Prop
  | .userData other pa => other = id → RecvChecks pa
  | _ => True

instance (id : Nat) : DecidablePred (Admitted id)
  | .userData other pa => inferInstanceAs (Decidable (other = id → RecvChecks pa))
  | .seqCheck .. | .receive | .send .. => isTrue trivial

theorem InOrder.run (inOrder : InOrder initial received id state) (kept : Kept id state)
    {labels : List ReadStep} {last : ReadList}
    (arrived : ∀ pa, ReadStep.userData id pa ∈ labels → received pa)
    (admitted : ∀ label ∈ labels, Admitted id label)
    (ran : Transition.run ReadList.step state labels = some last) :
    InOrder initial received id last := by
  induction labels generalizing state with
  | nil =>
      obtain rfl := Option.some.inj ran
      exact inOrder
  | cons label rest inductionHypothesis =>
      rw [Transition.run_cons, Option.bind_eq_some_iff] at ran
      obtain ⟨next, stepped, ran⟩ := ran
      have here : ∀ pa, label = .userData id pa → received pa := by
        rintro pa rfl
        exact arrived pa List.mem_cons_self
      have bounded : ∀ other pa, label = .userData other pa → other = id →
          pa.head.seq < maxPacketSeq := by
        rintro other pa rfl same
        exact (admitted _ List.mem_cons_self same).seq_lt
      exact inductionHypothesis (inOrder.step kept here stepped) (kept.step bounded stepped)
        (fun pa later => arrived pa (List.mem_cons_of_mem _ later))
        (fun label later => admitted label (List.mem_cons_of_mem _ later)) ran

end ReadList

end UtilsModules.Udp

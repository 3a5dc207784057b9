import UtilsModules.Udp.Restart

/-!
The range of the four cursors under hostile input.

The receiving thread refuses a packet whose `seq` is out of range but never
looks at its `seqCheck`.  That field becomes `SeqRead` when a connection is made
or restarted, and it is an operand of the comparison in `SeqCheckAck`.
-/

namespace UtilsModules.Udp

namespace Link

/-- All four cursors are sequence numbers. -/
structure InRange (pslink : Link) : Prop where
  seqRead : pslink.seqRead < maxPacketSeq
  seqReadMax : pslink.seqReadMax < maxPacketSeq
  seqMaxSend : pslink.seqMaxSend < maxPacketSeq
  seqCheckSend : pslink.seqCheckSend < maxPacketSeq

/-- The numbers that the handler of a received packet compares or uses to find
a slot. -/
def operands (pslink : Link) (pa : PacketAll) : List Nat :=
  let half := recvHalfOpen pslink pa
  if half.linkState < 2 then
    []
  else
    match pa.head.type with
    | .userData => [pa.head.seq, half.seqRead]
    | .seqCheck =>
        if half.seqRead = pa.head.seq then [] else [pa.head.seqCheck, half.seqRead, pa.head.seq]
    | .seqReport => [half.seqCheckSend, pa.head.seq, half.seqMaxSend]
    | .seqLack => half.nextCheck :: half.seqMaxSend ::
        (Bytes.ushorts pa.buf).filter fun usp => maxPacketSeq > usp
    | _ => []

/-- The packet's `seqCheck` becomes `SeqRead` or is compared with it. -/
def UsesSeqCheck (pslink : Link) (pa : PacketAll) : Prop :=
  pslink.SetsRead pa ∨
    pa.head.type = .seqCheck ∧ ¬ (recvHalfOpen pslink pa).linkState < 2 ∧
      (recvHalfOpen pslink pa).seqRead ≠ pa.head.seq

instance (pslink : Link) (pa : PacketAll) : Decidable (pslink.UsesSeqCheck pa) :=
  inferInstanceAs (Decidable (_ ∨ _))

/-- A packet whose `seqCheck` is used has a valid one. -/
def SeqCheckValid (pslink : Link) (call : LinkCall) : Prop :=
  ∀ pa ∈ call.packet, pslink.UsesSeqCheck pa → pa.head.seqCheck < maxPacketSeq

instance (pslink : Link) (call : LinkCall) : Decidable (pslink.SeqCheckValid call) :=
  inferInstanceAs (Decidable (∀ pa ∈ call.packet, _))

/-- Handling the packet of a call applies the comparisons and the slot index to
sequence numbers only. -/
def ComparesValid (pslink : Link) (call : LinkCall) : Prop :=
  ∀ pa ∈ call.packet, ∀ number ∈ pslink.operands pa, number < maxPacketSeq

end Link

variable {pslink after : Link} {pa : PacketAll} {now : Timeval} {sent : List Datagram}

theorem inRange_addList (id socket : Nat) (tsWaitTime : Int) (created : Timeval) :
    (addList id socket tsWaitTime created).InRange :=
  ⟨(by decide : 1 < maxPacketSeq), (by decide : 0 < maxPacketSeq), (by decide : 1 < maxPacketSeq),
    (by decide : 0 < maxPacketSeq)⟩

theorem recvHalfOpen_inRange (range : pslink.InRange)
    (valid : pslink.CompletesHalfOpen pa → pa.head.seqCheck < maxPacketSeq) :
    (recvHalfOpen pslink pa).InRange := by
  rw [recvHalfOpen_fields]
  split
  · next completes => exact ⟨valid completes, range.seqReadMax, range.seqMaxSend, range.seqCheckSend⟩
  · exact range

theorem operands_valid (range : pslink.InRange) (checks : RecvChecks pa)
    (valid : pslink.UsesSeqCheck pa → pa.head.seqCheck < maxPacketSeq) :
    ∀ number ∈ pslink.operands pa, number < maxPacketSeq := by
  have half := recvHalfOpen_inRange range fun completes => valid (.inl (.inl completes))
  have seq := checks.seq_lt
  intro number membership
  simp only [Link.operands] at membership
  split at membership
  · cases membership
  · next connected =>
    split at membership
    · rcases List.mem_pair.mp membership with rfl | rfl
      · exact seq
      · exact half.seqRead
    · next type =>
      split at membership
      · cases membership
      · next different =>
        simp only [List.mem_cons, List.not_mem_nil, or_false] at membership
        rcases membership with rfl | rfl | rfl
        · exact valid (.inr ⟨type, connected, different⟩)
        · exact half.seqRead
        · exact seq
    · simp only [List.mem_cons, List.not_mem_nil, or_false] at membership
      rcases membership with rfl | rfl | rfl
      · exact half.seqCheckSend
      · exact seq
      · exact half.seqMaxSend
    · simp only [List.mem_cons, List.mem_filter, decide_eq_true_eq] at membership
      rcases membership with rfl | rfl | ⟨-, bounded⟩
      · exact mod_maxPacketSeq_lt _
      · exact half.seqMaxSend
      · exact bounded
    · cases membership

theorem inRange_recv (range : pslink.InRange) (checks : RecvChecks pa)
    (ran : threadRecv pslink pa now = some (after, sent))
    (valid : pslink.SetsRead pa → pa.head.seqCheck < maxPacketSeq) : after.InRange := by
  have kept := threadRecv_sending ran
  refine ⟨?_, ?_, ?_, ?_⟩
  · rw [threadRecv_seqRead ran]
    split
    · next sets => exact valid sets
    · split
      · exact mod_maxPacketSeq_lt _
      · exact range.seqRead
  · rcases threadRecv_seqReadMax ran with same | moved
    · exact same ▸ range.seqReadMax
    · exact moved ▸ checks.seq_lt
  · exact kept.seqMaxSend ▸ range.seqMaxSend
  · rcases kept.seqCheckSend with same | ⟨-, moved⟩
    · exact same ▸ range.seqCheckSend
    · exact moved ▸ checks.seq_lt

theorem recv_valid_iff (range : pslink.InRange) (checks : RecvChecks pa)
    (ran : threadRecv pslink pa now = some (after, sent)) :
    (pslink.UsesSeqCheck pa → pa.head.seqCheck < maxPacketSeq) ↔
      (∀ number ∈ pslink.operands pa, number < maxPacketSeq) ∧ after.InRange := by
  constructor
  · exact fun valid =>
      ⟨operands_valid range checks valid, inRange_recv range checks ran fun sets => valid (.inl sets)⟩
  · rintro ⟨compared, inRange⟩ (sets | ⟨type, connected, different⟩)
    · have read := inRange.seqRead
      rwa [threadRecv_seqRead ran, if_pos sets] at read
    · apply compared _
      simp [Link.operands, type, connected, different]

theorem call_valid_iff (pslink : Link) (call : LinkCall) (after : Link) (range : pslink.InRange)
    (stepped : pslink.step call = some after) :
    pslink.SeqCheckValid call ↔ pslink.ComparesValid call ∧ after.InRange := by
  obtain ⟨out, called, rfl⟩ := Option.map_eq_some_iff.mp stepped
  unfold Link.SeqCheckValid Link.ComparesValid
  cases callEffect called with
  | quiet nothing _ half readMax check max =>
      have read : out.link.seqRead = pslink.seqRead := congrArg ReceivingHalf.seqRead half
      have inRange : out.link.InRange := by
        refine ⟨read ▸ range.seqRead, readMax ▸ range.seqReadMax, ?_, check ▸ range.seqCheckSend⟩
        rcases max with same | next
        · exact same ▸ range.seqMaxSend
        · exact next ▸ mod_maxPacketSeq_lt _
      simp [nothing, inRange]
  | read length nothing _ consumed =>
      have inRange : out.link.InRange := by
        rw [consumed]
        exact ⟨mod_maxPacketSeq_lt _, range.seqReadMax, range.seqMaxSend, range.seqCheckSend⟩
      simp [nothing, inRange]
  | recv pa now brought checks ran =>
      simp only [brought, Option.mem_some_iff, forall_eq']
      exact recv_valid_iff range checks ran

/-- The range of the cursors, exactly: along a run of a link the four cursors
stay sequence numbers and only sequence numbers are compared, if and only if
every received packet whose `seqCheck` is used carries a valid one. -/
theorem cursors_in_range_iff (id socket : Nat) (tsWaitTime : Int) (created : Timeval)
    (calls : List LinkCall) (last : Link)
    (ran : Transition.run Link.step (addList id socket tsWaitTime created) calls = some last) :
    Transition.Guarded Link.step Link.SeqCheckValid (addList id socket tsWaitTime created) calls ↔
      ∀ count middle,
        Transition.run Link.step (addList id socket tsWaitTime created) (calls.take count) =
          some middle →
        middle.InRange ∧ ∀ call ∈ calls[count]?, middle.ComparesValid call :=
  Transition.guarded_iff_of_step Link.step call_valid_iff (inRange_addList ..) ran

theorem cursors_in_range_iff_first_arrived :
    Transition.run Link.step (addList 0 3 0 .zero) firstArrived = some (linkAfter firstArrived) ∧
      (linkAfter firstArrived).InRange := by
  have exactly := cursors_in_range_iff 0 3 0 .zero firstArrived (linkAfter firstArrived) rfl
  refine ⟨rfl, (exactly.mp (by decide) firstArrived.length (linkAfter firstArrived) ?_).1⟩
  rw [List.take_length]
  rfl

/-- A connection request with `seqCheck` 3000 makes that number `SeqRead`. -/
theorem seqCheck_out_of_range :
    Transition.run Link.step (addList 0 3 0 .zero) [.recv (requestAt 3000).bytes .zero] =
        some (linkAfter [.recv (requestAt 3000).bytes .zero]) ∧
      ¬ (linkAfter [.recv (requestAt 3000).bytes .zero]).InRange := by
  refine ⟨rfl, fun range => ?_⟩
  exact absurd range.seqRead (by decide)

end UtilsModules.Udp

import UtilsModules.Udp.Delivery

/-!
What one received packet does to the receiving half of a link in any state.

`SeqRead`, the connection state and the receive array after `thread_recv` are
written as functions of the link and the packet, so that later modules need not
look at the handlers again.
-/

namespace UtilsModules.Udp

def Link.CompletesHalfOpen (pslink : Link) (pa : PacketAll) : Prop :=
  pslink.linkState = 1 ∧ pa.head.state = 2

/-- The packet announces that the peer starts from the beginning. -/
def PacketAll.IsReset (pa : PacketAll) : Prop :=
  (pa.head.type = .linkSyn ∨ pa.head.type = .linkSynAck) ∧ pa.head.state < 2

/-- The packet's `seqCheck` field becomes `SeqRead`. -/
def Link.SetsRead (pslink : Link) (pa : PacketAll) : Prop :=
  pslink.CompletesHalfOpen pa ∨
    (pa.head.type = .linkSyn ∧ (pa.head.state < 2 ∨ pslink.linkState < 2)) ∨
    (pa.head.type = .linkSynAck ∧
      (pa.head.state < 2 ∧ ¬ pslink.linkState < 2 ∨ ¬ pa.head.state < 2 ∧ pslink.linkState < 2))

/-- The reply to the packet makes the link continue with its own number. -/
def Link.SetsOwnRead (pslink : Link) (pa : PacketAll) : Prop :=
  pa.head.type = .linkSynAck ∧ pa.head.state < 2 ∧ pslink.linkState < 2

instance (pslink : Link) (pa : PacketAll) : Decidable (pslink.CompletesHalfOpen pa) :=
  inferInstanceAs (Decidable (_ ∧ _))

instance (pa : PacketAll) : Decidable pa.IsReset := inferInstanceAs (Decidable (_ ∧ _))

instance (pslink : Link) (pa : PacketAll) : Decidable (pslink.SetsRead pa) :=
  inferInstanceAs (Decidable (_ ∨ _))

instance (pslink : Link) (pa : PacketAll) : Decidable (pslink.SetsOwnRead pa) :=
  inferInstanceAs (Decidable (_ ∧ _))

def Link.restartedSlots (pslink : Link) : PacketArray := (restartRecv pslink 0).paArrayRecv

theorem recvHalfOpen_fields (pslink : Link) (pa : PacketAll) :
    recvHalfOpen pslink pa = if pslink.CompletesHalfOpen pa then
      { pslink with
        paArrayRecv := pslink.restartedSlots, seqRead := pa.head.seqCheck, linkState := 2 }
    else pslink := rfl

structure ReceivingHalf where
  linkState : Int
  seqRead : Nat
  paArrayRecv : PacketArray

def Link.receivingHalf (pslink : Link) : ReceivingHalf :=
  ⟨pslink.linkState, pslink.seqRead, pslink.paArrayRecv⟩

theorem recvLinkSyn_receiving (pslink : Link) (pa : PacketAll) :
    (recvLinkSyn pslink pa).1.receivingHalf =
      ⟨if pslink.linkState < 2 then (if pa.head.state = 2 then 0 else 1) else pslink.linkState,
        if pa.head.state < 2 ∨ pslink.linkState < 2 then pa.head.seqCheck else pslink.seqRead,
        if pa.head.state < 2 then pslink.restartedSlots else pslink.paArrayRecv⟩ := by
  unfold recvLinkSyn
  by_cases fresh : pa.head.state < 2
  · by_cases unconnected : pslink.linkState < 2
    · simp [Link.receivingHalf, fresh, unconnected, restartRecv, Link.restartedSlots]
    · simp [Link.receivingHalf, fresh, unconnected, restartRecv, Link.restartedSlots]
  · by_cases unconnected : pslink.linkState < 2
    · simp [Link.receivingHalf, fresh, unconnected]
    · simp [Link.receivingHalf, fresh, unconnected]

theorem recvLinkSynAck_receiving (pslink : Link) (pa : PacketAll) :
    (recvLinkSynAck pslink pa).1.receivingHalf =
      ⟨if pslink.linkState < 2 then 2 else pslink.linkState,
        if pa.head.state < 2 then
          (if pslink.linkState < 2 then pslink.nextCheck else pa.head.seqCheck)
        else if pslink.linkState < 2 then pa.head.seqCheck else pslink.seqRead,
        if pa.head.state < 2 then pslink.restartedSlots else pslink.paArrayRecv⟩ := by
  unfold recvLinkSynAck
  by_cases fresh : pa.head.state < 2
  · by_cases unconnected : pslink.linkState < 2
    · simp [Link.receivingHalf, fresh, unconnected, restartRecv, Link.restartedSlots,
        Link.nextCheck]
    · simp [Link.receivingHalf, fresh, unconnected, restartRecv, Link.restartedSlots]
  · by_cases unconnected : pslink.linkState < 2
    · simp [Link.receivingHalf, fresh, unconnected]
    · simp [Link.receivingHalf, fresh, unconnected]

theorem recvLinkAck_receiving (pslink : Link) :
    (recvLinkAck pslink).receivingHalf =
      ⟨if pslink.linkState < 2 then 2 else pslink.linkState, pslink.seqRead,
        pslink.paArrayRecv⟩ := by
  unfold recvLinkAck
  split <;> rfl

/-- The receiving half after a packet whose type leaves it alone once the
half-open case has been looked at. -/
theorem threadRecv_receiving {pslink after : Link} {pa : PacketAll} {now : Timeval}
    {sent : List Datagram} (ran : threadRecv pslink pa now = some (after, sent)) :
    after.receivingHalf =
      match pa.head.type with
      | .linkSyn => (recvLinkSyn (recvHalfOpen pslink pa) pa).1.receivingHalf
      | .linkSynAck => (recvLinkSynAck (recvHalfOpen pslink pa) pa).1.receivingHalf
      | .linkAck => (recvLinkAck (recvHalfOpen pslink pa)).receivingHalf
      | .userData => (userDataRecv (recvHalfOpen pslink pa) pa).receivingHalf
      | .linkFin => { (recvHalfOpen pslink pa).receivingHalf with linkState := -1 }
      | _ => (recvHalfOpen pslink pa).receivingHalf := by
  have heard : pslink.heard pa = { recvHalfOpen pslink pa with
      timeout := { (recvHalfOpen pslink pa).timeout with tvSec := 0 } } := rfl
  have effect := threadRecv_effect ran
  rw [heard] at effect
  generalize recvHalfOpen pslink pa = half at effect ⊢
  cases effect with
  | linkSyn type =>
      rw [type, recvLinkSyn_receiving, recvLinkSyn_receiving]
      rfl
  | linkSynAck type =>
      rw [type, recvLinkSynAck_receiving, recvLinkSynAck_receiving]
      rfl
  | linkAck type =>
      rw [type, recvLinkAck_receiving, recvLinkAck_receiving]
  | userData slots type stored =>
      rw [userDataRecv_timeout] at stored
      rw [type]
      exact (congrArg Link.receivingHalf stored).symm
  | seqCheck _ _ type | seqReport _ _ type | seqLack _ _ _ type | linkFin type | defaultNull type =>
      rw [type]
      rfl

theorem userDataRecv_seqRead (pslink : Link) (pa : PacketAll) :
    (userDataRecv pslink pa).seqRead = pslink.seqRead ∧
      (userDataRecv pslink pa).linkState = pslink.linkState := by
  obtain ⟨slots, frame⟩ := userDataRecv_frame pslink pa
  rw [frame]
  exact ⟨rfl, rfl⟩

theorem threadRecv_seqRead {pslink after : Link} {pa : PacketAll} {now : Timeval}
    {sent : List Datagram} (ran : threadRecv pslink pa now = some (after, sent)) :
    after.seqRead = if pslink.SetsRead pa then pa.head.seqCheck
      else if pslink.SetsOwnRead pa then pslink.nextCheck else pslink.seqRead := by
  have half : after.seqRead = after.receivingHalf.seqRead := rfl
  rw [threadRecv_receiving ran, recvHalfOpen_fields] at half
  by_cases completes : pslink.CompletesHalfOpen pa
  · have sets : pslink.SetsRead pa := .inl completes
    have connected : ¬ pa.head.state < 2 := by
      have := completes.2
      omega
    rw [if_pos completes] at half
    rw [if_pos sets, half]
    cases type : pa.head.type with
    | linkSyn => simp [recvLinkSyn_receiving, connected]
    | linkSynAck => simp [recvLinkSynAck_receiving, connected]
    | linkAck => simp [recvLinkAck_receiving]
    | userData => exact (userDataRecv_seqRead _ pa).1
    | _ => rfl
  · rw [if_neg completes] at half
    rw [half]
    cases type : pa.head.type with
    | linkSyn =>
        simp [recvLinkSyn_receiving, Link.SetsRead, Link.SetsOwnRead, completes, type]
    | linkSynAck =>
        simp only [recvLinkSynAck_receiving, Link.SetsRead, Link.SetsOwnRead, completes, type]
        by_cases fresh : pa.head.state < 2 <;> by_cases unconnected : pslink.linkState < 2 <;>
          simp [fresh, unconnected]
    | linkAck =>
        simp [recvLinkAck_receiving, Link.SetsRead, Link.SetsOwnRead, completes, type]
    | userData =>
        simp [userDataRecv_seqRead, Link.SetsRead, Link.SetsOwnRead, completes, type,
          Link.receivingHalf]
    | _ => simp [Link.SetsRead, Link.SetsOwnRead, completes, type, Link.receivingHalf]

/-- A link that is connected stays so until `LINK_FIN`; one that is not moves
among the states 0, 1 and 2. -/
theorem threadRecv_linkState {pslink after : Link} {pa : PacketAll} {now : Timeval}
    {sent : List Datagram} (ran : threadRecv pslink pa now = some (after, sent))
    (unfinished : pa.head.type ≠ .linkFin) :
    after.linkState = pslink.linkState ∨
      pslink.linkState < 2 ∧ 0 ≤ after.linkState ∧ after.linkState ≤ 2 := by
  have half : after.linkState = after.receivingHalf.linkState := rfl
  rw [threadRecv_receiving ran, recvHalfOpen_fields] at half
  by_cases completes : pslink.CompletesHalfOpen pa
  · refine .inr ⟨by rw [completes.1]; decide, ?_⟩
    rw [if_pos completes] at half
    have connected : after.linkState = 2 := by
      rw [half]
      cases type : pa.head.type with
      | linkSyn => simp [recvLinkSyn_receiving]
      | linkSynAck => simp [recvLinkSynAck_receiving]
      | linkAck => simp [recvLinkAck_receiving]
      | userData => exact (userDataRecv_seqRead _ pa).2
      | linkFin => exact absurd type unfinished
      | _ => rfl
    rw [connected]
    decide
  · rw [if_neg completes] at half
    rw [half]
    by_cases unconnected : pslink.linkState < 2
    · cases type : pa.head.type with
      | linkSyn =>
          refine .inr ⟨unconnected, ?_⟩
          simp only [recvLinkSyn_receiving, if_pos unconnected]
          split <;> decide
      | linkSynAck =>
          refine .inr ⟨unconnected, ?_⟩
          simp [recvLinkSynAck_receiving, unconnected]
      | linkAck =>
          refine .inr ⟨unconnected, ?_⟩
          simp [recvLinkAck_receiving, unconnected]
      | userData => exact .inl (userDataRecv_seqRead pslink pa).2
      | linkFin => exact absurd type unfinished
      | _ => exact .inl rfl
    · cases type : pa.head.type with
      | linkSyn => simp [recvLinkSyn_receiving, unconnected]
      | linkSynAck => simp [recvLinkSynAck_receiving, unconnected]
      | linkAck => simp [recvLinkAck_receiving, unconnected]
      | userData => exact .inl (userDataRecv_seqRead pslink pa).2
      | linkFin => exact absurd type unfinished
      | _ => exact .inl rfl

theorem threadRecv_paArrayRecv {pslink after : Link} {pa : PacketAll} {now : Timeval}
    {sent : List Datagram} (ran : threadRecv pslink pa now = some (after, sent)) :
    after.paArrayRecv =
      if pa.head.type = .userData then (userDataRecv (recvHalfOpen pslink pa) pa).paArrayRecv
      else if pa.IsReset ∨ pslink.CompletesHalfOpen pa then pslink.restartedSlots
      else pslink.paArrayRecv := by
  have half : after.paArrayRecv = after.receivingHalf.paArrayRecv := rfl
  rw [half, threadRecv_receiving ran]
  clear half
  by_cases data : pa.head.type = .userData
  · rw [if_pos data, data]
    rfl
  · rw [if_neg data, recvHalfOpen_fields]
    by_cases completes : pslink.CompletesHalfOpen pa
    · have connected : ¬ pa.head.state < 2 := by
        have := completes.2
        omega
      rw [if_pos completes, if_pos (.inr completes)]
      cases type : pa.head.type with
      | linkSyn => simp [recvLinkSyn_receiving, connected]
      | linkSynAck => simp [recvLinkSynAck_receiving, connected]
      | linkAck => simp [recvLinkAck_receiving]
      | userData => exact absurd type data
      | _ => rfl
    · rw [if_neg completes]
      cases type : pa.head.type with
      | linkSyn => simp [recvLinkSyn_receiving, PacketAll.IsReset, type, completes]
      | linkSynAck => simp [recvLinkSynAck_receiving, PacketAll.IsReset, type, completes]
      | linkAck => simp [recvLinkAck_receiving, PacketAll.IsReset, type, completes]
      | userData => exact absurd type data
      | _ => simp [PacketAll.IsReset, type, completes, Link.receivingHalf]

/-- Only a report that reaches a connected link moves `SeqCheckSend`. -/
theorem threadRecv_seqCheckSend {pslink after : Link} {pa : PacketAll} {now : Timeval}
    {sent : List Datagram} (ran : threadRecv pslink pa now = some (after, sent)) :
    after.seqCheckSend = pslink.seqCheckSend ∨
      pa.head.type = .seqReport ∧ after.seqCheckSend = pa.head.seq ∧ ¬ after.linkState < 2 := by
  have same : (pslink.heard pa).seqCheckSend = pslink.seqCheckSend :=
    (recvHalfOpen_sending pslink pa).2.1
  have effect := threadRecv_effect ran
  generalize pslink.heard pa = half at effect same
  rw [← same]
  cases effect with
  | linkSyn => exact .inl (recvLinkSyn_sending half pa).2.1
  | linkSynAck => exact .inl (recvLinkSynAck_sending half pa).2.1
  | linkAck =>
      unfold recvLinkAck
      split <;> exact .inl rfl
  | seqReport seq _ type moved =>
      exact moved.imp_right fun ⟨connected, _, acknowledged⟩ => ⟨type, acknowledged, connected⟩
  | userData | seqCheck | seqLack | linkFin | defaultNull => exact .inl rfl

/-- `SeqReadMax` is only ever taken from a packet's own number. -/
theorem threadRecv_seqReadMax {pslink after : Link} {pa : PacketAll} {now : Timeval}
    {sent : List Datagram} (ran : threadRecv pslink pa now = some (after, sent)) :
    after.seqReadMax = pslink.seqReadMax ∨ after.seqReadMax = pa.head.seq := by
  have same : (pslink.heard pa).seqReadMax = pslink.seqReadMax := by
    rw [Link.heard, recvHalfOpen_fields]
    split <;> rfl
  have effect := threadRecv_effect ran
  generalize pslink.heard pa = half at effect same
  rw [← same]
  cases effect with
  | linkSyn =>
      unfold recvLinkSyn
      dsimp only
      split <;> split <;> exact .inl rfl
  | linkSynAck =>
      unfold recvLinkSynAck
      dsimp only
      split <;> split <;> exact .inl rfl
  | linkAck =>
      unfold recvLinkAck
      split <;> exact .inl rfl
  | seqCheck seq _ _ kept => exact kept
  | userData | seqReport | seqLack | linkFin | defaultNull => exact .inl rfl

theorem slotOf_ne_of_restarted {pslink : Link} {seq : Nat}
    (same : (pslink.restartedSlots (slotOf seq)).head.seq = seq) : slotOf seq ≠ slotOf 0 := by
  intro first
  rw [first] at same
  simp only [Link.restartedSlots, restartRecv, PacketArray.setSeq, Function.update_self] at same
  rw [← same] at first
  exact absurd first (by decide)

theorem readable_of_restarted {pslink : Link} {seq : Nat}
    (same : (pslink.restartedSlots (slotOf seq)).head.seq = seq)
    (unread : (pslink.restartedSlots (slotOf seq)).len ≠ 0) :
    pslink.Readable seq ∧
      pslink.restartedSlots (slotOf seq) = pslink.paArrayRecv (slotOf seq) := by
  have other := slotOf_ne_of_restarted same
  simp only [Link.restartedSlots, restartRecv, PacketArray.setSeq,
    Function.update_of_ne other] at same unread ⊢
  split at same
  · next cleared =>
    rw [if_pos cleared] at unread
    exact absurd rfl unread
  · next kept =>
    rw [if_neg kept] at unread ⊢
    exact ⟨⟨same, unread⟩, rfl⟩

theorem threadRecv_readable {pslink after : Link} {pa : PacketAll} {now : Timeval}
    {sent : List Datagram} (ran : threadRecv pslink pa now = some (after, sent)) {seq : Nat}
    (readable : after.Readable seq) :
    (pslink.Readable seq ∧ after.paArrayRecv (slotOf seq) = pslink.paArrayRecv (slotOf seq)) ∨
      pa.head.type = .userData ∧ seq = pa.head.seq ∧ after.paArrayRecv (slotOf seq) = pa ∧
        ¬ after.linkState < 2 ∧ (CmpSeq seq after.seqRead ∨ seq = after.seqRead) := by
  obtain ⟨same, unread⟩ := readable
  have slots := threadRecv_paArrayRecv ran
  have half : (recvHalfOpen pslink pa).Readable seq → pslink.Readable seq ∧
      (recvHalfOpen pslink pa).paArrayRecv (slotOf seq) = pslink.paArrayRecv (slotOf seq) := by
    rw [recvHalfOpen_fields]
    split
    · exact fun ⟨same, unread⟩ => readable_of_restarted same unread
    · exact fun readable => ⟨readable, rfl⟩
  split at slots
  · next data =>
    have received := threadRecv_receiving ran
    rw [data] at received
    have readSame : after.seqRead = (recvHalfOpen pslink pa).seqRead :=
      (congrArg ReceivingHalf.seqRead received).trans (userDataRecv_seqRead _ pa).1
    have stateSame : after.linkState = (recvHalfOpen pslink pa).linkState :=
      (congrArg ReceivingHalf.linkState received).trans (userDataRecv_seqRead _ pa).2
    rw [slots] at same unread ⊢
    rw [readSame, stateSame]
    rcases userDataRecv_cases (recvHalfOpen pslink pa) pa with ignored | ⟨connected, wanted, -, stored⟩
    · rw [ignored] at same unread ⊢
      exact .inl (half ⟨same, unread⟩)
    · rw [stored] at same unread ⊢
      dsimp only at same unread ⊢
      by_cases here : slotOf seq = slotOf pa.head.seq
      · rw [here, Function.update_self] at same ⊢
        exact .inr ⟨data, same.symm, rfl, connected, same ▸ wanted⟩
      · rw [Function.update_of_ne here] at same unread ⊢
        exact .inl (half ⟨same, unread⟩)
  · split at slots
    · rw [slots] at same unread ⊢
      exact .inl (readable_of_restarted same unread)
    · rw [slots] at same unread ⊢
      exact .inl ⟨⟨same, unread⟩, rfl⟩

/-- What a link sends while it handles a packet: the header carries its own
`nextCheck`, and a report names the last number it has read. -/
theorem threadRecv_sent {pslink after : Link} {pa : PacketAll} {now : Timeval}
    {sent : List Datagram} (sends : pslink.Sends)
    (ran : threadRecv pslink pa now = some (after, sent)) (unfinished : pa.head.type ≠ .linkFin) :
    ∀ datagram ∈ sent, datagram.head.seqCheck = pslink.nextCheck ∧
      datagram.head.type ≠ .linkFin ∧
      (datagram.head.type = .seqReport →
        datagram.head.seq = (recvHalfOpen pslink pa).lastRead) := by
  have same : (pslink.heard pa).seqMaxSend = pslink.seqMaxSend ∧
      (pslink.heard pa).seqCheckSend = pslink.seqCheckSend ∧
      (pslink.heard pa).paArraySend = pslink.paArraySend := recvHalfOpen_sending pslink pa
  have next : (pslink.heard pa).nextCheck = pslink.nextCheck := by
    simp only [Link.nextCheck, same.2.1]
  have last : (recvHalfOpen pslink pa).lastRead = (pslink.heard pa).lastRead := rfl
  have halfSends : (pslink.heard pa).Sends := sends.of_same same.1 same.2.1 same.2.2
  have effect := threadRecv_effect ran
  rw [← next, last]
  generalize pslink.heard pa = half at effect halfSends ⊢
  cases effect with
  | linkSyn =>
      unfold recvLinkSyn
      simp only [List.mem_singleton, forall_eq, message_type, message_seqCheck]
      refine ⟨?_, by simp⟩
      split <;> split <;> rfl
  | linkSynAck =>
      unfold recvLinkSynAck
      split
      · dsimp only
        split <;> simp only [List.mem_singleton, forall_eq, message_type, message_seqCheck] <;>
          exact ⟨rfl, by simp⟩
      · split <;> simp
  | seqCheck _ _ _ _ kinds =>
      intro datagram membership
      obtain ⟨report, length, ⟨isReport, lastRead⟩, rfl⟩ := kinds datagram membership
      exact ⟨rfl, by rw [message_type, isReport]; decide, fun _ => lastRead⟩
  | seqLack _ _ _ _ _ kinds =>
      intro datagram membership
      have again := kinds datagram membership
      have data := halfSends.type_of_retransmitted again
      obtain ⟨seq, -, -, -, -, -, check⟩ := again
      rw [data]
      exact ⟨check, by decide, by simp⟩
  | linkFin type => exact absurd type unfinished
  | linkAck | userData | seqReport | defaultNull => simp

end UtilsModules.Udp

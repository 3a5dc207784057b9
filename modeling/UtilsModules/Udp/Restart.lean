import UtilsModules.Udp.LinkRun

/-!
A peer that starts a new session on an existing link.

The receive array is cleared only when slot 1 holds number 1, so packets of the
old session may stay behind.  `Epoch` follows the link from the reset on and
records the user data received since; the new session is isolated from the old
one exactly when the array was cleared or had nothing outside slot 0.
-/

namespace UtilsModules.Udp

def LinkCall.userData (call : LinkCall) : List PacketAll :=
  call.packet.toList.filter fun pa => pa.head.type = .userData

/-- A link since its last reset and the user data received in that time. -/
structure Epoch where
  link : Link
  received : List PacketAll

def Epoch.step (epoch : Epoch) (call : LinkCall) : Option Epoch :=
  (epoch.link.call call).map fun out => ⟨out.link, epoch.received ++ call.userData⟩

/-- What a call hands to the user now was received in this epoch under the
number being read, and so was every packet that stands in the way of a new
one. -/
structure Epoch.Isolated (epoch : Epoch) : Prop where
  delivered : ∀ call out payload, epoch.link.call call = some out →
    out.delivered = some payload →
    ∃ pa ∈ epoch.received, pa.head.seq = epoch.link.seqRead ∧ payload = pa.payload
  occupied : ∀ pa, RecvChecks pa → pa.head.type = .userData →
    CmpSeq pa.head.seq epoch.link.seqRead ∨ pa.head.seq = epoch.link.seqRead →
    epoch.link.Readable pa.head.seq →
    epoch.link.paArrayRecv (slotOf pa.head.seq) ∈ epoch.received

/-- What is left in a slot other than slot 0 is a user packet in its own slot. -/
structure Tidy (pslink : Link) : Prop where
  stateBounds : 0 ≤ pslink.linkState ∧ pslink.linkState ≤ 2
  stored : ∀ slot, slot ≠ slotOf 0 → (pslink.paArrayRecv slot).len ≠ 0 →
    pslink.linkState = 2 ∧ RecvChecks (pslink.paArrayRecv slot) ∧
      slot = slotOf (pslink.paArrayRecv slot).head.seq

theorem restartedSlots_of_ne {slot : Fin maxPacketNumber} (other : slot ≠ slotOf 0)
    (pslink : Link) :
    pslink.restartedSlots slot =
      if (pslink.paArrayRecv (slotOf 1)).head.seq = 1 then .cleared else pslink.paArrayRecv slot := by
  simp only [Link.restartedSlots, restartRecv, PacketArray.setSeq, Function.update_of_ne other]
  split <;> rfl

theorem len_restartedSlots (pslink : Link) {slot : Fin maxPacketNumber} (other : slot ≠ slotOf 0)
    (unread : (pslink.restartedSlots slot).len ≠ 0) :
    pslink.restartedSlots slot = pslink.paArrayRecv slot := by
  rw [restartedSlots_of_ne other] at unread ⊢
  split at unread
  · exact absurd rfl unread
  · next kept => rw [if_neg kept]

/-- A slot other than slot 0 that is in use after a packet was so before or
holds that packet. -/
theorem threadRecv_slot {pslink after : Link} {pa : PacketAll} {now : Timeval}
    {sent : List Datagram} (ran : threadRecv pslink pa now = some (after, sent))
    {slot : Fin maxPacketNumber} (other : slot ≠ slotOf 0)
    (unread : (after.paArrayRecv slot).len ≠ 0) :
    after.paArrayRecv slot = pslink.paArrayRecv slot ∨
      pa.head.type = .userData ∧ slot = slotOf pa.head.seq ∧ after.paArrayRecv slot = pa ∧
        ¬ after.linkState < 2 := by
  have slots := threadRecv_paArrayRecv ran
  have half : ((recvHalfOpen pslink pa).paArrayRecv slot).len ≠ 0 →
      (recvHalfOpen pslink pa).paArrayRecv slot = pslink.paArrayRecv slot := by
    rw [recvHalfOpen_fields]
    split
    · exact len_restartedSlots pslink other
    · exact fun _ => rfl
  split at slots
  · next data =>
    have after_eq := threadRecv_receiving ran
    rw [data] at after_eq
    have stateSame : after.linkState = (recvHalfOpen pslink pa).linkState :=
      (congrArg ReceivingHalf.linkState after_eq).trans (userDataRecv_seqRead _ pa).2
    rw [slots] at unread ⊢
    rcases userDataRecv_cases (recvHalfOpen pslink pa) pa with ignored | ⟨connected, -, -, stored⟩
    · rw [ignored] at unread ⊢
      exact .inl (half unread)
    · rw [stored] at unread ⊢
      dsimp only at unread ⊢
      by_cases here : slot = slotOf pa.head.seq
      · subst here
        rw [Function.update_self]
        exact .inr ⟨data, rfl, rfl, by rw [stateSame]; exact connected⟩
      · rw [Function.update_of_ne here] at unread ⊢
        exact .inl (half unread)
  · split at slots
    · rw [slots] at unread ⊢
      exact .inl (len_restartedSlots pslink other unread)
    · rw [slots]
      exact .inl rfl

theorem unfinished_of_alive {pslink after : Link} {pa : PacketAll} {now : Timeval}
    {sent : List Datagram} (ran : threadRecv pslink pa now = some (after, sent))
    (alive : after.linkState ≠ -1) : pa.head.type ≠ .linkFin := by
  intro fin
  have half := congrArg ReceivingHalf.linkState (threadRecv_receiving ran)
  rw [fin] at half
  exact alive half

theorem tidy_addList (id socket : Nat) (tsWaitTime : Int) (now : Timeval) :
    Tidy (addList id socket tsWaitTime now) where
  stateBounds := ⟨le_rfl, by simp [addList]⟩
  stored slot other unread := by
    simp only [addList, PacketArray.setSeq, Function.update_of_ne other] at unread
    exact absurd rfl unread

theorem tidy_consume {pslink : Link} (tidy : Tidy pslink) : Tidy pslink.consume where
  stateBounds := tidy.stateBounds
  stored slot other unread := by
    simp only [Link.consume] at unread ⊢
    by_cases here : slot = slotOf pslink.seqRead
    · subst here
      rw [Function.update_self] at unread
      exact absurd rfl unread
    · rw [Function.update_of_ne here] at unread ⊢
      exact tidy.stored slot other unread

theorem tidy_recv {pslink after : Link} {pa : PacketAll} {now : Timeval} {sent : List Datagram}
    (tidy : Tidy pslink) (checks : RecvChecks pa)
    (ran : threadRecv pslink pa now = some (after, sent)) (alive : after.linkState ≠ -1) :
    Tidy after := by
  have bounds := tidy.stateBounds
  have states := threadRecv_linkState ran (unfinished_of_alive ran alive)
  refine ⟨by omega, fun slot other unread => ?_⟩
  rcases threadRecv_slot ran other unread with same | ⟨-, here, isPacket, connected⟩
  · rw [same] at unread ⊢
    obtain ⟨state, old⟩ := tidy.stored slot other unread
    exact ⟨by omega, old⟩
  · rw [isPacket]
    exact ⟨by omega, checks, here⟩

theorem tidy_step (pslink : Link) (call : LinkCall) (after : Link) (tidy : Tidy pslink)
    (stepped : pslink.step call = some after) : Tidy after := by
  obtain ⟨out, called, rfl⟩ := Option.map_eq_some_iff.mp stepped
  cases callEffect called with
  | quiet _ _ half =>
      have state : out.link.linkState = pslink.linkState := congrArg ReceivingHalf.linkState half
      have slots : out.link.paArrayRecv = pslink.paArrayRecv :=
        congrArg ReceivingHalf.paArrayRecv half
      exact ⟨by rw [state]; exact tidy.stateBounds, by rw [state, slots]; exact tidy.stored⟩
  | read length _ _ consumed =>
      rw [consumed]
      exact tidy_consume tidy
  | recv pa now _ checks ran alive => exact tidy_recv tidy checks ran alive

structure Recent (epoch : Epoch) : Prop where
  occupied : ∀ seq, epoch.link.Readable seq →
    epoch.link.paArrayRecv (slotOf seq) ∈ epoch.received
  checked : ∀ pa ∈ epoch.received, RecvChecks pa

theorem isolated_of_recent {epoch : Epoch} (recent : Recent epoch) : epoch.Isolated where
  delivered call out payload called handed := by
    cases callEffect called with
    | quiet _ nothing =>
        rw [nothing] at handed
        cases handed
    | read length _ readable _ short delivered =>
        have member := recent.occupied _ readable
        have bounds := (recent.checked _ member).len_bounds
        refine ⟨_, member, readable.1, ?_⟩
        rw [delivered] at handed
        rw [← Option.some.inj handed, short bounds.1 bounds.2]
        rfl
    | recv pa now _ _ _ _ nothing =>
        rw [nothing] at handed
        cases handed
  occupied pa _ _ _ readable := recent.occupied _ readable

theorem recent_step (epoch : Epoch) (call : LinkCall) (next : Epoch) (recent : Recent epoch)
    (stepped : epoch.step call = some next) : Recent next := by
  obtain ⟨out, called, rfl⟩ := Option.map_eq_some_iff.mp stepped
  cases callEffect called with
  | quiet nothing _ half =>
      have slots : out.link.paArrayRecv = epoch.link.paArrayRecv :=
        congrArg ReceivingHalf.paArrayRecv half
      simp only [LinkCall.userData, nothing, Option.toList_none, List.filter_nil, List.append_nil]
      refine ⟨?_, recent.checked⟩
      simp only [Link.Readable, slots]
      exact recent.occupied
  | read length nothing _ consumed =>
      simp only [LinkCall.userData, nothing, Option.toList_none, List.filter_nil, List.append_nil]
      refine ⟨?_, recent.checked⟩
      rintro seq ⟨same, unread⟩
      rw [consumed] at same unread ⊢
      simp only [Link.consume] at same unread ⊢
      by_cases here : slotOf seq = slotOf epoch.link.seqRead
      · rw [here, Function.update_self] at unread
        exact absurd rfl unread
      · rw [Function.update_of_ne here] at same unread ⊢
        exact recent.occupied seq ⟨same, unread⟩
  | recv pa now brought checks ran =>
      constructor
      · intro seq readable
        rcases threadRecv_readable ran readable with ⟨before, same⟩ | ⟨data, -, isPacket, -⟩
        · dsimp only
          rw [same]
          exact List.mem_append_left _ (recent.occupied seq before)
        · dsimp only
          rw [isPacket]
          simp [LinkCall.userData, brought, data]
      · intro other member
        rcases List.mem_append.mp member with old | new
        · exact recent.checked other old
        · simp only [LinkCall.userData, brought, Option.toList_some, List.mem_filter,
            List.mem_singleton] at new
          rw [new.1]
          exact checks

/-- Nothing of the old session can be read after the reset. -/
def Link.LeavesNothing (pslink : Link) : Prop :=
  (pslink.paArrayRecv (slotOf 1)).head.seq = 1 ∨
    ∀ slot, slot ≠ slotOf 0 → (pslink.paArrayRecv slot).len = 0

theorem paArrayRecv_of_reset {pslink after : Link} {pa : PacketAll} {now : Timeval}
    {sent : List Datagram} (reset : pa.IsReset)
    (ran : threadRecv pslink pa now = some (after, sent)) :
    after.paArrayRecv = pslink.restartedSlots := by
  have notData : pa.head.type ≠ .userData := by
    rcases reset.1 with type | type <;> rw [type] <;> decide
  rw [threadRecv_paArrayRecv ran, if_neg notData, if_pos (.inl reset)]

theorem recent_of_leavesNothing {pslink after : Link} (nothing : pslink.LeavesNothing)
    (slots : after.paArrayRecv = pslink.restartedSlots) : Recent ⟨after, []⟩ := by
  refine ⟨?_, by simp⟩
  rintro seq ⟨same, unread⟩
  dsimp only at same unread
  rw [slots] at same unread
  obtain ⟨readable, kept⟩ := readable_of_restarted same unread
  have other := slotOf_ne_of_restarted same
  rcases nothing with cleared | empty
  · rw [restartedSlots_of_ne other, if_pos cleared] at unread
    exact absurd rfl unread
  · exact absurd (empty _ other) readable.2

theorem call_recv_datagram {pslink after : Link} {datagram : Datagram} {now : Timeval}
    {sent : List Datagram} (formed : datagram.WellFormed) (checks : RecvChecks datagram.packet)
    (ran : threadRecv pslink datagram.packet now = some (after, sent))
    (alive : after.linkState ≠ -1) :
    pslink.call (.recv datagram.bytes now) = some ⟨after, sent, none, none⟩ := by
  simp [Link.call, threadRecvBytes, PacketAll.ofBytes_bytes formed, checks, getLink, ran, alive]

def requestAt (seqCheck : Nat) : Datagram := ⟨⟨.linkSyn, 0, 0, seqCheck, exUdpVer⟩, []⟩

theorem requestAt_formed {seqCheck : Nat} (bounded : seqCheck < maxPacketSeq) :
    (requestAt seqCheck).WellFormed := by
  have small : seqCheck < 65536 := bounded.trans (by decide)
  refine ⟨?_, ?_, small, ?_, ?_⟩
  all_goals simp [requestAt, exUdpVer]

theorem requestAt_checks (seqCheck : Nat) : RecvChecks (requestAt seqCheck).packet := by
  refine ⟨?_, by simp [requestAt]⟩
  simp [requestAt, Datagram.packet, lenPacketHead, maxPacketSize, maxPacketSeq_eq]

/-- A connected link that is asked to read a number it holds hands it over. -/
theorem exRecv_readable {pslink : Link} (readable : pslink.Readable pslink.seqRead)
    (checks : RecvChecks (pslink.paArrayRecv (slotOf pslink.seqRead))) (now : Timeval) :
    ∃ out, pslink.call (.exRecv now) = some out ∧
      out.delivered = some (pslink.paArrayRecv (slotOf pslink.seqRead)).payload := by
  have bounds := checks.len_bounds
  have length : ((pslink.paArrayRecv (slotOf pslink.seqRead)).len + 65536 - lenPacketHead) %
      65536 = (pslink.paArrayRecv (slotOf pslink.seqRead)).len - lenPacketHead := by
    simp only [lenPacketHead, maxPacketSize] at *
    omega
  have fits : ¬ (pslink.paArrayRecv (slotOf pslink.seqRead)).len - lenPacketHead >
      maxPacketDataSize := by
    simp only [lenPacketHead, maxPacketSize, maxPacketDataSize] at *
    omega
  refine ⟨⟨pslink.consume, [], none, some (pslink.paArrayRecv (slotOf pslink.seqRead)).payload⟩,
    ?_, rfl⟩
  simp only [Link.call, exRecv, if_pos readable, length, if_neg fits, Option.map_some]
  rfl

/-- A stale packet is handed over as soon as the peer asks to be read from its
number. -/
theorem stale_delivered {pslink : Link} (tidy : Tidy pslink)
    (kept : (pslink.paArrayRecv (slotOf 1)).head.seq ≠ 1) {slot : Fin maxPacketNumber}
    (other : slot ≠ slotOf 0) (unread : (pslink.paArrayRecv slot).len ≠ 0) (now : Timeval) :
    ∃ epoch, Transition.run Epoch.step ⟨pslink, []⟩
        [.recv (requestAt (pslink.paArrayRecv slot).head.seq).bytes now] = some epoch ∧
      ¬ epoch.Isolated := by
  obtain ⟨connected, checks, here⟩ := tidy.stored slot other unread
  set seq := (pslink.paArrayRecv slot).head.seq with seqEqual
  have reset : (requestAt seq).packet.IsReset := ⟨.inl rfl, by simp [requestAt]⟩
  have formed : (requestAt seq).WellFormed := requestAt_formed checks.seq_lt
  have handled : ∃ after sent, threadRecv pslink (requestAt seq).packet now =
      some (after, sent) := by
    have type : (requestAt seq).packet.head.type = .linkSyn := rfl
    simp only [threadRecv, recvHalfOpen_of_connected connected, type]
    exact ⟨_, _, rfl⟩
  obtain ⟨after, sent, ran⟩ := handled
  have state : after.linkState = 2 := by
    have states := threadRecv_linkState ran (by simp [requestAt])
    omega
  have called := call_recv_datagram formed (requestAt_checks seq) ran (by rw [state]; decide)
  have nothing : (LinkCall.recv (requestAt seq).bytes now).userData = [] := by
    simp only [LinkCall.userData, LinkCall.packet, PacketAll.ofBytes_bytes formed,
      requestAt_checks, if_true]
    rfl
  have slotKept : after.paArrayRecv slot = pslink.paArrayRecv slot := by
    rw [paArrayRecv_of_reset reset ran, restartedSlots_of_ne other, if_neg kept]
  have read : after.seqRead = seq := by
    have sets : pslink.SetsRead (requestAt seq).packet :=
      .inr (.inl ⟨rfl, .inl (by simp [requestAt])⟩)
    rw [threadRecv_seqRead ran, if_pos sets]
    rfl
  refine ⟨⟨after, []⟩, ?_, ?_⟩
  · simp [Epoch.step, called, nothing]
  · intro isolated
    have readable : after.Readable after.seqRead := by
      rw [read]
      unfold Link.Readable
      rw [← here, slotKept]
      exact ⟨seqEqual.symm, unread⟩
    obtain ⟨out, reading, handed⟩ := exRecv_readable readable
      (by rw [read, ← here, slotKept]; exact checks) now
    obtain ⟨pa, member, -⟩ := isolated.delivered _ out _ reading handed
    cases member

/-- Isolation of a new session, exactly: when a reachable link is reset, every
payload handed over later was received after the reset and no packet of the old
session stands in the way of a new one, if and only if slot 1 held number 1 or
nothing unread was left outside slot 0. -/
theorem restart_isolated_iff (id socket : Nat) (tsWaitTime : Int) (created : Timeval)
    (calls : List LinkCall) (pslink after : Link) (pa : PacketAll) (now : Timeval)
    (sent : List Datagram)
    (reached : Transition.run Link.step (addList id socket tsWaitTime created) calls = some pslink)
    (checks : RecvChecks pa) (reset : pa.IsReset)
    (ran : threadRecv pslink pa now = some (after, sent)) :
    (∀ later epoch, Transition.run Epoch.step ⟨after, []⟩ later = some epoch → epoch.Isolated) ↔
      pslink.LeavesNothing := by
  have tidy := Transition.run_invariant Link.step tidy_step (tidy_addList ..) reached
  have slots := paArrayRecv_of_reset reset ran
  constructor
  · intro isolated
    by_contra leaves
    simp only [Link.LeavesNothing, not_or, not_forall] at leaves
    obtain ⟨kept, slot, other, unread⟩ := leaves
    have connected := (tidy.stored slot other unread).1
    have notFin : pa.head.type ≠ .linkFin := by
      rcases reset.1 with type | type <;> rw [type] <;> decide
    have alive : after.linkState ≠ -1 := by
      have states := threadRecv_linkState ran notFin
      omega
    have same : ∀ slot, slot ≠ slotOf 0 → after.paArrayRecv slot = pslink.paArrayRecv slot := by
      intro slot other
      rw [slots, restartedSlots_of_ne other, if_neg kept]
    obtain ⟨epoch, next, broken⟩ := stale_delivered (tidy_recv tidy checks ran alive)
      (by rw [same _ (by decide)]; exact kept) other (by rw [same slot other]; exact unread) now
    exact broken (isolated _ epoch next)
  · intro nothing later epoch finished
    exact isolated_of_recent (Transition.run_invariant Epoch.step recent_step
      (recent_of_leavesNothing nothing slots) finished)

def dataAt (seq : Nat) (byte : UInt8) : Datagram := ⟨⟨.userData, 2, seq, 1, 0⟩, [byte]⟩

def firstArrived : List LinkCall :=
  [.recv [3, 0, 0, 0, 0, 0, 0, 0] .zero, .recv (dataAt 1 65).bytes .zero]

/-- The old session: the link is connected and only its second packet
arrives. -/
def firstLost : List LinkCall :=
  [.recv [3, 0, 0, 0, 0, 0, 0, 0] .zero, .recv (dataAt 2 66).bytes .zero]

def linkAfter (calls : List LinkCall) : Link :=
  (Transition.run Link.step (addList 0 3 0 .zero) calls).getD (addList 0 3 0 .zero)

theorem restart_isolated_iff_first_arrived :
    ∃ after sent, threadRecv (linkAfter firstArrived) (requestAt 1).packet .zero =
        some (after, sent) ∧
      ∀ later epoch, Transition.run Epoch.step ⟨after, []⟩ later = some epoch → epoch.Isolated :=
  ⟨_, _, rfl,
    (restart_isolated_iff 0 3 0 .zero firstArrived (linkAfter firstArrived) _ (requestAt 1).packet
      .zero _ rfl (by decide) (by decide) rfl).mpr (.inl (by decide))⟩

/-- The peer starts again, sends its first packet, and the user reads it. -/
def restartedCalls : List LinkCall := [.recv (dataAt 1 97).bytes .zero, .exRecv .zero]

/-- The second packet of the old session is what the user would read next. -/
theorem stale_packet_survives :
    Transition.run Link.step (addList 0 3 0 .zero) firstLost = some (linkAfter firstLost) ∧
      ∃ after sent, threadRecv (linkAfter firstLost) (requestAt 1).packet .zero =
          some (after, sent) ∧
        ∃ epoch, Transition.run Epoch.step ⟨after, []⟩ restartedCalls = some epoch ∧
          ¬ epoch.Isolated := by
  refine ⟨rfl, _, _, rfl, _, rfl, ?_⟩
  intro isolated
  obtain ⟨pa, member, number, -⟩ := isolated.delivered (.exRecv .zero) _ [66] rfl rfl
  revert number
  rw [List.mem_singleton.mp member]
  decide

end UtilsModules.Udp

import UtilsModules.Udp.Endpoint

/-!
What each call can do to a link and which datagrams it can send.

Later modules never unfold a handler: they use the statements below.  The
sending half of a link is `SeqMaxSend`, `SeqCheckSend` and `paArraySend`, the
receiving half is `SeqRead`, `SeqReadMax` and `paArrayRecv`.
-/

namespace UtilsModules.Udp

/-- Same type, number, contents and length; `SendMsg` may restamp the rest. -/
structure SameData (after before : PacketAll) : Prop where
  type : after.head.type = before.head.type
  seq : after.head.seq = before.head.seq
  buf : after.buf = before.buf
  len : after.len = before.len

theorem SameData.refl (pa : PacketAll) : SameData pa pa := ⟨rfl, rfl, rfl, rfl⟩

theorem SameData.trans {first second third : PacketAll}
    (later : SameData third second) (earlier : SameData second first) : SameData third first :=
  ⟨later.type.trans earlier.type, later.seq.trans earlier.seq, later.buf.trans earlier.buf,
    later.len.trans earlier.len⟩

theorem SameData.payload {after before : PacketAll} (same : SameData after before) :
    after.payload = before.payload := by
  simp only [PacketAll.payload, same.buf, same.len]

structure Carries (datagram : Datagram) (pa : PacketAll) : Prop where
  type : datagram.head.type = pa.head.type
  seq : datagram.head.seq = pa.head.seq
  data : datagram.data = pa.payload

theorem sendMsg_eq_some {pslink : Link} {pa after : PacketAll} {len : Nat} {datagram : Datagram}
    (sent : sendMsg pslink pa len = some (after, datagram)) :
    after = { pa with head := pslink.stamp pa.head } ∧ datagram = pslink.message pa len := by
  unfold sendMsg at sent
  split at sent
  · cases sent
    exact ⟨rfl, rfl⟩
  · cases sent

theorem sendMsg_of_le (pslink : Link) (pa : PacketAll) {len : Nat} (enough : lenPacketHead ≤ len) :
    sendMsg pslink pa len =
      some ({ pa with head := pslink.stamp pa.head }, pslink.message pa len) := by
  simp [sendMsg, enough]

@[simp]
theorem message_type (pslink : Link) (pa : PacketAll) (len : Nat) :
    (pslink.message pa len).head.type = pa.head.type := rfl

@[simp]
theorem message_seq (pslink : Link) (pa : PacketAll) (len : Nat) :
    (pslink.message pa len).head.seq = pa.head.seq := rfl

@[simp]
theorem message_state (pslink : Link) (pa : PacketAll) (len : Nat) :
    (pslink.message pa len).head.state = (pslink.linkState % 256).toNat := rfl

@[simp]
theorem message_seqCheck (pslink : Link) (pa : PacketAll) (len : Nat) :
    (pslink.message pa len).head.seqCheck = pslink.nextCheck := rfl

theorem message_carries (pslink : Link) (pa : PacketAll) :
    Carries (pslink.message pa pa.len) pa := ⟨rfl, rfl, rfl⟩

/-- The datagram is a packet of the given kind sent by this link. -/
def SentBy (pslink : Link) (kind : PacketAll → Prop) (datagram : Datagram) : Prop :=
  ∃ pa len, kind pa ∧ datagram = pslink.message pa len

def IsLack (pa : PacketAll) : Prop := pa.head.type = .seqLack

theorem isLack_lackPacket (lack : List Nat) : IsLack (lackPacket lack) := rfl

theorem sentBy_lackPacket {pslink : Link} {sent : List Datagram} (lack : List Nat) (len : Nat)
    (known : ∀ datagram ∈ sent, SentBy pslink IsLack datagram) :
    ∀ datagram ∈ sent ++ [pslink.message (lackPacket lack) len],
      SentBy pslink IsLack datagram := by
  rw [List.forall_mem_append, List.forall_mem_singleton]
  exact ⟨known, _, _, isLack_lackPacket lack, rfl⟩

theorem seqLackTurn_sent (pslink : Link) (report : LackReport) (seqReadLast : Nat)
    (known : ∀ datagram ∈ report.sent, SentBy pslink IsLack datagram) :
    ∀ datagram ∈ (seqLackTurn pslink report seqReadLast).sent, SentBy pslink IsLack datagram := by
  unfold seqLackTurn
  split
  · exact known
  · dsimp only
    split
    · exact sentBy_lackPacket _ _ known
    · exact known

theorem seqLackLoop_sent {pslink : Link} {fuel seqReadLast : Nat} {report last : LackReport}
    (ran : seqLackLoop pslink fuel seqReadLast report = some last)
    (known : ∀ datagram ∈ report.sent, SentBy pslink IsLack datagram) :
    ∀ datagram ∈ last.sent, SentBy pslink IsLack datagram := by
  induction fuel generalizing seqReadLast report with
  | zero => cases ran
  | succ fuel inductionHypothesis =>
      have turned := seqLackTurn_sent pslink report seqReadLast known
      simp only [seqLackLoop] at ran
      split at ran
      · exact inductionHypothesis ran turned
      · cases ran
        exact turned

theorem finish_sent (pslink : Link) (report : LackReport)
    (known : ∀ datagram ∈ report.sent, SentBy pslink IsLack datagram) :
    ∀ datagram ∈ report.finish pslink, SentBy pslink IsLack datagram := by
  unfold LackReport.finish
  dsimp only
  split
  · exact sentBy_lackPacket _ _ known
  · exact known

theorem seqLack_effect {pslink after : Link} {now : Timeval} {sent : List Datagram}
    (ran : seqLack pslink now = some (after, sent)) :
    (∃ time, after = { pslink with timeoutReportLack := time }) ∧
      ∀ datagram ∈ sent, SentBy pslink IsLack datagram := by
  unfold seqLack at ran
  split at ran
  · cases ran
    exact ⟨⟨pslink.timeoutReportLack, rfl⟩, by simp⟩
  · split at ran
    · obtain ⟨report, looped, equal⟩ := Option.map_eq_some_iff.mp ran
      cases equal
      exact ⟨⟨now, rfl⟩, finish_sent pslink report (seqLackLoop_sent looped (by simp))⟩
    · cases ran
      exact ⟨⟨pslink.timeoutReportLack, rfl⟩, by simp⟩

/-- A `SEQ_REPORT` packet naming the last number this link has read. -/
def IsReport (pslink : Link) (pa : PacketAll) : Prop :=
  pa.head.type = .seqReport ∧ pa.head.seq = pslink.lastRead

/-- `SeqReport` leaves the cursors and arrays alone; it reports the last number
read and the missing numbers. -/
theorem seqReport_effect {pslink after : Link} {now : Timeval} {sent : List Datagram}
    (ran : seqReport pslink now = some (after, sent)) :
    (∃ time, after = { pslink with timeoutReportLack := time }) ∧
      ∀ datagram ∈ sent, SentBy pslink (fun pa => IsReport pslink pa ∨ IsLack pa) datagram := by
  unfold seqReport at ran
  split at ran
  · obtain ⟨⟨lacked, lacks⟩, ranLack, equal⟩ := Option.map_eq_some_iff.mp ran
    cases equal
    obtain ⟨frame, kinds⟩ := seqLack_effect ranLack
    refine ⟨frame, ?_⟩
    intro datagram membership
    rcases List.mem_cons.mp membership with equal | inLacks
    · exact ⟨_, _, .inl ⟨rfl, rfl⟩, equal⟩
    · obtain ⟨pa, len, kind, equal⟩ := kinds datagram inLacks
      exact ⟨pa, len, .inr kind, equal⟩
  · cases ran
    exact ⟨⟨pslink.timeoutReportLack, rfl⟩, by simp⟩

theorem seqCheckAck_effect {pslink after : Link} {pa : PacketAll} {sent : List Datagram}
    (ran : seqCheckAck pslink pa = some (after, sent)) :
    (∃ seq, after = { pslink with seqReadMax := seq } ∧
      (seq = pslink.seqReadMax ∨ seq = pa.head.seq)) ∧
      ∀ datagram ∈ sent, SentBy pslink (IsReport pslink) datagram := by
  unfold seqCheckAck at ran
  split at ran
  · cases ran
    exact ⟨⟨pslink.seqReadMax, rfl, .inl rfl⟩, by simp⟩
  · split at ran
    · dsimp only at ran
      split at ran
      · simp only [Option.bind_eq_bind, Option.bind_eq_some_iff] at ran
        obtain ⟨⟨stamped, report⟩, sentReport, equal⟩ := ran
        cases equal
        refine ⟨⟨pa.head.seq, rfl, .inr rfl⟩, ?_⟩
        intro datagram membership
        exact ⟨_, _, ⟨rfl, rfl⟩,
          (List.mem_singleton.mp membership).trans (sendMsg_eq_some sentReport).2⟩
      · cases ran
        exact ⟨⟨pa.head.seq, rfl, .inr rfl⟩, by simp⟩
    · cases ran
      exact ⟨⟨pslink.seqReadMax, rfl, .inl rfl⟩, by simp⟩

theorem seqReportAck_effect (pslink : Link) (pa : PacketAll) (now : Timeval) :
    ∃ seq time, seqReportAck pslink pa now =
        { pslink with seqCheckSend := seq, timeoutCheckLack := time } ∧
      (seq = pslink.seqCheckSend ∨ ¬ pslink.linkState < 2 ∧
        CmpSeqOrder pslink.seqCheckSend pa.head.seq pslink.seqMaxSend ∧ seq = pa.head.seq) := by
  unfold seqReportAck seqReportAckBy
  split
  · exact ⟨pslink.seqCheckSend, pslink.timeoutCheckLack, rfl, .inl rfl⟩
  · next connected =>
    split
    · next ordered => exact ⟨pa.head.seq, _, rfl, .inr ⟨connected, ordered, rfl⟩⟩
    · exact ⟨pslink.seqCheckSend, pslink.timeoutCheckLack, rfl, .inl rfl⟩

/-- A datagram that `SeqLackAck` may send: the packet stored for a requested
number between the cursors. -/
def Retransmitted (pslink : Link) (requested : List Nat) (datagram : Datagram) : Prop :=
  ∃ seq ∈ requested, seq < maxPacketSeq ∧ CmpSeqOrder pslink.nextCheck seq pslink.seqMaxSend ∧
    Carries datagram (pslink.paArraySend (slotOf seq)) ∧
    datagram.head.state = (pslink.linkState % 256).toNat ∧
    datagram.head.seqCheck = pslink.nextCheck

theorem seqLackAckLoop_effect {pslink after : Link} {requested : List Nat} {sent : List Datagram}
    (ran : seqLackAckLoop pslink.nextCheck pslink requested = some (after, sent)) :
    (∃ slots, after = { pslink with paArraySend := slots } ∧
      ∀ slot, SameData (slots slot) (pslink.paArraySend slot)) ∧
      ∀ datagram ∈ sent, Retransmitted pslink requested datagram := by
  induction requested generalizing pslink after sent with
  | nil =>
      cases ran
      exact ⟨⟨pslink.paArraySend, rfl, fun _ => .refl _⟩, by simp⟩
  | cons usp rest inductionHypothesis =>
      unfold seqLackAckLoop at ran
      split at ran
      · next inSpace =>
        split at ran
        · next between =>
          simp only [Option.bind_eq_bind, Option.bind_eq_some_iff] at ran
          obtain ⟨⟨written, first⟩, sentFirst, ⟨last, later⟩, continued, equal⟩ := ran
          cases equal
          obtain ⟨rfl, rfl⟩ := sendMsg_eq_some sentFirst
          let stamped : PacketArray := Function.update pslink.paArraySend (slotOf usp)
            { pslink.paArraySend (slotOf usp) with
              head := pslink.stamp (pslink.paArraySend (slotOf usp)).head }
          -- the restamped slot keeps its data, so the rest of the loop sends from the same array
          have restamped : ∀ slot, SameData (stamped slot) (pslink.paArraySend slot) := by
            intro slot
            by_cases here : slot = slotOf usp
            · subst here
              simp only [stamped, Function.update_self]
              exact ⟨rfl, rfl, rfl, rfl⟩
            · simp only [stamped, Function.update_of_ne here]
              exact .refl _
          obtain ⟨⟨slots, lastEqual, kept⟩, laterSent⟩ :=
            @inductionHypothesis { pslink with paArraySend := stamped } _ _ continued
          refine ⟨⟨slots, lastEqual, fun slot => (kept slot).trans (restamped slot)⟩, ?_⟩
          intro datagram membership
          rcases List.mem_cons.mp membership with equal | inLater
          · subst equal
            exact ⟨usp, by simp, inSpace, between, message_carries _ _, rfl, rfl⟩
          · obtain ⟨seq, asked, bounded, ordered, carries, state, check⟩ :=
              laterSent datagram inLater
            refine ⟨seq, List.mem_cons_of_mem _ asked, bounded, ordered, ?_, state, check⟩
            exact ⟨carries.type.trans (restamped _).type, carries.seq.trans (restamped _).seq,
              carries.data.trans (restamped _).payload⟩
        · cases ran
          exact ⟨⟨pslink.paArraySend, rfl, fun _ => .refl _⟩, by simp⟩
      · cases ran
        exact ⟨⟨pslink.paArraySend, rfl, fun _ => .refl _⟩, by simp⟩

theorem seqLackAck_effect {pslink after : Link} {pa : PacketAll} {sent : List Datagram}
    (ran : seqLackAck pslink pa = some (after, sent)) :
    (∃ slots flag, after = { pslink with paArraySend := slots, prioritySendLack := flag } ∧
      (flag = pslink.prioritySendLack ∨ flag = false) ∧
      ∀ slot, SameData (slots slot) (pslink.paArraySend slot)) ∧
      ∀ datagram ∈ sent, Retransmitted pslink (Bytes.ushorts pa.buf) datagram := by
  unfold seqLackAck at ran
  split at ran
  · cases ran
    exact ⟨⟨pslink.paArraySend, pslink.prioritySendLack, rfl, .inl rfl, fun _ => .refl _⟩,
      by simp⟩
  · simp only [Option.bind_eq_bind, Option.bind_eq_some_iff] at ran
    obtain ⟨⟨last, later⟩, looped, equal⟩ := ran
    cases equal
    obtain ⟨⟨slots, lastEqual, kept⟩, kinds⟩ :=
      @seqLackAckLoop_effect { pslink with prioritySendLack := true } _ _ _ looped
    refine ⟨⟨slots, false, by rw [lastEqual], .inr rfl, kept⟩, ?_⟩
    intro datagram membership
    obtain ⟨seq, asked, rest⟩ := kinds datagram membership
    exact ⟨seq, List.mem_of_mem_take asked, rest⟩

/-- `SeqCheck` leaves the cursors and arrays alone and sends at most the
`SEQ_CHECK` for `SeqMaxSend`. -/
theorem seqCheck_effect (interval : Int) (timeListen : Timeval) (pslink : Link) (now : Timeval) :
    (∃ time, (seqCheck interval timeListen pslink now).1 = { pslink with timeoutSend := time }) ∧
      ∀ datagram ∈ (seqCheck interval timeListen pslink now).2,
        SentBy pslink (fun pa => pa.head.type = .seqCheck ∧ pa.head.seq = pslink.seqMaxSend)
          datagram := by
  unfold seqCheck
  split
  · split
    · split
      · exact ⟨⟨pslink.timeoutSend, rfl⟩, by simp⟩
      · refine ⟨⟨now, rfl⟩, ?_⟩
        intro datagram membership
        exact ⟨_, _, ⟨rfl, rfl⟩, List.mem_singleton.mp membership⟩
    · exact ⟨⟨pslink.timeoutSend, rfl⟩, by simp⟩
  · exact ⟨⟨pslink.timeoutSend, rfl⟩, by simp⟩

theorem userDataRecv_cases (pslink : Link) (pa : PacketAll) :
    userDataRecv pslink pa = pslink ∨
      ¬ pslink.linkState < 2 ∧
        (CmpSeq pa.head.seq pslink.seqRead ∨ pa.head.seq = pslink.seqRead) ∧
        ¬ pslink.Readable pa.head.seq ∧
        userDataRecv pslink pa = { pslink with
          paArrayRecv := Function.update pslink.paArrayRecv (slotOf pa.head.seq) pa } := by
  unfold userDataRecv
  split
  · exact .inl rfl
  · next connected =>
    split
    · next wanted =>
      split
      · next free => exact .inr ⟨connected, wanted, free, rfl⟩
      · exact .inl rfl
    · exact .inl rfl

theorem userDataRecv_frame (pslink : Link) (pa : PacketAll) :
    ∃ slots, userDataRecv pslink pa = { pslink with paArrayRecv := slots } := by
  rcases userDataRecv_cases pslink pa with same | ⟨-, -, -, stored⟩
  · exact ⟨pslink.paArrayRecv, same⟩
  · exact ⟨_, stored⟩

theorem recvHalfOpen_sending (pslink : Link) (pa : PacketAll) :
    (recvHalfOpen pslink pa).seqMaxSend = pslink.seqMaxSend ∧
      (recvHalfOpen pslink pa).seqCheckSend = pslink.seqCheckSend ∧
      (recvHalfOpen pslink pa).paArraySend = pslink.paArraySend := by
  unfold recvHalfOpen
  split
  · exact ⟨rfl, rfl, rfl⟩
  · exact ⟨rfl, rfl, rfl⟩

theorem recvLinkSyn_sending (pslink : Link) (pa : PacketAll) :
    (recvLinkSyn pslink pa).1.seqMaxSend = pslink.seqMaxSend ∧
      (recvLinkSyn pslink pa).1.seqCheckSend = pslink.seqCheckSend ∧
      (recvLinkSyn pslink pa).1.paArraySend = pslink.paArraySend := by
  unfold recvLinkSyn
  dsimp only
  split <;> split <;> exact ⟨rfl, rfl, rfl⟩

theorem recvLinkSynAck_sending (pslink : Link) (pa : PacketAll) :
    (recvLinkSynAck pslink pa).1.seqMaxSend = pslink.seqMaxSend ∧
      (recvLinkSynAck pslink pa).1.seqCheckSend = pslink.seqCheckSend ∧
      (recvLinkSynAck pslink pa).1.paArraySend = pslink.paArraySend := by
  unfold recvLinkSynAck
  dsimp only
  split <;> split <;> exact ⟨rfl, rfl, rfl⟩

structure SendingKept (before after : Link) (pa : PacketAll) : Prop where
  seqMaxSend : after.seqMaxSend = before.seqMaxSend
  paArraySend : ∀ slot, SameData (after.paArraySend slot) (before.paArraySend slot)
  seqCheckSend : after.seqCheckSend = before.seqCheckSend ∨
    CmpSeqOrder before.seqCheckSend pa.head.seq before.seqMaxSend ∧
      after.seqCheckSend = pa.head.seq

theorem SendingKept.of_eq {before after : Link} {pa : PacketAll}
    (same : after.seqMaxSend = before.seqMaxSend ∧ after.seqCheckSend = before.seqCheckSend ∧
      after.paArraySend = before.paArraySend) : SendingKept before after pa :=
  ⟨same.1, fun slot => by rw [same.2.2]; exact .refl _, .inl same.2.1⟩

def Link.heard (pslink : Link) (pa : PacketAll) : Link :=
  { recvHalfOpen pslink pa with
    timeout := { (recvHalfOpen pslink pa).timeout with tvSec := 0 } }

inductive RecvEffect (half : Link) (pa : PacketAll) : Link → List Datagram → Prop where
  | linkSyn : pa.head.type = .linkSyn →
      RecvEffect half pa (recvLinkSyn half pa).1 (recvLinkSyn half pa).2
  | linkSynAck : pa.head.type = .linkSynAck →
      RecvEffect half pa (recvLinkSynAck half pa).1 (recvLinkSynAck half pa).2
  | linkAck : pa.head.type = .linkAck → RecvEffect half pa (recvLinkAck half) []
  | userData (slots : PacketArray) : pa.head.type = .userData →
      userDataRecv half pa = { half with paArrayRecv := slots } →
      RecvEffect half pa { half with paArrayRecv := slots } []
  | seqCheck (seq : Nat) (sent : List Datagram) : pa.head.type = .seqCheck →
      (seq = half.seqReadMax ∨ seq = pa.head.seq) →
      (∀ datagram ∈ sent, SentBy half (IsReport half) datagram) →
      RecvEffect half pa { half with seqReadMax := seq } sent
  | seqReport (seq : Nat) (time : Timeval) : pa.head.type = .seqReport →
      (seq = half.seqCheckSend ∨ ¬ half.linkState < 2 ∧
        CmpSeqOrder half.seqCheckSend pa.head.seq half.seqMaxSend ∧ seq = pa.head.seq) →
      RecvEffect half pa { half with seqCheckSend := seq, timeoutCheckLack := time } []
  | seqLack (slots : PacketArray) (flag : Bool) (sent : List Datagram) :
      pa.head.type = .seqLack → (∀ slot, SameData (slots slot) (half.paArraySend slot)) →
      (∀ datagram ∈ sent, Retransmitted half (Bytes.ushorts pa.buf) datagram) →
      RecvEffect half pa { half with paArraySend := slots, prioritySendLack := flag } sent
  | linkFin : pa.head.type = .linkFin →
      RecvEffect half pa (recvLinkFin half).1 (recvLinkFin half).2
  | defaultNull : pa.head.type = .defaultNull → RecvEffect half pa half []

theorem threadRecv_effect {pslink after : Link} {pa : PacketAll} {now : Timeval}
    {sent : List Datagram} (ran : threadRecv pslink pa now = some (after, sent)) :
    RecvEffect (pslink.heard pa) pa after sent := by
  unfold threadRecv at ran
  dsimp only at ran
  have half : { recvHalfOpen pslink pa with
      timeout := { (recvHalfOpen pslink pa).timeout with tvSec := 0 } } = pslink.heard pa := rfl
  rw [half] at ran
  clear half
  generalize pslink.heard pa = half at ran
  cases type : pa.head.type with
  | linkSyn =>
      simp only [type, Option.some.injEq] at ran
      have effect := @RecvEffect.linkSyn half pa type
      rwa [ran] at effect
  | linkSynAck =>
      simp only [type, Option.some.injEq] at ran
      have effect := @RecvEffect.linkSynAck half pa type
      rwa [ran] at effect
  | linkAck =>
      simp only [type, Option.some.injEq, Prod.mk.injEq] at ran
      obtain ⟨rfl, rfl⟩ := ran
      exact .linkAck type
  | userData =>
      simp only [type, Option.some.injEq, Prod.mk.injEq] at ran
      obtain ⟨rfl, rfl⟩ := ran
      obtain ⟨slots, frame⟩ := userDataRecv_frame half pa
      rw [frame]
      exact .userData slots type frame
  | seqCheck =>
      simp only [type] at ran
      obtain ⟨⟨seq, rfl, kept⟩, kinds⟩ := seqCheckAck_effect ran
      exact .seqCheck seq sent type kept kinds
  | seqReport =>
      simp only [type, Option.some.injEq, Prod.mk.injEq] at ran
      obtain ⟨rfl, rfl⟩ := ran
      obtain ⟨seq, time, frame, moved⟩ := seqReportAck_effect half pa now
      rw [frame]
      exact .seqReport seq time type moved
  | seqLack =>
      simp only [type] at ran
      obtain ⟨⟨slots, flag, rfl, -, kept⟩, kinds⟩ := seqLackAck_effect ran
      exact .seqLack slots flag sent type kept kinds
  | linkFin =>
      simp only [type, Option.some.injEq] at ran
      have effect := @RecvEffect.linkFin half pa type
      rwa [ran] at effect
  | defaultNull =>
      simp only [type, Option.some.injEq, Prod.mk.injEq] at ran
      obtain ⟨rfl, rfl⟩ := ran
      exact .defaultNull type

theorem threadRecv_sending {pslink after : Link} {pa : PacketAll} {now : Timeval}
    {sent : List Datagram} (ran : threadRecv pslink pa now = some (after, sent)) :
    SendingKept pslink after pa := by
  have opened : (pslink.heard pa).seqMaxSend = pslink.seqMaxSend ∧
      (pslink.heard pa).seqCheckSend = pslink.seqCheckSend ∧
      (pslink.heard pa).paArraySend = pslink.paArraySend := recvHalfOpen_sending pslink pa
  have effect := threadRecv_effect ran
  generalize pslink.heard pa = half at opened effect
  obtain ⟨maxSame, checkSame, arraySame⟩ := opened
  cases effect with
  | linkSyn =>
      have kept := recvLinkSyn_sending half pa
      exact .of_eq ⟨kept.1.trans maxSame, kept.2.1.trans checkSame, kept.2.2.trans arraySame⟩
  | linkSynAck =>
      have kept := recvLinkSynAck_sending half pa
      exact .of_eq ⟨kept.1.trans maxSame, kept.2.1.trans checkSame, kept.2.2.trans arraySame⟩
  | linkAck =>
      unfold recvLinkAck
      split <;> exact .of_eq ⟨maxSame, checkSame, arraySame⟩
  | seqReport seq time _ moved =>
      refine ⟨maxSame, fun slot => by rw [← arraySame]; exact .refl _, ?_⟩
      rw [← checkSame, ← maxSame]
      exact moved.imp_right And.right
  | seqLack slots _ _ _ kept =>
      exact ⟨maxSame, fun slot => by rw [← arraySame]; exact kept slot, .inl checkSame⟩
  | userData | seqCheck | linkFin | defaultNull =>
      exact .of_eq ⟨maxSame, checkSame, arraySame⟩

/-- The three ways `exSend` can go: it does not touch the link, it writes a
packet that `sendto` refuses, or it sends the packet. -/
theorem exSend_cases (pslink : Link) (buf : List UInt8) (sendtoOk : Bool) :
    (∃ back, exSend pslink buf sendtoOk = (pslink, [], back) ∧
      ∀ count, back = .bytes count → count = 0) ∨
    (0 < buf.length ∧ buf.length ≤ maxPacketDataSize ∧
      (pslink.seqMaxSend + 1) % maxPacketNumber ≠ pslink.seqCheckSend % maxPacketNumber ∧
      ((sendtoOk = false ∧ exSend pslink buf sendtoOk =
          ({ pslink with paArraySend := pslink.writeUser buf }, [], .bytes 0)) ∨
        (sendtoOk = true ∧ exSend pslink buf sendtoOk =
          ({ pslink with
              paArraySend := pslink.writeUser buf
              seqMaxSend := (pslink.seqMaxSend + 1) % maxPacketSeq },
            [pslink.message (pslink.userPacket buf) (pslink.userPacket buf).len],
            .bytes buf.length)))) := by
  unfold exSend
  split
  · exact .inl ⟨.error, rfl, by simp⟩
  · next sized =>
    split
    · next windowOpen =>
      refine .inr ⟨by omega, by omega, windowOpen.2, ?_⟩
      cases sendtoOk with
      | false => exact .inl ⟨rfl, rfl⟩
      | true => exact .inr ⟨rfl, rfl⟩
    · split
      · exact .inl ⟨.bytes 0, rfl, by simp [eq_comm]⟩
      · exact .inl ⟨.wait, rfl, by simp⟩

/-- Reading either takes the packet at `SeqRead` or only reports. -/
inductive ReadEffect (pslink : Link) : Link → List Datagram → Option (List UInt8) → Prop where
  | report {after : Link} {sent : List Datagram} :
      (∃ time, after = { pslink with timeoutReportLack := time }) →
      (∀ datagram ∈ sent, SentBy pslink (fun pa => IsReport pslink pa ∨ IsLack pa) datagram) →
      ReadEffect pslink after sent none
  | take (length : Nat) :
      pslink.Readable pslink.seqRead →
      (lenPacketHead ≤ (pslink.paArrayRecv (slotOf pslink.seqRead)).len →
        (pslink.paArrayRecv (slotOf pslink.seqRead)).len ≤ maxPacketSize →
        length = (pslink.paArrayRecv (slotOf pslink.seqRead)).len - lenPacketHead) →
      ReadEffect pslink pslink.consume []
        (some ((pslink.paArrayRecv (slotOf pslink.seqRead)).buf.take length))

theorem exRecv_effect {pslink after : Link} {now : Timeval} {sent : List Datagram}
    {data : Option (List UInt8)} (ran : exRecv pslink now = some (after, sent, data)) :
    ReadEffect pslink after sent data := by
  unfold exRecv at ran
  split at ran
  · next readable =>
    dsimp only at ran
    split at ran
    · cases ran
    · next short =>
      cases ran
      refine .take _ readable ?_
      intro headed fits
      simp only [maxPacketDataSize, lenPacketHead, maxPacketSize] at *
      omega
  · obtain ⟨⟨reported, sentReport⟩, ranReport, equal⟩ := Option.map_eq_some_iff.mp ran
    cases equal
    obtain ⟨frame, kinds⟩ := seqReport_effect ranReport
    exact .report frame kinds

theorem sendToMsgQueue_effect {pslink after : Link} {now : Timeval} {msgsndOk : Bool}
    {sent : List Datagram} {data : Option (List UInt8)}
    (ran : sendToMsgQueue pslink now msgsndOk = some (after, sent, data)) :
    ReadEffect pslink after sent data := by
  unfold sendToMsgQueue at ran
  dsimp only at ran
  split at ran
  · cases ran
    exact .report ⟨pslink.timeoutReportLack, rfl⟩ (by simp)
  · split at ran
    · next readable =>
      cases ran
      exact .take _ readable.1 fun _ _ => rfl
    · obtain ⟨⟨reported, sentReport⟩, ranReport, equal⟩ := Option.map_eq_some_iff.mp ran
      cases equal
      obtain ⟨frame, kinds⟩ := seqReport_effect ranReport
      exact .report frame kinds

end UtilsModules.Udp

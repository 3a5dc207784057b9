import UtilsModules.Library.Transition
import UtilsModules.Udp.Reception

/-!
All calls that can reach one link, as one labelled step.

A received datagram is any string of bytes.  A step is refused (`none`) when
the link is deleted or the process does not come back.
-/

namespace UtilsModules.Udp

/-- A call on the link, with what the environment answers. -/
inductive LinkCall where
  | exSend (buf : List UInt8) (sendtoOk : Bool)
  | exRecv (now : Timeval)
  | sendToMsgQueue (now : Timeval) (msgsndOk : Bool)
  | seqCheck (listenLinkInterval : Int) (timeListen now : Timeval)
  | setWaitTime (milliseconds : Int)
  | recv (received : List UInt8) (now : Timeval)

/-- The link after a call, what it sent, and what the user got back. -/
structure Outcome where
  link : Link
  sent : List Datagram
  sendReturn : Option SendReturn
  delivered : Option (List UInt8)

def Link.call (pslink : Link) : LinkCall → Option Outcome
  | .exSend buf sendtoOk =>
      let result := Udp.exSend pslink buf sendtoOk
      some ⟨result.1, result.2.1, some result.2.2, none⟩
  | .exRecv now =>
      (Udp.exRecv pslink now).map fun (after, sent, data) => ⟨after, sent, none, data⟩
  | .sendToMsgQueue now msgsndOk =>
      (Udp.sendToMsgQueue pslink now msgsndOk).map fun (after, sent, data) =>
        ⟨after, sent, none, data⟩
  | .seqCheck listenLinkInterval timeListen now =>
      let result := Udp.seqCheck listenLinkInterval timeListen pslink now
      some ⟨result.1, result.2, none, none⟩
  | .setWaitTime milliseconds => some ⟨{ pslink with tsWaitTime := milliseconds }, [], none, none⟩
  | .recv received now =>
      (threadRecvBytes (some pslink) none received now).bind fun (after, sent) =>
        after.map fun after => ⟨after, sent, none, none⟩

def Link.step (pslink : Link) (call : LinkCall) : Option Link :=
  (pslink.call call).map Outcome.link

def LinkCall.packet : LinkCall → Option PacketAll
  | .recv received _ =>
      match PacketAll.ofBytes received with
      | some pa => if RecvChecks pa then some pa else none
      | none => none
  | _ => none

/-- A received string of bytes is dropped, or is a packet that passes the
checks and is handled by the receiving thread. -/
theorem call_recv_cases {pslink : Link} {received : List UInt8} {now : Timeval} {out : Outcome}
    (called : pslink.call (.recv received now) = some out) :
    (out = ⟨pslink, [], none, none⟩ ∧
        ∀ pa, PacketAll.ofBytes received = some pa → ¬ RecvChecks pa) ∨
      ∃ pa, PacketAll.ofBytes received = some pa ∧ RecvChecks pa ∧
        threadRecv pslink pa now = some (out.link, out.sent) ∧ out.link.linkState ≠ -1 ∧
        out.sendReturn = none ∧ out.delivered = none := by
  simp only [Link.call, threadRecvBytes] at called
  split at called
  · next unparsed =>
    cases called
    exact .inl ⟨rfl, fun pa parsed => by rw [unparsed] at parsed; cases parsed⟩
  · next pa parsed =>
    split at called
    · next checks =>
      simp only [getLink, Option.bind_map, Option.bind_eq_some_iff, Function.comp_apply] at called
      obtain ⟨⟨after, sent⟩, ran, equal⟩ := called
      split at equal
      · cases equal
      · next alive =>
        cases equal
        exact .inr ⟨pa, parsed, checks, ran, alive, rfl, rfl⟩
    · next refused =>
      cases called
      refine .inl ⟨rfl, fun other otherParsed => ?_⟩
      obtain rfl := Option.some.inj (parsed.symm.trans otherParsed)
      exact refused

/-- What a call does to a link, apart from the send array: it leaves the
receiving half alone, reads a packet, or handles a received one. -/
inductive CallEffect (pslink : Link) (call : LinkCall) (out : Outcome) : Prop where
  | quiet : call.packet = none → out.delivered = none →
      out.link.receivingHalf = pslink.receivingHalf →
      out.link.seqReadMax = pslink.seqReadMax → out.link.seqCheckSend = pslink.seqCheckSend →
      out.link.seqMaxSend = pslink.seqMaxSend ∨
        out.link.seqMaxSend = (pslink.seqMaxSend + 1) % maxPacketSeq →
      CallEffect pslink call out
  | read (length : Nat) : call.packet = none → pslink.Readable pslink.seqRead →
      out.link = pslink.consume →
      (lenPacketHead ≤ (pslink.paArrayRecv (slotOf pslink.seqRead)).len →
        (pslink.paArrayRecv (slotOf pslink.seqRead)).len ≤ maxPacketSize →
        length = (pslink.paArrayRecv (slotOf pslink.seqRead)).len - lenPacketHead) →
      out.delivered = some ((pslink.paArrayRecv (slotOf pslink.seqRead)).buf.take length) →
      CallEffect pslink call out
  | recv (pa : PacketAll) (now : Timeval) : call.packet = some pa → RecvChecks pa →
      threadRecv pslink pa now = some (out.link, out.sent) → out.link.linkState ≠ -1 →
      out.delivered = none → CallEffect pslink call out

theorem callEffect_read {pslink : Link} {call : LinkCall} {after : Link} {sent : List Datagram}
    {data : Option (List UInt8)} (effect : ReadEffect pslink after sent data)
    (nothing : call.packet = none) : CallEffect pslink call ⟨after, sent, none, data⟩ := by
  cases effect with
  | report frame =>
      obtain ⟨time, rfl⟩ := frame
      exact .quiet nothing rfl rfl rfl rfl (.inl rfl)
  | take length readable short => exact .read length nothing readable rfl short rfl

theorem callEffect_exSend (pslink : Link) (buf : List UInt8) (sendtoOk : Bool) :
    CallEffect pslink (.exSend buf sendtoOk) ⟨(exSend pslink buf sendtoOk).1,
      (exSend pslink buf sendtoOk).2.1, some (exSend pslink buf sendtoOk).2.2, none⟩ := by
  rcases exSend_cases pslink buf sendtoOk with
    ⟨back, equal, -⟩ | ⟨-, -, -, ⟨-, equal⟩ | ⟨-, equal⟩⟩
  · rw [equal]
    exact .quiet rfl rfl rfl rfl rfl (.inl rfl)
  · rw [equal]
    exact .quiet rfl rfl rfl rfl rfl (.inl rfl)
  · rw [equal]
    exact .quiet rfl rfl rfl rfl rfl (.inr rfl)

theorem callEffect {pslink : Link} {call : LinkCall} {out : Outcome}
    (called : pslink.call call = some out) : CallEffect pslink call out := by
  cases call with
  | exSend buf sendtoOk =>
      obtain rfl := Option.some.inj called
      exact callEffect_exSend pslink buf sendtoOk
  | exRecv now =>
      obtain ⟨⟨after, sent, data⟩, ran, rfl⟩ := Option.map_eq_some_iff.mp called
      exact callEffect_read (exRecv_effect ran) rfl
  | sendToMsgQueue now msgsndOk =>
      obtain ⟨⟨after, sent, data⟩, ran, rfl⟩ := Option.map_eq_some_iff.mp called
      exact callEffect_read (sendToMsgQueue_effect ran) rfl
  | seqCheck interval timeListen now =>
      obtain rfl := Option.some.inj called
      obtain ⟨⟨time, frame⟩, -⟩ := seqCheck_effect interval timeListen pslink now
      refine .quiet rfl rfl ?_ ?_ ?_ (.inl ?_)
      all_goals simp only [frame]
      rfl
  | setWaitTime milliseconds =>
      obtain rfl := Option.some.inj called
      exact .quiet rfl rfl rfl rfl rfl (.inl rfl)
  | recv received now =>
      rcases call_recv_cases called with
        ⟨rfl, refused⟩ | ⟨pa, parsed, checks, ran, alive, -, nothing⟩
      · refine .quiet ?_ rfl rfl rfl rfl (.inl rfl)
        cases parsed : PacketAll.ofBytes received with
        | none => simp [LinkCall.packet, parsed]
        | some pa => simp [LinkCall.packet, parsed, refused pa parsed]
      · exact .recv pa now (by simp [LinkCall.packet, parsed, checks]) checks ran alive nothing

structure SameTimers (after before : Link) : Prop where
  timeout : after.timeout = before.timeout
  timeoutTimes : after.timeoutTimes = before.timeoutTimes
  timeoutCheckLack : after.timeoutCheckLack = before.timeoutCheckLack

/-- Once the stamp has been cleared, a received packet leaves the timers alone,
except for a `SEQ_REPORT`. -/
theorem threadRecv_timers {pslink after : Link} {pa : PacketAll} {now : Timeval}
    {sent : List Datagram} (ran : threadRecv pslink pa now = some (after, sent)) :
    SameTimers after (pslink.heard pa) ∨ after = seqReportAck (pslink.heard pa) pa now := by
  by_cases type : pa.head.type = .seqReport
  · right
    unfold threadRecv at ran
    simp only [type, Option.some.injEq, Prod.mk.injEq] at ran
    exact ran.1.symm
  · left
    have effect := threadRecv_effect ran
    generalize pslink.heard pa = half at effect
    cases effect with
    | linkSyn =>
        unfold recvLinkSyn
        dsimp only
        split <;> split <;> exact ⟨rfl, rfl, rfl⟩
    | linkSynAck =>
        unfold recvLinkSynAck
        dsimp only
        split <;> split <;> exact ⟨rfl, rfl, rfl⟩
    | linkAck =>
        unfold recvLinkAck
        split <;> exact ⟨rfl, rfl, rfl⟩
    | seqReport _ _ report => exact absurd report type
    | userData | seqCheck | seqLack | linkFin | defaultNull => exact ⟨rfl, rfl, rfl⟩

theorem readEffect_timers {pslink after : Link} {sent : List Datagram}
    {data : Option (List UInt8)} (effect : ReadEffect pslink after sent data) :
    SameTimers after pslink := by
  cases effect with
  | report frame =>
      obtain ⟨time, rfl⟩ := frame
      exact ⟨rfl, rfl, rfl⟩
  | take => exact ⟨rfl, rfl, rfl⟩

theorem call_timers {pslink : Link} {call : LinkCall} {out : Outcome}
    (called : pslink.call call = some out) :
    SameTimers out.link pslink ∨
      ∃ pa now, threadRecv pslink pa now = some (out.link, out.sent) := by
  cases call with
  | exSend buf sendtoOk =>
      obtain rfl := Option.some.inj called
      rcases exSend_cases pslink buf sendtoOk with
        ⟨back, equal, -⟩ | ⟨-, -, -, ⟨-, equal⟩ | ⟨-, equal⟩⟩ <;>
      · rw [equal]
        exact .inl ⟨rfl, rfl, rfl⟩
  | exRecv now =>
      obtain ⟨⟨after, sent, data⟩, ran, rfl⟩ := Option.map_eq_some_iff.mp called
      exact .inl (readEffect_timers (exRecv_effect ran))
  | sendToMsgQueue now msgsndOk =>
      obtain ⟨⟨after, sent, data⟩, ran, rfl⟩ := Option.map_eq_some_iff.mp called
      exact .inl (readEffect_timers (sendToMsgQueue_effect ran))
  | seqCheck interval timeListen now =>
      obtain rfl := Option.some.inj called
      obtain ⟨⟨time, frame⟩, -⟩ := seqCheck_effect interval timeListen pslink now
      rw [frame]
      exact .inl ⟨rfl, rfl, rfl⟩
  | setWaitTime milliseconds =>
      obtain rfl := Option.some.inj called
      exact .inl ⟨rfl, rfl, rfl⟩
  | recv received now =>
      rcases call_recv_cases called with ⟨rfl, -⟩ | ⟨pa, -, -, ran, -⟩
      · exact .inl ⟨rfl, rfl, rfl⟩
      · exact .inr ⟨pa, now, ran⟩

end UtilsModules.Udp

import UtilsModules.Udp.LinkRun
import UtilsModules.Udp.Sending

/-!
The sender's window over whole runs of a link, under any received bytes.

`SendLog` pairs the link with a record of what `exSend` stored for each
sequence number.  The window never closes up or fills the ring, and every
unacknowledged packet is still in its slot.
-/

namespace UtilsModules.Udp

open Circular

/-- A link and, for each sequence number, the bytes of the last `exSend` that
was given this number and returned their count. -/
structure SendLog where
  link : Link
  stored : Nat → List UInt8

namespace SendLog

def note (log : SendLog) (call : LinkCall) (out : Outcome) : SendLog where
  link := out.link
  stored :=
    match call, out.sendReturn with
    | .exSend buf _, some (.bytes count) =>
        if 0 < count then Function.update log.stored log.link.seqMaxSend buf else log.stored
    | _, _ => log.stored

def step (log : SendLog) (call : LinkCall) : Option SendLog :=
  (log.link.call call).map (log.note call)

end SendLog

/-- The sequence number lies strictly between `SeqCheckSend` and `SeqMaxSend`
on the circle. -/
def Link.Outstanding (pslink : Link) (seq : Nat) : Prop :=
  seq < maxPacketSeq ∧ 0 < ahead maxPacketSeq seq pslink.seqCheckSend ∧
    ahead maxPacketSeq seq pslink.seqCheckSend <
      ahead maxPacketSeq pslink.seqMaxSend pslink.seqCheckSend

def Link.unacknowledged (pslink : Link) : Set (Nat × List UInt8) :=
  { entry | pslink.Outstanding entry.1 ∧
    (pslink.paArraySend (slotOf entry.1)).payload = entry.2 }

/-- The log in unbounded numbers. -/
def SendLog.Inv (log : SendLog) : Prop :=
  ∃ check max, Sending log.link check max fun number => log.stored (number % maxPacketSeq)

theorem outstanding_iff {pslink : Link} {check max : Nat} {data : Nat → List UInt8}
    (sending : Sending pslink check max data) (seq : Nat) :
    pslink.Outstanding seq ↔
      ∃ number, check < number ∧ number < max ∧ number % maxPacketSeq = seq := by
  have checkBound := sending.seqCheckSend_lt
  unfold Link.Outstanding
  rw [sending.ahead_max]
  constructor
  · rintro ⟨bounded, positive, below⟩
    refine ⟨check + ahead maxPacketSeq seq pslink.seqCheckSend, by omega, by omega, ?_⟩
    conv_rhs => rw [← add_ahead_mod bounded checkBound]
    rw [sending.seqCheckSend, Nat.mod_add_mod]
  · rintro ⟨number, above, below, rfl⟩
    have window := sending.window
    have distance : ahead maxPacketSeq (number % maxPacketSeq) pslink.seqCheckSend =
        number - check := by
      rw [sending.seqCheckSend]
      exact ahead_mod (by omega) (by simp only [maxPacketNumber_eq, maxPacketSeq_eq] at *; omega)
    rw [distance]
    exact ⟨mod_maxPacketSeq_lt _, by omega, by omega⟩

theorem inv_addList (id socket : Nat) (tsWaitTime : Int) (now : Timeval)
    (stored : Nat → List UInt8) : SendLog.Inv ⟨addList id socket tsWaitTime now, stored⟩ := by
  refine ⟨0, 1, rfl, rfl, by decide, by decide, ?_⟩
  intro number above below
  omega

theorem inv_of_kept {log : SendLog} (inv : log.Inv) {after : Link} {pa : PacketAll}
    (bounded : pa.head.seq < maxPacketSeq) (kept : SendingKept log.link after pa) :
    SendLog.Inv ⟨after, log.stored⟩ := by
  obtain ⟨check, max, sending⟩ := inv
  obtain ⟨number, -, moved⟩ := sending.of_kept bounded kept
  exact ⟨number, max, moved⟩

theorem inv_of_same {log : SendLog} (inv : log.Inv) {after : Link}
    (maxSame : after.seqMaxSend = log.link.seqMaxSend)
    (checkSame : after.seqCheckSend = log.link.seqCheckSend)
    (arraySame : after.paArraySend = log.link.paArraySend) :
    SendLog.Inv ⟨after, log.stored⟩ :=
  @inv_of_kept log inv after .cleared (by decide) (.of_eq ⟨maxSame, checkSame, arraySame⟩)

theorem inv_exSend {log : SendLog} (inv : log.Inv) (buf : List UInt8) (sendtoOk : Bool) :
    (log.note (.exSend buf sendtoOk)
      ⟨(exSend log.link buf sendtoOk).1, (exSend log.link buf sendtoOk).2.1,
        some (exSend log.link buf sendtoOk).2.2, none⟩).Inv := by
  obtain ⟨check, max, sending⟩ := inv
  rcases exSend_cases log.link buf sendtoOk with
    ⟨back, equal, zero⟩ | ⟨nonempty, fits, notFull, ⟨-, equal⟩ | ⟨-, equal⟩⟩
  · rw [equal]
    refine ⟨check, max, ?_⟩
    cases back with
    | error => exact sending
    | wait => exact sending
    | bytes count =>
        obtain rfl := zero count rfl
        exact sending
  · rw [equal]
    exact ⟨check, max, sending.refused buf⟩
  · rw [equal]
    simp only [SendLog.note, if_pos nonempty]
    refine ⟨check, max + 1, sending.sent nonempty fits notFull ?_ ?_⟩
    · intro number above below
      -- a window is shorter than the sequence space, so the new number hides no older one
      have distinct : number % maxPacketSeq ≠ log.link.seqMaxSend := by
        have window := sending.window
        rw [sending.seqMaxSend]
        simp only [maxPacketNumber_eq, maxPacketSeq_eq] at *
        omega
      exact Function.update_of_ne distinct _ _
    · rw [← sending.seqMaxSend]
      exact Function.update_self _ _ _

theorem inv_read {log : SendLog} (inv : log.Inv) {after : Link} {sent : List Datagram}
    {data : Option (List UInt8)} (effect : ReadEffect log.link after sent data) :
    SendLog.Inv ⟨after, log.stored⟩ := by
  cases effect with
  | report frame =>
      obtain ⟨time, rfl⟩ := frame
      exact inv_of_same inv rfl rfl rfl
  | take => exact inv_of_same inv rfl rfl rfl

theorem inv_step (log : SendLog) (call : LinkCall) (after : SendLog) (inv : log.Inv)
    (stepped : log.step call = some after) : after.Inv := by
  obtain ⟨out, called, rfl⟩ := Option.map_eq_some_iff.mp stepped
  cases call with
  | exSend buf sendtoOk =>
      cases called
      exact inv_exSend inv buf sendtoOk
  | exRecv now =>
      obtain ⟨⟨link, sent, data⟩, ran, rfl⟩ := Option.map_eq_some_iff.mp called
      exact inv_read inv (exRecv_effect ran)
  | sendToMsgQueue now msgsndOk =>
      obtain ⟨⟨link, sent, data⟩, ran, rfl⟩ := Option.map_eq_some_iff.mp called
      exact inv_read inv (sendToMsgQueue_effect ran)
  | seqCheck interval timeListen now =>
      obtain rfl := Option.some.inj called
      obtain ⟨⟨time, frame⟩, -⟩ := seqCheck_effect interval timeListen log.link now
      simp only [SendLog.note, frame]
      exact inv_of_same inv rfl rfl rfl
  | setWaitTime milliseconds =>
      cases called
      exact inv_of_same inv rfl rfl rfl
  | recv received now =>
      rcases call_recv_cases called with ⟨rfl, -⟩ | ⟨pa, -, checks, ran, -⟩
      · exact inv
      · exact inv_of_kept inv checks.seq_lt (threadRecv_sending ran)

theorem unacknowledged_exSend_zero {pslink : Link} {check max : Nat} {data : Nat → List UInt8}
    (sending : Sending pslink check max data) {buf : List UInt8} {sendtoOk : Bool}
    (zero : (exSend pslink buf sendtoOk).2.2 = .bytes 0) :
    (exSend pslink buf sendtoOk).1.unacknowledged = pslink.unacknowledged := by
  rcases exSend_cases pslink buf sendtoOk with
    ⟨back, equal, -⟩ | ⟨nonempty, -, -, ⟨-, equal⟩ | ⟨-, equal⟩⟩
  · rw [equal]
  · rw [equal]
    ext entry
    refine and_congr_right fun outstanding => ?_
    obtain ⟨number, above, below, residue⟩ := (outstanding_iff sending entry.1).mp outstanding
    dsimp only
    rw [← residue, slotOf_mod, sending.stored_writeUser_of_ne buf above below]
  · rw [equal] at zero
    simp only [SendReturn.bytes.injEq] at zero
    omega

/-- Window and retention: in every run of a link made by `add_list`, under any
calls and any received bytes, the window has between 1 and
`MAX_PACKET_NUMBER - 1` numbers, every number strictly inside it is still in
its slot with the bytes and length `exSend` stored for it, and an `exSend` that
returns 0 changes none of the unacknowledged packets. -/
theorem sender_window_retained (id socket : Nat) (tsWaitTime : Int) (now : Timeval)
    (stored : Nat → List UInt8) (calls : List LinkCall) (log : SendLog)
    (ran : Transition.run SendLog.step ⟨addList id socket tsWaitTime now, stored⟩ calls =
      some log) :
    (1 ≤ (log.link.seqMaxSend + maxPacketSeq - log.link.seqCheckSend) % maxPacketSeq ∧
      (log.link.seqMaxSend + maxPacketSeq - log.link.seqCheckSend) % maxPacketSeq ≤
        maxPacketNumber - 1) ∧
      (∀ seq, log.link.Outstanding seq →
        (log.link.paArraySend (slotOf seq)).head.seq = seq ∧
        (log.link.paArraySend (slotOf seq)).head.type = .userData ∧
        (log.link.paArraySend (slotOf seq)).payload = log.stored seq ∧
        (log.link.paArraySend (slotOf seq)).len = lenPacketHead + (log.stored seq).length) ∧
      ∀ buf sendtoOk, (exSend log.link buf sendtoOk).2.2 = .bytes 0 →
        (exSend log.link buf sendtoOk).1.unacknowledged = log.link.unacknowledged := by
  obtain ⟨check, max, sending⟩ := Transition.run_invariant SendLog.step inv_step
    (inv_addList id socket tsWaitTime now stored) ran
  have distance := sending.ahead_max
  have opened := sending.opened
  have window := sending.window
  refine ⟨?_, ?_, fun buf sendtoOk zero => unacknowledged_exSend_zero sending zero⟩
  · unfold ahead at distance
    rw [distance]
    exact ⟨by omega, by omega⟩
  · intro seq outstanding
    obtain ⟨number, above, below, rfl⟩ := (outstanding_iff sending seq).mp outstanding
    have holds := sending.stored number above below
    rw [slotOf_mod]
    exact ⟨holds.seq, holds.type, holds.payload, holds.len⟩

/-- Two packets sent, a `LINK_ACK`, an acknowledgement of the first packet and a
refused third one. -/
def acknowledgedCalls : List LinkCall :=
  [.exSend [7] true, .exSend [8, 9] true, .recv [3, 0, 0, 0, 0, 0, 0, 0] .zero,
    .recv [6, 2, 1, 0, 0, 0, 0, 0] .zero, .exSend [10] false]

theorem sender_window_retained_acknowledged :
    ∃ log, Transition.run SendLog.step ⟨addList 0 3 0 .zero, fun _ => []⟩ acknowledgedCalls =
        some log ∧
      log.link.seqCheckSend = 1 ∧ log.link.seqMaxSend = 3 ∧
      (log.link.paArraySend (slotOf 2)).payload = log.stored 2 ∧ log.stored 2 = [8, 9] :=
  ⟨_, rfl, rfl, rfl,
    ((sender_window_retained 0 3 0 .zero (fun _ => []) acknowledgedCalls _ rfl).2.1 2
      (by unfold Link.Outstanding; decide)).2.2.1, rfl⟩

end UtilsModules.Udp

import UtilsModules.Udp.Delivery

/-!
Recovery from loss.

One round of check, report, request and retransmission, with nothing lost in
it, leaves the receiver with every packet the sender has sent.  The lemmas
follow the round: what the receiver asks for, what the sender repeats, and what
the receiver then holds.
-/

namespace UtilsModules.Udp

open Bytes Circular

def receiveAll (now : Timeval) : Link → List Datagram → Option (Link × List Datagram)
  | pslink, [] => some (pslink, [])
  | pslink, datagram :: rest => do
      let (pslink, sent) ←
        if RecvChecks datagram.packet then threadRecv pslink datagram.packet now
        else some (pslink, [])
      let (pslink, later) ← receiveAll now pslink rest
      return (pslink, sent ++ later)

structure RoundClock where
  check : Timeval
  arrival : Timeval
  report : Timeval
  answer : Timeval
  repair : Timeval

/-- One recovery round: `SeqCheck` at the sender, its datagram at the receiver,
`SeqReport` there, the reports at the sender, the retransmissions at the
receiver.  `withTime` is whether the report `SeqCheckAck` sends on its own also
arrives. -/
def recoveryRound (interval : Int) (timeListen : Timeval) (clock : RoundClock) (withTime : Bool)
    (sender receiver : Link) : Option (Link × Link) := do
  let (sender, checks) := seqCheck interval timeListen sender clock.check
  let (receiver, timed) ← receiveAll clock.arrival receiver checks
  let (receiver, reports) ← seqReport receiver clock.report
  let (sender, again) ←
    receiveAll clock.answer sender (if withTime then timed ++ reports else reports)
  let (receiver, _) ← receiveAll clock.repair receiver again
  return (sender, receiver)

/-! ## What the receiver asks for -/

/-- The numbers from `read` to below `max` that are not readable. -/
def Link.missing (pslink : Link) (read max : Nat) : List Nat :=
  (List.range' read (max - read)).filter fun number => ¬ pslink.Readable (number % maxPacketSeq)

theorem mem_missing {pslink : Link} {read max number : Nat} :
    number ∈ pslink.missing read max ↔
      read ≤ number ∧ number < max ∧ ¬ pslink.Readable (number % maxPacketSeq) := by
  simp only [Link.missing, List.mem_filter, List.mem_range'_1, decide_eq_true_eq]
  constructor
  · rintro ⟨⟨above, below⟩, lost⟩
    exact ⟨above, by omega, lost⟩
  · rintro ⟨above, below, lost⟩
    exact ⟨⟨above, by omega⟩, lost⟩

theorem missing_length_le (pslink : Link) (read max : Nat) :
    (pslink.missing read max).length ≤ max - read :=
  (List.length_filter_le _ _).trans_eq (List.length_range' ..)

theorem missing_few (pslink : Link) {read max : Nat} (window : max < read + maxPacketNumber) :
    (pslink.missing read max).length * 2 < maxPacketDataSize := by
  have counted := missing_length_le pslink read max
  simp only [maxPacketNumber_eq, maxPacketDataSize] at *
  omega

theorem missing_succ {pslink : Link} {read max : Nat} (below : read < max) :
    pslink.missing read max =
      (if pslink.Readable (read % maxPacketSeq) then [] else [read]) ++
        pslink.missing (read + 1) max := by
  unfold Link.missing
  have length : max - read = (max - (read + 1)) + 1 := by omega
  rw [length, List.range'_succ, List.filter_cons]
  split
  · next missing =>
    rw [if_neg (of_decide_eq_true missing)]
    rfl
  · next readable =>
    rw [if_pos (by simpa using readable)]
    rfl

theorem seqLackTurn_of_room (pslink : Link) (lack : List Nat) (seqReadLast : Nat)
    (room : (lack.length + 1) * 2 < maxPacketDataSize) :
    seqLackTurn pslink ⟨lack.length, lack, []⟩ seqReadLast =
      if pslink.Readable seqReadLast then ⟨lack.length, lack, []⟩
      else ⟨(lack ++ [seqReadLast]).length, lack ++ [seqReadLast], []⟩ := by
  unfold seqLackTurn
  split
  · rfl
  · dsimp only
    rw [if_neg, List.length_append, List.length_singleton]
    rw [Nat.mod_eq_of_lt room]
    omega

theorem seqLackLoop_missing {pslink : Link} {max : Nat}
    (limit : pslink.seqReadMax = max % maxPacketSeq) {fuel read : Nat} {lack : List Nat}
    (below : read < max) (near : max < read + maxPacketNumber) (enough : max - read ≤ fuel)
    (room : (lack.length + (max - read)) * 2 < maxPacketDataSize) :
    seqLackLoop pslink fuel (read % maxPacketSeq) ⟨lack.length, lack, []⟩ =
      some ⟨(lack ++ (pslink.missing read max).map (· % maxPacketSeq)).length,
        lack ++ (pslink.missing read max).map (· % maxPacketSeq), []⟩ := by
  induction fuel generalizing read lack with
  | zero => omega
  | succ fuel inductionHypothesis =>
      simp only [seqLackLoop]
      rw [seqLackTurn_of_room pslink lack _ (by omega), missing_succ below, succ_mod_mod, limit]
      by_cases ended : read + 1 = max
      · have nothing : pslink.missing (read + 1) max = [] := by
          simp [Link.missing, ended]
        rw [if_neg (by rw [ended]; simp), nothing]
        by_cases readable : pslink.Readable (read % maxPacketSeq)
        · simp [readable]
        · simp [readable]
      · have distinct : (read + 1) % maxPacketSeq ≠ max % maxPacketSeq := by
          simp only [maxPacketNumber_eq, maxPacketSeq_eq] at *
          omega
        rw [if_pos distinct]
        by_cases readable : pslink.Readable (read % maxPacketSeq)
        · rw [if_pos readable, if_pos readable,
            inductionHypothesis (by omega) (by omega) (by omega) (by omega)]
          simp
        · rw [if_neg readable, if_neg readable,
            inductionHypothesis (by omega) (by omega) (by omega) (by
              rw [List.length_append, List.length_singleton]
              omega)]
          simp

def Link.lackDatagrams (pslink : Link) (lack : List Nat) : List Datagram :=
  if lack = [] then []
  else [pslink.message (lackPacket lack) (lenPacketHead + lack.length * 2)]

theorem finish_of_room (pslink : Link) (lack : List Nat)
    (room : lack.length * 2 < maxPacketDataSize) :
    LackReport.finish pslink ⟨lack.length, lack, []⟩ = pslink.lackDatagrams lack := by
  simp only [LackReport.finish, Link.lackDatagrams, Nat.mod_eq_of_lt room, List.nil_append]
  cases lack with
  | nil => rfl
  | cons seq rest =>
      rw [if_pos (by simp), if_neg (by simp)]

theorem lackDatagrams_data (pslink : Link) {lack : List Nat} (nonempty : lack ≠ []) :
    pslink.lackDatagrams lack =
      [⟨pslink.stamp (lackPacket lack).head, lack.flatMap ushortBytes⟩] := by
  have whole : (lack.flatMap ushortBytes).take (lack.length * 2) = lack.flatMap ushortBytes :=
    List.take_of_length_le (by rw [length_flatMap_ushortBytes]; omega)
  simp [Link.lackDatagrams, nonempty, Link.message, lackPacket, whole]

/-- `SeqLack` outside its rate limit asks for exactly the missing numbers. -/
theorem seqLack_missing {pslink : Link} {read max : Nat} {now : Timeval}
    (cursor : pslink.seqRead = read % maxPacketSeq) (limit : pslink.seqReadMax = max % maxPacketSeq)
    (ordered : read ≤ max) (near : max < read + maxPacketNumber)
    (due : ¬ getMsDiff now pslink.timeoutReportLack < pslink.timeoutCheckLack.tvUsec.tdiv 1000) :
    ∃ after, seqLack pslink now = some (after,
        pslink.lackDatagrams ((pslink.missing read max).map (· % maxPacketSeq))) ∧
      ∃ time, after = { pslink with timeoutReportLack := time } := by
  have passes : CmpSeq pslink.seqReadMax pslink.seqRead ↔ read < max := by
    rw [cursor, limit, cmpSeq_iff_ahead (mod_maxPacketSeq_lt _) (mod_maxPacketSeq_lt _),
      ahead_mod ordered (by simp only [maxPacketNumber_eq, maxPacketSeq_eq] at *; omega)]
    omega
  unfold seqLack
  rw [if_neg due]
  by_cases same : read = max
  · subst same
    have nothing : pslink.missing read read = [] := by simp [Link.missing]
    rw [if_neg (by rw [passes]; omega), nothing]
    exact ⟨pslink, rfl, pslink.timeoutReportLack, rfl⟩
  · have counted := missing_length_le pslink read max
    rw [if_pos (by rw [passes]; omega), cursor]
    have looped := @seqLackLoop_missing pslink max limit (maxPacketSeq + 1) read [] (by omega) near
      (by simp only [maxPacketNumber_eq, maxPacketSeq_eq] at *; omega)
      (by simp only [maxPacketNumber_eq, maxPacketDataSize, List.length_nil] at *; omega)
    simp only [List.length_nil, List.nil_append] at looped
    rw [looped, Option.map_some, finish_of_room]
    · exact ⟨_, rfl, now, rfl⟩
    · simp only [List.length_map, maxPacketNumber_eq, maxPacketDataSize] at *
      omega

/-! ## What the sender repeats -/

theorem receiveAll_cons {pslink after : Link} {datagram : Datagram} {now : Timeval}
    {sent rest : List Datagram} (checks : RecvChecks datagram.packet)
    (received : threadRecv pslink datagram.packet now = some (after, sent)) :
    receiveAll now pslink (datagram :: rest) =
      (receiveAll now after rest).map fun (last, later) => (last, sent ++ later) := by
  simp only [receiveAll, if_pos checks, received, Option.bind_eq_bind, Option.bind_some]
  cases receiveAll now after rest <;> rfl

theorem receiveAll_cons_silent {pslink after : Link} {datagram : Datagram} {now : Timeval}
    {rest : List Datagram} (checks : RecvChecks datagram.packet)
    (received : threadRecv pslink datagram.packet now = some (after, [])) :
    receiveAll now pslink (datagram :: rest) = receiveAll now after rest := by
  rw [receiveAll_cons checks received]
  cases receiveAll now after rest <;> rfl

namespace Sending

variable {pslink : Link} {check max : Nat} {data : Nat → List UInt8}

theorem receive_report (sending : Sending pslink check max data) (state : pslink.linkState = 2)
    {number : Nat} (forward : check ≤ number) (below : number < max) {datagram : Datagram}
    (checks : RecvChecks datagram.packet) (type : datagram.head.type = .seqReport)
    (seq : datagram.head.seq = number % maxPacketSeq) (now : Timeval) (rest : List Datagram) :
    ∃ after, receiveAll now pslink (datagram :: rest) = receiveAll now after rest ∧
      after.linkState = 2 ∧ after.seqMaxSend = pslink.seqMaxSend ∧
      Sending after number max data := by
  have window := sending.window
  have passed : CmpSeqOrder pslink.seqCheckSend datagram.head.seq pslink.seqMaxSend := by
    rw [sending.seqCheckSend, sending.seqMaxSend, seq,
      ordered_mod_iff (by omega) window below (by omega)]
    exact forward
  have received : threadRecv pslink datagram.packet now =
      some (seqReportAck { pslink with timeout := { pslink.timeout with tvSec := 0 } }
        datagram.packet now, []) := by
    simp only [threadRecv, recvHalfOpen_of_connected state, Datagram.packet_head, type]
  refine ⟨_, receiveAll_cons_silent checks received, ?_⟩
  unfold seqReportAck seqReportAckBy
  rw [if_neg (by simp [state]), if_pos]
  · exact ⟨state, rfl, sending.acknowledge forward below seq rfl fun _ => .refl _⟩
  · exact passed

theorem seqLackAckLoop_repeats (sending : Sending pslink check max data) {numbers : List Nat}
    (inside : ∀ number ∈ numbers, check < number ∧ number < max) :
    ∃ after sent, seqLackAckLoop ((check + 1) % maxPacketSeq) pslink
        (numbers.map (· % maxPacketSeq)) = some (after, sent) ∧
      after.linkState = pslink.linkState ∧ after.seqMaxSend = pslink.seqMaxSend ∧
      List.Forall₂ (fun number datagram => Holds datagram.packet number (data number))
        numbers sent := by
  induction numbers generalizing pslink with
  | nil => exact ⟨pslink, [], rfl, rfl, rfl, .nil⟩
  | cons number rest inductionHypothesis =>
      obtain ⟨above, below⟩ := inside number (by simp)
      have window := sending.window
      have holds := sending.stored number above below
      have passed : CmpSeqOrder ((check + 1) % maxPacketSeq) (number % maxPacketSeq)
          pslink.seqMaxSend := by
        rw [sending.seqMaxSend, ordered_mod_iff (by omega) (by omega) below (by omega)]
        exact above
      let stamped : PacketArray := Function.update pslink.paArraySend (slotOf number)
        { pslink.paArraySend (slotOf number) with
          head := pslink.stamp (pslink.paArraySend (slotOf number)).head }
      have kept : Sending { pslink with paArraySend := stamped } check max data := by
        refine sending.congr rfl rfl fun slot => ?_
        by_cases here : slot = slotOf number
        · subst here
          simp only [stamped, Function.update_self]
          exact ⟨rfl, rfl, rfl, rfl⟩
        · simp only [stamped, Function.update_of_ne here]
          exact .refl _
      obtain ⟨after, sent, looped, state, maxSame, repeated⟩ :=
        inductionHypothesis kept fun other membership => inside other (by simp [membership])
      refine ⟨after, pslink.message (pslink.paArraySend (slotOf number))
        (pslink.paArraySend (slotOf number)).len :: sent, ?_, state, maxSame,
        .cons (holds.of_carries (message_carries _ _)) repeated⟩
      simp only [List.map_cons, seqLackAckLoop, if_pos (mod_maxPacketSeq_lt number), if_pos passed,
        slotOf_mod]
      rw [sendMsg_of_le _ _ (by rw [holds.len]; omega)]
      simp only [Option.bind_eq_bind, Option.bind_some]
      rw [looped]
      rfl

theorem receive_lack (sending : Sending pslink check max data) (state : pslink.linkState = 2)
    {numbers : List Nat} (inside : ∀ number ∈ numbers, check < number ∧ number < max)
    (asking : Link) (now : Timeval) (few : numbers.length * 2 < maxPacketDataSize) :
    ∃ after sent, receiveAll now pslink
        (asking.lackDatagrams (numbers.map (· % maxPacketSeq))) = some (after, sent) ∧
      after.seqMaxSend = pslink.seqMaxSend ∧
      List.Forall₂ (fun number datagram => Holds datagram.packet number (data number))
        numbers sent := by
  by_cases nothing : numbers = []
  · subst nothing
    exact ⟨pslink, [], rfl, rfl, .nil⟩
  · have bounded : ∀ seq ∈ numbers.map (· % maxPacketSeq), seq < 65536 := by
      intro seq membership
      obtain ⟨number, -, rfl⟩ := List.mem_map.mp membership
      exact (mod_maxPacketSeq_lt number).trans (by decide)
    rw [lackDatagrams_data asking (by simpa using nothing)]
    set request : Datagram := ⟨asking.stamp (lackPacket (numbers.map (· % maxPacketSeq))).head,
      (numbers.map (· % maxPacketSeq)).flatMap ushortBytes⟩ with requestEqual
    have length : request.packet.len = lenPacketHead + numbers.length * 2 := by
      simp only [requestEqual, Datagram.packet, length_flatMap_ushortBytes, List.length_map]
      omega
    have checks : RecvChecks request.packet := by
      refine ⟨?_, by simp [requestEqual, Datagram.packet, Link.stamp, lackPacket]⟩
      rw [length]
      simp only [requestEqual, Datagram.packet, Link.stamp, lackPacket, PacketAll.cleared,
        lenPacketHead, maxPacketSize, maxPacketDataSize, maxPacketSeq_eq] at *
      simp
      omega
    have requested : (ushorts request.packet.buf).take
        ((request.packet.len - lenPacketHead) / 2) = numbers.map (· % maxPacketSeq) := by
      rw [length]
      simp only [requestEqual, Datagram.packet]
      rw [ushorts_flatMap bounded]
      exact List.take_of_length_le (by simp)
    let ready : Link := { pslink with
      timeout := { pslink.timeout with tvSec := 0 }, prioritySendLack := true }
    have prepared : Sending ready check max data :=
      sending.congr rfl rfl fun _ => .refl _
    obtain ⟨after, sent, looped, -, maxSame, repeated⟩ := prepared.seqLackAckLoop_repeats inside
    have received : threadRecv pslink request.packet now =
        some ({ after with prioritySendLack := false }, sent) := by
      have type : request.packet.head.type = .seqLack := rfl
      have next : ({ pslink with timeout := { pslink.timeout with tvSec := 0 } } : Link).nextCheck =
          (check + 1) % maxPacketSeq := sending.nextCheck
      simp only [threadRecv, recvHalfOpen_of_connected state, type, seqLackAck]
      rw [if_neg (by simp [state]), requested, next]
      simp only [Option.bind_eq_bind]
      rw [looped]
      rfl
    refine ⟨{ after with prioritySendLack := false }, sent, ?_, maxSame, repeated⟩
    rw [receiveAll_cons checks received]
    simp [receiveAll]

end Sending

/-! ## What the receiver then holds -/

theorem Holds.recvChecks {datagram : Datagram} {number : Nat} {bytes : List UInt8}
    (holds : Holds datagram.packet number bytes) : RecvChecks datagram.packet := by
  have fits := holds.fits
  have bounded := mod_maxPacketSeq_lt number
  refine ⟨?_, fun request => by rw [holds.type] at request; cases request.1⟩
  rw [holds.len, holds.type, holds.seq]
  simp only [lenPacketHead, maxPacketSize, maxPacketDataSize, reduceCtorEq, false_or] at *
  omega

namespace Receiving

variable {pslink : Link} {read max : Nat} {data : Nat → List UInt8}

/-- A wanted packet is in its slot afterwards, and nothing is lost. -/
theorem receive_data (receiving : Receiving pslink read max data) (state : pslink.linkState = 2)
    (window : max < read + maxPacketNumber) {number : Nat} (above : read ≤ number)
    (below : number < max) {datagram : Datagram}
    (holds : Holds datagram.packet number (data number)) (now : Timeval) (rest : List Datagram) :
    ∃ after, receiveAll now pslink (datagram :: rest) = receiveAll now after rest ∧
      after.linkState = 2 ∧ Receiving after read max data ∧
      (after.paArrayRecv (slotOf number)).len ≠ 0 ∧
      ∀ slot, (pslink.paArrayRecv slot).len ≠ 0 → (after.paArrayRecv slot).len ≠ 0 := by
  have type : datagram.head.type = .userData := holds.type
  have seq : datagram.head.seq = number % maxPacketSeq := holds.seq
  have received : threadRecv pslink datagram.packet now =
      some ({ userDataRecv pslink datagram.packet with
        timeout := { pslink.timeout with tvSec := 0 } }, []) := by
    simp only [threadRecv, recvHalfOpen_of_connected state, Datagram.packet_head, type,
      userDataRecv_timeout]
  obtain ⟨slots, frame⟩ := userDataRecv_frame pslink datagram.packet
  have stored := receiving.store window holds below (by omega)
  refine ⟨_, receiveAll_cons_silent holds.recvChecks received, ?_, stored.congr rfl rfl, ?_⟩
  · rw [frame]
    exact state
  · have wanted : CmpSeq datagram.packet.head.seq pslink.seqRead ∨
        datagram.packet.head.seq = pslink.seqRead := by
      rw [Datagram.packet_head, seq, receiving.seqRead, accepted_mod_iff (by omega) (by omega)]
      exact above
    dsimp only
    unfold userDataRecv
    rw [if_neg (by simp [state]), if_pos wanted]
    by_cases readable : pslink.Readable datagram.packet.head.seq
    · rw [if_neg (not_not.mpr readable)]
      refine ⟨?_, fun slot unread => unread⟩
      have unread := readable.2
      rwa [Datagram.packet_head, seq, slotOf_mod] at unread
    · rw [if_pos readable, Datagram.packet_head, seq, slotOf_mod]
      have written : datagram.packet.len ≠ 0 := by
        rw [holds.len, lenPacketHead]
        omega
      refine ⟨by simpa using written, fun slot unread => ?_⟩
      by_cases here : slot = slotOf number
      · subst here
        simpa using written
      · simpa [Function.update_of_ne here] using unread

theorem receive_batch (receiving : Receiving pslink read max data) (state : pslink.linkState = 2)
    (window : max < read + maxPacketNumber) {numbers : List Nat} {batch : List Datagram}
    (inside : ∀ number ∈ numbers, read ≤ number ∧ number < max)
    (held : List.Forall₂ (fun number datagram => Holds datagram.packet number (data number))
      numbers batch) (now : Timeval) :
    ∃ after, receiveAll now pslink batch = some (after, []) ∧ Receiving after read max data ∧
      (∀ number ∈ numbers, (after.paArrayRecv (slotOf number)).len ≠ 0) ∧
      ∀ slot, (pslink.paArrayRecv slot).len ≠ 0 → (after.paArrayRecv slot).len ≠ 0 := by
  induction held generalizing pslink with
  | nil => exact ⟨pslink, rfl, receiving, by simp, fun slot unread => unread⟩
  | @cons number datagram numbers batch holds rest inductionHypothesis =>
      obtain ⟨above, below⟩ := inside number (by simp)
      obtain ⟨middle, first, middleState, middleReceiving, here, kept⟩ :=
        receiving.receive_data state window above below holds now batch
      obtain ⟨after, later, afterReceiving, others, keptLater⟩ :=
        inductionHypothesis middleReceiving middleState
          fun other membership => inside other (by simp [membership])
      refine ⟨after, first.trans later, afterReceiving, ?_, fun slot unread =>
        keptLater slot (kept slot unread)⟩
      intro other membership
      rcases List.mem_cons.mp membership with equal | inRest
      · subst equal
        exact keptLater _ here
      · exact others other inRest

theorem receive_missing (receiving : Receiving pslink read max data) (state : pslink.linkState = 2)
    (window : max < read + maxPacketNumber) {batch : List Datagram}
    (held : List.Forall₂ (fun number datagram => Holds datagram.packet number (data number))
      (pslink.missing read max) batch) (now : Timeval) :
    ∃ after, receiveAll now pslink batch = some (after, []) ∧ Receiving after read max data ∧
      ∀ number, read ≤ number → number < max → (after.paArrayRecv (slotOf number)).len ≠ 0 := by
  obtain ⟨after, received, afterReceiving, present, kept⟩ := receiving.receive_batch state window
    (fun number membership => (mem_missing.mp membership).imp_right And.left) held now
  refine ⟨after, received, afterReceiving, ?_⟩
  intro number above below
  by_cases lost : number ∈ pslink.missing read max
  · exact present number lost
  · have readable : pslink.Readable (number % maxPacketSeq) := by
      by_contra missing
      exact lost (mem_missing.mpr ⟨above, below, missing⟩)
    have unreadSlot := readable.2
    rw [slotOf_mod] at unreadSlot
    exact kept _ unreadSlot

end Receiving

/-! ## The round -/

def Link.checkDatagram (pslink : Link) (now : Timeval) : Datagram :=
  ⟨⟨.seqCheck, (pslink.linkState % 256).toNat, pslink.seqMaxSend, pslink.nextCheck, 0⟩, now.bytes⟩

theorem seqCheck_sent {interval : Int} {timeListen now : Timeval} {pslink : Link}
    (checked : (seqCheck interval timeListen pslink now).2 ≠ []) :
    seqCheck interval timeListen pslink now =
      ({ pslink with timeoutSend := now }, [pslink.checkDatagram now]) := by
  have whole : now.bytes.take 16 = now.bytes := List.take_of_length_le (by simp)
  unfold seqCheck at checked ⊢
  split at checked
  · split at checked
    · split at checked
      · exact absurd rfl checked
      · next listening outstanding due =>
        rw [if_pos listening, if_pos outstanding, if_neg due]
        simp only [Link.message, Link.stamp, Link.checkDatagram, Nat.add_sub_cancel_left, whole]
    · exact absurd rfl checked
  · exact absurd rfl checked

structure Reports (datagram : Datagram) (number : Nat) : Prop where
  checks : RecvChecks datagram.packet
  type : datagram.head.type = .seqReport
  seq : datagram.head.seq = number % maxPacketSeq

theorem reports_message {pslink : Link} {pa : PacketAll} {len number : Nat}
    (report : IsReport pslink pa) (last : pslink.lastRead = number % maxPacketSeq)
    (short : (pa.buf.take (len - lenPacketHead)).length ≤ maxPacketDataSize) :
    Reports (pslink.message pa len) number := by
  have seq : (pslink.message pa len).head.seq = number % maxPacketSeq := report.2.trans last
  have bounded := mod_maxPacketSeq_lt number
  refine ⟨⟨?_, ?_⟩, report.1, seq⟩
  · rw [Datagram.packet_head, seq, message_type, report.1]
    simp only [Datagram.packet, Link.message, reduceCtorEq, false_or]
    simp only [lenPacketHead, maxPacketSize, maxPacketDataSize] at *
    omega
  · rintro ⟨syn, -⟩
    rw [Datagram.packet_head, message_type, report.1] at syn
    cases syn

theorem Sending.receive_reports {pslink : Link} {check max : Nat} {data : Nat → List UInt8}
    (sending : Sending pslink check max data) (state : pslink.linkState = 2) {number : Nat}
    (forward : check ≤ number) (below : number < max) {batch : List Datagram}
    (reports : ∀ datagram ∈ batch, Reports datagram number) (now : Timeval)
    (rest : List Datagram) :
    ∃ after middle, receiveAll now pslink (batch ++ rest) = receiveAll now after rest ∧
      after.linkState = 2 ∧ after.seqMaxSend = pslink.seqMaxSend ∧ middle ≤ number ∧
      Sending after middle max data := by
  induction batch generalizing pslink check with
  | nil => exact ⟨pslink, check, rfl, state, rfl, forward, sending⟩
  | cons datagram batch inductionHypothesis =>
      have report := reports datagram (by simp)
      obtain ⟨next, first, nextState, maxSame, nextSending⟩ := sending.receive_report state forward
        below report.checks report.type report.seq now (batch ++ rest)
      obtain ⟨after, middle, later, afterState, maxSameLater, bounded, afterSending⟩ :=
        inductionHypothesis nextSending nextState le_rfl
          fun other membership => reports other (by simp [membership])
      exact ⟨after, middle, first.trans later, afterState, maxSameLater.trans maxSame, bounded,
        afterSending⟩

/-- Reports of a number followed by a request for later ones: the request is
answered in full. -/
theorem Sending.answer {pslink : Link} {check max : Nat} {data : Nat → List UInt8}
    (sending : Sending pslink check max data) (state : pslink.linkState = 2) {number : Nat}
    (forward : check ≤ number) (below : number < max) {early : List Datagram} {report : Datagram}
    (reports : ∀ datagram ∈ early, Reports datagram number) (last : Reports report number)
    {numbers : List Nat} (inside : ∀ other ∈ numbers, number < other ∧ other < max)
    (few : numbers.length * 2 < maxPacketDataSize) (asking : Link) (now : Timeval) :
    ∃ after sent, receiveAll now pslink
        (early ++ report :: asking.lackDatagrams (numbers.map (· % maxPacketSeq))) =
          some (after, sent) ∧
      after.seqMaxSend = pslink.seqMaxSend ∧
      List.Forall₂ (fun number datagram => Holds datagram.packet number (data number))
        numbers sent := by
  obtain ⟨heard, middle, hearing, heardState, heardMax, notBeyond, heardSending⟩ :=
    sending.receive_reports state forward below reports now
      (report :: asking.lackDatagrams (numbers.map (· % maxPacketSeq)))
  obtain ⟨told, telling, toldState, toldMax, toldSending⟩ := heardSending.receive_report heardState
    notBeyond below last.checks last.type last.seq now
    (asking.lackDatagrams (numbers.map (· % maxPacketSeq)))
  obtain ⟨after, sent, answering, afterMax, repeated⟩ :=
    toldSending.receive_lack toldState inside asking now few
  exact ⟨after, sent, hearing.trans (telling.trans answering),
    afterMax.trans (toldMax.trans heardMax), repeated⟩

namespace Flow

variable {base : Nat} {sender receiver : Party} {toReceiver toSender : List Flight}

/-- The receiver learns from the `SEQ_CHECK` how far the sender has got. -/
theorem receive_check (flow : Flow base sender receiver toReceiver toSender)
    (now arrival : Timeval) :
    ∃ timed, receiveAll arrival receiver.link [sender.link.checkDatagram now] =
        some ({ receiver.link with
          timeout := { receiver.link.timeout with tvSec := 0 }
          seqReadMax := sender.maxNo % maxPacketSeq }, timed) ∧
      ∀ datagram ∈ timed, Reports datagram (receiver.readNo - 1) := by
  have window := flow.sending.window
  have acknowledged := flow.acknowledged
  have unread := flow.unread
  have bounded : sender.link.seqMaxSend < maxPacketSeq := by
    rw [flow.sending.seqMaxSend]
    exact mod_maxPacketSeq_lt _
  set check := sender.link.checkDatagram now with checkEqual
  have length : check.packet.len = lenPacketHead + 16 := by
    simp [checkEqual, Datagram.packet, Link.checkDatagram]
  have checks : RecvChecks check.packet := by
    refine ⟨?_, by rintro ⟨syn, -⟩; cases syn⟩
    rw [length]
    simp only [checkEqual, Datagram.packet, Link.checkDatagram, lenPacketHead, maxPacketSize,
      reduceCtorEq, false_or]
    omega
  have expected : receiver.link.seqRead = check.packet.head.seq ∨
      CmpSeqOrder check.packet.head.seqCheck receiver.link.seqRead check.packet.head.seq := by
    have seq : check.packet.head.seq = sender.maxNo % maxPacketSeq := flow.sending.seqMaxSend
    have seqCheck : check.packet.head.seqCheck = (sender.checkNo + 1) % maxPacketSeq :=
      flow.sending.nextCheck
    rw [seq, seqCheck, flow.receiving.seqRead]
    rcases Nat.eq_or_lt_of_le unread with same | more
    · exact .inl (by rw [same])
    · refine .inr ?_
      rw [ordered_mod_iff (by omega) (by omega) more (by omega)]
      omega
  have received : ∃ timed, threadRecv receiver.link check.packet arrival =
        some ({ receiver.link with
          timeout := { receiver.link.timeout with tvSec := 0 }
          seqReadMax := sender.maxNo % maxPacketSeq }, timed) ∧
      ∀ datagram ∈ timed, Reports datagram (receiver.readNo - 1) := by
    have type : check.packet.head.type = .seqCheck := rfl
    have seq : check.packet.head.seq = sender.maxNo % maxPacketSeq := flow.sending.seqMaxSend
    simp only [threadRecv, recvHalfOpen_of_connected flow.receiverState, type, seqCheckAck]
    rw [if_neg (by simp [flow.receiverState]), if_pos expected]
    split
    · rw [sendMsg_of_le _ _ (by rw [length]; omega), seq]
      refine ⟨_, rfl, ?_⟩
      simp only [List.mem_singleton, forall_eq]
      refine reports_message ⟨rfl, rfl⟩ (flow.receiving.lastRead (by omega)) ?_
      simp [checkEqual, Datagram.packet, Link.checkDatagram, maxPacketDataSize]
    · rw [seq]
      exact ⟨[], rfl, by simp⟩
  obtain ⟨timed, ran, reports⟩ := received
  refine ⟨timed, ?_, reports⟩
  rw [receiveAll_cons checks ran]
  simp [receiveAll]

/-- `SeqReport` names the last number read and asks for what is missing. -/
theorem report_missing (flow : Flow base sender receiver toReceiver toSender) {pslink : Link}
    (state : pslink.linkState = 2) (readSame : pslink.seqRead = receiver.link.seqRead)
    (limit : pslink.seqReadMax = sender.maxNo % maxPacketSeq) {now : Timeval}
    (due : ¬ getMsDiff now pslink.timeoutReportLack < pslink.timeoutCheckLack.tvUsec.tdiv 1000) :
    ∃ after report, seqReport pslink now = some (after, report ::
        pslink.lackDatagrams
          ((pslink.missing receiver.readNo sender.maxNo).map (· % maxPacketSeq))) ∧
      Reports report (receiver.readNo - 1) ∧
      ∃ time, after = { pslink with timeoutReportLack := time } := by
  have cursor := readSame.trans flow.receiving.seqRead
  obtain ⟨after, lacked, frame⟩ := seqLack_missing cursor limit flow.unread flow.window due
  have reported : ∃ report, IsReport pslink report ∧ report.buf = [] ∧ seqReport pslink now =
      some (after, pslink.message report lenPacketHead :: pslink.lackDatagrams
        ((pslink.missing receiver.readNo sender.maxNo).map (· % maxPacketSeq))) := by
    simp only [seqReport, if_pos state, lacked, Option.map_some]
    exact ⟨_, ⟨rfl, rfl⟩, rfl, rfl⟩
  obtain ⟨report, isReport, empty, reporting⟩ := reported
  refine ⟨after, _, reporting, ?_, frame⟩
  have last : pslink.lastRead = (receiver.readNo - 1) % maxPacketSeq := by
    have positive : 0 < receiver.readNo := by
      have := flow.acknowledged
      omega
    rw [← flow.receiving.lastRead positive]
    simp only [Link.lastRead, readSame]
  exact reports_message isReport last (by simp [empty])

theorem round_repairs (flow : Flow base sender receiver toReceiver toSender) {interval : Int}
    {timeListen : Timeval} {clock : RoundClock} (withTime : Bool)
    (checked : (seqCheck interval timeListen sender.link clock.check).2 ≠ [])
    (due : ¬ getMsDiff clock.report receiver.link.timeoutReportLack <
      receiver.link.timeoutCheckLack.tvUsec.tdiv 1000) :
    ∃ senderLink receiverLink,
      recoveryRound interval timeListen clock withTime sender.link receiver.link =
        some (senderLink, receiverLink) ∧
      senderLink.seqMaxSend = sender.link.seqMaxSend ∧
      Receiving receiverLink receiver.readNo sender.maxNo (sender.bytesAt base) ∧
      ∀ number, receiver.readNo ≤ number → number < sender.maxNo →
        (receiverLink.paArrayRecv (slotOf number)).len ≠ 0 := by
  have acknowledged := flow.acknowledged
  have unread := flow.unread
  have window := flow.window
  have outstanding : receiver.readNo - 1 < sender.maxNo := by omega
  obtain ⟨timed, arrived, timedReports⟩ := flow.receive_check clock.check clock.arrival
  set informed : Link := { receiver.link with
    timeout := { receiver.link.timeout with tvSec := 0 }
    seqReadMax := sender.maxNo % maxPacketSeq }
  obtain ⟨reported, report, reporting, isReport, time, rfl⟩ :=
    @report_missing _ _ _ _ _ flow informed flow.receiverState rfl rfl _ due
  set numbers := informed.missing receiver.readNo sender.maxNo with numbersEqual
  have later : ∀ number ∈ numbers, receiver.readNo - 1 < number ∧ number < sender.maxNo := by
    intro number membership
    obtain ⟨above, below, -⟩ := mem_missing.mp membership
    omega
  -- the sender first hears the reports, then the request
  have started : Sending { sender.link with timeoutSend := clock.check } sender.checkNo
      sender.maxNo (sender.bytesAt base) := flow.sending.congr rfl rfl fun _ => .refl _
  have early : ∀ datagram ∈ (if withTime then timed else []),
      Reports datagram (receiver.readNo - 1) := by
    intro datagram membership
    cases withTime with
    | false => cases membership
    | true => exact timedReports datagram membership
  obtain ⟨answered, again, answering, answeredMax, repeated⟩ :=
    started.answer flow.senderState (by omega) outstanding early isReport later
      (missing_few informed window) informed clock.answer
  -- the receiver stores what is repeated
  have ready : Receiving { informed with timeoutReportLack := time } receiver.readNo sender.maxNo
      (sender.bytesAt base) := flow.receiving.congr rfl rfl
  obtain ⟨repaired, repairing, repairedReceiving, present⟩ :=
    ready.receive_missing flow.receiverState window repeated clock.repair
  refine ⟨answered, repaired, ?_, answeredMax, repairedReceiving, present⟩
  have delivered : (if withTime then timed ++ (report ::
        informed.lackDatagrams (numbers.map (· % maxPacketSeq)))
      else report :: informed.lackDatagrams (numbers.map (· % maxPacketSeq))) =
      (if withTime then timed else []) ++
        (report :: informed.lackDatagrams (numbers.map (· % maxPacketSeq))) := by
    cases withTime with
    | false => rfl
    | true => rfl
  simp only [recoveryRound, seqCheck_sent checked, arrived, Option.bind_eq_bind, Option.bind_some,
    reporting, delivered, answering, repairing]
  rfl

end Flow

/-- One loss-free recovery round repairs every gap: from every reachable state
with unacknowledged packets the round comes to its end, and the receiver then
holds, for each number from its `SeqRead` up to the sender's `SeqMaxSend`, a
readable packet with the payload that was accepted for it. -/
theorem recovery_round_repairs (session last : Session) (sender : Side)
    (fresh : session.Fresh sender) (actions : List Action)
    (ran : Transition.run Session.step session actions = some last)
    (interval : Int) (timeListen : Timeval) (clock : RoundClock) (withTime : Bool)
    (checked : (seqCheck interval timeListen (last.party sender).link clock.check).2 ≠ [])
    (due : ¬ getMsDiff clock.report (last.party sender.other).link.timeoutReportLack <
      (last.party sender.other).link.timeoutCheckLack.tvUsec.tdiv 1000) :
    ∃ senderLink receiverLink,
      recoveryRound interval timeListen clock withTime (last.party sender).link
        (last.party sender.other).link = some (senderLink, receiverLink) ∧
      receiverLink.seqRead = (last.party sender.other).link.seqRead ∧
      senderLink.seqMaxSend = (last.party sender).link.seqMaxSend ∧
      ∀ distance < ahead maxPacketSeq senderLink.seqMaxSend receiverLink.seqRead,
        receiverLink.Readable ((receiverLink.seqRead + distance) % maxPacketSeq) ∧
        (last.party sender).accepted[(last.party sender.other).delivered.length + distance]? =
          some (receiverLink.paArrayRecv
            (slotOf ((receiverLink.seqRead + distance) % maxPacketSeq))).payload := by
  have flow : last.Flows _ sender :=
    Transition.run_invariant Session.step flows_step (flows_of_fresh fresh) ran
  obtain ⟨senderLink, receiverLink, finished, maxSame, receiving, present⟩ :=
    Flow.round_repairs flow withTime checked due
  refine ⟨senderLink, receiverLink, finished, ?_, maxSame, ?_⟩
  · rw [receiving.seqRead, flow.receiving.seqRead]
  · intro distance near
    have window := flow.window
    rw [maxSame, flow.sending.seqMaxSend, receiving.seqRead,
      ahead_mod flow.unread (by simp only [maxPacketNumber_eq, maxPacketSeq_eq] at *; omega)] at near
    set number := (last.party sender.other).readNo + distance with numberEqual
    have residue : (receiverLink.seqRead + distance) % maxPacketSeq = number % maxPacketSeq := by
      rw [receiving.seqRead, Nat.mod_add_mod]
    have below : number < (last.party sender).maxNo := by omega
    obtain ⟨-, holds⟩ := receiving.holds_of_len window (by omega) (by omega)
      (present number (by omega) below)
    rw [residue, slotOf_mod]
    refine ⟨⟨?_, ?_⟩, ?_⟩
    · rw [slotOf_mod]
      exact holds.seq
    · rw [slotOf_mod]
      exact present number (by omega) below
    · have counted := flow.acceptedCount
      have read := flow.deliveredCount
      have position : number - ((session.party sender).link.seqCheckSend + 1) =
          (last.party sender.other).delivered.length + distance := by omega
      have inRange : (last.party sender.other).delivered.length + distance <
          (last.party sender).accepted.length := by omega
      rw [holds.payload]
      simp [Party.bytesAt, position, List.getElem?_eq_getElem inRange]

def lossyActions : List Action :=
  [.exSend .left [7] true, .exSend .left [8, 9] true, .exSend .left [10] true,
    .deliver .right 1 .zero]

def lossySession : Session :=
  (Transition.run Session.step connectedSession lossyActions).getD connectedSession

def laterClock : RoundClock :=
  ⟨⟨0, 500000⟩, ⟨0, 510000⟩, ⟨0, 520000⟩, ⟨0, 530000⟩, ⟨0, 540000⟩⟩

theorem recovery_round_repairs_lossy :
    ¬ (lossySession.party .right).link.Readable 1 ∧
      ∃ senderLink receiverLink,
        recoveryRound 5000 .zero laterClock true (lossySession.party .left).link
          (lossySession.party .right).link = some (senderLink, receiverLink) ∧
        receiverLink.Readable 1 := by
  obtain ⟨senderLink, receiverLink, finished, readSame, maxSame, repaired⟩ :=
    recovery_round_repairs connectedSession lossySession .left (connectedSession_fresh .left)
      lossyActions rfl 5000 .zero laterClock true (by decide) (by decide)
  refine ⟨by decide, senderLink, receiverLink, finished, ?_⟩
  have first := repaired 0
  rw [readSame, maxSame] at first
  exact (first (by decide)).1

end UtilsModules.Udp

import UtilsModules.Udp.SenderWindow

/-!
What `SeqLackAck` sends for a request.

The numbers of a request are the peer's view at an earlier time.  The loop stops
at the first one that is not outstanding, so the rest of the list is only
looked at as long as everything before it was.
-/

namespace UtilsModules.Udp

open Circular

def PacketAll.requested (pa : PacketAll) : List Nat :=
  (Bytes.ushorts pa.buf).take ((pa.len - lenPacketHead) / 2)

instance (pslink : Link) (seq : Nat) : Decidable (pslink.Outstanding seq) := by
  unfold Link.Outstanding
  infer_instance

/-- The datagram is the user packet with this number, as `exSend` stored it. -/
structure Repeats (stored : Nat → List UInt8) (asked : Nat) (datagram : Datagram) : Prop where
  type : datagram.head.type = .userData
  seq : datagram.head.seq = asked
  data : datagram.data = stored asked

/-- `SeqLackAck` comes back, has sent the listed numbers that are outstanding
and no others, and has changed neither the cursors nor what is stored. -/
def SendLog.Answers (log : SendLog) (pa : PacketAll) : Prop :=
  ∃ after sent, seqLackAck log.link pa = some (after, sent) ∧
    List.Forall₂ (Repeats log.stored)
      (pa.requested.filter fun seq => log.link.Outstanding seq) sent ∧
    after.seqCheckSend = log.link.seqCheckSend ∧ after.seqMaxSend = log.link.seqMaxSend ∧
    ∀ slot, SameData (after.paArraySend slot) (log.link.paArraySend slot)

/-- The condition on a request: no outstanding number stands behind one that is
not outstanding. -/
def Link.OutstandingFirst (pslink : Link) (requested : List Nat) : Prop :=
  requested.Pairwise fun earlier later => pslink.Outstanding later → pslink.Outstanding earlier

instance (pslink : Link) (requested : List Nat) : Decidable (pslink.OutstandingFirst requested) := by
  unfold Link.OutstandingFirst
  infer_instance

theorem takeWhile_eq_filter_iff {α : Type} (passes : α → Prop) [DecidablePred passes]
    (values : List α) :
    values.takeWhile (fun value => passes value) = values.filter (fun value => passes value) ↔
      values.Pairwise fun earlier later => passes later → passes earlier := by
  induction values with
  | nil => simp
  | cons value rest inductionHypothesis =>
      rw [List.pairwise_cons]
      by_cases here : passes value
      · simp [here, inductionHypothesis]
      · simp only [List.takeWhile_cons, List.filter_cons, here, decide_false, Bool.false_eq_true,
          if_false, imp_false]
        rw [eq_comm, List.filter_eq_nil_iff]
        simp only [decide_eq_true_eq]
        refine (and_iff_left_of_imp fun others => ?_).symm
        apply List.pairwise_of_forall_mem_list
        intro earlier _ later membership passed
        exact absurd passed (others later membership)

theorem passes_iff_outstanding {pslink : Link} {check max : Nat} {data : Nat → List UInt8}
    (sending : Sending pslink check max data) {seq : Nat} (bounded : seq < maxPacketSeq) :
    CmpSeqOrder pslink.nextCheck seq pslink.seqMaxSend ↔ pslink.Outstanding seq := by
  have checkBound := sending.seqCheckSend_lt
  have maxBound := sending.seqMaxSend_lt
  have nextBound : pslink.nextCheck < maxPacketSeq := mod_maxPacketSeq_lt _
  have opened := sending.opened
  have window := sending.window
  have distance := sending.ahead_max
  have shorter : ahead maxPacketSeq pslink.seqMaxSend pslink.nextCheck + 1 = max - check := by
    rw [← distance, Link.nextCheck]
    apply ahead_succ_mod maxBound checkBound
    intro same
    rw [same, ahead_self] at distance
    omega
  rw [cmpSeqOrder_iff_ahead nextBound bounded maxBound, Link.Outstanding, distance]
  by_cases acknowledged : seq = pslink.seqCheckSend
  · have farther := ahead_mod_behind (M := maxPacketSeq) (n := check) (r := check + 1) (by omega)
      (by rw [maxPacketSeq_eq]; omega)
    rw [acknowledged, ahead_self, sending.nextCheck, sending.seqCheckSend, farther]
    simp only [maxPacketNumber_eq, maxPacketSeq_eq] at *
    omega
  · have nearer := ahead_succ_mod bounded checkBound acknowledged
    rw [← Link.nextCheck] at nearer
    omega

/-- The loop of `SeqLackAck` repeats the requested packets up to the first one
that is not outstanding. -/
theorem seqLackAckLoop_takeWhile {pslink : Link} {check max : Nat} {stored : Nat → List UInt8}
    (sending : Sending pslink check max fun number => stored (number % maxPacketSeq))
    (requested : List Nat) :
    ∃ slots sent, seqLackAckLoop pslink.nextCheck pslink requested =
        some ({ pslink with paArraySend := slots }, sent) ∧
      (∀ slot, SameData (slots slot) (pslink.paArraySend slot)) ∧
      List.Forall₂ (Repeats stored)
        (requested.takeWhile fun seq => pslink.Outstanding seq) sent := by
  induction requested generalizing pslink with
  | nil => exact ⟨pslink.paArraySend, [], rfl, fun _ => .refl _, .nil⟩
  | cons seq rest inductionHypothesis =>
      by_cases outstanding : pslink.Outstanding seq
      · have bounded := outstanding.1
        have passes := (passes_iff_outstanding sending bounded).mpr outstanding
        obtain ⟨number, above, below, residue⟩ := (outstanding_iff sending seq).mp outstanding
        have holds := sending.stored number above below
        rw [← slotOf_mod, residue] at holds
        let stamped : PacketArray := Function.update pslink.paArraySend (slotOf seq)
          { pslink.paArraySend (slotOf seq) with
            head := pslink.stamp (pslink.paArraySend (slotOf seq)).head }
        have same : ∀ slot, SameData (stamped slot) (pslink.paArraySend slot) := by
          intro slot
          by_cases here : slot = slotOf seq
          · subst here
            simp only [stamped, Function.update_self]
            exact ⟨rfl, rfl, rfl, rfl⟩
          · simp only [stamped, Function.update_of_ne here]
            exact .refl _
        have stillSending : Sending { pslink with paArraySend := stamped } check max
            fun number => stored (number % maxPacketSeq) := sending.congr rfl rfl same
        obtain ⟨slots, sent, looped, kept, repeated⟩ := inductionHypothesis stillSending
        refine ⟨slots, pslink.message (pslink.paArraySend (slotOf seq))
          (pslink.paArraySend (slotOf seq)).len :: sent, ?_, ?_, ?_⟩
        · simp only [seqLackAckLoop]
          rw [if_pos bounded, if_pos passes, sendMsg_of_le _ _ (by rw [holds.len]; omega)]
          simp only [Option.bind_eq_bind, Option.bind_some]
          have later : seqLackAckLoop pslink.nextCheck { pslink with paArraySend := stamped } rest =
              some ({ pslink with paArraySend := slots }, sent) := looped
          rw [later]
          rfl
        · exact fun slot => (kept slot).trans (same slot)
        · rw [List.takeWhile_cons_of_pos (by simpa using outstanding)]
          refine .cons ⟨holds.type, ?_, ?_⟩ repeated
          · exact holds.seq.trans residue
          · exact holds.payload
      · have stops : seqLackAckLoop pslink.nextCheck pslink (seq :: rest) = some (pslink, []) := by
          simp only [seqLackAckLoop]
          split
          · next bounded => rw [if_neg (mt (passes_iff_outstanding sending bounded).mp outstanding)]
          · rfl
        refine ⟨pslink.paArraySend, [], stops, fun _ => .refl _, ?_⟩
        rw [List.takeWhile_cons_of_neg (by simpa using outstanding)]
        exact .nil

theorem eq_of_repeats {stored : Nat → List UInt8} {first second : List Nat}
    {sent : List Datagram} (one : List.Forall₂ (Repeats stored) first sent)
    (other : List.Forall₂ (Repeats stored) second sent) : first = second := by
  induction one generalizing second with
  | nil =>
      cases other
      rfl
  | cons repeated _ inductionHypothesis =>
      cases other with
      | cons again rest =>
          rw [inductionHypothesis rest, ← repeated.seq, ← again.seq]

/-- From every state with the sender's window in order, a connected link answers
a request as it should exactly if the outstanding numbers come first in it. -/
theorem lack_answered_iff_outstanding_first {log : SendLog} (inv : log.Inv)
    (established : 2 ≤ log.link.linkState) (pa : PacketAll) :
    log.Answers pa ↔ log.link.OutstandingFirst pa.requested := by
  obtain ⟨check, max, sending⟩ := inv
  have flagged : Sending { log.link with prioritySendLack := true } check max
      fun number => log.stored (number % maxPacketSeq) := sending.congr rfl rfl fun _ => .refl _
  obtain ⟨slots, sent, looped, kept, repeated⟩ := seqLackAckLoop_takeWhile flagged pa.requested
  have ran : seqLackAck log.link pa = some
      ({ log.link with paArraySend := slots, prioritySendLack := false }, sent) := by
    have loop : seqLackAckLoop log.link.nextCheck { log.link with prioritySendLack := true }
        ((Bytes.ushorts pa.buf).take ((pa.len - lenPacketHead) / 2)) = _ := looped
    rw [seqLackAck, if_neg (by omega)]
    simp only [Option.bind_eq_bind, loop, Option.bind_some]
    rfl
  rw [Link.OutstandingFirst, ← takeWhile_eq_filter_iff]
  constructor
  · rintro ⟨after, others, again, answered, -⟩
    obtain ⟨-, rfl⟩ := Prod.mk.inj (Option.some.inj (ran.symm.trans again))
    exact eq_of_repeats repeated answered
  · intro same
    refine ⟨_, sent, ran, ?_, rfl, rfl, kept⟩
    rw [← same]
    exact repeated

/-- Three packets sent, a `LINK_ACK`, and an acknowledgement of the first one. -/
def partlyAcknowledged : List LinkCall :=
  [.exSend [7] true, .exSend [8, 9] true, .exSend [10] true,
    .recv [3, 0, 0, 0, 0, 0, 0, 0] .zero, .recv [6, 2, 1, 0, 0, 0, 0, 0] .zero]

def lackRequest (numbers : List Nat) : PacketAll :=
  { lackPacket numbers with len := lenPacketHead + 2 * numbers.length }

theorem inv_partlyAcknowledged {log : SendLog}
    (ran : Transition.run SendLog.step ⟨addList 0 3 0 .zero, fun _ => []⟩ partlyAcknowledged =
      some log) : log.Inv :=
  Transition.run_invariant SendLog.step inv_step (inv_addList 0 3 0 .zero _) ran

theorem lack_answered_iff_outstanding_first_partly :
    ∃ log, Transition.run SendLog.step ⟨addList 0 3 0 .zero, fun _ => []⟩ partlyAcknowledged =
        some log ∧
      log.link.seqCheckSend = 1 ∧ log.link.seqMaxSend = 4 ∧
      log.Answers (lackRequest [3, 2, 1]) :=
  ⟨_, rfl, rfl, rfl, (lack_answered_iff_outstanding_first (inv_partlyAcknowledged rfl) (by decide)
    (lackRequest [3, 2, 1])).mpr (by decide +kernel)⟩

/-- A request that comes late, when its first number has been acknowledged:
nothing is sent again. -/
theorem late_request_is_dropped :
    ∃ log, Transition.run SendLog.step ⟨addList 0 3 0 .zero, fun _ => []⟩ partlyAcknowledged =
        some log ∧
      log.link.linkState = 2 ∧ log.Inv ∧
      (lackRequest [1, 2, 3]).requested = [1, 2, 3] ∧
      log.link.Outstanding 2 ∧ log.link.Outstanding 3 ∧
      (seqLackAck log.link (lackRequest [1, 2, 3])).map Prod.snd = some [] ∧
      ¬ log.Answers (lackRequest [1, 2, 3]) := by
  refine ⟨_, rfl, rfl, inv_partlyAcknowledged rfl, rfl, by decide +kernel, by decide +kernel,
    rfl, ?_⟩
  rintro ⟨after, sent, ran, answered, -⟩
  have nothing : some [] = some sent := congrArg (Option.map Prod.snd) ran
  obtain rfl := Option.some.inj nothing
  cases answered

end UtilsModules.Udp

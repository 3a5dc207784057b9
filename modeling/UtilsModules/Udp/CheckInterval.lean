import UtilsModules.Udp.LinkRun
import Mathlib.Algebra.Order.Ring.Int

/-!
The adaptive check interval of a link.

`SeqReportAck` doubles the interval when an acknowledgement took longer and
halves it when it took less than half.  How long it took is computed from a
time the peer has sent, so the bounds are shown for any difference at all: with
a hostile time the subtraction in `GET_MS_DIFF` may even overflow a `long`.
-/

namespace UtilsModules.Udp

def Doubled (timeoutCheckLack : Timeval) : Prop :=
  ∃ doublings ≤ 18, timeoutCheckLack = ⟨0, listenInterval * 2 ^ doublings⟩

theorem doubled_addList (id socket : Nat) (tsWaitTime : Int) (created : Timeval) :
    Doubled (addList id socket tsWaitTime created).timeoutCheckLack := ⟨1, by decide, rfl⟩

/-- The upper bound comes from the mask: no time above `0x1FFFFF` milliseconds
is ever seen, which is less than `LISTEN_INTERVAL` doubled 18 times. -/
theorem doublings_lt {doublings : Nat} {difference : Int} (bounded : doublings ≤ 18)
    (longer : difference % 2097152 * 1000 > listenInterval * 2 ^ doublings) : doublings < 18 := by
  apply lt_of_le_of_ne bounded
  rintro rfl
  have masked : difference % 2097152 < 2097152 := Int.emod_lt_of_pos _ (by decide)
  simp only [listenInterval] at longer
  omega

/-- The lower bound needs that the interval is a power of two times
`LISTEN_INTERVAL`: a larger one is at least twice as large. -/
theorem doublings_pos {doublings : Nat} (larger : listenInterval * 2 ^ doublings > listenInterval) :
    ∃ fewer, doublings = fewer + 1 := by
  cases doublings with
  | zero => simp [listenInterval] at larger
  | succ fewer => exact ⟨fewer, rfl⟩

theorem doubled_adaptBy {timeoutCheckLack : Timeval} (doubled : Doubled timeoutCheckLack)
    (difference : Int) : Doubled (adaptBy timeoutCheckLack difference) := by
  obtain ⟨doublings, bounded, rfl⟩ := doubled
  unfold adaptBy
  dsimp only
  split
  · next longer =>
    have room := doublings_lt bounded longer
    refine ⟨doublings + 1, room, ?_⟩
    rw [pow_succ, mul_assoc]
  · split
    · split
      · next larger =>
        obtain ⟨fewer, rfl⟩ := doublings_pos larger
        refine ⟨fewer, by omega, ?_⟩
        rw [pow_succ, ← mul_assoc, Int.mul_ediv_cancel _ (by decide)]
      · exact ⟨doublings, bounded, rfl⟩
    · exact ⟨doublings, bounded, rfl⟩

theorem doubled_seqReportAckBy {pslink : Link} (doubled : Doubled pslink.timeoutCheckLack)
    (pa : PacketAll) (difference : Int) :
    Doubled (seqReportAckBy pslink pa difference).timeoutCheckLack := by
  unfold seqReportAckBy
  split
  · exact doubled
  · split
    · dsimp only
      split
      · exact doubled_adaptBy doubled difference
      · exact doubled
    · exact doubled

theorem recvHalfOpen_timeoutCheckLack (pslink : Link) (pa : PacketAll) :
    (recvHalfOpen pslink pa).timeoutCheckLack = pslink.timeoutCheckLack := by
  unfold recvHalfOpen
  split <;> rfl

theorem doubled_threadRecv {pslink after : Link} {pa : PacketAll} {now : Timeval}
    {sent : List Datagram} (doubled : Doubled pslink.timeoutCheckLack)
    (ran : threadRecv pslink pa now = some (after, sent)) : Doubled after.timeoutCheckLack := by
  have half : Doubled (pslink.heard pa).timeoutCheckLack := by
    rw [← recvHalfOpen_timeoutCheckLack pslink pa] at doubled
    exact doubled
  rcases threadRecv_timers ran with same | rfl
  · rw [same.timeoutCheckLack]
    exact half
  · exact doubled_seqReportAckBy half pa _

/-- A call on the link, or a `SEQ_REPORT` packet with any time difference. -/
inductive ReportEvent where
  | call (call : LinkCall)
  | report (pa : PacketAll) (difference : Int)

def Link.reportStep (pslink : Link) : ReportEvent → Option Link
  | .call call => pslink.step call
  | .report pa difference => some (seqReportAckBy pslink pa difference)

theorem doubled_step (pslink : Link) (event : ReportEvent) (next : Link)
    (doubled : Doubled pslink.timeoutCheckLack) (stepped : pslink.reportStep event = some next) :
    Doubled next.timeoutCheckLack := by
  cases event with
  | report pa difference =>
      obtain rfl := Option.some.inj stepped
      exact doubled_seqReportAckBy doubled pa difference
  | call call =>
      obtain ⟨out, called, rfl⟩ := Option.map_eq_some_iff.mp stepped
      rcases call_timers called with same | ⟨pa, now, ran⟩
      · rw [same.timeoutCheckLack]
        exact doubled
      · exact doubled_threadRecv doubled ran

/-- The bounds of the interval, for every run of a link and whatever times its
peer reports: `LISTEN_INTERVAL` doubled at most 18 times, so that it is never
below `LISTEN_INTERVAL`, and doubling it once more still fits a `long`. -/
theorem check_interval_bounded (id socket : Nat) (tsWaitTime : Int) (created : Timeval)
    (events : List ReportEvent) (last : Link)
    (ran : Transition.run Link.reportStep (addList id socket tsWaitTime created) events =
      some last) :
    (∃ doublings ≤ 18, last.timeoutCheckLack = ⟨0, listenInterval * 2 ^ doublings⟩) ∧
      listenInterval ≤ last.timeoutCheckLack.tvUsec ∧
      last.timeoutCheckLack.tvUsec * 2 < 2 ^ 63 := by
  have doubled : Doubled last.timeoutCheckLack :=
    Transition.run_invariant Link.reportStep doubled_step
      (doubled_addList id socket tsWaitTime created) ran
  refine ⟨doubled, ?_⟩
  obtain ⟨doublings, bounded, equal⟩ := doubled
  rw [equal]
  have below : (2 : Int) ^ doublings ≤ 2 ^ 18 := pow_le_pow_right₀ (by decide) bounded
  have above : (1 : Int) ≤ 2 ^ doublings := one_le_pow₀ (by decide)
  simp only [listenInterval]
  constructor <;> omega

/-- A packet is sent, its check is answered after a second, and a later report
carries a time from the future. -/
def slowThenHostile : List ReportEvent :=
  [.call (.recv [3, 0, 0, 0, 0, 0, 0, 0] .zero), .call (.exSend [7] true),
    .report ⟨⟨.seqReport, 2, 1, 0, 0⟩, Timeval.zero.bytes, lenPacketHead + 16⟩ 1000,
    .call (.exSend [8] true),
    .report ⟨⟨.seqReport, 2, 2, 0, 0⟩, Timeval.zero.bytes, lenPacketHead + 16⟩ (-1)]

theorem check_interval_bounded_hostile :
    ∃ last, Transition.run Link.reportStep (addList 0 3 0 .zero) slowThenHostile = some last ∧
      last.timeoutCheckLack = ⟨0, 80000⟩ ∧ listenInterval ≤ last.timeoutCheckLack.tvUsec :=
  ⟨_, rfl, rfl, (check_interval_bounded 0 3 0 .zero slowThenHostile _ rfl).2.1⟩

end UtilsModules.Udp

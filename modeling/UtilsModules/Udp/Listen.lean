import UtilsModules.Udp.LinkRun

/-!
The heartbeat of `thread_listen`: how often a silent link is asked for a sign of
life and when it is given up.

`timeout` is the time since which nothing has been received and `timeout_times`
the number of the interval the link is in.  A received packet clears
`timeout.tv_sec`, and the next pass stamps the link again.
-/

namespace UtilsModules.Udp

structure ListenSettings where
  listenLinkInterval : Int
  listenLinkTimes : Int
  deriving DecidableEq, Repr

def ListenSettings.initial : ListenSettings := ⟨3000, 3⟩

/-- `setListenTime`; the answer is whether it returns `EX_UDP_OK`. -/
def setListenTime (settings : ListenSettings) (milliseconds times : Int) : ListenSettings × Bool :=
  if milliseconds < listenInterval / 1000 then (settings, false)
  else if times < 1 then (settings, false)
  else (⟨milliseconds, times⟩, true)

theorem setListenTime_accepted {settings : ListenSettings} {milliseconds times : Int}
    (accepted : (setListenTime settings milliseconds times).2 = true) :
    0 ≤ (setListenTime settings milliseconds times).1.listenLinkInterval ∧
      1 ≤ (setListenTime settings milliseconds times).1.listenLinkTimes := by
  unfold setListenTime at *
  split at accepted
  · cases accepted
  · next wide =>
    split at accepted
    · cases accepted
    · next often =>
      rw [if_neg wide, if_neg often]
      simp only [listenInterval] at *
      exact ⟨by omega, by omega⟩

/-- The timeout of the link's current interval has run out. -/
def Link.Expired (settings : ListenSettings) (pslink : Link) (timeListen : Timeval) : Prop :=
  pslink.timeout.tvSec ≠ 0 ∧
    getMsDiff timeListen pslink.timeout ≥ settings.listenLinkInterval * pslink.timeoutTimes

instance (settings : ListenSettings) (pslink : Link) (timeListen : Timeval) :
    Decidable (pslink.Expired settings timeListen) := inferInstanceAs (Decidable (_ ∧ _))

/-- One link in one pass of the loop of `thread_listen`.  `stamp` and `now` are
the times read for the stamp and in `SeqCheck`; `timeout_times` is a byte. -/
def listenLink (settings : ListenSettings) (pslink : Link) (timeListen stamp now : Timeval) :
    Link × List Datagram :=
  if pslink.linkState = -1 then
    (pslink, [])
  else if pslink.timeout.tvSec = 0 then
    seqCheck settings.listenLinkInterval timeListen
      { pslink with timeout := stamp, timeoutTimes := 1 } now
  else if pslink.Expired settings timeListen then
    if pslink.timeoutTimes > settings.listenLinkTimes then
      -- `del_list`, as for `LINK_FIN`; the loop goes on to the next link
      recvLinkFin pslink
    else
      let counted := { pslink with timeoutTimes := (pslink.timeoutTimes + 1) % 256 }
      let (after, sent) := seqCheck settings.listenLinkInterval timeListen counted now
      (after, pslink.heartbeat ++ sent)
  else
    seqCheck settings.listenLinkInterval timeListen pslink now

inductive LinkEvent where
  | listen (timeListen stamp now : Timeval)
  | call (call : LinkCall)

/-- A link, and the number of expiries counted since the last stamp. -/
structure ListenLog where
  link : Link
  expiries : Nat

namespace ListenLog

def count (settings : ListenSettings) (log : ListenLog) (timeListen : Timeval) : Nat :=
  if log.link.timeout.tvSec = 0 then 0
  else if log.link.Expired settings timeListen then log.expiries + 1
  else log.expiries

def step (settings : ListenSettings) (log : ListenLog) : LinkEvent → Option ListenLog
  | .listen timeListen stamp now =>
      let after := (listenLink settings log.link timeListen stamp now).1
      if after.linkState = -1 then none else some ⟨after, log.count settings timeListen⟩
  | .call call => (log.link.step call).map fun after => ⟨after, log.expiries⟩

end ListenLog

/-- The counter says how many expiries there were, the link is given up only
after all its intervals, and as soon as they are over. -/
structure ListenLog.Counts (settings : ListenSettings) (log : ListenLog) : Prop where
  counted : log.link.timeout.tvSec ≠ 0 → log.link.timeoutTimes = log.expiries + 1
  fits : log.link.timeout.tvSec ≠ 0 → settings.listenLinkInterval * log.link.timeoutTimes ≤
    settings.listenLinkInterval * (settings.listenLinkTimes + 1)
  patient : ∀ timeListen stamp now, log.link.linkState ≠ -1 →
    (listenLink settings log.link timeListen stamp now).1.linkState = -1 →
    settings.listenLinkInterval * (settings.listenLinkTimes + 1) ≤
      getMsDiff timeListen log.link.timeout
  final : log.link.timeout.tvSec ≠ 0 → log.expiries = settings.listenLinkTimes →
    ∀ timeListen stamp now, settings.listenLinkInterval * (settings.listenLinkTimes + 1) ≤
        getMsDiff timeListen log.link.timeout →
      (listenLink settings log.link timeListen stamp now).1.linkState = -1

/-- The condition: no pass counts an expiry while the byte is at its maximum. -/
def ListenLog.ByteHolds (settings : ListenSettings) (log : ListenLog) : LinkEvent → Prop
  | .listen timeListen _ _ => ¬ (log.link.Expired settings timeListen ∧
      log.link.timeoutTimes = 255 ∧ 255 ≤ settings.listenLinkTimes)
  | .call _ => True

/-- The invariant of a run that meets the condition. -/
structure ListenLog.Inv (settings : ListenSettings) (log : ListenLog) : Prop where
  counted : log.link.timeout.tvSec ≠ 0 → log.link.timeoutTimes = log.expiries + 1
  byte : log.link.timeout.tvSec ≠ 0 → log.link.timeoutTimes ≤ 255
  limit : log.link.timeout.tvSec ≠ 0 → log.link.timeoutTimes ≤ settings.listenLinkTimes + 1

/-- The four ways a pass can go for a link that is not deleted. -/
inductive ListenEffect (settings : ListenSettings) (pslink : Link) (timeListen stamp : Timeval) :
    Link → Prop where
  | stamped (time : Timeval) : pslink.timeout.tvSec = 0 →
      ListenEffect settings pslink timeListen stamp
        { pslink with timeout := stamp, timeoutTimes := 1, timeoutSend := time }
  | deleted : pslink.Expired settings timeListen →
      pslink.timeoutTimes > settings.listenLinkTimes →
      ListenEffect settings pslink timeListen stamp { pslink with linkState := -1 }
  | counted (time : Timeval) : pslink.Expired settings timeListen →
      pslink.timeoutTimes ≤ settings.listenLinkTimes →
      ListenEffect settings pslink timeListen stamp
        { pslink with timeoutTimes := (pslink.timeoutTimes + 1) % 256, timeoutSend := time }
  | waiting (time : Timeval) : pslink.timeout.tvSec ≠ 0 →
      ¬ pslink.Expired settings timeListen →
      ListenEffect settings pslink timeListen stamp { pslink with timeoutSend := time }

theorem listenLink_effect (settings : ListenSettings) {pslink : Link}
    (alive : pslink.linkState ≠ -1) (timeListen stamp now : Timeval) :
    ListenEffect settings pslink timeListen stamp
      (listenLink settings pslink timeListen stamp now).1 := by
  have checked (link : Link) : ∃ time,
      (seqCheck settings.listenLinkInterval timeListen link now).1 =
        { link with timeoutSend := time } :=
    (seqCheck_effect settings.listenLinkInterval timeListen link now).1
  unfold listenLink
  rw [if_neg alive]
  split
  · next silent =>
    obtain ⟨time, frame⟩ := checked { pslink with timeout := stamp, timeoutTimes := 1 }
    rw [frame]
    exact .stamped time silent
  · next waited =>
    split
    · next expired =>
      split
      · next reached => exact .deleted expired reached
      · next left =>
        obtain ⟨time, frame⟩ :=
          checked { pslink with timeoutTimes := (pslink.timeoutTimes + 1) % 256 }
        dsimp only
        rw [frame]
        exact .counted time expired (by omega)
    · next early =>
      obtain ⟨time, frame⟩ := checked pslink
      rw [frame]
      exact .waiting time waited early

theorem threadRecv_timeout {pslink after : Link} {pa : PacketAll} {now : Timeval}
    {sent : List Datagram} (ran : threadRecv pslink pa now = some (after, sent)) :
    after.timeout.tvSec = 0 := by
  have cleared : (pslink.heard pa).timeout.tvSec = 0 := rfl
  rcases threadRecv_timers ran with same | rfl
  · rw [same.timeout]
    exact cleared
  · obtain ⟨seq, time, frame, -⟩ := seqReportAck_effect (pslink.heard pa) pa now
    rw [frame]
    exact cleared

theorem call_timeout {pslink : Link} {call : LinkCall} {out : Outcome}
    (called : pslink.call call = some out) :
    out.link.timeout = pslink.timeout ∧ out.link.timeoutTimes = pslink.timeoutTimes ∨
      out.link.timeout.tvSec = 0 := by
  rcases call_timers called with same | ⟨pa, now, ran⟩
  · exact .inl ⟨same.timeout, same.timeoutTimes⟩
  · exact .inr (threadRecv_timeout ran)

namespace ListenLog

variable {settings : ListenSettings} {log next : ListenLog}

theorem step_listen {timeListen stamp now : Timeval}
    (stepped : log.step settings (.listen timeListen stamp now) = some next) :
    next.link.linkState ≠ -1 ∧ next.expiries = log.count settings timeListen ∧
      ListenEffect settings log.link timeListen stamp next.link := by
  unfold step at stepped
  dsimp only at stepped
  split at stepped
  · cases stepped
  · next kept =>
    obtain rfl := Option.some.inj stepped
    have alive : log.link.linkState ≠ -1 := by
      intro dead
      apply kept
      rw [listenLink, if_pos dead]
      exact dead
    exact ⟨kept, rfl, listenLink_effect settings alive timeListen stamp now⟩

theorem step_call {call : LinkCall} (stepped : log.step settings (.call call) = some next) :
    next.expiries = log.expiries ∧
      (next.link.timeout = log.link.timeout ∧ next.link.timeoutTimes = log.link.timeoutTimes ∨
        next.link.timeout.tvSec = 0) := by
  obtain ⟨after, ran, rfl⟩ := Option.map_eq_some_iff.mp stepped
  obtain ⟨out, called, rfl⟩ := Option.map_eq_some_iff.mp ran
  exact ⟨rfl, call_timeout called⟩

theorem inv_addList (settings : ListenSettings) (id socket : Nat) (tsWaitTime : Int)
    (created : Timeval) : Inv settings ⟨addList id socket tsWaitTime created, 0⟩ where
  counted stamped := absurd rfl stamped
  byte stamped := absurd rfl stamped
  limit stamped := absurd rfl stamped

theorem inv_step (valid : 1 ≤ settings.listenLinkTimes) (log : ListenLog) (event : LinkEvent)
    (next : ListenLog) (inv : log.Inv settings) (holds : log.ByteHolds settings event)
    (stepped : log.step settings event = some next) : next.Inv settings := by
  cases event with
  | call call =>
      obtain ⟨same, ⟨stamp, times⟩ | cleared⟩ := step_call stepped
      · constructor
        · rw [stamp, times, same]
          exact inv.counted
        · rw [stamp, times]
          exact inv.byte
        · rw [stamp, times]
          exact inv.limit
      · exact ⟨absurd cleared, absurd cleared, absurd cleared⟩
  | listen timeListen stamp now =>
      obtain ⟨alive, counts, effect⟩ := step_listen stepped
      obtain ⟨after, expiries⟩ := next
      obtain rfl : expiries = log.count settings timeListen := counts
      dsimp only at effect
      unfold count
      cases effect with
      | stamped time silent =>
          rw [if_pos silent]
          exact ⟨fun _ => rfl, fun _ => by dsimp only; omega, fun _ => by dsimp only; omega⟩
      | deleted => exact absurd rfl alive
      | counted time expired left =>
          rw [if_neg expired.1, if_pos expired]
          have byte := inv.byte expired.1
          have counted := inv.counted expired.1
          -- at 255 the condition says that the limit is smaller, and the link is deleted
          have room : log.link.timeoutTimes + 1 ≤ 255 := by
            by_contra full
            exact holds ⟨expired, by omega, by omega⟩
          have kept : (log.link.timeoutTimes + 1) % 256 = log.link.timeoutTimes + 1 :=
            Nat.mod_eq_of_lt (by omega)
          constructor
          all_goals
            intro _
            dsimp only
            omega
      | waiting time waited early =>
          rw [if_neg waited, if_neg early]
          exact ⟨inv.counted, inv.byte, inv.limit⟩

theorem Inv.counts (valid : 0 ≤ settings.listenLinkInterval) (inv : log.Inv settings) :
    log.Counts settings where
  counted := inv.counted
  fits stamped := Int.mul_le_mul_of_nonneg_left (inv.limit stamped) valid
  patient timeListen stamp now alive deleted := by
    have effect := listenLink_effect settings alive timeListen stamp now
    generalize (listenLink settings log.link timeListen stamp now).1 = after at effect deleted
    cases effect with
    | deleted expired reached =>
        calc settings.listenLinkInterval * (settings.listenLinkTimes + 1)
            ≤ settings.listenLinkInterval * log.link.timeoutTimes :=
              Int.mul_le_mul_of_nonneg_left reached valid
          _ ≤ getMsDiff timeListen log.link.timeout := expired.2
    | stamped | counted | waiting => exact absurd deleted alive
  final stamped last timeListen stamp now elapsed := by
    by_cases alive : log.link.linkState = -1
    · rw [listenLink, if_pos alive]
      exact alive
    · have counted := inv.counted stamped
      have reached : (log.link.timeoutTimes : Int) = settings.listenLinkTimes + 1 := by
        omega
      have expired : log.link.Expired settings timeListen := by
        refine ⟨stamped, ?_⟩
        rw [reached]
        exact elapsed
      have effect := listenLink_effect settings alive timeListen stamp now
      generalize (listenLink settings log.link timeListen stamp now).1 = after at effect
      cases effect with
      | deleted => rfl
      | stamped _ silent => exact absurd silent stamped
      | counted _ _ left => omega
      | waiting _ _ early => exact absurd expired early

/-- An event that does not meet the condition leaves a counter that is wrong. -/
theorem byteHolds_of_counts {event : LinkEvent}
    (stepped : log.step settings event = some next) (counts : next.Counts settings) :
    log.ByteHolds settings event := by
  cases event with
  | call call => trivial
  | listen timeListen stamp now =>
      rintro ⟨expired, full, wide⟩
      obtain ⟨alive, same, effect⟩ := step_listen stepped
      obtain ⟨after, expiries⟩ := next
      obtain rfl : expiries = log.count settings timeListen := same
      dsimp only at effect
      cases effect with
      | stamped _ silent => exact expired.1 silent
      | deleted => exact alive rfl
      | counted time _ left =>
          have counted := counts.counted expired.1
          rw [full] at counted
          exact absurd counted (by simp)
      | waiting _ _ early => exact early expired

end ListenLog

/-- The heartbeat counter, exactly: along every run of a link with accepted
settings the counter is right in every state if and only if no expiry is counted
while `timeout_times` is 255. -/
theorem expiries_counted_iff (settings : ListenSettings) (milliseconds times : Int)
    (accepted : (setListenTime settings milliseconds times).2 = true) (id socket : Nat)
    (tsWaitTime : Int) (created : Timeval) (events : List LinkEvent) (last : ListenLog)
    (ran : Transition.run (ListenLog.step (setListenTime settings milliseconds times).1)
      ⟨addList id socket tsWaitTime created, 0⟩ events = some last) :
    Transition.Guarded (ListenLog.step (setListenTime settings milliseconds times).1)
        (ListenLog.ByteHolds (setListenTime settings milliseconds times).1)
        ⟨addList id socket tsWaitTime created, 0⟩ events ↔
      ∀ count middle, Transition.run (ListenLog.step (setListenTime settings milliseconds times).1)
          ⟨addList id socket tsWaitTime created, 0⟩ (events.take count) = some middle →
        middle.Counts (setListenTime settings milliseconds times).1 := by
  obtain ⟨interval, limit⟩ := setListenTime_accepted accepted
  generalize (setListenTime settings milliseconds times).1 = configured at *
  refine Transition.guarded_iff_of_visible (ListenLog.step configured) ?_
    (ListenLog.inv_step limit) (fun _ kept => kept.counts interval)
    (ListenLog.inv_addList configured id socket tsWaitTime created) ran
  intro log event next inv stepped
  constructor
  · intro holds
    exact (ListenLog.inv_step limit log event next inv holds stepped).counts interval
  · exact ListenLog.byteHolds_of_counts stepped

theorem guarded_of_limit {settings : ListenSettings} (narrow : settings.listenLinkTimes < 255)
    (log : ListenLog) (events : List LinkEvent) :
    Transition.Guarded (ListenLog.step settings) (ListenLog.ByteHolds settings) log events := by
  induction events generalizing log with
  | nil => trivial
  | cons event rest inductionHypothesis =>
      refine ⟨?_, fun next _ => inductionHypothesis next⟩
      cases event with
      | call => trivial
      | listen =>
          rintro ⟨-, -, wide⟩
          omega

/-- A connected link is stamped and then visited some times, three seconds
later, without having heard anything. -/
def silentPasses (passes : Nat) : List LinkEvent :=
  .call (.recv [3, 0, 0, 0, 0, 0, 0, 0] ⟨100, 0⟩) :: .listen ⟨100, 0⟩ ⟨100, 0⟩ ⟨100, 0⟩ ::
    List.replicate passes (.listen ⟨103, 0⟩ ⟨103, 0⟩ ⟨103, 0⟩)

theorem expiries_counted_iff_smallest :
    ∃ log, Transition.run (ListenLog.step (setListenTime .initial 10 1).1)
        ⟨addList 0 3 0 .zero, 0⟩ (silentPasses 1) = some log ∧
      log.expiries = 1 ∧ log.link.timeoutTimes = 2 ∧
      log.Counts (setListenTime .initial 10 1).1 :=
  ⟨_, rfl, rfl, rfl, (expiries_counted_iff .initial 10 1 rfl 0 3 0 .zero (silentPasses 1) _ rfl).mp
    (guarded_of_limit (by decide) _ _) (silentPasses 1).length _ rfl⟩

/-- The expiries, the byte and the state of the link after silent passes with
255 intervals of 10 milliseconds. -/
def counterAfter (passes : Nat) : Option (Nat × Nat × Int) :=
  (Transition.run (ListenLog.step (setListenTime .initial 10 255).1) ⟨addList 0 3 0 .zero, 0⟩
    (silentPasses passes)).map
      fun log => (log.expiries, log.link.timeoutTimes, log.link.linkState)

/-- The byte wraps at the 255th expiry, and the next pass does not delete the
link although all its intervals are over. -/
theorem counter_wraps :
    (setListenTime .initial 10 255).2 = true ∧ counterAfter 255 = some (255, 0, 2) ∧
      getMsDiff ⟨103, 0⟩ ⟨100, 0⟩ ≥ 10 * (255 + 1) ∧ counterAfter 256 = some (256, 1, 2) ∧
      ∃ log, Transition.run (ListenLog.step (setListenTime .initial 10 255).1)
          ⟨addList 0 3 0 .zero, 0⟩ (silentPasses 255) = some log ∧
        log.link.timeout = ⟨100, 0⟩ ∧ ¬ log.Counts (setListenTime .initial 10 255).1 := by
  refine ⟨rfl, by decide +kernel, by decide, by decide +kernel, ?_⟩
  have shown : (Transition.run (ListenLog.step (setListenTime .initial 10 255).1)
      ⟨addList 0 3 0 .zero, 0⟩ (silentPasses 255)).map
        (fun log => (log.expiries, log.link.timeoutTimes, log.link.timeout)) =
      some (255, 0, ⟨100, 0⟩) := by decide +kernel
  obtain ⟨log, ran, equal⟩ := Option.map_eq_some_iff.mp shown
  obtain ⟨expiries, wrapped, stamp⟩ : log.expiries = 255 ∧ log.link.timeoutTimes = 0 ∧
      log.link.timeout = ⟨100, 0⟩ := by simpa using equal
  refine ⟨log, ran, stamp, fun counts => ?_⟩
  have counted := counts.counted (by rw [stamp]; decide)
  rw [expiries, wrapped] at counted
  cases counted

end UtilsModules.Udp

import Mathlib.Tactic.Ring
import UtilsModules.Timer.Watch

/-!
Firing order and schedule.

The front of the work list is never later than the rest, and every later
insertion lies ahead of the clock.  So expiries are for deadlines in order, and
a timer that is left alone is advanced by its interval alone.
-/

namespace UtilsModules.Timer

/-- The deadline of an expiry by its number, in microseconds. -/
def Origin.deadline (entry : Origin) (number : Nat) : Int :=
  entry.started.micros + number * (entry.interval * 1000)

/-- The record carries the next deadline of its entry. -/
structure Origin.Schedules (entry : Origin) (timer : StTimer) : Prop where
  armed : timer.func ≠ none ∨ 0 ≤ timer.msgid
  positive : 0 < timer.interval.micros
  interval : entry.touched = false → timer.interval.micros = entry.interval * 1000
  deadline : entry.touched = false → timer.tv.micros = entry.deadline (entry.fired + 1)

structure Expiry.Punctual (expiry : Expiry) : Prop where
  reached : expiry.deadline.micros ≤ expiry.time.micros
  scheduled : ∃ entry, expiry.origin = some entry ∧
    (entry.touched = false → expiry.deadline.micros = entry.deadline (entry.fired + 1))

def Action.time : Action → Option Reading
  | setTimer _ _ _ tv => some tv
  | setMsgTimer _ _ _ tv => some tv
  | killTimer _ => none
  | changeTimerTime _ _ tv => some tv
  | thread tv => some tv

def PastOf (expiries : List Expiry) (time : Timeval) : Prop :=
  ∀ expiry ∈ expiries, expiry.deadline.micros ≤ time.micros

namespace Watch

/-- The clock does not go back. -/
def Steady (watch : Watch) (action : Action) : Prop :=
  ∀ tv ∈ action.time, watch.clock.micros ≤ tv.micros

instance (watch : Watch) (action : Action) : Decidable (watch.Steady action) :=
  inferInstanceAs (Decidable (∀ _ ∈ _, _))

structure OnTime (watch : Watch) : Prop where
  queue : watch.timers.Queue
  ahead : Accounted
    (fun entry timer => entry.Schedules timer ∧ PastOf watch.expiries timer.tv)
    (fun _ => True) watch.timers watch.origin
  past : PastOf watch.expiries watch.clock
  punctual : ∀ expiry ∈ watch.expiries, expiry.Punctual
  ordered : watch.expiries.Pairwise fun later earlier =>
    earlier.deadline.micros ≤ later.deadline.micros

theorem init_onTime (start : Reading) : (init start).OnTime := by
  refine ⟨timerInit_queue, ⟨?_, fun _ _ => trivial⟩, ?_, ?_, List.Pairwise.nil⟩
  · simp [init, timerInit]
  · simp [PastOf, init]
  · simp [init]

namespace OnTime

variable {watch : Watch}

theorem later (onTime : watch.OnTime) {clock : Timeval}
    (steady : watch.clock.micros ≤ clock.micros) : OnTime { watch with clock := clock } :=
  ⟨onTime.queue, onTime.ahead, fun expiry membership => (onTime.past expiry membership).trans steady,
    onTime.punctual, onTime.ordered⟩

theorem outside (onTime : watch.OnTime) (semNew : Nat) (thread : ThreadTimer)
    (outputs : List Output) :
    OnTime { watch with
      timers := { watch.timers with semNew := semNew, thread := thread }
      outputs := outputs } :=
  ⟨onTime.queue.outside _ _, onTime.ahead.outside _ _, onTime.past, onTime.punctual,
    onTime.ordered⟩

/-- A record goes to its place in the work list, ahead of all past expiries. -/
theorem enlist (onTime : watch.OnTime) {node : Nat} {timer : StTimer} {entry : Origin}
    (inRange : node < maxTimerNumber) (live : timer.Live node) (scheduled : entry.Schedules timer)
    (past : PastOf watch.expiries timer.tv) :
    OnTime { watch with
      timers := watch.timers.enlist node timer
      origin := Function.update watch.origin node (some entry) } :=
  ⟨onTime.queue.enlist inRange live, onTime.ahead.enlist onTime.queue ⟨scheduled, past⟩,
    onTime.past, onTime.punctual, onTime.ordered⟩

theorem release (onTime : watch.OnTime) {node : Nat} {timer : StTimer} (entry : Option Origin)
    (inRange : node < maxTimerNumber) (stopped : timer.state = 0) (named : timer.id = node) :
    OnTime { watch with
      timers := watch.timers.release node timer
      origin := Function.update watch.origin node entry } :=
  ⟨onTime.queue.release inRange stopped named, onTime.ahead.release onTime.queue trivial,
    onTime.past, onTime.punctual, onTime.ordered⟩

/-- The two calls that set a timer book a schedule that begins at the time they
read. -/
theorem enter (onTime : watch.OnTime) {node : Nat} {timer : StTimer} {entry : Origin}
    (inRange : node < maxTimerNumber) (live : timer.Live node)
    (armed : timer.func ≠ none ∨ 0 ≤ timer.msgid) (positive : 0 < entry.interval)
    (fresh : entry.fired = 0)
    (interval : timer.interval.micros = entry.interval * 1000)
    (deadline : timer.tv.micros = entry.started.micros + entry.interval * 1000)
    (steady : watch.clock.micros ≤ entry.started.micros) :
    (watch.enter ((watch.timers.enlist node timer).postNew, some node) entry).OnTime := by
  have scheduled : entry.Schedules timer := by
    refine ⟨armed, by omega, fun _ => interval, fun _ => ?_⟩
    rw [deadline, Origin.deadline, fresh]
    omega
  have past : PastOf watch.expiries timer.tv := by
    intro expiry membership
    have := onTime.past expiry membership
    omega
  exact ((onTime.enlist inRange live scheduled past).outside _ _ _).later steady

theorem record (onTime : watch.OnTime) {tv : Reading} {node : Nat}
    (isDue : due watch.timers tv = some node) (steady : watch.clock.micros ≤ tv.micros) :
    OnTime { watch with
      expiries := ⟨node, watch.timers.timerArray node, tv, watch.origin node⟩ :: watch.expiries
      clock := tv.toTimeval } := by
  have working := TimerModule.Queue.mem_of_due isDue
  have reached := onTime.queue.due_reached isDue
  obtain ⟨entry, booked, scheduled, past⟩ := onTime.ahead.working node working
  refine ⟨onTime.queue, ?_, ?_, ?_, ?_⟩
  · apply onTime.ahead.mono
    rintro other otherWorking otherEntry ⟨otherScheduled, otherPast⟩
    refine ⟨otherScheduled, ?_⟩
    intro expiry membership
    rcases List.mem_cons.mp membership with rfl | old
    · exact onTime.queue.due_first isDue otherWorking
    · exact otherPast expiry old
  · intro expiry membership
    rcases List.mem_cons.mp membership with rfl | old
    · exact reached
    · exact (onTime.past expiry old).trans steady
  · intro expiry membership
    rcases List.mem_cons.mp membership with rfl | old
    · exact ⟨reached, entry, booked, scheduled.deadline⟩
    · exact onTime.punctual expiry old
  · exact List.pairwise_cons.mpr ⟨past, onTime.ordered⟩

theorem advance (onTime : watch.OnTime) {node : Nat} {timer : StTimer} {entry : Origin}
    (working : node ∈ watch.timers.listTimerWork) (booked : watch.origin node = some entry)
    (live : timer.Live node) (deadline : timer.tv = (watch.timers.timerArray node).advance.tv)
    (interval : timer.interval = (watch.timers.timerArray node).interval)
    (func : timer.func = (watch.timers.timerArray node).func)
    (msgid : timer.msgid = (watch.timers.timerArray node).msgid) :
    OnTime { watch with
      timers := watch.timers.enlist node timer
      origin := Function.update watch.origin node
        (some { entry with fired := entry.fired + 1 }) } := by
  have advanced := (onTime.queue.live node working).advance_deadline.2
  obtain ⟨found, foundBooked, scheduled, past⟩ := onTime.ahead.working node working
  obtain rfl := Option.some.inj (booked.symm.trans foundBooked)
  have positive := scheduled.positive
  refine onTime.enlist (onTime.queue.inRange_of_work working) live ⟨?_, ?_, ?_, ?_⟩ ?_
  · rw [func, msgid]
    exact scheduled.armed
  · rw [interval]
    exact positive
  · rw [interval]
    exact scheduled.interval
  · intro untouched
    rw [deadline, advanced, scheduled.interval untouched, scheduled.deadline untouched]
    simp only [Origin.deadline]
    push_cast
    ring
  · intro expiry membership
    have := past expiry membership
    rw [deadline, advanced]
    omega

theorem expires (onTime : watch.OnTime) {tv : Reading} {node : Nat} {after : TimerModule}
    {output : Option Output} (isDue : due watch.timers tv = some node)
    (steady : watch.clock.micros ≤ tv.micros) (expired : Expires watch.timers node after output) :
    (watch.handle tv (some node) (after, output)).OnTime := by
  have working := TimerModule.Queue.mem_of_due isDue
  have live := onTime.queue.live node working
  have inRange := onTime.queue.inRange_of_work working
  have recorded := onTime.record isDue steady
  obtain ⟨entry, booked, -⟩ := onTime.ahead.working node working
  have counted : (watch.origin node).map (fun entry => { entry with fired := entry.fired + 1 }) =
      some { entry with fired := entry.fired + 1 } := by
    rw [booked]
    rfl
  simp only [handle, counted]
  cases expired with
  | called => exact (recorded.advance working booked live.advance rfl rfl rfl rfl).outside _ _ _
  | repeated => exact (recorded.advance working booked live.advance rfl rfl rfl rfl).outside _ _ _
  | counted =>
      have fewer : StTimer.Live { (watch.timers.timerArray node).advance with
          times := (watch.timers.timerArray node).times - 1 } node :=
        ⟨live.working, live.named, live.advance.deadline, live.interval⟩
      exact (recorded.advance working booked fewer rfl rfl rfl rfl).outside _ _ _
  | exhausted =>
      refine (recorded.release _ inRange ?_ ?_).outside _ _ _
      · rfl
      · exact live.named
  | dropped =>
      refine (recorded.release _ inRange ?_ ?_).outside _ _ _
      · rfl
      · exact live.named

theorem thread (onTime : watch.OnTime) {tv : Reading} {after : TimerModule}
    {output : Option Output} (steady : watch.clock.micros ≤ tv.micros)
    (steps : ThreadSteps watch.timers tv after output) :
    (watch.handle tv (due watch.timers tv) (after, output)).OnTime := by
  cases steps with
  | moves _ _ noDue =>
      rw [noDue]
      exact (onTime.outside _ _ _).later steady
  | calls _ _ noDue =>
      rw [noDue]
      exact (onTime.outside _ _ _).later steady
  | expires node _ _ isDue _ expired =>
      rw [isDue]
      exact onTime.expires isDue steady expired

theorem changeTimerTime (onTime : watch.OnTime) {id : Nat} {timeInterval : Int} {tv : Reading}
    (working : id ∈ watch.timers.listTimerWork) (positive : 0 < timeInterval)
    (steady : watch.clock.micros ≤ tv.micros) {entry : Origin} (restarted : entry.touched = true) :
    OnTime { watch with
      timers := watch.timers.enlist id
        ((watch.timers.timerArray id).schedule tv.toTimeval timeInterval)
      origin := Function.update watch.origin id (some entry)
      clock := tv.toTimeval } := by
  have live := onTime.queue.live id working
  have deadline := ((watch.timers.timerArray id).schedule_deadline tv.normalised positive).2
  have interval := ((watch.timers.timerArray id).schedule_interval tv.toTimeval positive).2
  obtain ⟨_, -, scheduled, -⟩ := onTime.ahead.working id working
  refine (onTime.enlist (onTime.queue.inRange_of_work working)
    (StTimer.schedule_live tv positive live.working live.named) ⟨scheduled.armed, ?_, ?_, ?_⟩
    ?_).later steady
  · rw [interval]
    omega
  · simp [restarted]
  · simp [restarted]
  · intro expiry membership
    have := onTime.past expiry membership
    rw [deadline]
    omega

theorem step (onTime : watch.OnTime) {action : Action} {after : Watch}
    (steady : watch.Steady action) (stepped : watch.step action = some after) : after.OnTime := by
  have queue := onTime.queue
  cases action with
  | setTimer timeInterval pFunc parameter tv =>
      obtain rfl := Option.some.inj stepped
      have steady := steady tv rfl
      rcases queue.setTimer_cases timeInterval pFunc parameter tv with
        refused | ⟨node, rest, func, free, positive, -, started⟩
      · rw [refused]
        exact onTime.later steady
      · rw [started]
        exact onTime.enter (queue.inRange_of_free (by simp [free]))
          (StTimer.startCall_live _ node func parameter tv positive)
          (.inl (Option.some_ne_none func)) positive rfl
          ((watch.timers.timerArray node).schedule_interval tv.toTimeval positive).2
          ((watch.timers.timerArray node).schedule_deadline tv.normalised positive).2 steady
  | setMsgTimer timeInterval msgid times tv =>
      obtain rfl := Option.some.inj stepped
      have steady := steady tv rfl
      rcases queue.setMsgTimer_cases timeInterval msgid times tv with
        refused | ⟨node, rest, free, positive, valid, started⟩
      · rw [refused]
        exact onTime.later steady
      · rw [started]
        exact onTime.enter (queue.inRange_of_free (by simp [free]))
          (StTimer.startMessage_live _ node msgid times tv positive) (.inr valid) positive rfl
          ((watch.timers.timerArray node).schedule_interval tv.toTimeval positive).2
          ((watch.timers.timerArray node).schedule_deadline tv.normalised positive).2 steady
  | killTimer id =>
      obtain rfl := Option.some.inj stepped
      rcases queue.killTimer_cases id with ⟨notWorking, ignored⟩ | ⟨working, killed⟩
      · simp only [ignored]
        exact ⟨queue, onTime.ahead.close notWorking trivial, onTime.past, onTime.punctual,
          onTime.ordered⟩
      · simp only [killed]
        exact onTime.release none (queue.inRange_of_work working) rfl (queue.id_of_work working)
  | changeTimerTime id timeInterval tv =>
      obtain rfl := Option.some.inj stepped
      have steady := steady tv rfl
      rcases queue.changeTimerTime_cases id timeInterval tv with
        refused | ⟨working, positive, changed⟩
      · simp only [refused, Bool.or_false, Option.map_id', Function.update_eq_self]
        exact onTime.later steady
      · obtain ⟨entry, booked, -⟩ := onTime.ahead.working id working
        simp only [changed, booked, Option.map_some, Bool.or_true]
        exact onTime.changeTimerTime working positive steady rfl
  | thread tv =>
      obtain ⟨⟨next, output⟩, threaded, rfl⟩ := Option.map_eq_some_iff.mp stepped
      exact onTime.thread (steady tv rfl) (queue.threadTimer_steps threaded)

theorem does (onTime : watch.OnTime) (tv : Reading) {node : Nat} {after : TimerModule}
    {output : Option Output} (working : node ∈ watch.timers.listTimerWork)
    (expired : Expires watch.timers node after output) :
    ∃ done, Expiry.asked ⟨node, watch.timers.timerArray node, tv, watch.origin node⟩ = some done ∧
      after.thread.pending.toList.map Deed.called ++ output.toList.map Output.deed = [done] := by
  cases expired with
  | called func hasFunc =>
      exact ⟨.called func, by simp [Expiry.asked, hasFunc], by simp [ThreadTimer.pending]⟩
  | repeated noFunc valid | counted noFunc valid | exhausted noFunc valid =>
      exact ⟨.sent (watch.timers.timerArray node).msgid node,
        by simp [Expiry.asked, noFunc, valid], by simp [Output.deed, ThreadTimer.pending]⟩
  | dropped noFunc noMessage =>
      -- such a record is in no list of a run
      obtain ⟨_, -, scheduled, -⟩ := onTime.ahead.working node working
      rcases scheduled.armed with hasFunc | valid
      · exact absurd noFunc hasFunc
      · omega

theorem performs (onTime : watch.OnTime) (performed : watch.Performed Expiry.asked)
    {action : Action} {after : Watch} (stepped : watch.step action = some after) :
    after.Performed Expiry.asked := by
  cases action with
  | thread tv =>
      obtain ⟨⟨next, output⟩, threaded, rfl⟩ := Option.map_eq_some_iff.mp stepped
      exact performed.thread (onTime.queue.threadTimer_steps threaded)
        fun node isDue => onTime.does tv (TimerModule.Queue.mem_of_due isDue)
  | setTimer | setMsgTimer | killTimer | changeTimerTime =>
      exact performed.call (by simp) stepped

theorem getTimerTime (onTime : watch.OnTime) {id : Nat} {entry : Origin}
    (working : id ∈ watch.timers.listTimerWork) (booked : watch.origin id = some entry)
    (untouched : entry.touched = false) :
    Timer.getTimerTime watch.timers id = entry.interval := by
  have live := onTime.queue.live id working
  have inRange := onTime.queue.inRange_of_work working
  obtain ⟨found, foundBooked, scheduled, -⟩ := onTime.ahead.working id working
  obtain rfl := Option.some.inj (booked.symm.trans foundBooked)
  have interval := scheduled.interval untouched
  obtain ⟨low, high⟩ := live.interval
  rw [Timer.getTimerTime, if_neg (by omega), if_neg (by rw [live.working]; decide),
    Int.tdiv_eq_ediv_of_nonneg low]
  simp only [Timeval.micros] at interval
  omega

end OnTime

end Watch

/-- Along every run with a clock that does not go back: no expiry is early, a timer that
fires in a step of the thread has reached its deadline, which no other timer's precedes,
deadlines come in order, a timer that is left alone expires at the multiples of its
interval, and the calls and messages of the thread are those of the expiries, one for
each. -/
theorem firings_on_schedule {start : Reading} {actions : List Action} {watch : Watch}
    (steady : Transition.Guarded Watch.step Watch.Steady (Watch.init start) actions)
    (ran : Transition.run Watch.step (Watch.init start) actions = some watch) :
    (∀ expiry ∈ watch.expiries, expiry.deadline.micros ≤ expiry.time.micros) ∧
    (∀ tv result, threadTimer watch.timers tv = some result → ∀ node ∈ fires result,
      due watch.timers tv = some node ∧ (watch.timers.timerArray node).tv.micros ≤ tv.micros ∧
        ∀ other ∈ watch.timers.listTimerWork,
          (watch.timers.timerArray node).tv.micros ≤ (watch.timers.timerArray other).tv.micros) ∧
    (watch.expiries.Pairwise fun later earlier =>
      earlier.deadline.micros ≤ later.deadline.micros) ∧
    (∀ expiry ∈ watch.expiries, ∃ entry, expiry.origin = some entry ∧
      (entry.touched = false → expiry.deadline.micros =
        entry.started.micros + (entry.fired + 1) * (entry.interval * 1000))) ∧
    watch.expiries.map Expiry.asked = (watch.timers.thread.pending.toList.map Deed.called ++
      watch.outputs.map Output.deed).map some := by
  obtain ⟨onTime, performed⟩ : watch.OnTime ∧ watch.Performed Expiry.asked :=
    @Transition.run_invariant_of_guarded _ _ Watch.step Watch.Steady
      (fun watch => watch.OnTime ∧ watch.Performed Expiry.asked)
      (fun _ _ _ both steady stepped =>
        ⟨both.1.step steady stepped, both.1.performs both.2 stepped⟩)
      _ _ _ steady ⟨Watch.init_onTime start, rfl⟩ ran
  refine ⟨?_, ?_, onTime.ordered, ?_, performed⟩
  · intro expiry membership
    exact (onTime.punctual expiry membership).reached
  · intro tv result threaded node fired
    have isDue := (onTime.queue.threadTimer_steps threaded).due_of_fires fired
    exact ⟨isDue, onTime.queue.due_reached isDue,
      fun other working => onTime.queue.due_first isDue working⟩
  · intro expiry membership
    exact (onTime.punctual expiry membership).scheduled

/-- A timer of 400 ms and a message timer of 1000 ms are set at 10.7 s, and the
thread comes late, at 12 s: it handles the deadlines 11.1 s, 11.5 s and 11.7 s. -/
theorem firings_on_schedule_late :
    ∃ watch, Transition.run Watch.step (Watch.init ⟨⟨10, 0⟩, by decide⟩)
        [.setTimer 400 (some 7) 0 ⟨⟨10, 700000⟩, by decide⟩,
          .setMsgTimer 1000 3 1 ⟨⟨10, 700000⟩, by decide⟩,
          .thread ⟨⟨12, 0⟩, by decide⟩, .thread ⟨⟨12, 0⟩, by decide⟩,
          .thread ⟨⟨12, 0⟩, by decide⟩, .thread ⟨⟨12, 0⟩, by decide⟩,
          .thread ⟨⟨12, 0⟩, by decide⟩] = some watch ∧
      watch.expiries.map (fun expiry => expiry.deadline.micros) =
        [11700000, 11500000, 11100000] ∧
      watch.outputs = [.send 3 1, .call 7 0, .call 7 0] ∧
      (watch.expiries.Pairwise fun later earlier =>
        earlier.deadline.micros ≤ later.deadline.micros) ∧
      watch.expiries.map Expiry.asked = (watch.timers.thread.pending.toList.map Deed.called ++
        watch.outputs.map Output.deed).map some := by
  have logged : (Transition.run Watch.step (Watch.init ⟨⟨10, 0⟩, by decide⟩)
      [.setTimer 400 (some 7) 0 ⟨⟨10, 700000⟩, by decide⟩,
        .setMsgTimer 1000 3 1 ⟨⟨10, 700000⟩, by decide⟩,
        .thread ⟨⟨12, 0⟩, by decide⟩, .thread ⟨⟨12, 0⟩, by decide⟩,
        .thread ⟨⟨12, 0⟩, by decide⟩, .thread ⟨⟨12, 0⟩, by decide⟩,
        .thread ⟨⟨12, 0⟩, by decide⟩]).map (fun watch =>
          (watch.expiries.map fun expiry => expiry.deadline.micros, watch.outputs)) =
      some ([11700000, 11500000, 11100000], [.send 3 1, .call 7 0, .call 7 0]) := by
    decide +kernel
  obtain ⟨watch, ran, logged⟩ := Option.map_eq_some_iff.mp logged
  obtain ⟨deadlines, outputs⟩ := Prod.mk.inj logged
  obtain ⟨-, -, ordered, -, performed⟩ := firings_on_schedule (by decide +kernel) ran
  exact ⟨watch, ran, deadlines, outputs, ordered, performed⟩

end UtilsModules.Timer

import UtilsModules.Timer.Moves

/-!
The wait of the timer thread.

While nobody has posted `g_sem_new`, the thread must not sleep past a deadline.
`SetTimer` and `SetMsgTimer` post the semaphore; `ChangeTimerTime` moves a
deadline and does not, so it is harmless only where the sleep is short enough
anyway.
-/

namespace UtilsModules.Timer

def Timespec.nanos (time : Timespec) : Int := time.tvSec * 1000000000 + time.tvNsec

namespace TimerModule

def deadline (timers : TimerModule) (node : Nat) : Int := (timers.timerArray node).tv.micros

/-- If the thread waits and nobody has posted `g_sem_new`, it waits without a
limit for an empty list, or until a time that is not after any deadline. -/
def Awake (timers : TimerModule) : Prop :=
  timers.semNew = 0 →
    match timers.thread with
    | .waitNew => timers.listTimerWork = []
    | .timedwait tn => ∀ node ∈ timers.listTimerWork, tn.nanos ≤ timers.deadline node * 1000
    | _ => True

/-- The same with the time the thread is about to read for its wait. -/
def Watchful (timers : TimerModule) : Prop :=
  timers.semNew = 0 →
    match timers.thread with
    | .waitNew => timers.listTimerWork = []
    | .timedwait tn => ∀ node ∈ timers.listTimerWork, tn.nanos ≤ timers.deadline node * 1000
    | .computeTn first => ∀ node ∈ timers.listTimerWork, timers.deadline first ≤ timers.deadline node
    | _ => True

/-- A record may get a new deadline without a wake-up: the thread is not on its
way to sleep, or the time it sleeps until is still early enough. -/
def Changeable (timers : TimerModule) (id : Nat) (deadline : Int) : Prop :=
  match timers.thread with
  | .computeTn first =>
      if id = first then ∀ node ∈ timers.listTimerWork, node ≠ id → deadline ≤ timers.deadline node
      else timers.deadline first ≤ deadline
  | .timedwait tn => tn.nanos ≤ deadline * 1000
  | _ => True

instance (timers : TimerModule) (id : Nat) (deadline : Int) :
    Decidable (timers.Changeable id deadline) := by
  unfold Changeable
  split <;> infer_instance

/-- The condition on an action: where `ChangeTimerTime` changes a timer, the
semaphore has been posted or the change needs no wake-up. -/
def Prompt (timers : TimerModule) : Action → Prop
  | .changeTimerTime id timeInterval tv =>
      (id ≥ maxTimerNumber ∨ timeInterval ≤ 0 ∨ (timers.timerArray id).state = 0) ∨
        timers.semNew > 0 ∨ timers.Changeable id (tv.micros + timeInterval * 1000)
  | _ => True

instance (timers : TimerModule) (action : Action) : Decidable (timers.Prompt action) := by
  unfold Prompt
  split <;> infer_instance

theorem Watchful.awake {timers : TimerModule} (watchful : timers.Watchful) : timers.Awake := by
  intro unposted
  have := watchful unposted
  revert this
  cases timers.thread <;> simp

theorem Watchful.posted {timers : TimerModule} (posted : 0 < timers.semNew) : timers.Watchful :=
  fun unposted => absurd unposted (Nat.ne_of_gt posted)

theorem Watchful.fewer {timers after : TimerModule} (watchful : timers.Watchful)
    (sameCount : after.semNew = timers.semNew) (sameThread : after.thread = timers.thread)
    (fewer : ∀ node ∈ after.listTimerWork, node ∈ timers.listTimerWork)
    (sameDeadline : ∀ node, after.deadline node = timers.deadline node) : after.Watchful := by
  intro unposted
  have before := watchful (sameCount ▸ unposted)
  rw [sameThread]
  revert before
  cases timers.thread with
  | top => exact id
  | callback func node => exact id
  | waitNew =>
      intro empty
      apply List.eq_nil_iff_forall_not_mem.mpr
      intro node membership
      have := fewer node membership
      rw [empty] at this
      cases this
  | computeTn first =>
      intro early node membership
      rw [sameDeadline, sameDeadline]
      exact early node (fewer node membership)
  | timedwait tn =>
      intro early node membership
      rw [sameDeadline]
      exact early node (fewer node membership)

end TimerModule

namespace TimerModule.Queue

variable {timers : TimerModule}

theorem deadline_enlist_of_ne {id node : Nat} (timer : StTimer) (different : node ≠ id) :
    (timers.enlist id timer).deadline node = timers.deadline node := by
  rw [deadline, deadline, enlist_array, Function.update_of_ne different]

theorem deadline_enlist_self (timers : TimerModule) (id : Nat) (timer : StTimer) :
    (timers.enlist id timer).deadline id = timer.tv.micros := by
  rw [deadline, enlist_array, Function.update_self]

theorem killTimer_watchful (queue : timers.Queue) (watchful : timers.Watchful) (id : Nat) :
    (Timer.killTimer timers id).Watchful := by
  rcases queue.killTimer_cases id with ⟨-, ignored⟩ | ⟨working, killed⟩
  · rw [ignored]
    exact watchful
  · rw [killed]
    refine Watchful.fewer watchful ?_ ?_ ?_ ?_
    · rfl
    · rfl
    · intro node membership
      exact (queue.mem_release_work.mp membership).2
    · intro node
      rw [deadline, deadline, release_array]
      by_cases same : node = id
      · rw [same, Function.update_self]
      · rw [Function.update_of_ne same]

/-- A record of the work list that gets a harmless deadline. -/
theorem enlist_watchful (queue : timers.Queue) (watchful : timers.Watchful) {id : Nat}
    {timer : StTimer} (working : id ∈ timers.listTimerWork)
    (changeable : timers.semNew = 0 → timers.Changeable id timer.tv.micros) :
    (timers.enlist id timer).Watchful := by
  intro unposted
  have before := watchful unposted
  have changeable := changeable unposted
  have members : ∀ node ∈ (timers.enlist id timer).listTimerWork, node ∈ timers.listTimerWork := by
    intro node membership
    rcases queue.mem_enlist_work.mp membership with rfl | stayed
    · exact working
    · exact stayed
  have sameThread : (timers.enlist id timer).thread = timers.thread := rfl
  unfold Changeable at changeable
  rw [sameThread]
  cases place : timers.thread with
  | top => trivial
  | callback func node => trivial
  | waitNew =>
      simp only [place] at before
      rw [before] at working
      cases working
  | computeTn first =>
      simp only [place] at before changeable
      intro node membership
      have here := members node membership
      split at changeable
      · next same =>
        subst same
        rw [deadline_enlist_self]
        by_cases other : node = id
        · rw [other, deadline_enlist_self]
        · rw [deadline_enlist_of_ne timer other]
          exact changeable node here other
      · next different =>
        rw [deadline_enlist_of_ne timer (Ne.symm different)]
        by_cases other : node = id
        · rw [other, deadline_enlist_self]
          exact changeable
        · rw [deadline_enlist_of_ne timer other]
          exact before node here
  | timedwait tn =>
      simp only [place] at before changeable
      intro node membership
      by_cases other : node = id
      · rw [other, deadline_enlist_self]
        exact changeable
      · rw [deadline_enlist_of_ne timer other]
        exact before node (members node membership)

theorem changeTimerTime_watchful (queue : timers.Queue) (watchful : timers.Watchful) {id : Nat}
    {timeInterval : Int} {tv : Reading}
    (prompt : timers.Prompt (.changeTimerTime id timeInterval tv)) :
    (Timer.changeTimerTime timers id timeInterval tv).1.Watchful := by
  rcases queue.changeTimerTime_cases id timeInterval tv with
    ignored | ⟨working, positive, changed⟩
  · rw [ignored]
    exact watchful
  · rw [changed]
    apply queue.enlist_watchful watchful working
    intro unposted
    rw [(StTimer.schedule_deadline _ tv.normalised positive).2]
    rcases prompt with refused | posted | changeable
    · have inRange := queue.inRange_of_work working
      have started := (queue.live id working).working
      omega
    · exact absurd unposted (Nat.ne_of_gt posted)
    · exact changeable

theorem expires_watchful {node : Nat} {after : TimerModule} {output : Option Output}
    (expired : Expires timers node after output) : after.Watchful := by
  intro _
  cases expired <;> trivial

theorem turn_watchful (queue : timers.Queue) (tv : Reading) : (turn timers tv).1.Watchful := by
  unfold turn
  split
  · next work => exact fun _ => work
  · next node rest work =>
    have started : ¬ (timers.timerArray node).state = 0 := by
      rw [(queue.live node (by simp [work])).working]
      decide
    rw [if_neg started]
    split
    · exact expires_watchful (queue.expire_expires work)
    · exact fun _ other working => queue.first_earliest work working

theorem threadTimer_watchful (queue : timers.Queue) (watchful : timers.Watchful) {tv : Reading}
    {after : TimerModule} {output : Option Output}
    (stepped : threadTimer timers tv = some (after, output)) : after.Watchful := by
  unfold threadTimer at stepped
  split at stepped
  · have turned := queue.turn_watchful tv
    rw [Option.some.inj stepped] at turned
    exact turned
  · split at stepped
    · obtain ⟨rfl, -⟩ := Prod.mk.inj (Option.some.inj stepped)
      exact fun _ => trivial
    · cases stepped
  · obtain ⟨rfl, -⟩ := Prod.mk.inj (Option.some.inj stepped)
    exact fun _ => trivial
  · next first computing =>
    obtain ⟨rfl, -⟩ := Prod.mk.inj (Option.some.inj stepped)
    intro unposted node working
    have early := watchful unposted
    simp only [computing] at early
    have := early node working
    simp only [deadline, Timeval.micros] at this
    simp only [deadline, Timespec.nanos, Timeval.micros]
    omega
  · split at stepped
    · obtain ⟨rfl, -⟩ := Prod.mk.inj (Option.some.inj stepped)
      exact fun _ => trivial
    · split at stepped
      · obtain ⟨rfl, -⟩ := Prod.mk.inj (Option.some.inj stepped)
        exact fun _ => trivial
      · cases stepped

theorem step_watchful (queue : timers.Queue) (watchful : timers.Watchful) {action : Action}
    {after : TimerModule} (prompt : timers.Prompt action)
    (stepped : Timer.step timers action = some after) : after.Watchful := by
  cases action with
  | setTimer timeInterval pFunc parameter tv =>
      obtain rfl := Option.some.inj stepped
      rcases queue.setTimer_cases timeInterval pFunc parameter tv with
        refused | ⟨node, rest, func, -, -, -, started⟩
      · rw [refused]
        exact watchful
      · rw [started]
        exact Watchful.posted (Nat.succ_pos _)
  | setMsgTimer timeInterval msgid times tv =>
      obtain rfl := Option.some.inj stepped
      rcases queue.setMsgTimer_cases timeInterval msgid times tv with
        refused | ⟨node, rest, -, -, -, started⟩
      · rw [refused]
        exact watchful
      · rw [started]
        exact Watchful.posted (Nat.succ_pos _)
  | killTimer id =>
      obtain rfl := Option.some.inj stepped
      exact queue.killTimer_watchful watchful id
  | changeTimerTime id timeInterval tv =>
      obtain rfl := Option.some.inj stepped
      exact queue.changeTimerTime_watchful watchful prompt
  | thread tv =>
      obtain ⟨⟨next, output⟩, threaded, rfl⟩ := Option.map_eq_some_iff.mp stepped
      exact queue.threadTimer_watchful watchful threaded

end TimerModule.Queue

/-- In every run whose `ChangeTimerTime` calls need no wake-up, the thread never
waits past a deadline with nothing posted. -/
theorem thread_never_oversleeps {actions : List Action} {timers : TimerModule}
    (prompt : Transition.Guarded step TimerModule.Prompt timerInit actions)
    (ran : Transition.run step timerInit actions = some timers) : timers.Awake := by
  have both : timers.Queue ∧ timers.Watchful := by
    apply Transition.run_invariant_of_guarded step ?_ prompt ?_ ran
    · intro state action next before guard stepped
      exact ⟨before.1.step stepped, before.1.step_watchful before.2 guard stepped⟩
    · exact ⟨timerInit_queue, fun _ => trivial⟩
  exact both.2.awake

/-- A timer of ten seconds is set and the thread goes to sleep for it, after the
post of `SetTimer` has been consumed. -/
def asleep : List Action :=
  [.setTimer 10000 (some 7) 0 ⟨⟨100, 0⟩, by decide⟩, .thread ⟨⟨100, 10⟩, by decide⟩,
    .thread ⟨⟨100, 20⟩, by decide⟩, .thread ⟨⟨100, 30⟩, by decide⟩,
    .thread ⟨⟨100, 40⟩, by decide⟩, .thread ⟨⟨100, 50⟩, by decide⟩]

theorem thread_never_oversleeps_postponed :
    ∃ timers, Transition.run step timerInit
        (asleep ++ [.changeTimerTime 0 20000 ⟨⟨101, 0⟩, by decide⟩]) = some timers ∧
      timers.semNew = 0 ∧ timers.thread = .timedwait ⟨110, 0⟩ ∧ timers.listTimerWork = [0] ∧
      timers.Awake := by
  have view : (Transition.run step timerInit
      (asleep ++ [.changeTimerTime 0 20000 ⟨⟨101, 0⟩, by decide⟩])).map (fun timers =>
        (timers.semNew, timers.thread, timers.listTimerWork)) =
      some (0, .timedwait ⟨110, 0⟩, [0]) := by
    decide +kernel
  obtain ⟨timers, ran, seen⟩ := Option.map_eq_some_iff.mp view
  simp only [Prod.mk.injEq] at seen
  exact ⟨timers, ran, seen.1, seen.2.1, seen.2.2,
    thread_never_oversleeps (by decide +kernel) ran⟩

/-- The sleeping thread is given an earlier deadline and is not woken. -/
theorem thread_oversleeps :
    ∃ timers, Transition.run step timerInit
        (asleep ++ [.changeTimerTime 0 100 ⟨⟨101, 0⟩, by decide⟩]) = some timers ∧
      ¬ timers.Awake := by
  have view : (Transition.run step timerInit
      (asleep ++ [.changeTimerTime 0 100 ⟨⟨101, 0⟩, by decide⟩])).map (fun timers =>
        (timers.semNew, timers.thread, timers.listTimerWork, timers.deadline 0)) =
      some (0, .timedwait ⟨110, 0⟩, [0], 101100000) := by
    decide +kernel
  obtain ⟨timers, ran, seen⟩ := Option.map_eq_some_iff.mp view
  simp only [Prod.mk.injEq] at seen
  refine ⟨timers, ran, fun awake => ?_⟩
  have early := awake seen.1
  simp only [seen.2.1, seen.2.2.1] at early
  have := early 0 (by simp)
  rw [seen.2.2.2] at this
  exact absurd this (by decide)

end UtilsModules.Timer

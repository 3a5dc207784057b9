import UtilsModules.Timer.Queue

/-!
Every call and every turn of the thread as a move of one record.

From a sound queue the record at the front of a list carries its own index, so
each function either leaves the lists alone or is `enlist` or `release` with
the contents written out here.
-/

namespace UtilsModules.Timer

namespace StTimer

def startCall (timer : StTimer) (node : Nat) (timeInterval : Int) (func parameter : Nat)
    (tv : Reading) : StTimer :=
  { timer.schedule tv.toTimeval timeInterval with
    state := 1, id := node, func := some func, parameter := parameter, msgid := -1 }

def startMessage (timer : StTimer) (node : Nat) (timeInterval msgid times : Int)
    (tv : Reading) : StTimer :=
  { timer.schedule tv.toTimeval timeInterval with
    state := 1, id := node, msgid := msgid, times := times }

theorem schedule_live {timer : StTimer} {node : Nat} {timeInterval : Int} (tv : Reading)
    (positive : 0 < timeInterval) (working : timer.state = 1) (named : timer.id = node) :
    (timer.schedule tv.toTimeval timeInterval).Live node :=
  ⟨working, named, (timer.schedule_deadline tv.normalised positive).1,
    (timer.schedule_interval tv.toTimeval positive).1⟩

theorem startCall_live (timer : StTimer) (node : Nat) {timeInterval : Int} (func parameter : Nat)
    (tv : Reading) (positive : 0 < timeInterval) :
    (timer.startCall node timeInterval func parameter tv).Live node :=
  ⟨rfl, rfl, (timer.schedule_deadline tv.normalised positive).1,
    (timer.schedule_interval tv.toTimeval positive).1⟩

theorem startMessage_live (timer : StTimer) (node : Nat) {timeInterval : Int}
    (msgid times : Int) (tv : Reading) (positive : 0 < timeInterval) :
    (timer.startMessage node timeInterval msgid times tv).Live node :=
  ⟨rfl, rfl, (timer.schedule_deadline tv.normalised positive).1,
    (timer.schedule_interval tv.toTimeval positive).1⟩

end StTimer

namespace TimerModule.Queue

variable {timers : TimerModule}

theorem id_of_work (queue : timers.Queue) {node : Nat} (working : node ∈ timers.listTimerWork) :
    (timers.timerArray node).id = node :=
  (queue.live node working).named

theorem inRange_of_work (queue : timers.Queue) {node : Nat}
    (working : node ∈ timers.listTimerWork) : node < maxTimerNumber :=
  (queue.member_iff node).mp (.inl working)

theorem inRange_of_free (queue : timers.Queue) {node : Nat}
    (idle : node ∈ timers.listTimerFree) : node < maxTimerNumber :=
  (queue.member_iff node).mp (.inr idle)

/-- Writing a record that has been taken off the free list and inserting it. -/
theorem insert_taken (queue : timers.Queue) {node : Nat} {rest : List Nat} (timer : StTimer)
    (free : timers.listTimerFree = node :: rest) :
    insertTimer (TimerModule.write { timers with listTimerFree := rest } node timer) node =
      timers.enlist node timer := by
  have notWorking : node ∉ timers.listTimerWork := by
    intro working
    exact queue.notMem_free working (by simp [free])
  simp only [TimerModule.enlist, insertTimer, TimerModule.write, TimerModule.listErase, free,
    List.erase_cons_head, List.erase_of_not_mem notWorking]

/-- Writing a record that has been taken off the work list and inserting it. -/
theorem insert_popped (queue : timers.Queue) {node id : Nat} {rest : List Nat} (timer : StTimer)
    (work : timers.listTimerWork = node :: rest) (thread : ThreadTimer) (named : id = node) :
    insertTimer { timers.write node timer with listTimerWork := rest, thread := thread } id =
      { timers.enlist node timer with thread := thread } := by
  subst named
  have notFree := queue.notMem_free (show id ∈ timers.listTimerWork by simp [work])
  simp only [TimerModule.enlist, insertTimer, TimerModule.write, TimerModule.listErase, work,
    List.erase_cons_head, List.erase_of_not_mem notFree]

theorem write_popped (timers : TimerModule) (node : Nat) (first second : StTimer)
    (rest : List Nat) (thread : ThreadTimer) :
    TimerModule.write
        { timers.write node first with listTimerWork := rest, thread := thread } node second =
      { timers.write node second with listTimerWork := rest, thread := thread } := by
  simp only [TimerModule.write, Function.update_idem]

/-- Writing a record that has been taken off the work list and freeing it. -/
theorem free_popped (queue : timers.Queue) {node : Nat} {rest : List Nat} (timer : StTimer)
    (work : timers.listTimerWork = node :: rest) (thread : ThreadTimer) :
    TimerModule.pushFree
        { timers.write node timer with listTimerWork := rest, thread := thread } node =
      { timers.release node timer with thread := thread } := by
  have notFree := queue.notMem_free (show node ∈ timers.listTimerWork by simp [work])
  simp only [TimerModule.release, TimerModule.pushFree, TimerModule.write, TimerModule.listErase,
    work, List.erase_cons_head, List.erase_of_not_mem notFree]

theorem setTimer_started (queue : timers.Queue) {node : Nat} {rest : List Nat}
    {timeInterval : Int} (func parameter : Nat) (tv : Reading)
    (free : timers.listTimerFree = node :: rest) (positive : 0 < timeInterval) :
    setTimer timers timeInterval (some func) parameter tv =
      ((timers.enlist node ((timers.timerArray node).startCall node timeInterval func
        parameter tv)).postNew, some node) := by
  have named := (queue.idle node (by simp [free])).2
  rw [setTimer, if_neg (by simp; omega)]
  simp only [getTimerID, free, named]
  rw [queue.insert_taken _ free]
  rfl

theorem setMsgTimer_started (queue : timers.Queue) {node : Nat} {rest : List Nat}
    {timeInterval msgid : Int} (times : Int) (tv : Reading)
    (free : timers.listTimerFree = node :: rest) (positive : 0 < timeInterval)
    (valid : 0 ≤ msgid) :
    setMsgTimer timers timeInterval msgid times tv =
      ((timers.enlist node ((timers.timerArray node).startMessage node timeInterval msgid
        times tv)).postNew, some node) := by
  have named := (queue.idle node (by simp [free])).2
  rw [setMsgTimer, if_neg (by omega)]
  simp only [getTimerID, free, named]
  rw [queue.insert_taken _ free]
  rfl

theorem setTimer_cases (queue : timers.Queue) (timeInterval : Int) (pFunc : Option Nat)
    (parameter : Nat) (tv : Reading) :
    setTimer timers timeInterval pFunc parameter tv = (timers, none) ∨
      ∃ node rest func, timers.listTimerFree = node :: rest ∧ 0 < timeInterval ∧
        pFunc = some func ∧
        setTimer timers timeInterval pFunc parameter tv =
          ((timers.enlist node ((timers.timerArray node).startCall node timeInterval func
            parameter tv)).postNew, some node) := by
  by_cases positive : 0 < timeInterval
  · cases pFunc with
    | none => exact .inl (by simp [setTimer])
    | some func =>
        cases free : timers.listTimerFree with
        | nil => exact .inl (by simp [setTimer, getTimerID, free])
        | cons node rest =>
            exact .inr ⟨node, rest, func, rfl, positive, rfl,
              queue.setTimer_started func parameter tv free positive⟩
  · exact .inl (by rw [setTimer, if_pos (.inl (by omega))])

theorem setMsgTimer_cases (queue : timers.Queue) (timeInterval msgid times : Int)
    (tv : Reading) :
    setMsgTimer timers timeInterval msgid times tv = (timers, none) ∨
      ∃ node rest, timers.listTimerFree = node :: rest ∧ 0 < timeInterval ∧ 0 ≤ msgid ∧
        setMsgTimer timers timeInterval msgid times tv =
          ((timers.enlist node ((timers.timerArray node).startMessage node timeInterval msgid
            times tv)).postNew, some node) := by
  by_cases valid : 0 < timeInterval ∧ 0 ≤ msgid
  · cases free : timers.listTimerFree with
    | nil => exact .inl (by simp [setMsgTimer, getTimerID, free])
    | cons node rest =>
        exact .inr ⟨node, rest, rfl, valid.1, valid.2,
          queue.setMsgTimer_started times tv free valid.1 valid.2⟩
  · exact .inl (by rw [setMsgTimer, if_pos (by omega)])

theorem killTimer_cases (queue : timers.Queue) (id : Nat) :
    id ∉ timers.listTimerWork ∧ killTimer timers id = timers ∨
      id ∈ timers.listTimerWork ∧
        killTimer timers id = timers.release id { timers.timerArray id with state := 0 } := by
  unfold killTimer
  split
  · next outOfRange =>
    refine .inl ⟨fun working => ?_, rfl⟩
    exact absurd (queue.inRange_of_work working) (by omega)
  · next inRange =>
    split
    · next idle =>
      refine .inl ⟨fun working => ?_, rfl⟩
      have := (queue.live id working).working
      omega
    · next working => exact .inr ⟨queue.mem_work_of_state (by omega) working, rfl⟩

theorem changeTimerTime_cases (queue : timers.Queue) (id : Nat) (timeInterval : Int)
    (tv : Reading) :
    changeTimerTime timers id timeInterval tv = (timers, false) ∨
      id ∈ timers.listTimerWork ∧ 0 < timeInterval ∧
        changeTimerTime timers id timeInterval tv =
          (timers.enlist id ((timers.timerArray id).schedule tv.toTimeval timeInterval), true) := by
  unfold changeTimerTime
  split
  · exact .inl rfl
  · next valid =>
    split
    · exact .inl rfl
    · next working =>
      exact .inr ⟨queue.mem_work_of_state (by omega) working, by omega, rfl⟩

end TimerModule.Queue

inductive Expires (timers : TimerModule) (node : Nat) : TimerModule → Option Output → Prop where
  | called (func : Nat) : (timers.timerArray node).func = some func →
      Expires timers node
        { timers.enlist node (timers.timerArray node).advance with thread := .callback func node }
        none
  | repeated : (timers.timerArray node).func = none → 0 ≤ (timers.timerArray node).msgid →
      (timers.timerArray node).times ≤ 0 →
      Expires timers node
        { timers.enlist node (timers.timerArray node).advance with thread := .top }
        (some (.send (timers.timerArray node).msgid node))
  | counted : (timers.timerArray node).func = none → 0 ≤ (timers.timerArray node).msgid →
      1 < (timers.timerArray node).times →
      Expires timers node
        { timers.enlist node { (timers.timerArray node).advance with
            times := (timers.timerArray node).times - 1 } with thread := .top }
        (some (.send (timers.timerArray node).msgid node))
  | exhausted : (timers.timerArray node).func = none → 0 ≤ (timers.timerArray node).msgid →
      (timers.timerArray node).times = 1 →
      Expires timers node
        { timers.release node { (timers.timerArray node).advance with
            times := (timers.timerArray node).times - 1, state := 0 } with thread := .top }
        (some (.send (timers.timerArray node).msgid node))
  | dropped : (timers.timerArray node).func = none → (timers.timerArray node).msgid < 0 →
      Expires timers node
        { timers.release node { (timers.timerArray node).advance with state := 0 } with
          thread := .top }
        none

namespace TimerModule.Queue

variable {timers : TimerModule}

theorem expire_expires (queue : timers.Queue) {node : Nat} {rest : List Nat}
    (work : timers.listTimerWork = node :: rest) :
    Expires timers node (expire timers node rest).1 (expire timers node rest).2 := by
  have named : (timers.timerArray node).advance.id = node := queue.id_of_work (by simp [work])
  have sent : Output.send (timers.timerArray node).advance.msgid
      (timers.timerArray node).advance.id = .send (timers.timerArray node).msgid node :=
    congrArg _ named
  unfold expire
  simp only [sent]
  split
  · next func hasFunc =>
    rw [queue.insert_popped _ work _ named]
    exact .called func hasFunc
  · next noFunc =>
    split
    · next message =>
      split
      · next counting =>
        change 0 < (timers.timerArray node).times at counting
        split
        · next last =>
          change (timers.timerArray node).times - 1 ≤ 0 at last
          rw [write_popped, queue.free_popped _ work]
          exact .exhausted noFunc message (by omega)
        · next more =>
          change ¬ (timers.timerArray node).times - 1 ≤ 0 at more
          rw [write_popped, queue.insert_popped _ work _ named]
          exact .counted noFunc message (by omega)
      · next endless =>
        rw [queue.insert_popped _ work _ named]
        exact .repeated noFunc message (Int.not_lt.mp endless)
    · next noMessage =>
      rw [write_popped, queue.free_popped _ work]
      exact .dropped noFunc (Int.not_le.mp noMessage)

end TimerModule.Queue

/-- The function the thread is about to call. -/
def ThreadTimer.pending : ThreadTimer → Option Nat
  | callback func _ => some func
  | _ => none

/-- The record whose expiry the thread would handle at a time. -/
def due (timers : TimerModule) (tv : Reading) : Option Nat :=
  match timers.thread, timers.listTimerWork with
  | .top, node :: _ =>
      if (timers.timerArray node).state ≠ 0 ∧ cmptime tv.toTimeval (timers.timerArray node).tv then
        some node
      else
        none
  | _, _ => none

theorem due_spec {timers : TimerModule} {tv : Reading} {node : Nat}
    (isDue : due timers tv = some node) :
    node ∈ timers.listTimerWork.head? ∧
      cmptime tv.toTimeval (timers.timerArray node).tv = true := by
  unfold due at isDue
  split at isDue
  · next first rest _ work =>
    split at isDue
    · next reached =>
      obtain rfl := Option.some.inj isDue
      exact ⟨by simp [work], reached.2⟩
    · cases isDue
  · cases isDue

theorem thread_of_call {timers after : TimerModule} {action : Action}
    (notThread : ∀ tv, action ≠ .thread tv) (stepped : step timers action = some after) :
    after.thread = timers.thread := by
  cases action with
  | thread tv => exact absurd rfl (notThread tv)
  | setTimer =>
      obtain rfl := Option.some.inj stepped
      unfold setTimer getTimerID
      split
      · rfl
      · cases timers.listTimerFree <;> rfl
  | setMsgTimer =>
      obtain rfl := Option.some.inj stepped
      unfold setMsgTimer getTimerID
      split
      · rfl
      · cases timers.listTimerFree <;> rfl
  | killTimer =>
      obtain rfl := Option.some.inj stepped
      unfold killTimer
      split
      · rfl
      · split <;> rfl
  | changeTimerTime =>
      obtain rfl := Option.some.inj stepped
      unfold changeTimerTime
      split
      · rfl
      · split <;> rfl

/-- The timer that fires in a step of the thread: its message is sent, or its function is
what the thread goes on to call. -/
def fires : TimerModule × Option Output → Option Nat
  | (_, some (.send _ id)) => some id
  | (_, some (.call _ _)) => none
  | (timers, none) =>
      match timers.thread with
      | .callback _ node => some node
      | _ => none

inductive ThreadSteps (timers : TimerModule) (tv : Reading) :
    TimerModule → Option Output → Prop where
  | moves (semNew : Nat) (thread : ThreadTimer) : due timers tv = none →
      timers.thread.pending = none → thread.pending = none →
      ThreadSteps timers tv { timers with semNew := semNew, thread := thread } none
  | calls (func node : Nat) : due timers tv = none → timers.thread = .callback func node →
      ThreadSteps timers tv { timers with thread := .top }
        (some (.call func (timers.timerArray node).parameter))
  | expires (node : Nat) (after : TimerModule) (output : Option Output) :
      due timers tv = some node → timers.thread = .top → Expires timers node after output →
      ThreadSteps timers tv after output

theorem ThreadSteps.due_of_fires {timers after : TimerModule} {tv : Reading}
    {output : Option Output} (steps : ThreadSteps timers tv after output) {node : Nat}
    (fired : fires (after, output) = some node) : due timers tv = some node := by
  cases steps with
  | moves semNew thread _ _ stillNone =>
      cases thread with
      | callback => cases stillNone
      | _ => cases fired
  | calls => cases fired
  | expires found _ _ isDue _ expired =>
      cases expired with
      | called | repeated | counted | exhausted =>
          obtain rfl := Option.some.inj fired
          exact isDue
      | dropped => cases fired

namespace TimerModule.Queue

variable {timers : TimerModule}

theorem turn_steps (queue : timers.Queue) (tv : Reading) (top : timers.thread = .top) :
    ThreadSteps timers tv (turn timers tv).1 (turn timers tv).2 := by
  have noPending : timers.thread.pending = none := by rw [top]; rfl
  unfold turn
  split
  · next work =>
    have noDue : due timers tv = none := by simp [due, top, work]
    exact .moves timers.semNew .waitNew noDue noPending rfl
  · next node rest work =>
    have live := queue.live node (by simp [work])
    rw [if_neg (by rw [live.working]; decide)]
    split
    · next reached =>
      have isDue : due timers tv = some node := by
        simp [due, top, work, live.working, reached]
      exact .expires node _ _ isDue top (queue.expire_expires work)
    · next early =>
      have noDue : due timers tv = none := by simp [due, top, work, early]
      exact .moves timers.semNew (.computeTn node) noDue noPending rfl

theorem threadTimer_steps (queue : timers.Queue) {tv : Reading} {after : TimerModule}
    {output : Option Output} (stepped : threadTimer timers tv = some (after, output)) :
    ThreadSteps timers tv after output := by
  unfold threadTimer at stepped
  split at stepped
  · next top =>
    have steps := queue.turn_steps tv top
    rw [Option.some.inj stepped] at steps
    exact steps
  · next waiting =>
    split at stepped
    · obtain ⟨rfl, rfl⟩ := Prod.mk.inj (Option.some.inj stepped)
      exact .moves _ .top (by simp [due, waiting]) (by rw [waiting]; rfl) rfl
    · cases stepped
  · next func node calling =>
    obtain ⟨rfl, rfl⟩ := Prod.mk.inj (Option.some.inj stepped)
    exact .calls func node (by simp [due, calling]) calling
  · next node computing =>
    obtain ⟨rfl, rfl⟩ := Prod.mk.inj (Option.some.inj stepped)
    exact .moves timers.semNew _ (by simp [due, computing]) (by rw [computing]; rfl) rfl
  · next tn waiting =>
    have noDue : due timers tv = none := by simp [due, waiting]
    have noPending : timers.thread.pending = none := by rw [waiting]; rfl
    split at stepped
    · obtain ⟨rfl, rfl⟩ := Prod.mk.inj (Option.some.inj stepped)
      exact .moves _ .top noDue noPending rfl
    · split at stepped
      · obtain ⟨rfl, rfl⟩ := Prod.mk.inj (Option.some.inj stepped)
        exact .moves timers.semNew .top noDue noPending rfl
      · cases stepped

theorem mem_of_due {tv : Reading} {node : Nat} (isDue : due timers tv = some node) :
    node ∈ timers.listTimerWork :=
  List.mem_of_mem_head? (due_spec isDue).1

theorem due_first (queue : timers.Queue) {tv : Reading} {node other : Nat}
    (isDue : due timers tv = some node) (working : other ∈ timers.listTimerWork) :
    (timers.timerArray node).tv.micros ≤ (timers.timerArray other).tv.micros := by
  obtain ⟨rest, work⟩ := List.head?_eq_some_iff.mp (due_spec isDue).1
  exact queue.first_earliest work working

theorem due_reached (queue : timers.Queue) {tv : Reading} {node : Nat}
    (isDue : due timers tv = some node) : (timers.timerArray node).tv.micros ≤ tv.micros :=
  (cmptime_iff tv.normalised (queue.live node (mem_of_due isDue)).deadline).mp (due_spec isDue).2

theorem expires (queue : timers.Queue) {node : Nat} {after : TimerModule}
    {output : Option Output} (working : node ∈ timers.listTimerWork)
    (expired : Expires timers node after output) : after.Queue := by
  have live := queue.live node working
  have inRange := queue.inRange_of_work working
  cases expired with
  | called => exact (queue.enlist inRange live.advance).outside _ _
  | repeated => exact (queue.enlist inRange live.advance).outside _ _
  | counted =>
      have counted : StTimer.Live { (timers.timerArray node).advance with
          times := (timers.timerArray node).times - 1 } node :=
        ⟨live.working, live.named, live.advance.deadline, live.interval⟩
      exact (queue.enlist inRange counted).outside _ _
  | exhausted =>
      refine (queue.release inRange ?_ ?_).outside _ _
      · rfl
      · exact live.named
  | dropped =>
      refine (queue.release inRange ?_ ?_).outside _ _
      · rfl
      · exact live.named

theorem threadSteps (queue : timers.Queue) {tv : Reading} {after : TimerModule}
    {output : Option Output} (steps : ThreadSteps timers tv after output) : after.Queue := by
  cases steps with
  | moves => exact queue.outside _ _
  | calls => exact queue.outside _ _
  | expires node _ _ isDue _ expired => exact queue.expires (mem_of_due isDue) expired

theorem setTimer (queue : timers.Queue) (timeInterval : Int) (pFunc : Option Nat)
    (parameter : Nat) (tv : Reading) :
    (Timer.setTimer timers timeInterval pFunc parameter tv).1.Queue := by
  rcases queue.setTimer_cases timeInterval pFunc parameter tv with
    refused | ⟨node, rest, func, free, positive, -, started⟩
  · rw [refused]
    exact queue
  · rw [started]
    exact (queue.enlist (queue.inRange_of_free (by simp [free]))
      (StTimer.startCall_live _ node func parameter tv positive)).outside _ _

theorem setMsgTimer (queue : timers.Queue) (timeInterval msgid times : Int) (tv : Reading) :
    (Timer.setMsgTimer timers timeInterval msgid times tv).1.Queue := by
  rcases queue.setMsgTimer_cases timeInterval msgid times tv with
    refused | ⟨node, rest, free, positive, -, started⟩
  · rw [refused]
    exact queue
  · rw [started]
    exact (queue.enlist (queue.inRange_of_free (by simp [free]))
      (StTimer.startMessage_live _ node msgid times tv positive)).outside _ _

theorem killTimer (queue : timers.Queue) (id : Nat) : (Timer.killTimer timers id).Queue := by
  rcases queue.killTimer_cases id with ⟨-, ignored⟩ | ⟨working, killed⟩
  · rw [ignored]
    exact queue
  · rw [killed]
    exact queue.release (queue.inRange_of_work working) rfl (queue.id_of_work working)

theorem changeTimerTime (queue : timers.Queue) (id : Nat) (timeInterval : Int) (tv : Reading) :
    (Timer.changeTimerTime timers id timeInterval tv).1.Queue := by
  rcases queue.changeTimerTime_cases id timeInterval tv with
    ignored | ⟨working, positive, changed⟩
  · rw [ignored]
    exact queue
  · have live := queue.live id working
    rw [changed]
    exact queue.enlist (queue.inRange_of_work working)
      (StTimer.schedule_live tv positive live.working live.named)

theorem step (queue : timers.Queue) {action : Action} {after : TimerModule}
    (stepped : Timer.step timers action = some after) : after.Queue := by
  cases action with
  | setTimer timeInterval pFunc parameter tv =>
      exact Option.some.inj stepped ▸ queue.setTimer timeInterval pFunc parameter tv
  | setMsgTimer timeInterval msgid times tv =>
      exact Option.some.inj stepped ▸ queue.setMsgTimer timeInterval msgid times tv
  | killTimer id => exact Option.some.inj stepped ▸ queue.killTimer id
  | changeTimerTime id timeInterval tv =>
      exact Option.some.inj stepped ▸ queue.changeTimerTime id timeInterval tv
  | thread tv =>
      obtain ⟨⟨next, output⟩, threaded, rfl⟩ := Option.map_eq_some_iff.mp stepped
      exact queue.threadSteps (queue.threadTimer_steps threaded)

end TimerModule.Queue

theorem timerInit_queue : timerInit.Queue := by
  refine ⟨?_, by simp [timerInit], ?_, by simp [timerInit]⟩
  · simp only [timerInit, List.nil_append, List.range_eq_range']
    exact .refl _
  · intro node _
    exact ⟨rfl, rfl⟩

/-- In every state of the module each record is in one list, once, at the place
its state says, and the work list is in order of time. -/
theorem timer_lists_sound {actions : List Action} {timers : TimerModule}
    (ran : Transition.run step timerInit actions = some timers) :
    (∀ index < maxTimerNumber,
      (timers.listTimerWork.count index + timers.listTimerFree.count index = 1) ∧
      (index ∈ timers.listTimerWork ↔ (timers.timerArray index).state = 1) ∧
      (timers.timerArray index).id = index) ∧
    (∀ node, node ∈ timers.listTimerWork ∨ node ∈ timers.listTimerFree → node < maxTimerNumber) ∧
    timers.listTimerWork.Pairwise (fun first second =>
      (timers.timerArray first).tv.micros ≤ (timers.timerArray second).tv.micros) ∧
    ∀ node ∈ timers.listTimerWork, (timers.timerArray node).tv.Normalised ∧
      (timers.timerArray node).interval.Normalised := by
  have queue : timers.Queue := Transition.run_invariant step
    (fun _ _ _ queue stepped => TimerModule.Queue.step queue stepped) timerInit_queue ran
  refine ⟨?_, fun node => (queue.member_iff node).mp, ?_, ?_⟩
  · intro index inRange
    refine ⟨?_, ?_, ?_⟩
    · rw [← List.count_append]
      exact List.count_eq_one_of_mem queue.nodup
        (List.mem_append.mpr ((queue.member_iff index).mpr inRange))
    · refine ⟨fun working => (queue.live index working).working, fun working => ?_⟩
      exact queue.mem_work_of_state inRange (by omega)
    · rcases (queue.member_iff index).mpr inRange with working | idle
      · exact queue.id_of_work working
      · exact (queue.idle index idle).2
  · apply queue.sorted.imp_of_mem
    intro first second firstHere secondHere notAfter
    exact (cmptime_iff (queue.live second secondHere).deadline
      (queue.live first firstHere).deadline).mp notAfter
  · intro node working
    exact ⟨(queue.live node working).deadline, (queue.live node working).interval⟩

theorem timer_lists_sound_busy :
    ∃ timers, Transition.run step timerInit
        [.setTimer 1500 (some 7) 0 ⟨⟨10, 600000⟩, by decide⟩,
          .setMsgTimer 2000 3 1 ⟨⟨10, 700000⟩, by decide⟩,
          .setTimer 10 (some 8) 0 ⟨⟨10, 800000⟩, by decide⟩, .killTimer 2,
          .thread ⟨⟨12, 100000⟩, by decide⟩,
          .changeTimerTime 0 100 ⟨⟨12, 200000⟩, by decide⟩] = some timers ∧
      timers.listTimerWork = [0, 1] ∧
      timers.listTimerWork.Pairwise (fun first second =>
        (timers.timerArray first).tv.micros ≤ (timers.timerArray second).tv.micros) := by
  have work : (Transition.run step timerInit
      [.setTimer 1500 (some 7) 0 ⟨⟨10, 600000⟩, by decide⟩,
        .setMsgTimer 2000 3 1 ⟨⟨10, 700000⟩, by decide⟩,
        .setTimer 10 (some 8) 0 ⟨⟨10, 800000⟩, by decide⟩, .killTimer 2,
        .thread ⟨⟨12, 100000⟩, by decide⟩,
        .changeTimerTime 0 100 ⟨⟨12, 200000⟩, by decide⟩]).map
          (fun timers => timers.listTimerWork) = some [0, 1] := by
    decide +kernel
  obtain ⟨timers, ran, work⟩ := Option.map_eq_some_iff.mp work
  exact ⟨timers, ran, work, (timer_lists_sound ran).2.2.1⟩

end UtilsModules.Timer

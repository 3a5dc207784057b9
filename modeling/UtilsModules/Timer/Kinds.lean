import UtilsModules.Timer.Watch

/-!
Kinds of timers across the reuse of ids.

`SetTimer` clears the message queue of the record it takes, but `SetMsgTimer`
leaves the function that an earlier timer has stored.  As long as no message
timer gets such a record, every expiry does what its timer was set to do.
-/

namespace UtilsModules.Timer

/-- What a timer is set to do at each expiry. -/
def Kind.deed (id : Nat) : Kind → Deed
  | call func => .called func
  | message msgid _ => .sent msgid id

def Expiry.deed (expiry : Expiry) : Option Deed :=
  expiry.origin.map fun entry => entry.kind.deed expiry.id

def Origin.Spent (entry : Origin) : Prop :=
  match entry.kind with
  | .call _ => False
  | .message _ times => 0 < times ∧ entry.fired = times

/-- The timer has not sent more messages than it should. -/
def Origin.Bounded (entry : Origin) : Prop :=
  match entry.kind with
  | .call _ => True
  | .message _ times => 0 < times → entry.fired ≤ times

namespace Watch

/-- Every expiry has led to its deed and to nothing else, but for the call that
the thread is about to make; an id is free just when its timer was killed or
has sent all its messages, and no timer sends more. -/
structure Isolated (watch : Watch) : Prop where
  performed : watch.Performed Expiry.deed
  returned : ∀ id < maxTimerNumber,
    (id ∈ watch.timers.listTimerFree ↔ ∀ entry ∈ watch.origin id, entry.Spent)
  bounded : ∀ id < maxTimerNumber, ∀ entry ∈ watch.origin id, entry.Bounded

/-- A message timer that is set gets a record with no function in it. -/
def Clean (watch : Watch) : Action → Prop
  | .setMsgTimer timeInterval msgid _ _ => 0 < timeInterval → 0 ≤ msgid →
      ∀ node ∈ watch.timers.listTimerFree.head?, (watch.timers.timerArray node).func = none
  | _ => True

instance (watch : Watch) : ∀ action, Decidable (watch.Clean action)
  | .setMsgTimer .. => inferInstanceAs (Decidable (_ → _ → ∀ _ ∈ _, _))
  | .setTimer .. => isTrue trivial
  | .killTimer .. => isTrue trivial
  | .changeTimerTime .. => isTrue trivial
  | .thread .. => isTrue trivial

end Watch

def Origin.Obeyed (entry : Origin) (timer : StTimer) : Prop :=
  match entry.kind with
  | .call func => timer.func = some func
  | .message msgid times => timer.func = none ∧ timer.msgid = msgid ∧ 0 ≤ msgid ∧
      (0 < times → timer.times = times - entry.fired ∧ entry.fired < times) ∧
      (times ≤ 0 → timer.times ≤ 0)

namespace Origin

/-- Only the function, the queue and the count of a record matter. -/
theorem Obeyed.congr {entry other : Origin} {timer changed : StTimer}
    (obeyed : entry.Obeyed timer) (kind : other.kind = entry.kind)
    (fired : other.fired = entry.fired) (func : changed.func = timer.func)
    (msgid : changed.msgid = timer.msgid) (times : changed.times = timer.times) :
    other.Obeyed changed := by
  unfold Obeyed at *
  rw [kind, fired, func, msgid, times]
  exact obeyed

theorem Obeyed.not_spent {entry : Origin} {timer : StTimer} (obeyed : entry.Obeyed timer) :
    ¬ entry.Spent := by
  unfold Obeyed at obeyed
  unfold Spent
  cases kind : entry.kind with
  | call func => exact id
  | message msgid times =>
      simp only [kind] at obeyed
      rintro ⟨positive, spent⟩
      have := obeyed.2.2.2.1 positive
      omega

theorem Obeyed.bounded {entry : Origin} {timer : StTimer} (obeyed : entry.Obeyed timer) :
    entry.Bounded := by
  unfold Obeyed at obeyed
  unfold Bounded
  cases kind : entry.kind with
  | call func => trivial
  | message msgid times =>
      simp only [kind] at obeyed
      intro positive
      have := obeyed.2.2.2.1 positive
      omega

theorem Obeyed.kind_of_func {entry : Origin} {timer : StTimer} (obeyed : entry.Obeyed timer)
    {func : Nat} (hasFunc : timer.func = some func) : entry.kind = .call func := by
  unfold Obeyed at obeyed
  cases kind : entry.kind with
  | call other =>
      simp only [kind, hasFunc, Option.some.injEq] at obeyed
      rw [obeyed]
  | message msgid times => simp [kind, hasFunc] at obeyed

theorem Obeyed.kind_of_none {entry : Origin} {timer : StTimer} (obeyed : entry.Obeyed timer)
    (noFunc : timer.func = none) : ∃ times, entry.kind = .message timer.msgid times ∧
      0 ≤ timer.msgid ∧ (0 < times → timer.times = times - entry.fired ∧ entry.fired < times) ∧
      (times ≤ 0 → timer.times ≤ 0) := by
  unfold Obeyed at obeyed
  cases kind : entry.kind with
  | call func => simp [kind, noFunc] at obeyed
  | message msgid times =>
      simp only [kind] at obeyed
      obtain ⟨-, rfl, counting⟩ := obeyed
      exact ⟨times, rfl, counting⟩

def count (entry : Origin) : Origin := { entry with fired := entry.fired + 1 }

theorem Obeyed.count_call {entry : Origin} {timer : StTimer} (obeyed : entry.Obeyed timer)
    {func : Nat} (hasFunc : timer.func = some func) : entry.count.Obeyed timer.advance := by
  simp only [Obeyed, count, obeyed.kind_of_func hasFunc]
  exact hasFunc

theorem Obeyed.count_endless {entry : Origin} {timer : StTimer} (obeyed : entry.Obeyed timer)
    (noFunc : timer.func = none) (endless : timer.times ≤ 0) :
    entry.count.Obeyed timer.advance := by
  obtain ⟨times, kind, valid, remaining, -⟩ := obeyed.kind_of_none noFunc
  simp only [Obeyed, count, kind]
  refine ⟨noFunc, rfl, valid, fun positive => ?_, fun _ => endless⟩
  have := remaining positive
  omega

theorem Obeyed.count_message {entry : Origin} {timer : StTimer} (obeyed : entry.Obeyed timer)
    (noFunc : timer.func = none) (several : 1 < timer.times) :
    entry.count.Obeyed { timer.advance with times := timer.times - 1 } := by
  obtain ⟨times, kind, valid, remaining, endless⟩ := obeyed.kind_of_none noFunc
  simp only [Obeyed, count, kind]
  refine ⟨noFunc, rfl, valid, fun positive => ?_, fun negative => ?_⟩
  · have := remaining positive
    push_cast
    omega
  · have := endless negative
    omega

theorem Obeyed.count_last {entry : Origin} {timer : StTimer} (obeyed : entry.Obeyed timer)
    (noFunc : timer.func = none) (last : timer.times = 1) : entry.count.Spent := by
  obtain ⟨times, kind, -, remaining, endless⟩ := obeyed.kind_of_none noFunc
  have positive : 0 < times := by
    by_contra notPositive
    have := endless (by omega)
    omega
  have := remaining positive
  simp only [Spent, count, kind]
  refine ⟨positive, ?_⟩
  push_cast
  omega

theorem Spent.bounded {entry : Origin} (spent : entry.Spent) : entry.Bounded := by
  unfold Spent at spent
  unfold Bounded
  cases kind : entry.kind with
  | call func => trivial
  | message msgid times =>
      simp only [kind] at spent
      intro _
      omega

end Origin

namespace Watch

structure Obedient (watch : Watch) : Prop where
  queue : watch.timers.Queue
  accounted : Accounted Origin.Obeyed (fun entry => ∀ spent ∈ entry, spent.Spent) watch.timers
    watch.origin
  performed : watch.Performed Expiry.deed

theorem init_obedient (start : Reading) : (init start).Obedient :=
  ⟨timerInit_queue, ⟨by simp [init, timerInit], by simp [init]⟩, rfl⟩

theorem Obedient.isolated {watch : Watch} (obedient : watch.Obedient) : watch.Isolated := by
  refine ⟨obedient.performed, ?_, ?_⟩
  · intro id inRange
    refine ⟨obedient.accounted.idle id, fun spent => ?_⟩
    rcases (obedient.queue.member_iff id).mpr inRange with working | idle
    · obtain ⟨entry, booked, obeyed⟩ := obedient.accounted.working id working
      exact absurd (spent entry booked) obeyed.not_spent
    · exact idle
  · intro id inRange entry booked
    rcases (obedient.queue.member_iff id).mpr inRange with working | idle
    · obtain ⟨found, foundBooked, obeyed⟩ := obedient.accounted.working id working
      obtain rfl := Option.some.inj (foundBooked.symm.trans booked)
      exact obeyed.bounded
    · exact (obedient.accounted.idle id idle entry booked).bounded

namespace Obedient

variable {watch : Watch}

theorem does (obedient : watch.Obedient) (tv : Reading) {node : Nat} {after : TimerModule}
    {output : Option Output} (working : node ∈ watch.timers.listTimerWork)
    (expired : Expires watch.timers node after output) :
    ∃ done, Expiry.deed ⟨node, watch.timers.timerArray node, tv, watch.origin node⟩ = some done ∧
      after.thread.pending.toList.map Deed.called ++ output.toList.map Output.deed = [done] := by
  obtain ⟨entry, booked, obeyed⟩ := obedient.accounted.working node working
  refine ⟨entry.kind.deed node, by simp only [Expiry.deed, booked, Option.map_some], ?_⟩
  cases expired with
  | called func hasFunc => simp [obeyed.kind_of_func hasFunc, Kind.deed, ThreadTimer.pending]
  | dropped noFunc noMessage =>
      obtain ⟨times, -, valid, -⟩ := obeyed.kind_of_none noFunc
      omega
  | repeated noFunc | counted noFunc | exhausted noFunc =>
      obtain ⟨times, kind, -⟩ := obeyed.kind_of_none noFunc
      simp [kind, Kind.deed, Output.deed, ThreadTimer.pending]

theorem expires (obedient : watch.Obedient) {tv : Reading} {node : Nat} {after : TimerModule}
    {output : Option Output} (working : node ∈ watch.timers.listTimerWork)
    (expired : Expires watch.timers node after output) :
    Accounted Origin.Obeyed (fun entry => ∀ spent ∈ entry, spent.Spent) after
      (watch.handle tv (some node) (after, output)).origin := by
  have queue := obedient.queue
  obtain ⟨entry, booked, obeyed⟩ := obedient.accounted.working node working
  have counted : (watch.handle tv (some node) (after, output)).origin =
      Function.update watch.origin node (some entry.count) := by
    simp only [handle, booked]
    rfl
  rw [counted]
  cases expired with
  | called func hasFunc =>
      exact (obedient.accounted.enlist queue (obeyed.count_call hasFunc)).outside _ _
  | repeated noFunc _ endless =>
      exact (obedient.accounted.enlist queue (obeyed.count_endless noFunc endless)).outside _ _
  | counted noFunc _ several =>
      exact (obedient.accounted.enlist queue (obeyed.count_message noFunc several)).outside _ _
  | exhausted noFunc _ last =>
      refine (obedient.accounted.release queue ?_).outside _ _
      rintro spent ⟨⟩
      exact obeyed.count_last noFunc last
  | dropped noFunc noMessage =>
      obtain ⟨times, -, valid, -⟩ := obeyed.kind_of_none noFunc
      omega

theorem thread (obedient : watch.Obedient) {tv : Reading} {after : TimerModule}
    {output : Option Output} (steps : ThreadSteps watch.timers tv after output) :
    (watch.handle tv (due watch.timers tv) (after, output)).Obedient := by
  refine ⟨obedient.queue.threadSteps steps, ?_, obedient.performed.thread steps
    fun node isDue => obedient.does tv (TimerModule.Queue.mem_of_due isDue)⟩
  cases steps with
  | moves semNew thread noDue =>
      rw [noDue]
      exact obedient.accounted.outside _ _
  | calls func node noDue =>
      rw [noDue]
      exact obedient.accounted.outside _ _
  | expires node _ _ isDue _ expired =>
      rw [isDue]
      exact obedient.expires (TimerModule.Queue.mem_of_due isDue) expired

theorem step (obedient : watch.Obedient) {action : Action} {after : Watch}
    (clean : watch.Clean action) (stepped : watch.step action = some after) : after.Obedient := by
  have queue := obedient.queue
  have kept : after.timers.Queue := queue_step queue stepped
  cases action with
  | setTimer timeInterval pFunc parameter tv =>
      obtain rfl := Option.some.inj stepped
      rcases queue.setTimer_cases timeInterval pFunc parameter tv with
        refused | ⟨node, rest, func, free, positive, rfl, started⟩
      · rw [refused]
        exact ⟨queue, obedient.accounted, obedient.performed⟩
      · rw [started] at kept ⊢
        refine ⟨kept, (obedient.accounted.enlist queue ?_).outside _ _, obedient.performed⟩
        rfl
  | setMsgTimer timeInterval msgid times tv =>
      obtain rfl := Option.some.inj stepped
      rcases queue.setMsgTimer_cases timeInterval msgid times tv with
        refused | ⟨node, rest, free, positive, valid, started⟩
      · rw [refused]
        exact ⟨queue, obedient.accounted, obedient.performed⟩
      · rw [started] at kept ⊢
        have noFunc := clean positive valid node (by simp [free])
        refine ⟨kept, (obedient.accounted.enlist queue ?_).outside _ _, obedient.performed⟩
        refine ⟨noFunc, rfl, valid, fun counting => ?_, id⟩
        exact ⟨by simp [StTimer.startMessage], by simpa using counting⟩
  | killTimer id =>
      obtain rfl := Option.some.inj stepped
      rcases queue.killTimer_cases id with ⟨notWorking, ignored⟩ | ⟨working, killed⟩
      · refine ⟨kept, ?_, ?_⟩
        · simp only [ignored]
          exact obedient.accounted.close notWorking (by simp)
        · simp only [ignored]
          exact obedient.performed
      · refine ⟨kept, ?_, ?_⟩
        · simp only [killed]
          exact obedient.accounted.release queue (by simp)
        · simp only [killed]
          exact obedient.performed
  | changeTimerTime id timeInterval tv =>
      obtain rfl := Option.some.inj stepped
      rcases queue.changeTimerTime_cases id timeInterval tv with
        refused | ⟨working, positive, changed⟩
      · simp only [refused, Bool.or_false, Option.map_id', Function.update_eq_self]
        exact ⟨queue, obedient.accounted, obedient.performed⟩
      · obtain ⟨entry, booked, obeyed⟩ := obedient.accounted.working id working
        refine ⟨kept, ?_, ?_⟩
        · simp only [changed, booked, Option.map_some]
          exact obedient.accounted.enlist queue (obeyed.congr rfl rfl rfl rfl rfl)
        · simp only [changed]
          exact obedient.performed
  | thread tv =>
      obtain ⟨⟨next, output⟩, threaded, rfl⟩ := Option.map_eq_some_iff.mp stepped
      exact obedient.thread (queue.threadTimer_steps threaded)

end Obedient

end Watch

/-- In every run in which no message timer gets a record with a function left in
it, every expiry does what its timer was set to do. -/
theorem kinds_isolated_of_clean {start : Reading} {actions : List Action} {watch : Watch}
    (clean : Transition.Guarded Watch.step Watch.Clean (Watch.init start) actions)
    (ran : Transition.run Watch.step (Watch.init start) actions = some watch) :
    watch.Isolated := by
  have obedient : watch.Obedient := Transition.run_invariant_of_guarded Watch.step
    (fun _ _ _ obedient clean stepped => Watch.Obedient.step obedient clean stepped) clean
    (Watch.init_obedient start) ran
  exact obedient.isolated

/-- A call timer and a message timer for two messages run together; the message
timer is returned, and the call timer killed. -/
theorem kinds_isolated_of_clean_mixed :
    ∃ watch, Transition.run Watch.step (Watch.init ⟨⟨10, 0⟩, by decide⟩)
        [.setTimer 400 (some 7) 0 ⟨⟨10, 0⟩, by decide⟩,
          .setMsgTimer 300 3 2 ⟨⟨10, 0⟩, by decide⟩,
          .thread ⟨⟨12, 0⟩, by decide⟩, .thread ⟨⟨12, 0⟩, by decide⟩,
          .thread ⟨⟨12, 0⟩, by decide⟩, .thread ⟨⟨12, 0⟩, by decide⟩, .killTimer 0] =
            some watch ∧
      watch.outputs = [.send 3 1, .call 7 0, .send 3 1] ∧ watch.Isolated := by
  have logged : (Transition.run Watch.step (Watch.init ⟨⟨10, 0⟩, by decide⟩)
      [.setTimer 400 (some 7) 0 ⟨⟨10, 0⟩, by decide⟩,
        .setMsgTimer 300 3 2 ⟨⟨10, 0⟩, by decide⟩,
        .thread ⟨⟨12, 0⟩, by decide⟩, .thread ⟨⟨12, 0⟩, by decide⟩,
        .thread ⟨⟨12, 0⟩, by decide⟩, .thread ⟨⟨12, 0⟩, by decide⟩, .killTimer 0]).map
          (fun watch => watch.outputs) = some [.send 3 1, .call 7 0, .send 3 1] := by
    decide +kernel
  obtain ⟨watch, ran, logged⟩ := Option.map_eq_some_iff.mp logged
  exact ⟨watch, ran, logged, kinds_isolated_of_clean (by decide +kernel) ran⟩

/-- The expiry of a message timer whose record holds a function calls it. -/
theorem Watch.expiry_not_isolated {watch : Watch} {tv : Reading} {node func : Nat}
    {entry : Origin} {msgid times : Int} (queue : watch.timers.Queue)
    (isDue : due watch.timers tv = some node) (top : watch.timers.thread = .top)
    (stale : (watch.timers.timerArray node).func = some func)
    (booked : watch.origin node = some entry) (kind : entry.kind = .message msgid times) :
    ∃ after, watch.step (.thread tv) = some after ∧ ¬ after.Isolated := by
  have threaded : threadTimer watch.timers tv = some (turn watch.timers tv) := by
    rw [threadTimer, top]
  refine ⟨watch.handle tv (some node) (turn watch.timers tv), ?_, ?_⟩
  · rw [Watch.step, threaded, isDue, Option.map_some]
  · intro isolated
    have performed := isolated.performed
    have steps := queue.turn_steps tv top
    generalize turn watch.timers tv = result at performed steps
    obtain ⟨after, output⟩ := result
    cases steps with
    | moves _ _ noDue => exact absurd (isDue.symm.trans noDue) (by simp)
    | calls _ _ noDue => exact absurd (isDue.symm.trans noDue) (by simp)
    | expires found _ _ foundDue _ expired =>
        obtain rfl := Option.some.inj (isDue.symm.trans foundDue)
        cases expired with
        | called =>
            simp [Watch.Performed, Watch.handle, Expiry.deed, booked, kind, Kind.deed,
              ThreadTimer.pending] at performed
        | repeated noFunc | counted noFunc | exhausted noFunc | dropped noFunc =>
            exact absurd (stale.symm.trans noFunc) (by simp)

/-- No timer is set, and the free list is the given one. -/
structure Watch.Quiet (watch : Watch) (free : List Nat) : Prop where
  queue : watch.timers.Queue
  noWork : watch.timers.listTimerWork = []
  free : watch.timers.listTimerFree = free
  top : watch.timers.thread = .top

/-- A timer that is set and killed goes to the end of the free list. -/
theorem Watch.Quiet.cycle {watch : Watch} {node : Nat} {rest : List Nat} {timer : StTimer}
    (quiet : watch.Quiet (node :: rest)) (live : timer.Live node) (entry : Origin) :
    ∃ after, (watch.enter ((watch.timers.enlist node timer).postNew, some node) entry).step
        (.killTimer node) = some after ∧ after.Quiet (rest ++ [node]) ∧
      after.timers.timerArray =
        Function.update watch.timers.timerArray node { timer with state := 0 } := by
  have queue := quiet.queue
  have idle : node ∈ watch.timers.listTimerFree := by simp [quiet.free]
  have notAgain : node ∉ rest := by
    have nodup := queue.nodup
    rw [quiet.noWork, quiet.free, List.nil_append, List.nodup_cons] at nodup
    exact nodup.1
  have enlisted : (watch.timers.enlist node timer).postNew.Queue :=
    (queue.enlist (queue.inRange_of_free idle) live).outside _ _
  have working : node ∈ (watch.timers.enlist node timer).postNew.listTimerWork :=
    queue.mem_enlist_work.mpr (.inl rfl)
  have killed : killTimer (watch.timers.enlist node timer).postNew node =
      ⟨Function.update watch.timers.timerArray node { timer with state := 0 }, [], rest ++ [node],
        watch.timers.semNew + 1, watch.timers.thread⟩ := by
    rcases enlisted.killTimer_cases node with ⟨notWorking, -⟩ | ⟨-, killed⟩
    · exact absurd working notWorking
    · rw [killed]
      simp [TimerModule.release, TimerModule.enlist, TimerModule.postNew, TimerModule.write,
        TimerModule.listErase, TimerModule.pushFree, insertTimer, insertLoop, quiet.noWork,
        quiet.free, List.erase_of_not_mem notAgain]
  have kept := enlisted.killTimer node
  refine ⟨_, rfl, ⟨kept, ?_, ?_, ?_⟩, ?_⟩
  · exact congrArg TimerModule.listTimerWork killed
  · exact congrArg TimerModule.listTimerFree killed
  · exact (congrArg TimerModule.thread killed).trans quiet.top
  · exact congrArg TimerModule.timerArray killed

def setTime : Reading := ⟨⟨10, 0⟩, by decide⟩

def cycleMessage (id : Nat) : List Action := [.setMsgTimer 10 3 1 setTime, .killTimer id]

/-- A call timer is set and killed, all other ids are used once by message
timers, and the message timer that then gets the first id expires. -/
def staleHistory : List Action :=
  [.setTimer 10 (some 7) 0 setTime, .killTimer 0] ++
    (List.range' 1 (maxTimerNumber - 1)).flatMap cycleMessage ++
    [.setMsgTimer 10 3 1 setTime, .thread ⟨⟨11, 0⟩, by decide⟩]

namespace Watch.Quiet

theorem init (start : Reading) : (Watch.init start).Quiet (List.range' 0 maxTimerNumber) :=
  ⟨timerInit_queue, rfl, rfl, rfl⟩

theorem cycleMessage {watch : Watch} {node : Nat} {rest : List Nat}
    (quiet : watch.Quiet (node :: rest)) :
    ∃ after, Transition.run Watch.step watch (Timer.cycleMessage node) = some after ∧
      after.Quiet (rest ++ [node]) ∧
      ∀ other, other ≠ node →
        after.timers.timerArray other = watch.timers.timerArray other := by
  have started := quiet.queue.setMsgTimer_started 1 setTime quiet.free
    (show (0 : Int) < 10 by decide) (show (0 : Int) ≤ 3 by decide)
  obtain ⟨after, killed, quietAfter, array⟩ := quiet.cycle
    ((watch.timers.timerArray node).startMessage_live node 3 1 setTime
      (show (0 : Int) < 10 by decide)) ⟨.message 3 1, setTime, 10, false, 0⟩
  refine ⟨after, ?_, quietAfter, ?_⟩
  · rw [Timer.cycleMessage, Transition.run_cons, Watch.step, started, Option.bind_some,
      Transition.run_cons, killed, Option.bind_some, Transition.run_nil]
  · intro other different
    rw [array, Function.update_of_ne different]

/-- The ids at the front of the free list are used once each and go to its end. -/
theorem cycleMessages (nodes : List Nat) {watch : Watch} {rest : List Nat}
    (quiet : watch.Quiet (nodes ++ rest)) :
    ∃ after, Transition.run Watch.step watch (nodes.flatMap Timer.cycleMessage) = some after ∧
      after.Quiet (rest ++ nodes) ∧
      ∀ other, other ∉ nodes →
        after.timers.timerArray other = watch.timers.timerArray other := by
  induction nodes generalizing watch rest with
  | nil => exact ⟨watch, rfl, by simpa using quiet, fun _ _ => rfl⟩
  | cons node nodes inductionHypothesis =>
      rw [List.cons_append] at quiet
      obtain ⟨middle, ranFirst, quietMiddle, keptFirst⟩ := quiet.cycleMessage
      rw [List.append_assoc] at quietMiddle
      obtain ⟨after, ranRest, quietAfter, keptRest⟩ := inductionHypothesis quietMiddle
      refine ⟨after, ?_, by simpa using quietAfter, ?_⟩
      · rw [List.flatMap_cons, Transition.run_append, ranFirst, Option.bind_some, ranRest]
      · intro other notMember
        rw [List.mem_cons, not_or] at notMember
        rw [keptRest other notMember.2, keptFirst other notMember.1]

theorem startMessage {watch : Watch} {node : Nat} {rest : List Nat}
    (quiet : watch.Quiet (node :: rest)) :
    ∃ after, watch.step (.setMsgTimer 10 3 1 setTime) = some after ∧ after.timers.Queue ∧
      after.timers.listTimerWork = [node] ∧ after.timers.thread = .top ∧
      after.timers.timerArray node =
        (watch.timers.timerArray node).startMessage node 10 3 1 setTime ∧
      after.origin node = some ⟨.message 3 1, setTime, 10, false, 0⟩ := by
  have started := quiet.queue.setMsgTimer_started 1 setTime quiet.free
    (show (0 : Int) < 10 by decide) (show (0 : Int) ≤ 3 by decide)
  have kept := quiet.queue.setMsgTimer 10 3 1 setTime
  rw [started] at kept
  refine ⟨watch.enter ((watch.timers.enlist node ((watch.timers.timerArray node).startMessage node
    10 3 1 setTime)).postNew, some node) ⟨.message 3 1, setTime, 10, false, 0⟩,
    by rw [Watch.step, started], kept, ?_, quiet.top, ?_, ?_⟩
  · simp [Watch.enter, TimerModule.enlist, TimerModule.postNew, TimerModule.write,
      TimerModule.listErase, insertTimer, quiet.noWork, insertLoop]
  · simp [Watch.enter, TimerModule.postNew]
  · simp [Watch.enter]

theorem not_isolated {watch : Watch} {node func : Nat} {rest : List Nat}
    (quiet : watch.Quiet (node :: rest))
    (stale : (watch.timers.timerArray node).func = some func) :
    ∃ after, Transition.run Watch.step watch
        [.setMsgTimer 10 3 1 setTime, .thread ⟨⟨11, 0⟩, by decide⟩] = some after ∧
      ¬ after.Isolated := by
  obtain ⟨middle, started, queue, work, top, array, booked⟩ := quiet.startMessage
  have isDue : due middle.timers ⟨⟨11, 0⟩, by decide⟩ = some node := by
    simp only [due, top, work, array]
    rfl
  have still : (middle.timers.timerArray node).func = some func := by
    rw [array]
    exact stale
  obtain ⟨after, stepped, notIsolated⟩ :=
    Watch.expiry_not_isolated queue isDue top still booked rfl
  refine ⟨after, ?_, notIsolated⟩
  rw [Transition.run_cons, started, Option.bind_some, Transition.run_cons, stepped,
    Option.bind_some, Transition.run_nil]

end Watch.Quiet

/-- A run in which a message timer calls the function of an earlier timer. -/
theorem stale_function_called :
    ∃ watch, Transition.run Watch.step (Watch.init setTime) staleHistory = some watch ∧
      ¬ watch.Isolated := by
  have quiet := Watch.Quiet.init setTime
  have free : List.range' 0 maxTimerNumber = 0 :: List.range' 1 (maxTimerNumber - 1) := rfl
  rw [free] at quiet
  have started := quiet.queue.setTimer_started 7 0 setTime quiet.free
    (show (0 : Int) < 10 by decide)
  obtain ⟨first, killed, quietFirst, array⟩ := quiet.cycle
    (StTimer.startCall_live _ 0 7 0 setTime (show (0 : Int) < 10 by decide))
    ⟨.call 7, setTime, 10, false, 0⟩
  obtain ⟨second, cycled, quietSecond, kept⟩ := quietFirst.cycleMessages _
  have stale : (second.timers.timerArray 0).func = some 7 := by
    rw [kept 0 (by simp), array, Function.update_self]
    rfl
  obtain ⟨last, expired, notIsolated⟩ := quietSecond.not_isolated stale
  refine ⟨last, ?_, notIsolated⟩
  have ranFirst : Transition.run Watch.step (Watch.init setTime)
      [.setTimer 10 (some 7) 0 setTime, .killTimer 0] = some first := by
    rw [Transition.run_cons, Watch.step, started, Option.bind_some, Transition.run_cons]
    exact congrArg (Option.bind · _) killed
  rw [staleHistory, Transition.run_append, Transition.run_append, ranFirst, Option.bind_some, cycled,
    Option.bind_some, expired]

end UtilsModules.Timer

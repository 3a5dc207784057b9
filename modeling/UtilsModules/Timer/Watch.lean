import UtilsModules.Timer.Moves

/-!
The timer module under watch.

A watch keeps books on the side: for each id the call that set its timer, and a
log of all expiries and of all that the thread has done.  The module does not read
them.  An expiry is logged when `due` says that it is time; `Performed` compares
the log with the calls and messages that the thread has put out.
-/

namespace UtilsModules.Timer

inductive Kind where
  | call (func : Nat)
  | message (msgid times : Int)
  deriving DecidableEq

/-- The call that set a timer, and what has happened to the timer since. -/
structure Origin where
  kind : Kind
  started : Reading
  interval : Int
  /-- Has `ChangeTimerTime` restarted the timer? -/
  touched : Bool
  fired : Nat

/-- An expiry: the record as it was found and the time it was handled. -/
structure Expiry where
  id : Nat
  record : StTimer
  time : Reading
  /-- The entry of the id before this expiry was counted. -/
  origin : Option Origin

def Expiry.deadline (expiry : Expiry) : Timeval := expiry.record.tv

/-- What is done at an expiry, without the parameter of a call. -/
inductive Deed where
  | called (func : Nat)
  | sent (msgid : Int) (id : Nat)
  deriving DecidableEq

def Output.deed : Output → Deed
  | call func _ => .called func
  | send msgid id => .sent msgid id

/-- What the record of an expiry asks for. -/
def Expiry.asked (expiry : Expiry) : Option Deed :=
  match expiry.record.func with
  | some func => some (.called func)
  | none =>
      if 0 ≤ expiry.record.msgid then some (.sent expiry.record.msgid expiry.id) else none

/-- The module with its books, logs newest first. -/
structure Watch where
  timers : TimerModule
  origin : Nat → Option Origin
  expiries : List Expiry
  outputs : List Output
  clock : Timeval

namespace Watch

def init (start : Reading) : Watch where
  timers := timerInit
  origin := fun _ => none
  expiries := []
  outputs := []
  clock := start.toTimeval

def enter (watch : Watch) (result : TimerModule × Option Nat) (entry : Origin) : Watch :=
  { watch with
    timers := result.1
    origin :=
      match result.2 with
      | none => watch.origin
      | some id => Function.update watch.origin id (some entry)
    clock := entry.started.toTimeval }

/-- Book a step of the thread; `expired` is the id whose timer expires in it. -/
def handle (watch : Watch) (tv : Reading) (expired : Option Nat)
    (result : TimerModule × Option Output) : Watch where
  timers := result.1
  origin :=
    match expired with
    | none => watch.origin
    | some id => Function.update watch.origin id
        ((watch.origin id).map fun entry => { entry with fired := entry.fired + 1 })
  expiries :=
    match expired with
    | none => watch.expiries
    | some id =>
        ⟨id, watch.timers.timerArray id, tv, watch.origin id⟩ :: watch.expiries
  outputs := result.2.toList ++ watch.outputs
  clock := tv.toTimeval

def step (watch : Watch) : Action → Option Watch
  | .setTimer timeInterval pFunc parameter tv =>
      some (watch.enter (setTimer watch.timers timeInterval pFunc parameter tv)
        ⟨.call (pFunc.getD 0), tv, timeInterval, false, 0⟩)
  | .setMsgTimer timeInterval msgid times tv =>
      some (watch.enter (setMsgTimer watch.timers timeInterval msgid times tv)
        ⟨.message msgid times, tv, timeInterval, false, 0⟩)
  | .killTimer id =>
      some { watch with
        timers := killTimer watch.timers id
        origin := Function.update watch.origin id none }
  | .changeTimerTime id timeInterval tv =>
      let result := changeTimerTime watch.timers id timeInterval tv
      some { watch with
        timers := result.1
        origin := Function.update watch.origin id
          ((watch.origin id).map fun entry => { entry with touched := entry.touched || result.2 })
        clock := tv.toTimeval }
  | .thread tv =>
      (threadTimer watch.timers tv).map (watch.handle tv (due watch.timers tv))

theorem step_timers (watch : Watch) (action : Action) :
    (watch.step action).map timers = Timer.step watch.timers action := by
  cases action with
  | thread tv =>
      simp only [step, Timer.step, Option.map_map]
      rfl
  | _ => rfl

theorem run_timers (watch : Watch) (actions : List Action) :
    (Transition.run step watch actions).map timers =
      Transition.run Timer.step watch.timers actions := by
  induction actions generalizing watch with
  | nil => rfl
  | cons action rest inductionHypothesis =>
      rw [Transition.run_cons, Transition.run_cons, ← step_timers, Option.map_bind,
        Option.bind_map]
      congr 1
      funext next
      exact inductionHypothesis next

theorem queue_step {watch after : Watch} {action : Action} (queue : watch.timers.Queue)
    (stepped : watch.step action = some after) : after.timers.Queue := by
  have moved : Timer.step watch.timers action = some after.timers := by
    rw [← step_timers, stepped]
    rfl
  exact queue.step moved

/-- Every expiry has led to its deed, in order, and the thread has done nothing else;
the newest deed may be a call that it is about to make. -/
def Performed (watch : Watch) (deed : Expiry → Option Deed) : Prop :=
  watch.expiries.map deed =
    (watch.timers.thread.pending.toList.map Deed.called ++ watch.outputs.map Output.deed).map some

namespace Performed

variable {watch after : Watch} {deed : Expiry → Option Deed}

theorem call (performed : watch.Performed deed) {action : Action}
    (notThread : ∀ tv, action ≠ .thread tv) (stepped : watch.step action = some after) :
    after.Performed deed := by
  have logs : after.expiries = watch.expiries ∧ after.outputs = watch.outputs := by
    cases action with
    | thread tv => exact absurd rfl (notThread tv)
    | setTimer | setMsgTimer | killTimer | changeTimerTime =>
        obtain rfl := Option.some.inj stepped
        exact ⟨rfl, rfl⟩
  have moved : Timer.step watch.timers action = some after.timers := by
    rw [← step_timers, stepped]
    rfl
  unfold Performed at *
  rw [logs.1, logs.2, thread_of_call notThread moved]
  exact performed

theorem thread (performed : watch.Performed deed) {tv : Reading} {next : TimerModule}
    {output : Option Output} (steps : ThreadSteps watch.timers tv next output)
    (does : ∀ node, due watch.timers tv = some node → Expires watch.timers node next output →
      ∃ done, deed ⟨node, watch.timers.timerArray node, tv, watch.origin node⟩ = some done ∧
        next.thread.pending.toList.map Deed.called ++ output.toList.map Output.deed = [done]) :
    (watch.handle tv (due watch.timers tv) (next, output)).Performed deed := by
  unfold Performed at performed
  cases steps with
  | moves semNew thread noDue noPending stillNone =>
      rw [noDue]
      rw [noPending] at performed
      simp only [Performed, handle, stillNone]
      exact performed
  | calls func node noDue calling =>
      rw [noDue]
      rw [calling] at performed
      exact performed
  | expires node _ _ isDue top expired =>
      obtain ⟨done, isDeed, did⟩ := does node isDue expired
      rw [isDue]
      simp only [top, ThreadTimer.pending, Option.toList_none, List.map_nil, List.nil_append]
        at performed
      simp only [Performed, handle, List.map_append, ← List.append_assoc]
      rw [← List.map_append, did, List.map_cons, performed, isDeed]
      simp

end Performed

end Watch

/-- Each record of the work list agrees with its entry, and each free record's
entry is closed. -/
structure Accounted (agrees : Origin → StTimer → Prop) (closed : Option Origin → Prop)
    (timers : TimerModule) (origin : Nat → Option Origin) : Prop where
  working : ∀ node ∈ timers.listTimerWork, ∃ entry, origin node = some entry ∧
    agrees entry (timers.timerArray node)
  idle : ∀ node ∈ timers.listTimerFree, closed (origin node)

namespace Accounted

variable {agrees : Origin → StTimer → Prop} {closed : Option Origin → Prop}
  {timers : TimerModule} {origin : Nat → Option Origin}

theorem closed_update {node other : Nat} {entry : Option Origin} (ended : closed entry)
    (others : other ≠ node → closed (origin other)) :
    closed (Function.update origin node entry other) := by
  by_cases same : other = node
  · subst same
    rw [Function.update_self]
    exact ended
  · rw [Function.update_of_ne same]
    exact others same

theorem outside (accounted : Accounted agrees closed timers origin) (semNew : Nat)
    (thread : ThreadTimer) :
    Accounted agrees closed { timers with semNew := semNew, thread := thread } origin :=
  ⟨accounted.working, accounted.idle⟩

theorem enlist (accounted : Accounted agrees closed timers origin) (queue : timers.Queue)
    {node : Nat} {timer : StTimer} {entry : Origin} (agreed : agrees entry timer) :
    Accounted agrees closed (timers.enlist node timer)
      (Function.update origin node (some entry)) := by
  constructor
  · intro other membership
    by_cases same : other = node
    · subst same
      rw [TimerModule.enlist_array, Function.update_self, Function.update_self]
      exact ⟨entry, rfl, agreed⟩
    · rw [TimerModule.enlist_array, Function.update_of_ne same, Function.update_of_ne same]
      exact accounted.working other ((queue.mem_enlist_work.mp membership).resolve_left same)
  · intro other membership
    obtain ⟨different, inFree⟩ := queue.mem_enlist_free.mp membership
    rw [Function.update_of_ne different]
    exact accounted.idle other inFree

theorem release (accounted : Accounted agrees closed timers origin) (queue : timers.Queue)
    {node : Nat} {timer : StTimer} {entry : Option Origin} (ended : closed entry) :
    Accounted agrees closed (timers.release node timer) (Function.update origin node entry) := by
  constructor
  · intro other membership
    obtain ⟨different, inWork⟩ := queue.mem_release_work.mp membership
    rw [TimerModule.release_array, Function.update_of_ne different,
      Function.update_of_ne different]
    exact accounted.working other inWork
  · intro other membership
    apply closed_update ended
    intro different
    exact accounted.idle other ((queue.mem_release_free.mp membership).resolve_left different)

theorem close (accounted : Accounted agrees closed timers origin) {node : Nat}
    {entry : Option Origin} (notWorking : node ∉ timers.listTimerWork) (ended : closed entry) :
    Accounted agrees closed timers (Function.update origin node entry) := by
  constructor
  · intro other membership
    have different : other ≠ node := by
      rintro rfl
      exact notWorking membership
    rw [Function.update_of_ne different]
    exact accounted.working other membership
  · intro other membership
    exact closed_update ended fun _ => accounted.idle other membership

theorem mono (accounted : Accounted agrees closed timers origin)
    {better : Origin → StTimer → Prop}
    (improves : ∀ node ∈ timers.listTimerWork, ∀ entry, agrees entry (timers.timerArray node) →
      better entry (timers.timerArray node)) :
    Accounted better closed timers origin := by
  refine ⟨?_, accounted.idle⟩
  intro node membership
  obtain ⟨entry, booked, agreed⟩ := accounted.working node membership
  exact ⟨entry, booked, improves node membership entry agreed⟩

end Accounted

end UtilsModules.Timer

import UtilsModules.Thread.Mutex

/-!
Threads that are created suspended.

`mdl_thread_create` with `THREAD_SUSPENDED` makes a mutex for the new thread and
locks it; `thread_main` locks and unlocks it before it calls the user's entry.
Threads are named by their records, and all that make calls are registered.
-/

namespace UtilsModules.Thread

inductive Activity where
  | absent
  /-- `pthread_create` has made it, and `thread_main` has not begun. -/
  | created
  /-- In the `mdl_mutex_lock` of `thread_main`. -/
  | locking
  /-- In the `mdl_mutex_unlock` of `thread_main`. -/
  | unlocking
  /-- In the user's entry, or a thread that was not made here. -/
  | running
  /-- In the `mdl_mutex_lock` of `mdl_thread_resume` on a record. -/
  | resuming (rec : Nat)
  | ended
  deriving DecidableEq, Repr

/-- The threads and the `suspended_mutex` of their records.  Beside them it is kept
who has created a thread, which were created suspended, and the calls of
`mdl_thread_resume` with their callers. -/
structure Launch where
  activity : Nat → Activity
  suspendedMutex : Nat → Option MdlMutex
  creator : Nat → Option Nat
  suspended : Nat → Bool
  calls : List (Nat × Nat)

namespace Launch

def start (registered : List Nat) : Launch where
  activity := fun rec => if rec ∈ registered then .running else .absent
  suspendedMutex := fun _ => none
  creator := fun _ => none
  suspended := fun _ => false
  calls := []

def move (launch : Launch) (thread : Nat) (activity : Activity) : Launch :=
  { launch with activity := Function.update launch.activity thread activity }

@[simp]
theorem move_self (launch : Launch) (thread : Nat) (activity : Activity) :
    (launch.move thread activity).activity thread = activity := Function.update_self ..

theorem move_other (launch : Launch) {thread other : Nat} (activity : Activity)
    (different : other ≠ thread) :
    (launch.move thread activity).activity other = launch.activity other :=
  Function.update_of_ne different _ _

def setMutex (launch : Launch) (rec : Nat) (mutex : MdlMutex) : Launch :=
  { launch with suspendedMutex := Function.update launch.suspendedMutex rec (some mutex) }

@[simp]
theorem setMutex_self (launch : Launch) (rec : Nat) (mutex : MdlMutex) :
    (launch.setMutex rec mutex).suspendedMutex rec = some mutex := Function.update_self ..

theorem setMutex_other (launch : Launch) {rec other : Nat} (mutex : MdlMutex)
    (different : other ≠ rec) :
    (launch.setMutex rec mutex).suspendedMutex other = launch.suspendedMutex other :=
  Function.update_of_ne different _ _

def pthreadCreate (launch : Launch) (caller rec : Nat) (suspended succeeds : Bool) : Launch :=
  if succeeds then
    { launch.move rec .created with
      creator := Function.update launch.creator rec (some caller)
      suspended := Function.update launch.suspended rec suspended }
  else
    launch.move rec .ended

def mdlThreadCreate (launch : Launch) (caller rec : Nat) (suspended mutexCreate succeeds : Bool) :
    Launch :=
  if suspended then
    if mutexCreate then
      (launch.setMutex rec ((initMutex .mutexSimple).lock caller).1).pthreadCreate caller rec true
        succeeds
    else
      launch
  else
    launch.pthreadCreate caller rec false succeeds

/-- The `mdl_mutex_unlock` of `thread_main` has run until it returned or blocked;
the user's entry comes next. -/
def afterUnlock (launch : Launch) (rec : Nat) : MdlMutex × Outcome → Launch
  | (mutex, .blocked) => (launch.setMutex rec mutex).move rec .unlocking
  | (mutex, _) => (launch.setMutex rec mutex).move rec .running

def afterLock (launch : Launch) (rec : Nat) : MdlMutex × Outcome → Launch
  | (mutex, .blocked) => (launch.setMutex rec mutex).move rec .locking
  | (mutex, _) => launch.afterUnlock rec (mutex.unlock rec)

def threadMain (launch : Launch) (rec : Nat) (setspecific : Bool) : Launch :=
  if setspecific then
    match launch.suspendedMutex rec with
    | none => launch.move rec .running
    | some mutex => launch.afterLock rec (mutex.lock rec)
  else
    launch.move rec .ended

/-- The `mdl_mutex_lock` of `mdl_thread_resume` has run until it returned or
blocked. -/
def afterResume (launch : Launch) (caller rec : Nat) : MdlMutex × Outcome → Launch
  | (mutex, .blocked) => (launch.setMutex rec mutex).move caller (.resuming rec)
  | (mutex, _) => (launch.setMutex rec mutex).move caller .running

/-- `mdl_thread_resume`.  Without a mutex `mdl_mutex_lock` returns `FAILURE`. -/
def mdlThreadResume (launch : Launch) (caller rec : Nat) : Launch :=
  let launch := { launch with calls := (caller, rec) :: launch.calls }
  match launch.suspendedMutex rec with
  | none => launch
  | some mutex => launch.afterResume caller rec (mutex.lock caller)

def retry (launch : Launch) (thread : Nat) : Option Launch :=
  match launch.activity thread with
  | .locking =>
      (launch.suspendedMutex thread).map fun mutex =>
        launch.afterLock thread (mutex.lock thread)
  | .unlocking =>
      (launch.suspendedMutex thread).map fun mutex =>
        launch.afterUnlock thread (mutex.unlockEnd thread)
  | .resuming rec =>
      (launch.suspendedMutex rec).map fun mutex =>
        launch.afterResume thread rec (mutex.lock thread)
  | _ => none

end Launch

inductive LaunchStep where
  | create (caller rec : Nat) (suspended mutexCreate pthreadCreate : Bool)
  | start (rec : Nat) (setspecific : Bool)
  | resume (caller rec : Nat)
  | retry (thread : Nat)
  deriving DecidableEq, Repr

namespace Launch

def step (launch : Launch) : LaunchStep → Option Launch
  | .create caller rec suspended mutexCreate pthreadCreate =>
      if launch.activity caller = .running ∧ launch.activity rec = .absent then
        some (launch.mdlThreadCreate caller rec suspended mutexCreate pthreadCreate)
      else
        none
  | .start rec setspecific =>
      if launch.activity rec = .created then some (launch.threadMain rec setspecific) else none
  | .resume caller rec =>
      if launch.activity caller = .running ∧ launch.activity rec ≠ .absent then
        some (launch.mdlThreadResume caller rec)
      else
        none
  | .retry thread => launch.retry thread

end Launch

/-- The lock and the unlock of `thread_main` return, and leave the mutex free. -/
def MdlMutex.Passes (mutex : MdlMutex) (thread : Nat) : Prop :=
  ∃ locked unlocked, mutex.lock thread = (locked, .success) ∧
    locked.unlock thread = (unlocked, .success) ∧ unlocked.mutex.holder = none

namespace Launch

/-- What suspending and resuming are for. -/
structure Releases (launch : Launch) : Prop where
  heldBack : ∀ rec, launch.suspended rec = true → launch.activity rec = .running →
    ∃ caller, (caller, rec) ∈ launch.calls
  released : ∀ rec creator mutex, launch.suspended rec = true → launch.creator rec = some creator →
    (creator, rec) ∈ launch.calls → launch.suspendedMutex rec = some mutex →
    mutex.mutex.holder ≠ some creator ∧
      (launch.activity rec = .created ∨ launch.activity rec = .locking → mutex.Passes rec) ∧
      (launch.activity rec = .running → mutex.mutex.holder = none)

/-- The condition on a step: nobody resumes a thread that he has created suspended. -/
def Unresumed (launch : Launch) : LaunchStep → Prop
  | .resume caller rec => ¬ (launch.suspended rec = true ∧ launch.creator rec = some caller)
  | _ => True

instance (launch : Launch) (label : LaunchStep) : Decidable (launch.Unresumed label) := by
  unfold Unresumed
  split <;> infer_instance

/-- The mutex of the record is held, once and for all, by its creator, and the
thread is not past it. -/
structure Held (launch : Launch) (rec creator : Nat) : Prop where
  mutex : ∃ mutex, launch.suspendedMutex rec = some mutex ∧ mutex.mutex.type = .normal ∧
    mutex.mutex.holder = some creator
  waits : launch.activity rec = .created ∨ launch.activity rec = .locking ∨
    launch.activity rec = .ended

structure Sealed (launch : Launch) : Prop where
  held : ∀ rec, launch.suspended rec = true →
    ∃ creator, launch.creator rec = some creator ∧ launch.Held rec creator
  known : ∀ call ∈ launch.calls, launch.activity call.2 ≠ .absent

/-- A normal mutex that is held lets nobody in, its holder included. -/
theorem lock_blocked {mutex : MdlMutex} {holder : Nat} (normal : mutex.mutex.type = .normal)
    (held : mutex.mutex.holder = some holder) (thread : Nat) :
    mutex.lock thread = (mutex, .blocked) := by
  have refused : mutex.mutex.acquire thread = none := by
    simp [PthreadMutex.acquire, held, normal]
  rw [MdlMutex.lock, refused]

/-- The lock of a suspended thread's creator is the first one of its mutex. -/
theorem lock_created (caller : Nat) :
    ((initMutex .mutexSimple).lock caller).1.mutex = ⟨.normal, some caller, 1⟩ := rfl

structure Acted (before after : Launch) (thread target : Nat) : Prop where
  activity : ∀ other, other ≠ thread → after.activity other = before.activity other
  present : after.activity thread ≠ .absent
  mutex : ∀ other, other ≠ target → after.suspendedMutex other = before.suspendedMutex other
  creator : after.creator = before.creator
  suspended : after.suspended = before.suspended
  calls : after.calls = before.calls

variable {launch next : Launch}

theorem acted_move (launch : Launch) (thread target : Nat) {activity : Activity}
    (present : activity ≠ .absent) : launch.Acted (launch.move thread activity) thread target where
  activity := fun _ different => move_other launch activity different
  present := by rwa [move_self]
  mutex := fun _ _ => rfl
  creator := rfl
  suspended := rfl
  calls := rfl

theorem acted_setMutex (launch : Launch) (thread target : Nat) (mutex : MdlMutex)
    {activity : Activity} (present : activity ≠ .absent) :
    launch.Acted ((launch.setMutex target mutex).move thread activity) thread target :=
  { acted_move (launch.setMutex target mutex) thread target present with
    mutex := fun _ different => setMutex_other launch mutex different }

theorem acted_afterUnlock (launch : Launch) (rec : Nat) (result : MdlMutex × Outcome) :
    launch.Acted (launch.afterUnlock rec result) rec rec := by
  obtain ⟨mutex, outcome⟩ := result
  cases outcome <;> exact acted_setMutex launch rec rec mutex (by decide)

theorem acted_afterLock (launch : Launch) (rec : Nat) (result : MdlMutex × Outcome) :
    launch.Acted (launch.afterLock rec result) rec rec := by
  obtain ⟨mutex, outcome⟩ := result
  cases outcome with
  | blocked => exact acted_setMutex launch rec rec mutex (by decide)
  | success => exact acted_afterUnlock launch rec _
  | failure => exact acted_afterUnlock launch rec _

theorem acted_afterResume (launch : Launch) (caller rec : Nat) (result : MdlMutex × Outcome) :
    launch.Acted (launch.afterResume caller rec result) caller rec := by
  obtain ⟨mutex, outcome⟩ := result
  cases outcome <;> exact acted_setMutex launch caller rec mutex (by simp)

theorem acted_threadMain (launch : Launch) (rec : Nat) (setspecific : Bool) :
    launch.Acted (launch.threadMain rec setspecific) rec rec := by
  unfold threadMain
  split
  · split
    · exact acted_move launch rec rec (by decide)
    · exact acted_afterLock launch rec _
  · exact acted_move launch rec rec (by decide)

theorem acted_retry {thread : Nat} (retried : launch.retry thread = some next) :
    ∃ target, launch.Acted next thread target := by
  unfold retry at retried
  split at retried
  · obtain ⟨mutex, -, rfl⟩ := Option.map_eq_some_iff.mp retried
    exact ⟨thread, acted_afterLock launch thread _⟩
  · obtain ⟨mutex, -, rfl⟩ := Option.map_eq_some_iff.mp retried
    exact ⟨thread, acted_afterUnlock launch thread _⟩
  · next rec _ =>
    obtain ⟨mutex, -, rfl⟩ := Option.map_eq_some_iff.mp retried
    exact ⟨rec, acted_afterResume launch thread rec _⟩
  · cases retried

inductive Stepped (launch : Launch) : LaunchStep → Launch → Prop where
  | create {caller rec : Nat} (suspended mutexCreate pthreadCreate : Bool) :
      launch.activity caller = .running → launch.activity rec = .absent →
      Stepped launch (.create caller rec suspended mutexCreate pthreadCreate)
        (launch.mdlThreadCreate caller rec suspended mutexCreate pthreadCreate)
  | start {rec : Nat} (setspecific : Bool) : launch.activity rec = .created →
      Stepped launch (.start rec setspecific) (launch.threadMain rec setspecific)
  | resume {caller rec : Nat} : launch.activity caller = .running → launch.activity rec ≠ .absent →
      Stepped launch (.resume caller rec) (launch.mdlThreadResume caller rec)
  | retry {thread : Nat} {next : Launch} : launch.retry thread = some next →
      Stepped launch (.retry thread) next

theorem step_cases {label : LaunchStep} (stepped : launch.step label = some next) :
    launch.Stepped label next := by
  cases label with
  | create caller rec suspended mutexCreate pthreadCreate =>
      obtain ⟨⟨running, absent⟩, ⟨⟩⟩ := Option.ite_none_right_eq_some.mp stepped
      exact .create suspended mutexCreate pthreadCreate running absent
  | start rec setspecific =>
      obtain ⟨created, ⟨⟩⟩ := Option.ite_none_right_eq_some.mp stepped
      exact .start setspecific created
  | resume caller rec =>
      obtain ⟨⟨running, there⟩, ⟨⟩⟩ := Option.ite_none_right_eq_some.mp stepped
      exact .resume running there
  | retry thread => exact .retry stepped

/-- The call is noted, and nothing that is kept beside the threads changes. -/
theorem resume_kept (launch : Launch) (caller rec : Nat) :
    (launch.mdlThreadResume caller rec).creator = launch.creator ∧
      (launch.mdlThreadResume caller rec).suspended = launch.suspended ∧
      (launch.mdlThreadResume caller rec).calls = (caller, rec) :: launch.calls := by
  unfold mdlThreadResume
  dsimp only
  split
  · exact ⟨rfl, rfl, rfl⟩
  · next mutex _ =>
    have acted := acted_afterResume { launch with calls := (caller, rec) :: launch.calls } caller
      rec (mutex.lock caller)
    exact ⟨acted.creator, acted.suspended, acted.calls⟩

/-- A creation says something new about its record only. -/
theorem create_kept (launch : Launch) (caller : Nat) {rec other : Nat}
    (suspended mutexCreate succeeds : Bool) (different : other ≠ rec) :
    (launch.mdlThreadCreate caller rec suspended mutexCreate succeeds).creator other =
        launch.creator other ∧
      (launch.mdlThreadCreate caller rec suspended mutexCreate succeeds).suspended other =
        launch.suspended other := by
  have made : ∀ (base : Launch) (flag : Bool),
      (base.pthreadCreate caller rec flag succeeds).creator other = base.creator other ∧
        (base.pthreadCreate caller rec flag succeeds).suspended other = base.suspended other := by
    intro base flag
    cases succeeds with
    | true => exact ⟨Function.update_of_ne different _ _, Function.update_of_ne different _ _⟩
    | false => exact ⟨rfl, rfl⟩
  unfold mdlThreadCreate
  split
  · split
    · exact made _ true
    · exact ⟨rfl, rfl⟩
  · exact made _ false

theorem create_calls (launch : Launch) (caller rec : Nat) (suspended mutexCreate succeeds : Bool) :
    (launch.mdlThreadCreate caller rec suspended mutexCreate succeeds).calls = launch.calls := by
  unfold mdlThreadCreate pthreadCreate
  split
  · split
    · split <;> rfl
    · rfl
  · split <;> rfl

namespace Held

variable {rec creator : Nat}

theorem not_running (held : launch.Held rec creator) : launch.activity rec ≠ .running := by
  rcases held.waits with created | locking | ended
  · simp [created]
  · simp [locking]
  · simp [ended]

theorem acted (held : launch.Held rec creator) {thread target : Nat}
    (acted : launch.Acted next thread target) (notActor : rec ≠ thread)
    (notTarget : rec ≠ target) : next.Held rec creator where
  mutex := by
    rw [acted.mutex rec notTarget]
    exact held.mutex
  waits := by
    rw [acted.activity rec notActor]
    exact held.waits

theorem stored (held : launch.Held rec creator) {mutex : MdlMutex}
    (same : launch.suspendedMutex rec = some mutex) {thread : Nat} {activity : Activity}
    (waits : thread = rec → activity = .locking) :
    ((launch.setMutex rec mutex).move thread activity).Held rec creator where
  mutex := by
    obtain ⟨other, here, normal, holder⟩ := held.mutex
    obtain rfl := Option.some.inj (same.symm.trans here)
    exact ⟨mutex, setMutex_self .., normal, holder⟩
  waits := by
    by_cases itself : rec = thread
    · subst itself
      rw [move_self]
      exact .inr (.inl (waits rfl))
    · rw [move_other _ _ itself]
      exact held.waits

theorem threadMain (held : launch.Held rec creator) (thread : Nat) (setspecific : Bool) :
    (launch.threadMain thread setspecific).Held rec creator := by
  obtain ⟨mutex, here, normal, holder⟩ := held.mutex
  unfold Launch.threadMain
  by_cases itself : rec = thread
  · subst itself
    cases setspecific with
    | false => exact ⟨held.mutex, .inr (.inr (move_self ..))⟩
    | true =>
        simp only [if_true, here, lock_blocked normal holder]
        exact held.stored here fun _ => rfl
  · split
    · split
      · exact held.acted (acted_move launch thread thread (by decide)) itself itself
      · exact held.acted (acted_afterLock launch thread _) itself itself
    · exact held.acted (acted_move launch thread thread (by decide)) itself itself

theorem afterResume (held : launch.Held rec creator) {caller target : Nat} {mutex : MdlMutex}
    (found : launch.suspendedMutex target = some mutex) (notCaller : rec ≠ caller) :
    (launch.afterResume caller target (mutex.lock caller)).Held rec creator := by
  by_cases same : rec = target
  · subst same
    obtain ⟨other, here, normal, holder⟩ := held.mutex
    obtain rfl := Option.some.inj (found.symm.trans here)
    rw [lock_blocked normal holder]
    exact held.stored here fun itself => absurd itself.symm notCaller
  · exact held.acted (acted_afterResume launch caller target _) notCaller same

theorem retry (held : launch.Held rec creator) {thread : Nat}
    (retried : launch.retry thread = some next) : next.Held rec creator := by
  unfold Launch.retry at retried
  by_cases itself : rec = thread
  · subst itself
    obtain ⟨mutex, here, normal, holder⟩ := held.mutex
    rcases held.waits with created | locking | ended
    · simp [created] at retried
    · simp only [locking, here, Option.map_some, lock_blocked normal holder] at retried
      obtain rfl := Option.some.inj retried
      exact held.stored here fun _ => rfl
    · simp [ended] at retried
  · split at retried
    · obtain ⟨mutex, -, rfl⟩ := Option.map_eq_some_iff.mp retried
      exact held.acted (acted_afterLock launch thread _) itself itself
    · obtain ⟨mutex, -, rfl⟩ := Option.map_eq_some_iff.mp retried
      exact held.acted (acted_afterUnlock launch thread _) itself itself
    · obtain ⟨mutex, found, rfl⟩ := Option.map_eq_some_iff.mp retried
      exact held.afterResume found itself
    · cases retried

end Held

theorem sealed_start (registered : List Nat) : (start registered).Sealed where
  held := by simp [start]
  known := by simp [start]

namespace Sealed

theorem known_acted (sealed_ : launch.Sealed) {thread target : Nat}
    (acted : launch.Acted next thread target) :
    ∀ call ∈ next.calls, next.activity call.2 ≠ .absent := by
  intro call made
  rw [acted.calls] at made
  by_cases same : call.2 = thread
  · rw [same]
    exact acted.present
  · rw [acted.activity _ same]
    exact sealed_.known call made

/-- A thread that acts keeps the seal if it leaves every mutex held that was held. -/
theorem of_acted (sealed_ : launch.Sealed) {thread target : Nat}
    (acted : launch.Acted next thread target)
    (kept : ∀ rec creator, launch.suspended rec = true → launch.Held rec creator →
      next.Held rec creator) : next.Sealed := by
  refine ⟨fun rec suspended => ?_, sealed_.known_acted acted⟩
  rw [acted.suspended] at suspended
  obtain ⟨creator, created, held⟩ := sealed_.held rec suspended
  refine ⟨creator, ?_, kept rec creator suspended held⟩
  rw [acted.creator, created]

theorem threadMain (sealed_ : launch.Sealed) (rec : Nat) (setspecific : Bool) :
    (launch.threadMain rec setspecific).Sealed := by
  apply sealed_.of_acted (acted_threadMain launch rec setspecific)
  exact fun _ _ _ held => held.threadMain rec setspecific

theorem retry (sealed_ : launch.Sealed) {thread : Nat}
    (retried : launch.retry thread = some next) : next.Sealed := by
  obtain ⟨target, acted⟩ := acted_retry retried
  apply sealed_.of_acted acted
  exact fun _ _ _ held => held.retry retried

theorem noted (sealed_ : launch.Sealed) {caller rec : Nat} (there : launch.activity rec ≠ .absent) :
    Sealed { launch with calls := (caller, rec) :: launch.calls } where
  held := fun other suspended => by
    obtain ⟨creator, created, mutex, waits⟩ := sealed_.held other suspended
    exact ⟨creator, created, mutex, waits⟩
  known := List.forall_mem_cons.mpr ⟨there, sealed_.known⟩

theorem resume (sealed_ : launch.Sealed) {caller rec : Nat}
    (running : launch.activity caller = .running) (there : launch.activity rec ≠ .absent) :
    (launch.mdlThreadResume caller rec).Sealed := by
  have noted := @noted _ sealed_ caller rec there
  unfold mdlThreadResume
  dsimp only
  split
  · exact noted
  · next mutex found =>
    apply noted.of_acted (acted_afterResume _ caller rec (mutex.lock caller))
    intro other creator _ held
    apply held.afterResume found
    rintro rfl
    exact held.not_running running

theorem setMutex (sealed_ : launch.Sealed) {rec : Nat} (unsuspended : launch.suspended rec ≠ true)
    (mutex : MdlMutex) : (launch.setMutex rec mutex).Sealed where
  held := fun other suspended => by
    obtain ⟨creator, created, here, waits⟩ := sealed_.held other suspended
    have different : other ≠ rec := by
      rintro rfl
      exact unsuspended suspended
    refine ⟨creator, created, ?_, waits⟩
    rwa [setMutex_other _ _ different]
  known := sealed_.known

theorem pthreadCreate (sealed_ : launch.Sealed) {caller rec : Nat} {suspended : Bool}
    (unsuspended : launch.suspended rec ≠ true)
    (locked : suspended = true → ∃ mutex, launch.suspendedMutex rec = some mutex ∧
      mutex.mutex.type = .normal ∧ mutex.mutex.holder = some caller) (succeeds : Bool) :
    (launch.pthreadCreate caller rec suspended succeeds).Sealed := by
  cases succeeds with
  | true =>
      constructor
      case held =>
        intro other otherSuspended
        simp only [Launch.pthreadCreate, if_true] at otherSuspended ⊢
        by_cases same : other = rec
        · subst same
          rw [Function.update_self] at otherSuspended ⊢
          exact ⟨caller, rfl, locked otherSuspended, .inl (move_self ..)⟩
        · rw [Function.update_of_ne same] at otherSuspended ⊢
          obtain ⟨creator, created, mutex, waits⟩ := sealed_.held other otherSuspended
          refine ⟨creator, created, mutex, ?_⟩
          rwa [← move_other launch .created same] at waits
      case known =>
        have moved := @acted_move launch rec rec .created (by decide)
        exact fun call made => sealed_.known_acted moved call made
  | false =>
      have acted := @acted_move launch rec rec .ended (by decide)
      apply sealed_.of_acted acted
      intro other creator otherSuspended held
      have different : other ≠ rec := by
        rintro rfl
        exact unsuspended otherSuspended
      exact held.acted acted different different

theorem create (sealed_ : launch.Sealed) {caller rec : Nat} (absent : launch.activity rec = .absent)
    (suspended mutexCreate succeeds : Bool) :
    (launch.mdlThreadCreate caller rec suspended mutexCreate succeeds).Sealed := by
  have unsuspended : launch.suspended rec ≠ true := by
    intro before
    obtain ⟨creator, -, held⟩ := sealed_.held rec before
    rcases held.waits with created | locking | ended
    · rw [absent] at created
      cases created
    · rw [absent] at locking
      cases locking
    · rw [absent] at ended
      cases ended
  unfold mdlThreadCreate
  split
  · split
    · refine (sealed_.setMutex unsuspended _).pthreadCreate unsuspended (fun _ => ?_) succeeds
      exact ⟨_, setMutex_self .., by rw [lock_created], by rw [lock_created]⟩
    · exact sealed_
  · exact sealed_.pthreadCreate unsuspended (by simp) succeeds

theorem step (sealed_ : launch.Sealed) {label : LaunchStep} (stepped : launch.step label = some next) :
    next.Sealed := by
  cases step_cases stepped with
  | create suspended mutexCreate pthreadCreate running absent =>
      exact sealed_.create absent suspended mutexCreate pthreadCreate
  | start setspecific created => exact sealed_.threadMain _ setspecific
  | resume running there => exact sealed_.resume running there
  | retry retried => exact sealed_.retry retried

end Sealed

def Unreleased (launch : Launch) : Prop :=
  ∀ rec creator, launch.suspended rec = true → launch.creator rec = some creator →
    (creator, rec) ∉ launch.calls

theorem Unreleased.acted (unreleased : launch.Unreleased) {thread target : Nat}
    (acted : launch.Acted next thread target) : next.Unreleased := by
  intro rec creator suspended created
  rw [acted.suspended] at suspended
  rw [acted.creator] at created
  rw [acted.calls]
  exact unreleased rec creator suspended created

theorem Unreleased.create (unreleased : launch.Unreleased) (sealed_ : launch.Sealed)
    {caller rec : Nat} (absent : launch.activity rec = .absent)
    (suspended mutexCreate succeeds : Bool) :
    (launch.mdlThreadCreate caller rec suspended mutexCreate succeeds).Unreleased := by
  intro other creator otherSuspended created
  rw [create_calls]
  by_cases same : other = rec
  · subst same
    exact fun called => sealed_.known _ called absent
  · obtain ⟨sameCreator, sameSuspended⟩ :=
      launch.create_kept caller suspended mutexCreate succeeds same
    rw [sameSuspended] at otherSuspended
    rw [sameCreator] at created
    exact unreleased other creator otherSuspended created

theorem Unreleased.resume_iff (unreleased : launch.Unreleased) (caller rec : Nat) :
    (launch.mdlThreadResume caller rec).Unreleased ↔ launch.Unresumed (.resume caller rec) := by
  obtain ⟨sameCreator, sameSuspended, calls⟩ := launch.resume_kept caller rec
  constructor
  · rintro after ⟨suspended, created⟩
    apply after rec caller (by rw [sameSuspended, suspended]) (by rw [sameCreator, created])
    rw [calls]
    exact List.mem_cons_self
  · intro unresumed other creator suspended created
    rw [sameSuspended] at suspended
    rw [sameCreator] at created
    rw [calls, List.mem_cons, not_or]
    refine ⟨fun same => ?_, unreleased other creator suspended created⟩
    obtain ⟨rfl, rfl⟩ := Prod.mk.inj same
    exact unresumed ⟨suspended, created⟩

theorem Unreleased.step_iff (unreleased : launch.Unreleased) (sealed_ : launch.Sealed)
    {label : LaunchStep} (stepped : launch.step label = some next) :
    launch.Unresumed label ↔ next.Unreleased := by
  cases step_cases stepped with
  | create suspended mutexCreate pthreadCreate running absent =>
      exact iff_of_true trivial
        (unreleased.create sealed_ absent suspended mutexCreate pthreadCreate)
  | start setspecific created =>
      exact iff_of_true trivial (unreleased.acted (acted_threadMain launch _ setspecific))
  | resume running there => exact (unreleased.resume_iff _ _).symm
  | retry retried =>
      obtain ⟨target, acted⟩ := acted_retry retried
      exact iff_of_true trivial (unreleased.acted acted)

theorem Sealed.releases_iff (sealed_ : launch.Sealed) : launch.Releases ↔ launch.Unreleased := by
  constructor
  · intro releases rec creator suspended created called
    obtain ⟨other, sameCreator, held⟩ := sealed_.held rec suspended
    obtain rfl := Option.some.inj (sameCreator.symm.trans created)
    obtain ⟨mutex, here, -, holder⟩ := held.mutex
    exact (releases.released rec other mutex suspended created called here).1 holder
  · intro unreleased
    constructor
    case heldBack =>
      intro rec suspended running
      obtain ⟨creator, -, held⟩ := sealed_.held rec suspended
      exact absurd running held.not_running
    case released =>
      intro rec creator mutex suspended created called
      exact absurd called (unreleased rec creator suspended created)

end Launch

/-- In every run, suspending and resuming do what they are for in every state just
when no creator resumes a thread that he has created suspended; and in every
run, a thread that was created suspended stays behind its creator's lock. -/
theorem resume_releases_iff_unresumed {registered : List Nat} {labels : List LaunchStep}
    {last : Launch} (ran : Transition.run Launch.step (.start registered) labels = some last) :
    ((∀ count middle, Transition.run Launch.step (.start registered) (labels.take count) =
        some middle → middle.Releases) ↔
      Transition.Guarded Launch.step Launch.Unresumed (.start registered) labels) ∧
    ∀ rec, last.suspended rec = true →
      last.activity rec ≠ .running ∧
        ∃ creator mutex, last.creator rec = some creator ∧
          last.suspendedMutex rec = some mutex ∧ mutex.mutex.holder = some creator := by
  have start : (Launch.start registered).Sealed ∧ (Launch.start registered).Unreleased :=
    ⟨Launch.sealed_start registered, by simp [Launch.Unreleased, Launch.start]⟩
  constructor
  · refine Iff.symm (@Transition.guarded_iff_of_visible _ _ Launch.step Launch.Unresumed
      (fun launch => launch.Sealed ∧ launch.Unreleased) Launch.Releases ?_ ?_ ?_ _ _ _ start ran)
    · rintro launch label next ⟨sealed_, unreleased⟩ stepped
      rw [(sealed_.step stepped).releases_iff]
      exact unreleased.step_iff sealed_ stepped
    · rintro launch label next ⟨sealed_, unreleased⟩ unresumed stepped
      exact ⟨sealed_.step stepped, (unreleased.step_iff sealed_ stepped).mp unresumed⟩
    · rintro launch ⟨sealed_, unreleased⟩
      exact sealed_.releases_iff.mpr unreleased
  · have sealed_ : last.Sealed :=
      Transition.run_invariant Launch.step (fun _ _ _ sealed_ stepped => sealed_.step stepped)
        start.1 ran
    intro rec suspended
    obtain ⟨creator, created, held⟩ := sealed_.held rec suspended
    obtain ⟨mutex, here, -, holder⟩ := held.mutex
    exact ⟨held.not_running, creator, mutex, created, here, holder⟩

/-- Two threads are created suspended; one starts, another thread resumes it, and
both wait. -/
theorem resume_releases_iff_unresumed_waiting :
    ∃ launch, Transition.run Launch.step (.start [0, 1])
        [.create 0 10 true true true, .create 1 11 true true true, .create 0 12 false true true,
          .start 10 true, .start 12 true, .resume 12 10, .retry 10, .start 11 false] =
          some launch ∧
      launch.activity 10 = .locking ∧ launch.activity 12 = .resuming 10 ∧ launch.Releases := by
  have view : (Transition.run Launch.step (.start [0, 1])
      [.create 0 10 true true true, .create 1 11 true true true, .create 0 12 false true true,
        .start 10 true, .start 12 true, .resume 12 10, .retry 10, .start 11 false]).map
        (fun launch => (launch.activity 10, launch.activity 12)) =
          some (.locking, .resuming 10) := by
    decide +kernel
  obtain ⟨launch, ran, seen⟩ := Option.map_eq_some_iff.mp view
  obtain ⟨waits, resuming⟩ := Prod.mk.inj seen
  refine ⟨launch, ran, waits, resuming, ?_⟩
  exact (resume_releases_iff_unresumed ran).1.mpr (by decide +kernel) 8 launch ran

/-- A thread is created suspended and starts, and its creator resumes it: both
wait for the mutex, which the creator still holds, and go on waiting. -/
theorem resume_blocks_creator :
    ∃ launch, Transition.run Launch.step (.start [0])
        [.create 0 10 true true true, .start 10 true, .resume 0 10, .retry 0, .retry 10] =
          some launch ∧
      launch.activity 0 = .resuming 10 ∧ launch.activity 10 = .locking ∧
      launch.suspendedMutex 10 = some ⟨⟨.normal, some 0, 1⟩, 1, some 0⟩ ∧ ¬ launch.Releases := by
  refine ⟨_, rfl, rfl, rfl, rfl, fun releases => ?_⟩
  have free := (releases.released 10 0 _ rfl rfl List.mem_cons_self rfl).1
  exact free rfl

end UtilsModules.Thread

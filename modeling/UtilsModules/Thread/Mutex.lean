import Mathlib.Logic.Function.Basic
import UtilsModules.Library.Transition

/-!
The mutex wrapper of `thread.c` and the POSIX mutex under it.

The wrapper keeps `nesting_level` and `owner` beside the real lock.  A call runs
until it returns or blocks in `pthread_mutex_lock`; a blocked call goes on when
it gets the lock.  Threads are registered, so `mdl_thread_this` names each.
-/

namespace UtilsModules.Thread

inductive MutexType where
  | mutexDefault
  | mutexSimple
  | mutexRecurse
  deriving DecidableEq, Repr

inductive PthreadType where
  | normal
  | recursive
  deriving DecidableEq, Repr

/-- A POSIX mutex: the thread that holds it and how often. -/
structure PthreadMutex where
  type : PthreadType
  holder : Option Nat
  count : Nat
  deriving DecidableEq, Repr

/-- What a thread gets from the mutex.  With `none`, `pthread_mutex_lock` blocks
and `pthread_mutex_trylock` answers `EBUSY`. -/
def PthreadMutex.acquire (mutex : PthreadMutex) (thread : Nat) : Option PthreadMutex :=
  match mutex.holder with
  | none => some { mutex with holder := some thread, count := 1 }
  | some holder =>
      if mutex.type = .recursive ∧ holder = thread then
        some { mutex with count := mutex.count + 1 }
      else
        none

theorem PthreadMutex.acquire_cases {mutex acquired : PthreadMutex} {thread : Nat}
    (got : mutex.acquire thread = some acquired) :
    (mutex.holder = none ∧ acquired = { mutex with holder := some thread, count := 1 }) ∨
      mutex.holder = some thread ∧ acquired = { mutex with count := mutex.count + 1 } := by
  unfold acquire at got
  split at got
  · next free => exact .inl ⟨free, (Option.some.inj got).symm⟩
  · next holder held =>
    split at got
    · next again => exact .inr ⟨again.2 ▸ held, (Option.some.inj got).symm⟩
    · cases got

/-- `struct mdl_mutex_s`, without the names it only logs. -/
structure MdlMutex where
  mutex : PthreadMutex
  nestingLevel : Int
  owner : Option Nat
  deriving DecidableEq, Repr

def initMutex (type : MutexType) : MdlMutex where
  mutex := ⟨if type = .mutexSimple then .normal else .recursive, none, 0⟩
  nestingLevel := 0
  owner := none

/-- What a call comes to: it returns `SUCCESS` or `FAILURE`, or it blocks. -/
inductive Outcome where
  | success
  | failure
  | blocked
  deriving DecidableEq, Repr

namespace MdlMutex

def lock (mutex : MdlMutex) (thread : Nat) : MdlMutex × Outcome :=
  match mutex.mutex.acquire thread with
  | none => (mutex, .blocked)
  | some acquired =>
      ({ mutex := acquired, nestingLevel := mutex.nestingLevel + 1, owner := some thread }, .success)

/-- The end of `mdl_mutex_unlock`, which calls `pthread_mutex_lock`. -/
def unlockEnd (mutex : MdlMutex) (thread : Nat) : MdlMutex × Outcome :=
  match mutex.mutex.acquire thread with
  | none => (mutex, .blocked)
  | some acquired => ({ mutex with mutex := acquired }, .success)

@[simp]
theorem unlockEnd_level (mutex : MdlMutex) (thread : Nat) :
    (mutex.unlockEnd thread).1.nestingLevel = mutex.nestingLevel := by
  unfold unlockEnd
  split <;> rfl

theorem unlockEnd_count {mutex : MdlMutex} {thread : Nat}
    (held : mutex.mutex.holder = some thread) :
    mutex.mutex.count ≤ (mutex.unlockEnd thread).1.mutex.count := by
  unfold unlockEnd
  split
  · exact Nat.le_refl _
  · next acquired got =>
    rcases PthreadMutex.acquire_cases got with ⟨free, -⟩ | ⟨-, rfl⟩
    · rw [held] at free
      cases free
    · exact Nat.le_succ _

def unlock (mutex : MdlMutex) (thread : Nat) : MdlMutex × Outcome :=
  if mutex.owner = some thread then
    let nestingLevel := mutex.nestingLevel - 1
    unlockEnd
      { mutex with
        nestingLevel := nestingLevel
        owner := if nestingLevel = 0 then none else mutex.owner }
      thread
  else
    (mutex, .failure)

def trylock (mutex : MdlMutex) (thread : Nat) : MdlMutex × Outcome :=
  match mutex.mutex.acquire thread with
  | none => (mutex, .failure)
  | some acquired =>
      ({ mutex := acquired, nestingLevel := mutex.nestingLevel + 1, owner := some thread }, .success)

/-- The wrapper and the lock say the same. -/
def Agrees (mutex : MdlMutex) : Prop :=
  mutex.nestingLevel = mutex.mutex.count ∧ mutex.owner = mutex.mutex.holder

instance (mutex : MdlMutex) : Decidable mutex.Agrees := inferInstanceAs (Decidable (_ ∧ _))

end MdlMutex

inductive Place where
  | outside
  /-- In the `pthread_mutex_lock` of `mdl_mutex_lock`. -/
  | locking
  /-- In the `pthread_mutex_lock` of `mdl_mutex_unlock`. -/
  | unlocking
  deriving DecidableEq, Repr

/-- A mutex, its threads and how many of their calls have returned `SUCCESS`. -/
structure Contest where
  mutex : MdlMutex
  places : Nat → Place
  locks : Nat → Nat
  unlocks : Nat → Nat

inductive ContestStep where
  | lock (thread : Nat)
  | trylock (thread : Nat)
  | unlock (thread : Nat)
  /-- A blocked call tries to go on. -/
  | resume (thread : Nat)
  deriving DecidableEq, Repr

namespace Contest

def start (type : MutexType) : Contest :=
  ⟨initMutex type, fun _ => .outside, fun _ => 0, fun _ => 0⟩

def afterLock (contest : Contest) (thread : Nat) : MdlMutex × Outcome → Contest
  | (mutex, .success) =>
      { contest with
        mutex := mutex
        places := Function.update contest.places thread .outside
        locks := Function.update contest.locks thread (contest.locks thread + 1) }
  | (mutex, .failure) =>
      { contest with
        mutex := mutex, places := Function.update contest.places thread .outside }
  | (mutex, .blocked) =>
      { contest with
        mutex := mutex, places := Function.update contest.places thread .locking }

def afterUnlock (contest : Contest) (thread : Nat) : MdlMutex × Outcome → Contest
  | (mutex, .success) =>
      { contest with
        mutex := mutex
        places := Function.update contest.places thread .outside
        unlocks := Function.update contest.unlocks thread (contest.unlocks thread + 1) }
  | (mutex, .failure) =>
      { contest with
        mutex := mutex, places := Function.update contest.places thread .outside }
  | (mutex, .blocked) =>
      { contest with
        mutex := mutex, places := Function.update contest.places thread .unlocking }

/-- One step of a thread.  A thread in a call makes no other. -/
def step (contest : Contest) : ContestStep → Option Contest
  | .lock thread =>
      if contest.places thread = .outside then
        some (contest.afterLock thread (contest.mutex.lock thread))
      else
        none
  | .trylock thread =>
      if contest.places thread = .outside then
        some (contest.afterLock thread (contest.mutex.trylock thread))
      else
        none
  | .unlock thread =>
      if contest.places thread = .outside then
        some (contest.afterUnlock thread (contest.mutex.unlock thread))
      else
        none
  | .resume thread =>
      match contest.places thread with
      | .outside => none
      | .locking => some (contest.afterLock thread (contest.mutex.lock thread))
      | .unlocking => some (contest.afterUnlock thread (contest.mutex.unlockEnd thread))

/-- The condition on a step: the owner does not call `mdl_mutex_unlock`. -/
def Unreleased (contest : Contest) : ContestStep → Prop
  | .unlock thread => contest.mutex.owner ≠ some thread
  | _ => True

instance (contest : Contest) (label : ContestStep) : Decidable (contest.Unreleased label) := by
  unfold Unreleased
  split <;> infer_instance

/-- What holds while nobody unlocks: the wrapper agrees with the lock, and the
lock counts the calls of its holder. -/
structure Orderly (contest : Contest) : Prop where
  agrees : contest.mutex.Agrees
  noUnlock : ∀ thread, contest.places thread ≠ .unlocking ∧ contest.unlocks thread = 0
  counted : ∀ thread, contest.locks thread =
    if contest.mutex.mutex.holder = some thread then contest.mutex.mutex.count else 0
  held : contest.mutex.mutex.holder = none ↔ contest.mutex.mutex.count = 0

variable {contest next : Contest}

namespace Orderly

theorem acquire (orderly : contest.Orderly) {thread : Nat} {acquired : PthreadMutex}
    (got : contest.mutex.mutex.acquire thread = some acquired) :
    Orderly
      { contest with
        mutex :=
          { mutex := acquired
            nestingLevel := contest.mutex.nestingLevel + 1
            owner := some thread }
        places := Function.update contest.places thread .outside
        locks := Function.update contest.locks thread (contest.locks thread + 1) } := by
  obtain ⟨⟨level, -⟩, noUnlock, counted, held⟩ := orderly
  have counts : acquired.holder = some thread ∧ acquired.count = contest.mutex.mutex.count + 1 ∧
      contest.locks thread = contest.mutex.mutex.count ∧
      ∀ other, other ≠ thread → contest.locks other = 0 := by
    rcases PthreadMutex.acquire_cases got with ⟨free, rfl⟩ | ⟨again, rfl⟩
    · have none : contest.mutex.mutex.count = 0 := held.mp free
      refine ⟨rfl, by rw [none], by rw [counted, free, none]; simp, fun other _ => ?_⟩
      rw [counted, free]
      simp
    · refine ⟨again, rfl, by rw [counted, again]; simp, fun other different => ?_⟩
      rw [counted, again, if_neg (by simpa using Ne.symm different)]
  obtain ⟨holder, more, own, others⟩ := counts
  constructor
  case agrees =>
    refine ⟨?_, holder.symm⟩
    simp only [more, level]
    omega
  case noUnlock =>
    intro other
    refine ⟨?_, (noUnlock other).2⟩
    by_cases same : other = thread
    · simp [same]
    · simp only [Function.update_of_ne same]
      exact (noUnlock other).1
  case counted =>
    intro other
    by_cases same : other = thread
    · simp only [same, Function.update_self, holder, more, own, if_true]
    · simp only [Function.update_of_ne same, holder, others other same]
      rw [if_neg (by simpa using Ne.symm same)]
  case held =>
    simp only [holder, more]
    simp

/-- A call that does not get the lock changes its own place only. -/
theorem relocate (orderly : contest.Orderly) (thread : Nat) {place : Place}
    (elsewhere : place ≠ .unlocking) :
    Orderly { contest with places := Function.update contest.places thread place } where
  agrees := orderly.agrees
  noUnlock := by
    intro other
    refine ⟨?_, (orderly.noUnlock other).2⟩
    by_cases same : other = thread
    · simpa [same] using elsewhere
    · simp only [Function.update_of_ne same]
      exact (orderly.noUnlock other).1
  counted := orderly.counted
  held := orderly.held

theorem lock (orderly : contest.Orderly) (thread : Nat) :
    (contest.afterLock thread (contest.mutex.lock thread)).Orderly := by
  unfold MdlMutex.lock
  split
  · exact orderly.relocate thread (by decide)
  · next got => exact orderly.acquire got

theorem trylock (orderly : contest.Orderly) (thread : Nat) :
    (contest.afterLock thread (contest.mutex.trylock thread)).Orderly := by
  unfold MdlMutex.trylock
  split
  · exact orderly.relocate thread (by decide)
  · next got => exact orderly.acquire got

theorem step (orderly : contest.Orderly) {label : ContestStep}
    (unreleased : contest.Unreleased label) (stepped : contest.step label = some next) :
    next.Orderly := by
  cases label with
  | lock thread =>
      rw [Contest.step] at stepped
      split at stepped
      · obtain rfl := Option.some.inj stepped
        exact orderly.lock thread
      · cases stepped
  | trylock thread =>
      rw [Contest.step] at stepped
      split at stepped
      · obtain rfl := Option.some.inj stepped
        exact orderly.trylock thread
      · cases stepped
  | unlock thread =>
      rw [Contest.step] at stepped
      split at stepped
      · obtain rfl := Option.some.inj stepped
        rw [MdlMutex.unlock, if_neg unreleased]
        exact orderly.relocate thread (by decide)
      · cases stepped
  | resume thread =>
      rw [Contest.step] at stepped
      split at stepped
      · cases stepped
      · obtain rfl := Option.some.inj stepped
        exact orderly.lock thread
      · next unlocking => exact absurd unlocking (orderly.noUnlock thread).1

theorem unlock_disagrees (orderly : contest.Orderly) {thread : Nat}
    (owned : contest.mutex.owner = some thread) : ¬ (contest.mutex.unlock thread).1.Agrees := by
  obtain ⟨level, owner⟩ := orderly.agrees
  rw [MdlMutex.unlock, if_pos owned]
  rintro ⟨disagree, -⟩
  rw [MdlMutex.unlockEnd_level] at disagree
  have held : contest.mutex.mutex.holder = some thread := owner.symm.trans owned
  have count := @MdlMutex.unlockEnd_count
    { contest.mutex with
      nestingLevel := contest.mutex.nestingLevel - 1
      owner := if contest.mutex.nestingLevel - 1 = 0 then none else contest.mutex.owner }
    thread held
  simp only at disagree count
  omega

theorem step_iff (orderly : contest.Orderly) {label : ContestStep}
    (stepped : contest.step label = some next) :
    contest.Unreleased label ↔ next.mutex.Agrees := by
  constructor
  · intro unreleased
    exact (orderly.step unreleased stepped).agrees
  · intro agrees
    cases label with
    | unlock thread =>
        intro owned
        rw [Contest.step] at stepped
        split at stepped
        · obtain rfl := Option.some.inj stepped
          apply orderly.unlock_disagrees owned
          revert agrees
          rcases contest.mutex.unlock thread with ⟨mutex, outcome⟩
          cases outcome <;> exact id
        · cases stepped
    | _ => trivial

end Orderly

end Contest

end UtilsModules.Thread

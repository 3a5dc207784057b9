import Mathlib.Data.List.Nodup
import UtilsModules.Thread.Mutex

/-!
The atomic values of `thread.c`.

Every operation is a lock, one statement about the value and an unlock, on a mutex that
belongs to the value alone and is not recursive.  The steps of different threads come in
any order; a thread in a blocked call tries again with its next step.
-/

namespace UtilsModules.Thread

/-- The operations that touch the value.  `mdl_atomic_inc`, `mdl_atomic_dec` and
`mdl_atomic_add` call one of them and drop the answer. -/
inductive AtomicCall where
  | set (value : BitVec 64)
  | get
  | incAndGet
  | decAndGet
  | addAndGet (value : BitVec 64)
  deriving DecidableEq, Repr

namespace AtomicCall

/-- The value after the statement between the lock and the unlock. -/
def apply (old : BitVec 64) : AtomicCall → BitVec 64
  | set value => value
  | get => old
  | incAndGet => old + 1
  | decAndGet => old - 1
  | addAndGet value => old + value

def answer (after : BitVec 64) : AtomicCall → Option (BitVec 64)
  | set _ => none
  | _ => some after

end AtomicCall

inductive AtomicPlace where
  | outside
  | locking (call : AtomicCall)
  | locked (call : AtomicCall)
  | touched (answer : Option (BitVec 64))
  /-- In the `pthread_mutex_lock` of `mdl_mutex_unlock`. -/
  | unlocking (answer : Option (BitVec 64))
  deriving DecidableEq, Repr

/-- `struct mdl_atomic_s` and its threads, with the operations that have been called and
those that have returned. -/
structure Atomic where
  mutex : MdlMutex
  value : BitVec 64
  places : Nat → AtomicPlace
  calls : List (Nat × AtomicCall)
  returned : List (Nat × Option (BitVec 64))

inductive AtomicStep where
  | call (thread : Nat) (call : AtomicCall)
  | go (thread : Nat)
  deriving DecidableEq, Repr

namespace Atomic

def create (initial : BitVec 64) : Atomic :=
  ⟨initMutex .mutexSimple, initial, fun _ => .outside, [], []⟩

def move (atomic : Atomic) (thread : Nat) (place : AtomicPlace) : Atomic :=
  { atomic with places := Function.update atomic.places thread place }

def enter (atomic : Atomic) (thread : Nat) (call : AtomicCall) : Atomic :=
  { atomic.move thread (.locking call) with calls := atomic.calls ++ [(thread, call)] }

/-- The answer of `mdl_mutex_lock` is ignored, so only a blocked call stops a thread. -/
def afterLock (atomic : Atomic) (thread : Nat) (call : AtomicCall) : MdlMutex × Outcome → Atomic
  | (_, .blocked) => atomic.move thread (.locking call)
  | (mutex, _) => { atomic.move thread (.locked call) with mutex := mutex }

def afterUnlock (atomic : Atomic) (thread : Nat) (answer : Option (BitVec 64)) :
    MdlMutex × Outcome → Atomic
  | (mutex, .blocked) => { atomic.move thread (.unlocking answer) with mutex := mutex }
  | (mutex, _) =>
      { atomic.move thread .outside with
        mutex := mutex, returned := atomic.returned ++ [(thread, answer)] }

def go (atomic : Atomic) (thread : Nat) : Option Atomic :=
  match atomic.places thread with
  | .outside => none
  | .locking call => some (atomic.afterLock thread call (atomic.mutex.lock thread))
  | .locked call =>
      let value := call.apply atomic.value
      some { atomic.move thread (.touched (call.answer value)) with value := value }
  | .touched answer => some (atomic.afterUnlock thread answer (atomic.mutex.unlock thread))
  | .unlocking answer => some (atomic.afterUnlock thread answer (atomic.mutex.unlockEnd thread))

def step (atomic : Atomic) : AtomicStep → Option Atomic
  | .call thread call =>
      if atomic.places thread = .outside then some (atomic.enter thread call) else none
  | .go thread => atomic.go thread

inductive Stage where
  | locked
  | touched
  | unlocking

namespace Stage

def place (stage : Stage) (call : AtomicCall) (initial : BitVec 64) : AtomicPlace :=
  match stage with
  | locked => .locked call
  | touched => .touched (call.answer (call.apply initial))
  | unlocking => .unlocking (call.answer (call.apply initial))

/-- The wrapper has forgotten its owner before it blocks in the unlock. -/
def mutex (thread : Nat) : Stage → MdlMutex
  | locked | touched => ⟨⟨.normal, some thread, 1⟩, 1, some thread⟩
  | unlocking => ⟨⟨.normal, some thread, 1⟩, 0, none⟩

def value (stage : Stage) (call : AtomicCall) (initial : BitVec 64) : BitVec 64 :=
  match stage with
  | locked => initial
  | touched | unlocking => call.apply initial

end Stage

def Before (atomic : Atomic) (thread : Nat) : Prop :=
  atomic.places thread = .outside ∨
    ∃ call, atomic.places thread = .locking call ∧ (thread, call) ∈ atomic.calls

/-- One operation at most gets behind its lock, and none behind its unlock. -/
inductive Phase (initial : BitVec 64) (atomic : Atomic) : Prop where
  | free (unlocked : atomic.mutex = initMutex .mutexSimple) (value : atomic.value = initial)
      (others : ∀ thread, atomic.Before thread)
  | held (holder : Nat) (call : AtomicCall) (stage : Stage)
      (mutex : atomic.mutex = stage.mutex holder) (value : atomic.value = stage.value call initial)
      (place : atomic.places holder = stage.place call initial)
      (made : (holder, call) ∈ atomic.calls)
      (others : ∀ other, other ≠ holder → atomic.Before other)

/-- No operation has returned, and each thread has called one at most. -/
structure Stuck (initial : BitVec 64) (atomic : Atomic) : Prop where
  phase : atomic.Phase initial
  silent : atomic.returned = []
  once : (atomic.calls.map Prod.fst).Nodup
  inside : ∀ thread, atomic.places thread = .outside ↔ thread ∉ atomic.calls.map Prod.fst

variable {initial : BitVec 64} {atomic next : Atomic} {thread other : Nat} {place : AtomicPlace}

theorem move_self (atomic : Atomic) (thread : Nat) (place : AtomicPlace) :
    (atomic.move thread place).places thread = place := Function.update_self ..

theorem move_other (place : AtomicPlace) (different : other ≠ thread) :
    (atomic.move thread place).places other = atomic.places other :=
  Function.update_of_ne different ..

theorem Before.congr (before : atomic.Before other)
    (same : next.places other = atomic.places other) (more : atomic.calls ⊆ next.calls) :
    next.Before other := by
  unfold Before at *
  rw [same]
  exact before.imp_right fun ⟨call, here, made⟩ => ⟨call, here, more made⟩

theorem outside_move (notOutside : place ≠ .outside) (inCall : atomic.places thread ≠ .outside)
    (other : Nat) :
    (atomic.move thread place).places other = .outside ↔ atomic.places other = .outside := by
  by_cases same : other = thread
  · rw [same, move_self]
    exact iff_of_false notOutside inCall
  · rw [move_other place same]

theorem Before.enter (before : atomic.Before other) (thread : Nat) (call : AtomicCall) :
    (atomic.enter thread call).Before other := by
  by_cases same : other = thread
  · subst same
    exact .inr ⟨call, move_self .., List.mem_append_right _ (List.mem_singleton_self _)⟩
  · exact before.congr (move_other _ same) (List.subset_append_left _ _)

theorem Phase.enter (phase : atomic.Phase initial) (outside : atomic.places thread = .outside)
    (call : AtomicCall) : (atomic.enter thread call).Phase initial := by
  cases phase with
  | free unlocked value others => exact .free unlocked value fun other => (others other).enter _ _
  | held holder holding stage mutex value place made others =>
      have different : holder ≠ thread := by
        rintro rfl
        rw [place] at outside
        cases stage <;> cases outside
      exact .held holder holding stage mutex value ((move_other _ different).trans place)
        (List.mem_append_left _ made) fun other notHolder => (others other notHolder).enter _ _

theorem Stuck.enter (stuck : atomic.Stuck initial) (outside : atomic.places thread = .outside)
    (call : AtomicCall) : (atomic.enter thread call).Stuck initial where
  phase := stuck.phase.enter outside call
  silent := stuck.silent
  once := by
    have new := (stuck.inside thread).mp outside
    simp only [Atomic.enter, List.map_append, List.map_cons, List.map_nil]
    exact List.Nodup.append stuck.once (List.nodup_singleton _) (List.disjoint_singleton.mpr new)
  inside other := by
    simp only [Atomic.enter, List.map_append, List.map_cons, List.map_nil, List.mem_append,
      List.mem_singleton, not_or]
    by_cases same : other = thread
    · rw [same, move_self]
      exact iff_of_false (fun here => by cases here) fun absent => absent.2 rfl
    · rw [move_other _ same, stuck.inside other]
      exact (and_iff_left same).symm

theorem Stage.lock_blocked (stage : Stage) (holder thread : Nat) :
    (stage.mutex holder).lock thread = (stage.mutex holder, .blocked) := by
  cases stage <;> rfl

theorem lock_created (thread : Nat) :
    (initMutex .mutexSimple).lock thread = (Stage.locked.mutex thread, .success) := rfl

theorem unlock_blocked (thread : Nat) :
    (Stage.touched.mutex thread).unlock thread = (Stage.unlocking.mutex thread, .blocked) := by
  simp [Stage.mutex, MdlMutex.unlock, MdlMutex.unlockEnd, PthreadMutex.acquire]

theorem unlockEnd_blocked (thread : Nat) :
    (Stage.unlocking.mutex thread).unlockEnd thread =
      (Stage.unlocking.mutex thread, .blocked) := rfl

structure Goes (initial : BitVec 64) (atomic next : Atomic) : Prop where
  phase : next.Phase initial
  returned : next.returned = atomic.returned
  calls : next.calls = atomic.calls
  inside : ∀ other, next.places other = .outside ↔ atomic.places other = .outside

theorem Phase.go_waiting (phase : atomic.Phase initial) {call : AtomicCall}
    (here : atomic.places thread = .locking call) (made : (thread, call) ∈ atomic.calls)
    (stepped : atomic.go thread = some next) : Goes initial atomic next := by
  rw [go, here] at stepped
  have inCall : atomic.places thread ≠ .outside := fun outside => by
    rw [here] at outside
    cases outside
  cases phase with
  | free unlocked value others =>
      rw [unlocked, lock_created] at stepped
      obtain rfl := Option.some.inj stepped
      refine ⟨.held thread call .locked rfl value (move_self ..) made fun other different => ?_,
        rfl, rfl, outside_move (by simp) inCall⟩
      exact (others other).congr (move_other _ different) (List.Subset.refl _)
  | held holder holding stage mutex value place held others =>
      rw [mutex, stage.lock_blocked] at stepped
      obtain rfl := Option.some.inj stepped
      have different : holder ≠ thread := by
        rintro rfl
        rw [place] at here
        cases stage <;> cases here
      refine ⟨.held holder holding stage mutex value ((move_other _ different).trans place) held
        fun other notHolder => ?_, rfl, rfl, outside_move (by simp) inCall⟩
      by_cases same : other = thread
      · subst same
        exact .inr ⟨call, move_self .., made⟩
      · exact (others other notHolder).congr (move_other _ same) (List.Subset.refl _)

theorem go_holder {call : AtomicCall} {stage : Stage} (mutex : atomic.mutex = stage.mutex thread)
    (value : atomic.value = stage.value call initial)
    (place : atomic.places thread = stage.place call initial)
    (made : (thread, call) ∈ atomic.calls)
    (others : ∀ other, other ≠ thread → atomic.Before other)
    (stepped : atomic.go thread = some next) : Goes initial atomic next := by
  have inCall : atomic.places thread ≠ .outside := fun outside => by
    rw [place] at outside
    cases stage <;> cases outside
  have kept {changed : Atomic} {after : AtomicPlace}
      (moved : changed.places = (atomic.move thread after).places)
      (called : changed.calls = atomic.calls) (other : Nat) (different : other ≠ thread) :
      changed.Before other :=
    (others other different).congr (by rw [moved, move_other _ different])
      (called ▸ List.Subset.refl _)
  cases stage with
  | locked =>
      have here : atomic.places thread = .locked call := place
      rw [go, here] at stepped
      obtain rfl := Option.some.inj stepped
      have value : atomic.value = initial := value
      rw [value]
      exact ⟨.held thread call .touched mutex rfl (move_self ..) made (kept rfl rfl), rfl, rfl,
        outside_move (by simp) inCall⟩
  | touched =>
      have here : atomic.places thread = .touched (call.answer (call.apply initial)) := place
      rw [go, here] at stepped
      simp only [mutex, unlock_blocked] at stepped
      obtain rfl := Option.some.inj stepped
      exact ⟨.held thread call .unlocking rfl value (move_self ..) made (kept rfl rfl), rfl, rfl,
        outside_move (by simp) inCall⟩
  | unlocking =>
      have here : atomic.places thread = .unlocking (call.answer (call.apply initial)) := place
      rw [go, here] at stepped
      simp only [mutex, unlockEnd_blocked] at stepped
      obtain rfl := Option.some.inj stepped
      exact ⟨.held thread call .unlocking rfl value (move_self ..) made (kept rfl rfl), rfl, rfl,
        outside_move (by simp) inCall⟩

theorem Phase.go (phase : atomic.Phase initial) (stepped : atomic.go thread = some next) :
    Goes initial atomic next := by
  have waiting (before : atomic.Before thread) : Goes initial atomic next := by
    rcases before with outside | ⟨call, here, made⟩
    · rw [Atomic.go, outside] at stepped
      cases stepped
    · exact phase.go_waiting here made stepped
  cases phase with
  | free unlocked value others => exact waiting (others thread)
  | held holder call stage mutex value place made others =>
      by_cases same : thread = holder
      · subst same
        exact go_holder mutex value place made others stepped
      · exact waiting (others thread same)

theorem Stuck.step (stuck : atomic.Stuck initial) {label : AtomicStep}
    (stepped : atomic.step label = some next) : next.Stuck initial := by
  cases label with
  | call thread call =>
      rw [Atomic.step] at stepped
      split at stepped
      case isTrue outside =>
        obtain rfl := Option.some.inj stepped
        exact stuck.enter outside call
      case isFalse => cases stepped
  | go thread =>
      obtain ⟨phase, returned, calls, inside⟩ := stuck.phase.go stepped
      refine ⟨phase, returned.trans stuck.silent, calls ▸ stuck.once, fun other => ?_⟩
      rw [inside, calls]
      exact stuck.inside other

theorem stuck_create (initial : BitVec 64) : (create initial).Stuck initial where
  phase := .free rfl rfl fun _ => .inl rfl
  silent := rfl
  once := List.nodup_nil
  inside _ := iff_of_true rfl List.not_mem_nil

/-- However the steps of the threads are ordered, no operation on an atomic value ever
returns: a thread that has called one is in it for good, and one call at most has its
effect on the value. -/
theorem run_atomic {labels : List AtomicStep} {last : Atomic}
    (ran : Transition.run Atomic.step (create initial) labels = some last) :
    last.returned = [] ∧ (last.calls.map Prod.fst).Nodup ∧
      (∀ entry ∈ last.calls, last.places entry.1 ≠ .outside) ∧
      (last.value = initial ∨ ∃ entry ∈ last.calls, last.value = entry.2.apply initial) := by
  have stuck : last.Stuck initial := Transition.run_invariant Atomic.step
    (fun _ _ _ stuck stepped => stuck.step stepped) (stuck_create initial) ran
  refine ⟨stuck.silent, stuck.once, fun entry made outside => ?_, ?_⟩
  · exact (stuck.inside entry.1).mp outside (List.mem_map_of_mem made)
  · cases stuck.phase with
    | free unlocked value others => exact .inl value
    | held holder call stage mutex value place made others =>
        cases stage with
        | locked => exact .inl value
        | touched => exact .inr ⟨_, made, value⟩
        | unlocking => exact .inr ⟨_, made, value⟩

theorem run_atomic_two :
    ∃ last, Transition.run Atomic.step (create 2) [.call 0 (.addAndGet 5), .go 0, .call 1 .get,
        .go 0, .go 1, .go 0, .go 0] = some last ∧
      last.value = 7 ∧ last.returned = [] ∧ (last.calls.map Prod.fst).Nodup ∧
      (∀ entry ∈ last.calls, last.places entry.1 ≠ .outside) ∧
      (last.value = 2 ∨ ∃ entry ∈ last.calls, last.value = entry.2.apply 2) :=
  ⟨_, rfl, rfl, @run_atomic 2 [.call 0 (.addAndGet 5), .go 0, .call 1 .get, .go 0, .go 1, .go 0,
    .go 0] _ rfl⟩

end Atomic

end UtilsModules.Thread

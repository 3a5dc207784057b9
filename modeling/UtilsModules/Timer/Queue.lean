import Mathlib.Data.List.Sort
import Mathlib.Data.List.Perm.Basic
import UtilsModules.Library.Transition
import UtilsModules.Timer.Timer

/-!
The two lists of the timer module.

All that a call or a turn of the thread does to the lists is one of two moves:
`enlist` puts a record into the work list at its place in time, `release` puts
it at the end of the free list.  `Queue` is what every move keeps.
-/

namespace UtilsModules.Timer

theorem cmptime_iff {srctv dsttv : Timeval} (source : srctv.Normalised)
    (target : dsttv.Normalised) : cmptime srctv dsttv = true ↔ dsttv.micros ≤ srctv.micros := by
  obtain ⟨sourceLow, sourceHigh⟩ := source
  obtain ⟨targetLow, targetHigh⟩ := target
  simp only [cmptime, Timeval.micros, Bool.or_eq_true, Bool.and_eq_true, decide_eq_true_eq,
    beq_iff_eq]
  omega

theorem cmptime_total (first second : Timeval) :
    cmptime first second = true ∨ cmptime second first = true := by
  simp only [cmptime, Bool.or_eq_true, Bool.and_eq_true, decide_eq_true_eq, beq_iff_eq]
  omega

theorem cmptime_trans {first second third : Timeval} (after : cmptime first second = true)
    (afterwards : cmptime second third = true) : cmptime first third = true := by
  simp only [cmptime, Bool.or_eq_true, Bool.and_eq_true, decide_eq_true_eq, beq_iff_eq] at *
  omega

theorem carry_spec {first second : Timeval} (firstNormalised : first.Normalised)
    (secondNormalised : second.Normalised) :
    Timeval.Normalised ⟨first.tvSec + second.tvSec + (first.tvUsec + second.tvUsec).tdiv 1000000,
        (first.tvUsec + second.tvUsec).tmod 1000000⟩ ∧
      Timeval.micros ⟨first.tvSec + second.tvSec + (first.tvUsec + second.tvUsec).tdiv 1000000,
        (first.tvUsec + second.tvUsec).tmod 1000000⟩ = first.micros + second.micros := by
  obtain ⟨firstLow, firstHigh⟩ := firstNormalised
  obtain ⟨secondLow, secondHigh⟩ := secondNormalised
  rw [Int.tdiv_eq_ediv_of_nonneg (by omega), Int.tmod_eq_emod_of_nonneg (by omega)]
  simp only [Timeval.Normalised, Timeval.micros]
  omega

theorem interval_spec {timeInterval : Int} (positive : 0 < timeInterval) :
    Timeval.Normalised ⟨timeInterval.tdiv 1000, timeInterval.tmod 1000 * 1000⟩ ∧
      Timeval.micros ⟨timeInterval.tdiv 1000, timeInterval.tmod 1000 * 1000⟩ =
        timeInterval * 1000 := by
  rw [Int.tdiv_eq_ediv_of_nonneg (by omega), Int.tmod_eq_emod_of_nonneg (by omega)]
  simp only [Timeval.Normalised, Timeval.micros]
  omega

namespace StTimer

/-- What a record in the work list at a place must be. -/
structure Live (timer : StTimer) (node : Nat) : Prop where
  working : timer.state = 1
  named : timer.id = node
  deadline : timer.tv.Normalised
  interval : timer.interval.Normalised

theorem schedule_deadline (timer : StTimer) {tv : Timeval} {timeInterval : Int}
    (normalised : tv.Normalised) (positive : 0 < timeInterval) :
    (timer.schedule tv timeInterval).tv.Normalised ∧
      (timer.schedule tv timeInterval).tv.micros = tv.micros + timeInterval * 1000 := by
  obtain ⟨intervalNormalised, intervalExact⟩ := interval_spec positive
  rw [← intervalExact]
  exact carry_spec normalised intervalNormalised

theorem schedule_interval (timer : StTimer) (tv : Timeval) {timeInterval : Int}
    (positive : 0 < timeInterval) :
    (timer.schedule tv timeInterval).interval.Normalised ∧
      (timer.schedule tv timeInterval).interval.micros = timeInterval * 1000 :=
  interval_spec positive

theorem Live.advance_deadline {timer : StTimer} {node : Nat} (live : timer.Live node) :
    timer.advance.tv.Normalised ∧
      timer.advance.tv.micros = timer.tv.micros + timer.interval.micros :=
  carry_spec live.deadline live.interval

theorem Live.advance {timer : StTimer} {node : Nat} (live : timer.Live node) :
    timer.advance.Live node :=
  ⟨live.working, live.named, live.advance_deadline.1, live.interval⟩

end StTimer

/-- The order of the work list: one record is not due after another. -/
def NotAfter (timerArray : Nat → StTimer) (first second : Nat) : Prop :=
  cmptime (timerArray second).tv (timerArray first).tv = true

instance (timerArray : Nat → StTimer) : DecidableRel (NotAfter timerArray) :=
  fun _ _ => inferInstanceAs (Decidable (_ = true))

theorem insertLoop_eq_orderedInsert (timerArray : Nat → StTimer) (id : Nat) (work : List Nat) :
    insertLoop timerArray id work = work.orderedInsert (NotAfter timerArray) id := by
  induction work with
  | nil => rfl
  | cons node rest inductionHypothesis =>
      rw [insertLoop, List.orderedInsert_cons, inductionHypothesis]
      rfl

theorem insertLoop_perm (timerArray : Nat → StTimer) (id : Nat) (work : List Nat) :
    (insertLoop timerArray id work).Perm (id :: work) := by
  rw [insertLoop_eq_orderedInsert]
  exact List.perm_orderedInsert _ id work

theorem insertLoop_sorted {timerArray : Nat → StTimer} {work : List Nat} (id : Nat)
    (sorted : work.Pairwise (NotAfter timerArray)) :
    (insertLoop timerArray id work).Pairwise (NotAfter timerArray) := by
  have : Std.Total (NotAfter timerArray) := ⟨fun _ _ => cmptime_total _ _⟩
  have : IsTrans Nat (NotAfter timerArray) :=
    ⟨fun _ _ _ first second => cmptime_trans second first⟩
  rw [insertLoop_eq_orderedInsert]
  exact sorted.orderedInsert id work

namespace TimerModule

def enlist (timers : TimerModule) (node : Nat) (timer : StTimer) : TimerModule :=
  insertTimer ((timers.write node timer).listErase node) node

/-- Put a record with the given contents at the end of the free list. -/
def release (timers : TimerModule) (node : Nat) (timer : StTimer) : TimerModule :=
  ((timers.listErase node).write node timer).pushFree node

@[simp]
theorem enlist_array (timers : TimerModule) (node : Nat) (timer : StTimer) :
    (timers.enlist node timer).timerArray = Function.update timers.timerArray node timer := rfl

@[simp]
theorem release_array (timers : TimerModule) (node : Nat) (timer : StTimer) :
    (timers.release node timer).timerArray = Function.update timers.timerArray node timer := rfl

structure Queue (timers : TimerModule) : Prop where
  partition : (timers.listTimerWork ++ timers.listTimerFree).Perm (List.range maxTimerNumber)
  live : ∀ node ∈ timers.listTimerWork, (timers.timerArray node).Live node
  idle : ∀ node ∈ timers.listTimerFree,
    (timers.timerArray node).state = 0 ∧ (timers.timerArray node).id = node
  sorted : timers.listTimerWork.Pairwise (NotAfter timers.timerArray)

namespace Queue

variable {timers : TimerModule}

theorem nodup (queue : timers.Queue) :
    (timers.listTimerWork ++ timers.listTimerFree).Nodup :=
  queue.partition.nodup_iff.mpr List.nodup_range

theorem member_iff (queue : timers.Queue) (node : Nat) :
    node ∈ timers.listTimerWork ∨ node ∈ timers.listTimerFree ↔ node < maxTimerNumber := by
  rw [← List.mem_append, queue.partition.mem_iff, List.mem_range]

theorem notMem_free (queue : timers.Queue) {node : Nat} (working : node ∈ timers.listTimerWork) :
    node ∉ timers.listTimerFree :=
  fun idle => (List.nodup_append.mp queue.nodup).2.2 node working node idle rfl

theorem mem_work_of_state (queue : timers.Queue) {node : Nat} (inRange : node < maxTimerNumber)
    (working : (timers.timerArray node).state ≠ 0) : node ∈ timers.listTimerWork := by
  rcases (queue.member_iff node).mpr inRange with inWork | inFree
  · exact inWork
  · exact absurd (queue.idle node inFree).1 working

theorem first_earliest (queue : timers.Queue) {first node : Nat} {rest : List Nat}
    (work : timers.listTimerWork = first :: rest) (working : node ∈ timers.listTimerWork) :
    (timers.timerArray first).tv.micros ≤ (timers.timerArray node).tv.micros := by
  have sorted := queue.sorted
  rw [work, List.pairwise_cons] at sorted
  have firstHere : first ∈ timers.listTimerWork := by simp [work]
  rcases List.mem_cons.mp (work ▸ working) with rfl | behind
  · exact Int.le_refl _
  · exact (cmptime_iff (queue.live node working).deadline
      (queue.live first firstHere).deadline).mp (sorted.1 node behind)

theorem erase_perm (queue : timers.Queue) {node : Nat} (inRange : node < maxTimerNumber) :
    (node :: (timers.listTimerWork.erase node ++ timers.listTimerFree.erase node)).Perm
      (List.range maxTimerNumber) := by
  have member : node ∈ timers.listTimerWork ++ timers.listTimerFree := by
    rw [List.mem_append]
    exact (queue.member_iff node).mpr inRange
  have split : (timers.listTimerWork ++ timers.listTimerFree).erase node =
      timers.listTimerWork.erase node ++ timers.listTimerFree.erase node := by
    rw [List.erase_append]
    split
    · next working => rw [List.erase_of_not_mem (queue.notMem_free working)]
    · next notWorking => rw [List.erase_of_not_mem notWorking]
  rw [← split]
  exact (List.perm_cons_erase member).symm.trans queue.partition

theorem mem_erase_work (queue : timers.Queue) {node other : Nat} :
    other ∈ timers.listTimerWork.erase node ↔ other ≠ node ∧ other ∈ timers.listTimerWork :=
  (List.nodup_append.mp queue.nodup).1.mem_erase_iff

theorem mem_erase_free (queue : timers.Queue) {node other : Nat} :
    other ∈ timers.listTimerFree.erase node ↔ other ≠ node ∧ other ∈ timers.listTimerFree :=
  (List.nodup_append.mp queue.nodup).2.1.mem_erase_iff

theorem mem_enlist_work (queue : timers.Queue) {node other : Nat} {timer : StTimer} :
    other ∈ (timers.enlist node timer).listTimerWork ↔
      other = node ∨ other ∈ timers.listTimerWork := by
  have members := (insertLoop_perm (Function.update timers.timerArray node timer) node
    (timers.listTimerWork.erase node)).mem_iff (a := other)
  rw [List.mem_cons, queue.mem_erase_work] at members
  apply members.trans
  by_cases same : other = node
  · simp [same]
  · simp [same]

theorem mem_enlist_free (queue : timers.Queue) {node other : Nat} {timer : StTimer} :
    other ∈ (timers.enlist node timer).listTimerFree ↔
      other ≠ node ∧ other ∈ timers.listTimerFree :=
  queue.mem_erase_free

theorem mem_release_work (queue : timers.Queue) {node other : Nat} {timer : StTimer} :
    other ∈ (timers.release node timer).listTimerWork ↔
      other ≠ node ∧ other ∈ timers.listTimerWork :=
  queue.mem_erase_work

theorem mem_release_free (queue : timers.Queue) {node other : Nat} {timer : StTimer} :
    other ∈ (timers.release node timer).listTimerFree ↔
      other = node ∨ other ∈ timers.listTimerFree := by
  have members : other ∈ timers.listTimerFree.erase node ++ [node] ↔
      other = node ∨ other ∈ timers.listTimerFree := by
    rw [List.mem_append, queue.mem_erase_free, List.mem_singleton]
    by_cases same : other = node
    · simp [same]
    · simp [same]
  exact members

/-- The nodes that stay keep their order when another record is written. -/
theorem erase_sorted (queue : timers.Queue) (node : Nat) (timer : StTimer) :
    (timers.listTimerWork.erase node).Pairwise
      (NotAfter (Function.update timers.timerArray node timer)) := by
  apply (queue.sorted.sublist List.erase_sublist).imp_of_mem
  intro first second firstHere secondHere notAfter
  have firstOther := (queue.mem_erase_work.mp firstHere).1
  have secondOther := (queue.mem_erase_work.mp secondHere).1
  simpa only [NotAfter, Function.update_of_ne firstOther, Function.update_of_ne secondOther]
    using notAfter

theorem enlist (queue : timers.Queue) {node : Nat} {timer : StTimer}
    (inRange : node < maxTimerNumber) (live : timer.Live node) :
    (timers.enlist node timer).Queue := by
  refine ⟨?_, ?_, ?_, ?_⟩
  · have inserted := insertLoop_perm (Function.update timers.timerArray node timer) node
      (timers.listTimerWork.erase node)
    exact (inserted.append_right _).trans (queue.erase_perm inRange)
  · intro other membership
    by_cases same : other = node
    · subst same
      rw [enlist_array, Function.update_self]
      exact live
    · rw [enlist_array, Function.update_of_ne same]
      exact queue.live other ((queue.mem_enlist_work.mp membership).resolve_left same)
  · intro other membership
    obtain ⟨different, inFree⟩ := queue.mem_enlist_free.mp membership
    rw [enlist_array, Function.update_of_ne different]
    exact queue.idle other inFree
  · exact insertLoop_sorted node (queue.erase_sorted node timer)

theorem release (queue : timers.Queue) {node : Nat} {timer : StTimer}
    (inRange : node < maxTimerNumber) (stopped : timer.state = 0) (named : timer.id = node) :
    (timers.release node timer).Queue := by
  refine ⟨?_, ?_, ?_, ?_⟩
  · have moved : (timers.listTimerWork.erase node ++ (timers.listTimerFree.erase node ++ [node])).Perm
        (node :: (timers.listTimerWork.erase node ++ timers.listTimerFree.erase node)) := by
      rw [← List.append_assoc]
      exact List.perm_append_singleton node _
    exact moved.trans (queue.erase_perm inRange)
  · intro other membership
    obtain ⟨different, inWork⟩ := queue.mem_release_work.mp membership
    rw [release_array, Function.update_of_ne different]
    exact queue.live other inWork
  · intro other membership
    by_cases same : other = node
    · subst same
      rw [release_array, Function.update_self]
      exact ⟨stopped, named⟩
    · rw [release_array, Function.update_of_ne same]
      exact queue.idle other ((queue.mem_release_free.mp membership).resolve_left same)
  · exact queue.erase_sorted node timer

theorem outside (queue : timers.Queue) (semNew : Nat) (thread : ThreadTimer) :
    Queue { timers with semNew := semNew, thread := thread } :=
  ⟨queue.partition, queue.live, queue.idle, queue.sorted⟩

end Queue

end TimerModule

end UtilsModules.Timer

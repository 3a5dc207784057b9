import UtilsModules.Datastruct.List
import UtilsModules.Library.Transition

/-!
The list of threads of `thread.c`.

`main_thread.node_thread` heads the list.  A thread that starts adds its record
behind the head; `mdl_thread_register` makes the head point at itself.  What the
system answers is an argument: the thread id, and whether `pthread_key_create`
and `pthread_setspecific` succeed.
-/

namespace UtilsModules.Thread

open Linked Datastruct

/-- The `mdl_thread_t` records: `main_thread`, and those of other threads by
their addresses. -/
inductive ThreadRecord where
  | mainThread
  | record (address : Nat)
  deriving DecidableEq, Repr

/-- The records in memory, and those whose threads have started. -/
structure Registry where
  links : ThreadRecord → Option (LinkPair ThreadRecord)
  tid : ThreadRecord → Nat
  started : List ThreadRecord

namespace Registry

/-- Before `mdl_thread_init`: static memory, and that of a pool, is zero. -/
def boot : Registry := ⟨fun _ => some ⟨none, none⟩, fun _ => 0, []⟩

def bzero (registry : Registry) (desc : ThreadRecord) : Registry :=
  { registry with
    links := Function.update registry.links desc (some ⟨none, none⟩)
    tid := Function.update registry.tid desc 0 }

def setTid (registry : Registry) (desc : ThreadRecord) (tid : Nat) : Registry :=
  { registry with tid := Function.update registry.tid desc tid }

/-- `mdl_thread_register`; the result says whether it returns `SUCCESS`. -/
def mdlThreadRegister (registry : Registry) (desc : ThreadRecord) (tid : Nat)
    (setspecific : Bool) : Registry × Bool :=
  let registry := (registry.bzero desc).setTid desc tid
  if setspecific then
    ({ registry with links := initListHead registry.links .mainThread }, true)
  else
    (registry.bzero desc, false)

def mdlThreadInit (registry : Registry) (keyCreate : Bool) (tid : Nat) (setspecific : Bool) :
    Registry × Bool :=
  if keyCreate then registry.mdlThreadRegister .mainThread tid setspecific
  else (registry, false)

/-- `thread_main` up to the call of the user's entry.  A thread that cannot set
its local storage returns at once; it has not started. -/
def threadMain (registry : Registry) (rec : ThreadRecord) (tid : Nat) (setspecific : Bool) :
    Option Registry :=
  if setspecific then do
    let registry := registry.setTid rec tid
    let links ← listAdd registry.links rec .mainThread
    some { registry with links := links, started := rec :: registry.started }
  else
    some registry

def mdlThreadDump (registry : Registry) (rounds : Nat) : Option (List (ThreadRecord × Nat)) :=
  if listEmpty registry.links .mainThread then
    some [(.mainThread, registry.tid .mainThread)]
  else
    (listForEach registry.links .mainThread rounds).map fun nodes =>
      (.mainThread :: nodes).map fun rec => (rec, registry.tid rec)

/-- The list is well formed and has every started thread, and a dump visits each
of them once and ends. -/
structure Complete (registry : Registry) : Prop where
  ring : ∃ nodes, Segment registry.links .mainThread nodes .mainThread ∧
    (ThreadRecord.mainThread :: nodes).Nodup ∧ ∀ rec ∈ registry.started, rec ∈ nodes
  dumped : ∃ rounds lines, registry.mdlThreadDump rounds = some lines ∧
    ∀ rec ∈ registry.started, (lines.map Prod.fst).count rec = 1

end Registry

/-- A thread starts, or some thread calls `mdl_thread_register`. -/
inductive RegistryStep where
  | start (rec : ThreadRecord) (tid : Nat) (setspecific : Bool)
  | register (desc : ThreadRecord) (tid : Nat) (setspecific : Bool)
  deriving DecidableEq, Repr

namespace Registry

def step (registry : Registry) : RegistryStep → Option Registry
  | .start rec tid setspecific => registry.threadMain rec tid setspecific
  | .register desc tid setspecific => some (registry.mdlThreadRegister desc tid setspecific).1

/-- A thread starts once, with a record of its own. -/
def Fresh (registry : Registry) : RegistryStep → Prop
  | .start rec _ _ => rec ≠ .mainThread ∧ rec ∉ registry.started
  | .register .. => True

instance (registry : Registry) (label : RegistryStep) : Decidable (registry.Fresh label) :=
  match label with
  | .start _ _ _ => inferInstanceAs (Decidable (_ ∧ _))
  | .register _ _ _ => inferInstanceAs (Decidable True)

/-- The condition on a call of `mdl_thread_register`: it succeeds before the first
thread has started, or it fails and clears a record that is not on the list. -/
def Harmless (registry : Registry) : RegistryStep → Prop
  | .start .. => True
  | .register desc _ setspecific =>
      if setspecific then registry.started = []
      else desc ≠ .mainThread ∧ desc ∉ registry.started

instance (registry : Registry) (label : RegistryStep) : Decidable (registry.Harmless label) := by
  unfold Harmless
  split <;> infer_instance

/-- The ring of the head has the started threads, the latest first. -/
structure Sound (registry : Registry) : Prop where
  rings : Rings registry.links (· = .mainThread) fun _ => registry.started
  stored : ∀ rec, ∃ pair, registry.links rec = some pair

variable {registry next : Registry}

theorem Sound.complete (sound : registry.Sound) : registry.Complete := by
  have plain := sound.rings.plain .mainThread rfl
  have nodup := sound.rings.nodup .mainThread rfl
  constructor
  case ring =>
    refine ⟨registry.started, sound.rings.closed .mainThread rfl, ?_, fun _ here => here⟩
    rw [List.nodup_cons]
    exact ⟨fun again => plain _ again rfl, nodup⟩
  case dumped =>
    by_cases empty : registry.started = []
    · have isEmpty := (listEmpty_rings sound.rings rfl).mpr empty
      exact ⟨0, _, if_pos isEmpty, by simp [empty]⟩
    · have visited := listForEach_rings sound.rings rfl
      refine ⟨registry.started.length + 1,
        (.mainThread :: registry.started).map fun rec => (rec, registry.tid rec), ?_, ?_⟩
      · rw [mdlThreadDump, if_neg (mt (listEmpty_rings sound.rings rfl).mp empty), visited]
        rfl
      · intro rec here
        have notMain : ThreadRecord.mainThread ≠ rec := fun same => plain rec here same.symm
        have names : ((.mainThread :: registry.started).map fun rec =>
            (rec, registry.tid rec)).map Prod.fst = .mainThread :: registry.started := by
          rw [List.map_map]
          exact List.map_id _
        rw [names, List.count_cons_of_ne notMain, List.count_eq_one_of_mem nodup here]

theorem register_links (registry : Registry) (desc : ThreadRecord) (tid : Nat)
    (setspecific : Bool) :
    (registry.mdlThreadRegister desc tid setspecific).1.links =
      if setspecific then
        initListHead (Function.update registry.links desc (some ⟨none, none⟩)) .mainThread
      else
        Function.update registry.links desc (some ⟨none, none⟩) := by
  cases setspecific with
  | true => rfl
  | false => simp [mdlThreadRegister, bzero, setTid]

theorem register_started (registry : Registry) (desc : ThreadRecord) (tid : Nat)
    (setspecific : Bool) :
    (registry.mdlThreadRegister desc tid setspecific).1.started = registry.started := by
  cases setspecific <;> rfl

theorem not_mem_of_cleared {links : ThreadRecord → Option (LinkPair ThreadRecord)}
    {head desc : ThreadRecord} {nodes : List ThreadRecord} (segment : Segment links head nodes head)
    (cleared : links desc = some ⟨none, none⟩) : desc ∉ head :: nodes := by
  intro here
  have leaves : ∃ behind, Joined links desc behind := by
    rcases List.mem_cons.mp here with rfl | listed
    · exact ⟨_, segment.joined_first⟩
    · obtain ⟨before, behind, rfl⟩ := List.append_of_mem listed
      exact ⟨_, segment.split.2.joined_first⟩
  obtain ⟨behind, joined⟩ := leaves
  have next := joined.next
  simp [nextOf, cleared] at next

theorem nodes_of_init {links : ThreadRecord → Option (LinkPair ThreadRecord)}
    {head : ThreadRecord} {nodes : List ThreadRecord}
    (segment : Segment (initListHead links head) head nodes head)
    (nodup : (head :: nodes).Nodup) : nodes = [] := by
  cases nodes with
  | nil => rfl
  | cons first rest =>
      have itself : nextOf (initListHead links head) head = some (some head) := by
        simp [nextOf, initListHead]
      have next : some head = some first :=
        Option.some.inj (itself.symm.trans segment.joined_first.next)
      obtain rfl := Option.some.inj next
      exact absurd List.mem_cons_self (List.nodup_cons.mp nodup).1

theorem Sound.taken (sound : registry.Sound) {label : RegistryStep}
    (fresh : registry.Fresh label) : ∃ next, registry.step label = some next := by
  cases label with
  | start rec tid setspecific =>
      cases setspecific with
      | false => exact ⟨registry, rfl⟩
      | true =>
          obtain ⟨pair, stored⟩ := sound.stored rec
          obtain ⟨links, added, -⟩ := listAdd_rings sound.rings rfl stored fresh.1
            fun _ _ => fresh.2
          exact ⟨{ registry.setTid rec tid with
            links := links, started := rec :: registry.started }, by
              simp [step, threadMain, setTid, added]⟩
  | register desc tid setspecific => exact ⟨_, rfl⟩

theorem Sound.start (sound : registry.Sound) {rec : ThreadRecord} {tid : Nat} {setspecific : Bool}
    (fresh : registry.Fresh (.start rec tid setspecific))
    (stepped : registry.threadMain rec tid setspecific = some next) : next.Sound := by
  cases setspecific with
  | false =>
      obtain rfl := Option.some.inj stepped
      exact sound
  | true =>
      obtain ⟨pair, stored⟩ := sound.stored rec
      obtain ⟨links, added, rings⟩ := listAdd_rings sound.rings rfl stored fresh.1
        fun _ _ => fresh.2
      simp only [threadMain, setTid, added, if_true, Option.bind_eq_bind, Option.bind_some] at stepped
      obtain rfl := Option.some.inj stepped
      refine ⟨rings.congr_lists ?_, fun other => listAdd_stored added other (sound.stored other)⟩
      rintro head rfl
      rw [Function.update_self]

/-- A harmless call of `mdl_thread_register` leaves the ring as it is. -/
theorem Sound.register (sound : registry.Sound) {desc : ThreadRecord} {tid : Nat}
    {setspecific : Bool} (harmless : registry.Harmless (.register desc tid setspecific)) :
    (registry.mdlThreadRegister desc tid setspecific).1.Sound := by
  have stored : ∀ rec, ∃ pair,
      Function.update registry.links desc (some ⟨none, none⟩) rec = some pair := by
    intro rec
    by_cases same : rec = desc
    · exact ⟨_, by rw [same, Function.update_self]⟩
    · rw [Function.update_of_ne same]
      exact sound.stored rec
  cases setspecific with
  | true =>
      have nobody : registry.started = [] := harmless
      constructor
      case rings =>
        rw [register_links, register_started, nobody]
        exact initListHead_rings _ _
      case stored =>
        intro rec
        rw [register_links, if_pos rfl, initListHead]
        by_cases same : rec = .mainThread
        · exact ⟨_, by rw [same, Function.update_self]⟩
        · rw [Function.update_of_ne same]
          exact stored rec
  | false =>
      obtain ⟨notMain, notListed⟩ : desc ≠ .mainThread ∧ desc ∉ registry.started := harmless
      constructor
      case rings =>
        rw [register_links, register_started]
        refine sound.rings.congr fun node onRing => Function.update_of_ne ?_ _ _
        rintro rfl
        rcases onRing with isMain | ⟨head, -, listed⟩
        · exact notMain isMain
        · exact notListed listed
      case stored =>
        rw [register_links]
        exact stored

/-- A call of `mdl_thread_register` that leaves the list complete is harmless. -/
theorem harmless_of_complete {desc : ThreadRecord} {tid : Nat} {setspecific : Bool}
    (complete : (registry.mdlThreadRegister desc tid setspecific).1.Complete) :
    registry.Harmless (.register desc tid setspecific) := by
  obtain ⟨nodes, segment, nodup, listed⟩ := complete.ring
  rw [register_links] at segment
  rw [register_started] at listed
  cases setspecific with
  | true =>
      obtain rfl := nodes_of_init segment nodup
      exact List.eq_nil_iff_forall_not_mem.mpr fun rec here => List.not_mem_nil (listed rec here)
  | false =>
      have outside := not_mem_of_cleared segment (Function.update_self ..)
      rw [List.mem_cons, not_or] at outside
      exact ⟨outside.1, fun here => outside.2 (listed desc here)⟩

theorem Sound.step_iff (sound : registry.Sound) {label : RegistryStep}
    (fresh : registry.Fresh label) (stepped : registry.step label = some next) :
    registry.Harmless label ↔ next.Complete := by
  cases label with
  | start rec tid setspecific => exact iff_of_true trivial (sound.start fresh stepped).complete
  | register desc tid setspecific =>
      obtain rfl := Option.some.inj stepped
      exact ⟨fun harmless => (sound.register harmless).complete, harmless_of_complete⟩

theorem Sound.step (sound : registry.Sound) {label : RegistryStep}
    (fresh : registry.Fresh label) (harmless : registry.Harmless label)
    (stepped : registry.step label = some next) : next.Sound := by
  cases label with
  | start rec tid setspecific => exact sound.start fresh stepped
  | register desc tid setspecific =>
      obtain rfl := Option.some.inj stepped
      exact sound.register harmless

/-- The head is a ring after `mdl_thread_init` just when that succeeds. -/
theorem init_cases (keyCreate : Bool) (tid : Nat) (setspecific : Bool) :
    let started := boot.mdlThreadInit keyCreate tid setspecific
    (started.2 = true ∧ started.1.Sound) ∨ (started.2 = false ∧ ¬ started.1.Complete) := by
  have unlinked : ∀ registry : Registry, registry.links .mainThread = some ⟨none, none⟩ →
      ¬ registry.Complete := by
    intro registry cleared complete
    obtain ⟨nodes, segment, -⟩ := complete.ring
    exact not_mem_of_cleared segment cleared List.mem_cons_self
  cases keyCreate with
  | false => exact .inr ⟨rfl, unlinked _ rfl⟩
  | true =>
      cases setspecific with
      | false => exact .inr ⟨rfl, unlinked _ rfl⟩
      | true =>
          refine .inl ⟨rfl, ⟨initListHead_rings _ _, fun rec => ?_⟩⟩
          cases rec with
          | mainThread => exact ⟨_, rfl⟩
          | record address => exact ⟨_, rfl⟩

end Registry

/-- In every run after `mdl_thread_init`, the list is complete in every state just
when the initialisation has succeeded and every call of `mdl_thread_register` is
harmless. -/
theorem registry_complete_iff_harmless {keyCreate setspecific : Bool} {tid : Nat}
    {labels : List RegistryStep}
    (fresh : Transition.Guarded Registry.step Registry.Fresh
      (Registry.boot.mdlThreadInit keyCreate tid setspecific).1 labels) :
    (∀ count middle,
      Transition.run Registry.step (Registry.boot.mdlThreadInit keyCreate tid setspecific).1
        (labels.take count) = some middle → middle.Complete) ↔
      (Registry.boot.mdlThreadInit keyCreate tid setspecific).2 = true ∧
        Transition.Guarded Registry.step Registry.Harmless
          (Registry.boot.mdlThreadInit keyCreate tid setspecific).1 labels := by
  rcases Registry.init_cases keyCreate tid setspecific with ⟨succeeded, sound⟩ | ⟨failed, broken⟩
  · rw [and_iff_right succeeded]
    exact (Transition.guarded_iff_of_promised Registry.step
      (fun _ _ sound fresh => sound.taken fresh)
      (fun _ _ _ sound fresh stepped => sound.step_iff fresh stepped)
      (fun _ _ _ sound fresh harmless stepped => sound.step fresh harmless stepped)
      (fun _ sound => sound.complete) sound fresh).symm
  · refine iff_of_false (fun along => broken (along 0 _ rfl)) fun both => ?_
    rw [failed] at both
    cases both.1

/-- A thread is registered before the first one starts, two threads start, and one
that has no storage for its pointer tries to register. -/
theorem registry_complete_iff_harmless_started :
    ∃ registry, Transition.run Registry.step (Registry.boot.mdlThreadInit true 100 true).1
        [.register (.record 8192) 101 true, .start (.record 4096) 102 true,
          .register (.record 12288) 103 false, .start (.record 5120) 104 true] = some registry ∧
      registry.mdlThreadDump 3 =
        some [(.mainThread, 100), (.record 5120, 104), (.record 4096, 102)] ∧
      registry.Complete := by
  have view : (Transition.run Registry.step (Registry.boot.mdlThreadInit true 100 true).1
      [.register (.record 8192) 101 true, .start (.record 4096) 102 true,
        .register (.record 12288) 103 false, .start (.record 5120) 104 true]).map
        (·.mdlThreadDump 3) =
          some (some [(.mainThread, 100), (.record 5120, 104), (.record 4096, 102)]) := by
    decide +kernel
  obtain ⟨registry, ran, dumped⟩ := Option.map_eq_some_iff.mp view
  have along := @registry_complete_iff_harmless true true 100
    [.register (.record 8192) 101 true, .start (.record 4096) 102 true,
      .register (.record 12288) 103 false, .start (.record 5120) 104 true] (by decide +kernel)
  exact ⟨registry, ran, dumped,
    along.mpr ⟨by decide +kernel, by decide +kernel⟩ 4 registry ran⟩

/-- A thread starts, and another one registers itself: the list is empty, and a
dump does not visit the thread that has started. -/
theorem register_drops_started :
    ∃ registry,
      Transition.Guarded Registry.step Registry.Fresh (Registry.boot.mdlThreadInit true 100 true).1
        [.start (.record 4096) 101 true, .register (.record 8192) 102 true] ∧
      Transition.run Registry.step (Registry.boot.mdlThreadInit true 100 true).1
        [.start (.record 4096) 101 true, .register (.record 8192) 102 true] = some registry ∧
      registry.started = [.record 4096] ∧
      (∀ rounds, registry.mdlThreadDump rounds = some [(.mainThread, 100)]) ∧
      ¬ registry.Complete := by
  have view : (Transition.run Registry.step (Registry.boot.mdlThreadInit true 100 true).1
      [.start (.record 4096) 101 true, .register (.record 8192) 102 true]).map
        (fun registry => (listEmpty registry.links .mainThread, registry.tid .mainThread,
          registry.started)) = some (true, 100, [.record 4096]) := by
    decide +kernel
  obtain ⟨registry, ran, seen⟩ := Option.map_eq_some_iff.mp view
  simp only [Prod.mk.injEq] at seen
  obtain ⟨isEmpty, tid, started⟩ := seen
  have dump : ∀ rounds, registry.mdlThreadDump rounds = some [(.mainThread, 100)] := by
    intro rounds
    rw [Registry.mdlThreadDump, if_pos isEmpty, tid]
  refine ⟨registry, by decide +kernel, ran, started, dump, fun complete => ?_⟩
  obtain ⟨rounds, lines, dumped, once⟩ := complete.dumped
  obtain rfl := Option.some.inj ((dump rounds).symm.trans dumped)
  have visited := once (.record 4096) (by simp [started])
  simp at visited

end UtilsModules.Thread

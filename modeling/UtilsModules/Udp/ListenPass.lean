import UtilsModules.Udp.LinkTables

/-!
The listening thread walks over the links while other threads make and delete them.

`del_list` runs under `semLink`, so it is one step here; the thread reads the links
of the list without it.  A deleted link stays allocated in `listFreeHead` until the
thread itself frees it between two passes, and `nextListenLink` says where a pass
goes on that finds itself on a deleted link.
-/

namespace UtilsModules.Udp

/-- What a pointer of the listening thread points to: a link, or the head of one of the
two lists. -/
inductive Cursor where
  | link (pslink : Nat)
  | listEnd
  | freeEnd
  deriving DecidableEq, Repr

def nextBehind (head : Cursor) (pslink : Nat) : List Nat → Cursor
  | node :: next :: rest =>
      if node = pslink then .link next else nextBehind head pslink (next :: rest)
  | _ => head

def listBegin (head : Cursor) : List Nat → Cursor
  | [] => head
  | pslink :: _ => .link pslink

/-- `pslink->list.next`; it is `none` when the link is not on a list. -/
def StSock.listNext (sts : StSock) (pslink : Nat) : Option Cursor :=
  if pslink ∈ sts.list then some (nextBehind .listEnd pslink sts.list)
  else if pslink ∈ sts.listFreeHead then some (nextBehind .freeEnd pslink sts.listFreeHead)
  else none

inductive Place where
  | outside
  | looking (pslink : Cursor)
  | checked (pslink : Nat)
  /-- The link has been silent for too long. -/
  | expired (pslink : Nat)
  /-- `pslink_t` has been read and `semLink` is waited for. -/
  | deleting (pslink : Nat) (pslinkT : Cursor)
  deriving DecidableEq, Repr

structure Listening where
  sts : StSock
  nextListenLink : Cursor
  place : Place

/-- A step of the listening thread, or a call of another thread. -/
inductive ListenLabel where
  | free
  | begin
  | turn (timedOut : Bool)
  | other (call : TableCall)
  deriving DecidableEq, Repr

namespace Listening

def start (sock : Nat) (tsWaitTime : Int) : Listening :=
  ⟨exSocket sock tsWaitTime, .listEnd, .outside⟩

def delList (state : Listening) (pslink : Nat) : Option Listening := do
  match ← state.sts.delList pslink with
  | (sts, true) => do
      let next ← state.sts.listNext pslink
      some { state with sts := sts, nextListenLink := next }
  | (sts, false) => some { state with sts := sts }

def turn (state : Listening) (timedOut : Bool) : Option Listening :=
  match state.place with
  | .outside => none
  | .looking .listEnd => some { state with place := .outside }
  | .looking .freeEnd => some { state with place := .looking state.nextListenLink }
  | .looking (.link pslink) => do
      let link ← state.sts.memory pslink
      if link.linkState = -1 then some { state with place := .looking state.nextListenLink }
      else if timedOut then some { state with place := .expired pslink }
      else some { state with place := .checked pslink }
  | .checked pslink => do
      let next ← state.sts.listNext pslink
      some { state with place := .looking next }
  | .expired pslink => do
      let next ← state.sts.listNext pslink
      some { state with place := .deleting pslink next }
  | .deleting pslink pslinkT => do
      let state ← state.delList pslink
      some { state with place := .looking pslinkT }

def step (state : Listening) : ListenLabel → Option Listening
  | .free => if state.place = .outside then some { state with sts := state.sts.freeFirst } else none
  | .begin =>
      if state.place = .outside then
        some { state with place := .looking (listBegin .listEnd state.sts.list) }
      else none
  | .turn timedOut => state.turn timedOut
  | .other (.delList pslink) => state.delList pslink
  | .other call => (state.sts.step call).map fun sts => { state with sts := sts }

/-- The link that the thread is about to delete, if another thread has done so, has
not left its id to a new link. -/
def Prompt (state : Listening) : Prop :=
  match state.place with
  | .deleting pslink _ => state.sts.Spares (.delList pslink)
  | _ => True

/-- The thread frees and begins between two passes only, and it is the only one that
frees. -/
def Allowed (state : Listening) : ListenLabel → Prop
  | .free | .begin => state.place = .outside
  | .turn _ => state.place ≠ .outside ∧ state.Prompt
  | .other .freeFirst => False
  | .other call => state.sts.Promised call ∧ state.sts.Spares call

instance (state : Listening) : Decidable state.Prompt := by
  unfold Prompt
  split <;> infer_instance

instance : DecidableRel Allowed := by
  intro state label
  unfold Allowed
  split <;> infer_instance

end Listening

section Cursors

variable {head : Cursor} {pslink : Nat} {nodes before rest : List Nat}

theorem nextBehind_split (outside : pslink ∉ before) :
    nextBehind head pslink (before ++ pslink :: rest) = listBegin head rest := by
  induction before with
  | nil =>
      cases rest with
      | nil => rfl
      | cons next rest => rw [List.nil_append, nextBehind, if_pos rfl, listBegin]
  | cons node before inductionHypothesis =>
      rw [List.mem_cons, not_or] at outside
      have skipped := inductionHypothesis outside.2
      cases before with
      | nil => rwa [List.cons_append, List.nil_append, nextBehind, if_neg (Ne.symm outside.1)]
      | cons second before =>
          rwa [List.cons_append, List.cons_append, nextBehind, if_neg (Ne.symm outside.1)]

theorem nextBehind_cases (nodup : nodes.Nodup) (listed : pslink ∈ nodes) :
    nextBehind head pslink nodes = head ∨
      ∃ next ∈ nodes.erase pslink, nextBehind head pslink nodes = .link next := by
  obtain ⟨before, rest, rfl, outside⟩ := List.eq_append_cons_of_mem listed
  rw [nextBehind_split outside, List.erase_append_right _ outside, List.erase_cons_head]
  cases rest with
  | nil => exact .inl rfl
  | cons next rest => exact .inr ⟨next, by simp, rfl⟩

end Cursors

namespace StSock

variable {sts : StSock}

theorem Ordered.not_listed (ordered : sts.Ordered) {pslink : Nat}
    (waiting : pslink ∈ sts.listFreeHead) : pslink ∉ sts.list := by
  obtain ⟨registry, shown, sound⟩ := ordered
  rw [shown.retired, sound.waiting] at waiting
  rw [shown.list, sound.live]
  rintro ⟨key, live⟩
  rw [Registry.Live, waiting] at live
  cases live

theorem Ordered.stored (ordered : sts.Ordered) {pslink : Nat}
    (held : pslink ∈ sts.list ∨ pslink ∈ sts.listFreeHead) :
    ∃ link, sts.memory pslink = some link ∧ (link.linkState ≠ -1 ↔ pslink ∈ sts.list) := by
  have apart := @Ordered.not_listed _ ordered pslink
  obtain ⟨registry, shown, sound⟩ := ordered
  rcases held with listed | waiting
  · have isListed := listed
    rw [shown.list, sound.live] at listed
    obtain ⟨key, live⟩ := listed
    obtain ⟨link, stored, alive, -⟩ := shown.stored live
    exact ⟨link, stored, iff_of_true alive isListed⟩
  · have links := shown.links pslink
    rw [(sound.waiting pslink).mp (shown.retired ▸ waiting), Option.map_eq_some_iff] at links
    obtain ⟨link, stored, noKey⟩ := links
    have dead : link.linkState = -1 := by
      unfold SLink.key? at noKey
      split at noKey
      · assumption
      · cases noKey
    exact ⟨link, stored, iff_of_false (not_not_intro dead) (apart waiting)⟩

theorem Ordered.freeFirst (ordered : sts.Ordered) :
    sts.freeFirst.Ordered ∧ sts.freeFirst.list = sts.list := by
  refine ⟨?_, ?_⟩
  · obtain ⟨after, stepped, kept⟩ := @Ordered.step sts ordered .freeFirst trivial trivial
    obtain rfl := Option.some.inj stepped
    exact kept
  · unfold StSock.freeFirst
    split
    · rfl
    · next pslink rest waiting =>
      exact List.erase_of_not_mem (ordered.not_listed (waiting ▸ List.mem_cons_self))

theorem Ordered.nodup (ordered : sts.Ordered) : sts.list.Nodup := by
  obtain ⟨registry, shown, sound⟩ := ordered
  rw [shown.list]
  exact sound.nodup

theorem Ordered.freeNodup (ordered : sts.Ordered) : sts.listFreeHead.Nodup := by
  obtain ⟨registry, shown, sound⟩ := ordered
  rw [shown.retired]
  exact sound.retiredNodup

/-- `del_list` moves a link of the list to the waiting ones, and leaves a deleted one
alone. -/
theorem Ordered.delList_cases (ordered : sts.Ordered) {pslink : Nat}
    (spares : sts.Spares (.delList pslink)) :
    ∃ after, after.Ordered ∧
      (pslink ∈ sts.list ∧ sts.delList pslink = some (after, true) ∧
          after.list = sts.list.erase pslink ∧
          after.listFreeHead = sts.listFreeHead ++ [pslink] ∨
        pslink ∉ sts.list ∧ sts.delList pslink = some (after, false) ∧ after = sts) := by
  obtain ⟨registry, shown, sound⟩ := ordered
  by_cases listed : pslink ∈ sts.list
  · obtain ⟨key, live⟩ := (sound.live pslink).mp (shown.list ▸ listed)
    obtain ⟨after, deleted, shownAfter⟩ := shown.delList sound live
    have port := (sound.placed pslink key live).2.1
    refine ⟨after, ⟨_, shownAfter, sound.retire live (shown.chain key.port port).nodup⟩,
      .inl ⟨listed, deleted, ?_, ?_⟩⟩
    · rw [shownAfter.list, shown.list]
      rfl
    · rw [shownAfter.retired, shown.retired]
      rfl
  · obtain ⟨link, stored, cleared⟩ := spares.resolve_left listed
    refine ⟨sts, ⟨registry, shown, sound⟩, .inr ⟨listed, ?_, rfl⟩⟩
    simp only [StSock.delList, Option.mem_def.mp stored]
    rw [if_pos (.inr cleared)]

theorem Ordered.step_lists (ordered : sts.Ordered) {call : TableCall}
    (promised : sts.Promised call) (spares : sts.Spares call) (noFree : call ≠ .freeFirst)
    (noDelete : ∀ pslink, call ≠ .delList pslink) :
    ∃ after, sts.step call = some after ∧ after.Ordered ∧ sts.list ⊆ after.list ∧
      after.listFreeHead = sts.listFreeHead := by
  cases call with
  | freeFirst => exact absurd rfl noFree
  | delList pslink => exact absurd rfl (noDelete pslink)
  | exClose =>
      obtain ⟨after, stepped, kept⟩ := ordered.step promised spares
      obtain rfl := Option.some.inj stepped
      exact ⟨_, rfl, kept, List.Subset.refl _, rfl⟩
  | getLink ip port type malloc =>
      obtain ⟨registry, shown, sound⟩ := ordered
      obtain ⟨after, answer, got, gets⟩ := shown.gets sound promised spares
      refine ⟨after, by rw [StSock.step, got, Option.map_some],
        gets.ordered shown sound promised spares, ?_⟩
      cases gets with
      | known => exact ⟨List.Subset.refl _, rfl⟩
      | refused => exact ⟨List.Subset.refl _, rfl⟩
      | created new id rest _ unknown answered ids shownAfter =>
          refine ⟨?_, by rw [shownAfter.retired, shown.retired]; rfl⟩
          rw [shownAfter.list, shown.list]
          exact List.subset_append_left _ _

end StSock

/-- The pointer is to a link that is allocated, or to a list head. -/
def StSock.Holds (sts : StSock) : Cursor → Prop
  | .link pslink => pslink ∈ sts.list ∨ pslink ∈ sts.listFreeHead
  | _ => True

def StSock.Lists (sts : StSock) : Cursor → Prop
  | .link pslink => pslink ∈ sts.list
  | .listEnd => True
  | .freeEnd => False

def Place.pointers : Place → List Cursor
  | .outside => []
  | .looking pslink => [pslink]
  | .checked pslink | .expired pslink => [.link pslink]
  | .deleting pslink pslinkT => [.link pslink, pslinkT]

structure Listening.Sane (state : Listening) : Prop where
  ordered : state.sts.Ordered
  next : state.sts.Lists state.nextListenLink
  pointers : ∀ pointer ∈ state.place.pointers, state.sts.Holds pointer

namespace StSock

variable {sts after : StSock} {cursor : Cursor}

theorem Lists.holds (lists : sts.Lists cursor) : sts.Holds cursor := by
  cases cursor with
  | link pslink => exact .inl lists
  | listEnd => trivial
  | freeEnd => trivial

theorem Lists.mono (lists : sts.Lists cursor) (more : sts.list ⊆ after.list) :
    after.Lists cursor := by
  cases cursor with
  | link pslink => exact more lists
  | listEnd => trivial
  | freeEnd => exact lists

theorem Holds.mono (holds : sts.Holds cursor)
    (more : ∀ pslink, pslink ∈ sts.list ∨ pslink ∈ sts.listFreeHead →
      pslink ∈ after.list ∨ pslink ∈ after.listFreeHead) : after.Holds cursor := by
  cases cursor with
  | link pslink => exact more pslink holds
  | listEnd => trivial
  | freeEnd => trivial

theorem lists_listBegin {before rest : List Nat} (split : sts.list = before ++ rest) :
    sts.Lists (listBegin .listEnd rest) := by
  cases rest with
  | nil => trivial
  | cons pslink rest =>
      rw [listBegin, Lists, split]
      exact List.mem_append_right _ List.mem_cons_self

theorem Ordered.listNext (ordered : sts.Ordered) {pslink : Nat} (holds : sts.Holds (.link pslink)) :
    ∃ next, sts.listNext pslink = some next ∧ sts.Holds next := by
  by_cases listed : pslink ∈ sts.list
  · refine ⟨_, if_pos listed, ?_⟩
    rcases nextBehind_cases ordered.nodup listed with ended | ⟨next, member, there⟩
    · rw [ended]
      trivial
    · rw [there]
      exact .inl (List.mem_of_mem_erase member)
  · have waiting := holds.resolve_left listed
    refine ⟨_, (if_neg listed).trans (if_pos waiting), ?_⟩
    rcases nextBehind_cases ordered.freeNodup waiting with ended | ⟨next, member, there⟩
    · rw [ended]
      trivial
    · rw [there]
      exact .inr (List.mem_of_mem_erase member)

end StSock

namespace Listening

variable {state : Listening}

/-- Deleting leaves all pointers good; the pass goes on at a link that is not deleted. -/
theorem Sane.delList (sane : state.Sane) {pslink : Nat}
    (spares : state.sts.Spares (.delList pslink)) :
    ∃ after, state.delList pslink = some after ∧ after.place = state.place ∧
      after.sts.Ordered ∧ after.sts.Lists after.nextListenLink ∧
      (∀ cursor, state.sts.Holds cursor → after.sts.Holds cursor) ∧
      (pslink ∈ state.sts.list ∧ after.sts.list = state.sts.list.erase pslink ∨
        pslink ∉ state.sts.list ∧ after.sts = state.sts) := by
  obtain ⟨sts, ordered, ⟨listed, deleted, list, waiting⟩ |
    ⟨notListed, deleted, same⟩⟩ := sane.ordered.delList_cases spares
  · have next : state.sts.listNext pslink = some (nextBehind .listEnd pslink state.sts.list) :=
      if_pos listed
    refine ⟨{ state with sts := sts, nextListenLink := nextBehind .listEnd pslink state.sts.list },
      ?_, rfl, ordered, ?_, ?_, .inl ⟨listed, list⟩⟩
    · simp only [Listening.delList, deleted, next, Option.bind_eq_bind, Option.bind_some]
    · rcases nextBehind_cases sane.ordered.nodup listed with ended | ⟨other, member, there⟩
      · rw [ended]
        trivial
      · rw [there, StSock.Lists, list]
        exact member
    · intro cursor holds
      refine holds.mono fun other held => ?_
      rw [list, waiting, List.mem_append, List.mem_singleton]
      by_cases equal : other = pslink
      · exact .inr (.inr equal)
      · exact held.imp (List.mem_erase_of_ne equal).mpr .inl
  · refine ⟨{ state with sts := sts }, ?_, rfl, ordered, ?_, ?_, .inr ⟨notListed, same⟩⟩
    · simp only [Listening.delList, deleted, Option.bind_eq_bind, Option.bind_some]
    · rw [same]
      exact sane.next
    · intro cursor holds
      rwa [same]

theorem Sane.turn (sane : state.Sane) (inside : state.place ≠ .outside) (prompt : state.Prompt)
    (timedOut : Bool) : ∃ after, state.turn timedOut = some after ∧ after.Sane := by
  have pointers := sane.pointers
  cases here : state.place with
  | outside => exact absurd here inside
  | looking cursor =>
      cases cursor with
      | listEnd =>
          refine ⟨{ state with place := .outside }, ?_, sane.ordered, sane.next, ?_⟩
          · simp only [Listening.turn, here]
          · simp [Place.pointers]
      | freeEnd =>
          refine ⟨{ state with place := .looking state.nextListenLink }, ?_, sane.ordered,
            sane.next, ?_⟩
          · simp only [Listening.turn, here]
          · simpa [Place.pointers] using sane.next.holds
      | link pslink =>
          have held := pointers (.link pslink) (by simp [here, Place.pointers])
          obtain ⟨link, stored, -⟩ := sane.ordered.stored held
          simp only [Listening.turn, here, stored, Option.bind_eq_bind, Option.bind_some]
          split
          · refine ⟨_, rfl, sane.ordered, sane.next, ?_⟩
            simpa [Place.pointers] using sane.next.holds
          · split
            · refine ⟨_, rfl, sane.ordered, sane.next, ?_⟩
              simpa [Place.pointers] using held
            · refine ⟨_, rfl, sane.ordered, sane.next, ?_⟩
              simpa [Place.pointers] using held
  | checked pslink =>
      have held := pointers (.link pslink) (by simp [here, Place.pointers])
      obtain ⟨next, read, holds⟩ := sane.ordered.listNext held
      refine ⟨{ state with place := .looking next }, ?_, sane.ordered, sane.next, ?_⟩
      · simp only [Listening.turn, here, read, Option.bind_eq_bind, Option.bind_some]
      · simpa [Place.pointers] using holds
  | expired pslink =>
      have held := pointers (.link pslink) (by simp [here, Place.pointers])
      obtain ⟨next, read, holds⟩ := sane.ordered.listNext held
      refine ⟨{ state with place := .deleting pslink next }, ?_, sane.ordered, sane.next, ?_⟩
      · simp only [Listening.turn, here, read, Option.bind_eq_bind, Option.bind_some]
      · simpa [Place.pointers] using ⟨held, holds⟩
  | deleting pslink pslinkT =>
      have held := pointers pslinkT (by simp [here, Place.pointers])
      rw [Prompt, here] at prompt
      obtain ⟨after, deleted, -, ordered, next, kept, -⟩ := sane.delList prompt
      refine ⟨{ after with place := .looking pslinkT }, ?_, ordered, next, ?_⟩
      · simp only [Listening.turn, here, deleted, Option.bind_eq_bind, Option.bind_some]
      · simpa [Place.pointers] using kept pslinkT held

theorem Sane.step (sane : state.Sane) {label : ListenLabel} (allowed : state.Allowed label) :
    ∃ after, state.step label = some after ∧ after.Sane := by
  cases label with
  | free =>
      obtain ⟨ordered, list⟩ := sane.ordered.freeFirst
      refine ⟨_, if_pos allowed, ordered, sane.next.mono (list ▸ List.Subset.refl _), ?_⟩
      simp [show state.place = .outside from allowed, Place.pointers]
  | begin =>
      refine ⟨_, if_pos allowed, sane.ordered, sane.next, ?_⟩
      simpa [Place.pointers] using
        (StSock.lists_listBegin (show state.sts.list = [] ++ state.sts.list from rfl)).holds
  | turn timedOut => exact sane.turn allowed.1 allowed.2 timedOut
  | other call =>
      cases call with
      | freeFirst => exact absurd allowed id
      | delList pslink =>
          obtain ⟨after, deleted, place, ordered, next, kept, -⟩ := sane.delList allowed.2
          refine ⟨after, deleted, ordered, next, fun pointer here => kept pointer ?_⟩
          exact sane.pointers pointer (place ▸ here)
      | exClose =>
          obtain ⟨after, stepped, ordered, more, waiting⟩ :=
            sane.ordered.step_lists allowed.1 allowed.2 (by simp) fun _ => by simp
          refine ⟨{ state with sts := after }, ?_, ordered, sane.next.mono more, ?_⟩
          · simp only [Listening.step, stepped, Option.map_some]
          · intro pointer here
            exact (sane.pointers pointer here).mono fun _ => Or.imp (@more _) (waiting ▸ id)
      | getLink ip port type malloc =>
          obtain ⟨after, stepped, ordered, more, waiting⟩ :=
            sane.ordered.step_lists allowed.1 allowed.2 (by simp) fun _ => by simp
          refine ⟨{ state with sts := after }, ?_, ordered, sane.next.mono more, ?_⟩
          · simp only [Listening.step, stepped, Option.map_some]
          · intro pointer here
            exact (sane.pointers pointer here).mono fun _ => Or.imp (@more _) (waiting ▸ id)

/-- Whatever times out, the thread alone ends its pass within the given number of
statements. -/
def Finishes : Nat → Listening → Prop
  | 0, state => state.place = .outside
  | bound + 1, state => state.place = .outside ∨
      ∀ timedOut, ∃ after, state.turn timedOut = some after ∧ Finishes bound after

theorem Finishes.mono {bound more : Nat} (finishes : Finishes bound state) (least : bound ≤ more) :
    Finishes more state := by
  induction bound generalizing state more with
  | zero =>
      cases more with
      | zero => exact finishes
      | succ more => exact .inl finishes
  | succ bound inductionHypothesis =>
      obtain ⟨fewer, rfl⟩ := Nat.exists_eq_add_of_le' (Nat.le_trans (Nat.le_add_left 1 _) least)
      refine finishes.imp id fun turns timedOut => ?_
      obtain ⟨after, ran, later⟩ := turns timedOut
      exact ⟨after, ran, inductionHypothesis later (Nat.le_of_succ_le_succ least)⟩

theorem Sane.of_turn (sane : state.Sane) (inside : state.place ≠ .outside) (prompt : state.Prompt)
    {timedOut : Bool} {after : Listening} (ran : state.turn timedOut = some after) :
    after.Sane := by
  obtain ⟨other, otherRan, kept⟩ := sane.turn inside prompt timedOut
  exact Option.some.inj (ran.symm.trans otherRan) ▸ kept

/-- From a place in the list the pass goes on to its end; it deletes what it is at and
nothing else. -/
theorem Sane.walk (sane : state.Sane) {before rest : List Nat}
    (list : state.sts.list = before ++ rest)
    (here : state.place = .looking (listBegin .listEnd rest)) :
    Finishes (3 * rest.length + 1) state := by
  induction rest generalizing state before with
  | nil =>
      refine .inr fun _ => ⟨{ state with place := .outside }, ?_, show Finishes 0 _ from rfl⟩
      simp only [Listening.turn, here, listBegin]
  | cons pslink rest inductionHypothesis =>
      have listed : pslink ∈ state.sts.list := by simp [list]
      obtain ⟨link, stored, alive⟩ := sane.ordered.stored (.inl listed)
      have nodup := sane.ordered.nodup
      rw [list] at nodup
      have outside : pslink ∉ before := fun again =>
        (List.nodup_append.mp nodup).2.2 pslink again pslink List.mem_cons_self rfl
      have next : state.sts.listNext pslink = some (listBegin .listEnd rest) := by
        rw [StSock.listNext, if_pos listed, list, nextBehind_split outside]
      have first (timedOut : Bool) : state.turn timedOut =
          some { state with place := if timedOut then .expired pslink else .checked pslink } := by
        simp only [Listening.turn, here, listBegin, stored, Option.bind_eq_bind, Option.bind_some,
          if_neg (alive.mpr listed)]
        cases timedOut <;> rfl
      have saneFirst (timedOut : Bool) := sane.of_turn (by simp [here]) (by simp [Prompt, here])
        (first timedOut)
      rw [List.length_cons, Nat.mul_add]
      refine .inr fun timedOut => ⟨_, first timedOut, ?_⟩
      cases timedOut with
      | false =>
          have second (again : Bool) :
              Listening.turn { state with place := .checked pslink } again =
              some { state with place := .looking (listBegin .listEnd rest) } := by
            simp only [Listening.turn, next, Option.bind_eq_bind, Option.bind_some]
          have saneSecond := (saneFirst false).of_turn (by simp) trivial (second true)
          have walked := @inductionHypothesis _ saneSecond (before ++ [pslink])
            (by rw [list, List.append_assoc, List.singleton_append]) rfl
          exact .inr fun again => ⟨_, second again, walked.mono (Nat.le_succ _)⟩
      | true =>
          have second (again : Bool) :
              Listening.turn { state with place := .expired pslink } again =
              some { state with place := .deleting pslink (listBegin .listEnd rest) } := by
            simp only [Listening.turn, next, Option.bind_eq_bind, Option.bind_some]
          have saneSecond := (saneFirst true).of_turn (by simp) trivial (second true)
          obtain ⟨after, deleted, -, -, -, -, ⟨-, erased⟩ |
            ⟨gone, -⟩⟩ := saneSecond.delList (.inl listed)
          · have third (again : Bool) : Listening.turn
                { state with place := .deleting pslink (listBegin .listEnd rest) } again =
                some { after with place := .looking (listBegin .listEnd rest) } := by
              simp only [Listening.turn, deleted, Option.bind_eq_bind, Option.bind_some]
            have saneThird := saneSecond.of_turn (by simp) (.inl listed) (third true)
            have walked := @inductionHypothesis _ saneThird before (by
              rw [erased, list, List.erase_append_right _ outside, List.erase_cons_head]) rfl
            exact .inr fun again => ⟨_, second again, .inr fun once => ⟨_, third once, walked⟩⟩
          · exact absurd listed gone

theorem lists_begin {sts : StSock} {cursor : Cursor} (lists : sts.Lists cursor) :
    ∃ before rest, sts.list = before ++ rest ∧ cursor = listBegin .listEnd rest := by
  cases cursor with
  | link pslink =>
      obtain ⟨before, rest, split⟩ := List.append_of_mem lists
      exact ⟨before, pslink :: rest, split, rfl⟩
  | listEnd => exact ⟨sts.list, [], (List.append_nil _).symm, rfl⟩
  | freeEnd => exact absurd lists id

/-- A pass that finds itself off the list comes back to it by `nextListenLink`. -/
theorem Sane.finishes_looking (sane : state.Sane) {cursor : Cursor}
    (here : state.place = .looking cursor) : Finishes (3 * state.sts.list.length + 2) state := by
  have fromList {other : Listening} (kept : other.Sane) (same : other.sts = state.sts)
      {place : Cursor} (lists : state.sts.Lists place) (there : other.place = .looking place) :
      Finishes (3 * state.sts.list.length + 1) other := by
    obtain ⟨before, rest, split, rfl⟩ := lists_begin lists
    have short := congrArg List.length split
    rw [List.length_append] at short
    exact (kept.walk (same ▸ split) there).mono (by omega)
  by_cases lists : state.sts.Lists cursor
  · exact (fromList sane rfl lists here).mono (Nat.le_succ _)
  · have back (timedOut : Bool) : state.turn timedOut =
        some { state with place := .looking state.nextListenLink } := by
      cases cursor with
      | listEnd => exact absurd trivial lists
      | freeEnd => simp only [Listening.turn, here]
      | link pslink =>
          obtain ⟨link, stored, alive⟩ :=
            sane.ordered.stored (sane.pointers (.link pslink) (by simp [here, Place.pointers]))
          simp only [Listening.turn, here, stored, Option.bind_eq_bind, Option.bind_some]
          exact if_pos (not_not.mp fun state => lists (alive.mp state))
    refine .inr fun timedOut => ⟨_, back timedOut, fromList ?_ rfl sane.next rfl⟩
    exact sane.of_turn (by simp [here]) (by simp [Prompt, here]) (back timedOut)

/-- What the thread is going to delete has not left its id to a new link. -/
def Unreused (state : Listening) : Prop :=
  match state.place with
  | .expired pslink | .deleting pslink _ => state.sts.Spares (.delList pslink)
  | _ => True

theorem Sane.finishes_deleting (sane : state.Sane) {pslink : Nat} {pslinkT : Cursor}
    (here : state.place = .deleting pslink pslinkT)
    (spares : state.sts.Spares (.delList pslink)) :
    Finishes (3 * state.sts.list.length + 3) state := by
  obtain ⟨after, deleted, -, -, -, -, fewer⟩ := sane.delList spares
  have ran (timedOut : Bool) : state.turn timedOut =
      some { after with place := .looking pslinkT } := by
    simp only [Listening.turn, here, deleted, Option.bind_eq_bind, Option.bind_some]
  have short : after.sts.list.length ≤ state.sts.list.length := by
    rcases fewer with ⟨-, erased⟩ | ⟨-, same⟩
    · rw [erased]
      exact List.length_erase_le
    · rw [same]
  have kept := sane.of_turn (by simp [here]) (by simpa [Prompt, here] using spares) (ran true)
  refine .inr fun timedOut => ⟨_, ran timedOut, (kept.finishes_looking rfl).mono ?_⟩
  simp only
  omega

theorem Sane.finishes (sane : state.Sane) (unreused : state.Unreused) :
    Finishes (3 * state.sts.list.length + 4) state := by
  have pointers := sane.pointers
  cases here : state.place with
  | outside => exact .inl here
  | looking cursor => exact (sane.finishes_looking here).mono (by omega)
  | checked pslink =>
      obtain ⟨next, read, -⟩ := sane.ordered.listNext
        (pointers (.link pslink) (by simp [here, Place.pointers]))
      have ran (timedOut : Bool) : state.turn timedOut =
          some { state with place := .looking next } := by
        simp only [Listening.turn, here, read, Option.bind_eq_bind, Option.bind_some]
      have kept := sane.of_turn (by simp [here]) (by simp [Prompt, here]) (ran true)
      exact .inr fun timedOut =>
        ⟨_, ran timedOut, (kept.finishes_looking rfl).mono (Nat.le_succ _)⟩
  | expired pslink =>
      rw [Unreused, here] at unreused
      obtain ⟨next, read, -⟩ := sane.ordered.listNext
        (pointers (.link pslink) (by simp [here, Place.pointers]))
      have ran (timedOut : Bool) : state.turn timedOut =
          some { state with place := .deleting pslink next } := by
        simp only [Listening.turn, here, read, Option.bind_eq_bind, Option.bind_some]
      have kept := sane.of_turn (by simp [here]) (by simp [Prompt, here]) (ran true)
      exact .inr fun timedOut => ⟨_, ran timedOut, kept.finishes_deleting rfl unreused⟩
  | deleting pslink pslinkT =>
      rw [Unreused, here] at unreused
      exact (sane.finishes_deleting here unreused).mono (Nat.le_succ _)

end Listening

end UtilsModules.Udp

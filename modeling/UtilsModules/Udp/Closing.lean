import UtilsModules.Udp.LinkTables

/-!
The end of a socket.

`exClose` deletes all links, and the listening thread frees what waits in
`listFreeHead` before it ends.
-/

namespace UtilsModules.Udp

namespace StSock

def closeLoop : Nat → StSock → Option StSock
  | 0, _ => none
  | rounds + 1, sts =>
      match sts.list with
      | [] => some sts
      | pslink :: _ => do
          let (sts, _) ← sts.delList pslink
          closeLoop rounds sts

def exClose (rounds : Nat) (sts : StSock) : Option StSock :=
  closeLoop rounds { sts with linkState := -1 }

/-- The last loop of `thread_listen`.  Memory that is not allocated cannot be
freed. -/
def releaseLoop : Nat → StSock → Option StSock
  | 0, _ => none
  | rounds + 1, sts =>
      match sts.listFreeHead with
      | [] => some sts
      | pslink :: _ => do
          let _ ← sts.memory pslink
          releaseLoop rounds ((sts.listErase pslink).free pslink)

variable {sts after : StSock} {registry : Registry}

theorem delList_linkState {pslink : Nat} {answer : Bool}
    (deleted : sts.delList pslink = some (after, answer)) : after.linkState = sts.linkState := by
  unfold StSock.delList at deleted
  split at deleted
  · cases deleted
  · split at deleted
    · cases deleted
      rfl
    · obtain ⟨middle, unchained, same⟩ := Option.map_eq_some_iff.mp deleted
      cases same
      have kept := congrArg StSock.linkState (unchain_relinked unchained).same
      exact kept

theorem not_creates (closed : sts.linkState = -1) (type : PacketType) : ¬ sts.Creates type := by
  rintro ⟨-, opened⟩
  rw [closed] at opened
  cases opened

theorem Shows.closeLoop (shown : sts.Shows registry) (sound : registry.Sound) {rounds : Nat}
    (enough : sts.list.length < rounds) :
    ∃ closed showing, StSock.closeLoop rounds sts = some closed ∧ closed.Shows showing ∧
      showing.Sound ∧ closed.list = [] ∧ closed.listFreeHead = sts.listFreeHead ++ sts.list ∧
      closed.linkState = sts.linkState := by
  induction rounds generalizing sts registry with
  | zero => cases enough
  | succ rounds inductionHypothesis =>
      cases links : sts.list with
      | nil =>
          refine ⟨sts, registry, ?_, shown, sound, links, (List.append_nil _).symm, rfl⟩
          simp only [StSock.closeLoop, links]
      | cons pslink rest =>
          have listed : pslink ∈ registry.list := by
            rw [← shown.list, links]
            exact List.mem_cons_self
          obtain ⟨key, live⟩ := (sound.live pslink).mp listed
          obtain ⟨after, deleted, shownAfter⟩ := shown.delList sound live
          have port := (sound.placed pslink key live).2.1
          have soundAfter := sound.retire live (shown.chain key.port port).nodup
          have listAfter : after.list = rest := by
            rw [shownAfter.list, Registry.retire, ← shown.list, links, List.erase_cons_head]
          have freeAfter : after.listFreeHead = sts.listFreeHead ++ [pslink] := by
            rw [shownAfter.retired, shown.retired]
            rfl
          obtain ⟨closed, showing, ran, shownClosed, soundClosed, empty, waiting, state⟩ :=
            inductionHypothesis shownAfter soundAfter (by
              rw [links, List.length_cons] at enough
              rw [listAfter]
              omega)
          refine ⟨closed, showing, ?_, shownClosed, soundClosed, empty, ?_, ?_⟩
          · simp only [StSock.closeLoop, links, deleted, Option.bind_eq_bind, Option.bind_some, ran]
          · rw [waiting, freeAfter, listAfter, List.append_assoc, List.singleton_append]
          · rw [state, delList_linkState deleted]

/-- Every round of the listening thread frees a link that is allocated. -/
theorem Shows.releaseLoop (shown : sts.Shows registry) (sound : registry.Sound)
    (empty : sts.list = []) {rounds : Nat} (enough : sts.listFreeHead.length < rounds) :
    ∃ freed, StSock.releaseLoop rounds sts = some freed ∧
      ∀ address, freed.memory address = none := by
  induction rounds generalizing sts registry with
  | zero => cases enough
  | succ rounds inductionHypothesis =>
      cases waiting : sts.listFreeHead with
      | nil =>
          refine ⟨sts, by simp only [StSock.releaseLoop, waiting], fun address => ?_⟩
          have links := shown.links address
          cases key : registry.links address with
          | none =>
              rw [key] at links
              exact Option.map_eq_none_iff.mp links
          | some known =>
              cases known with
              | none =>
                  have retired := (sound.waiting address).mpr key
                  rw [← shown.retired, waiting] at retired
                  cases retired
              | some known =>
                  have listed := (sound.live address).mpr ⟨known, key⟩
                  rw [← shown.list, empty] at listed
                  cases listed
      | cons pslink rest =>
          have retired : registry.links pslink = some none := by
            rw [← sound.waiting, ← shown.retired, waiting]
            exact List.mem_cons_self
          have links := shown.links pslink
          rw [retired, Option.map_eq_some_iff] at links
          obtain ⟨link, stored, -⟩ := links
          have sameStep : sts.freeFirst = (sts.listErase pslink).free pslink := by
            simp only [StSock.freeFirst, waiting]
          have restAfter : sts.freeFirst.listFreeHead = rest := by
            rw [sameStep]
            simp only [free, listErase, waiting, List.erase_cons_head]
          have emptyAfter : sts.freeFirst.list = [] := by
            rw [sameStep]
            simp only [free, listErase, empty, List.erase_nil]
          rcases shown.freeFirst sound with nothing | ⟨address, retiredHere, shownAfter⟩
          · rw [nothing, waiting] at restAfter
            exact absurd (congrArg List.length restAfter) (by simp)
          · obtain ⟨freed, ran, gone⟩ := inductionHypothesis shownAfter
              (sound.release retiredHere) emptyAfter (by
                rw [waiting, List.length_cons] at enough
                rw [restAfter]
                omega)
            refine ⟨freed, ?_, gone⟩
            simp only [StSock.releaseLoop, waiting, stored, Option.bind_eq_bind, Option.bind_some]
            rw [← sameStep, ran]

/-- Without links the tables are those of a new socket. -/
structure Vacant (sts : StSock) : Prop where
  list : sts.list = []
  entries : ∀ id, sts.pLinkIDArray id = none
  ports : ∀ port < portEntries, sts.pLinkPortArray port = none
  ids : sts.listIDAllocationHead.Perm (List.range (maxLinkCount + 1))

theorem Shows.vacant (shown : sts.Shows registry) (sound : registry.Sound) (empty : sts.list = []) :
    sts.Vacant := by
  have dead : ∀ address key, ¬ registry.Live address key := by
    intro address key live
    have listed := (sound.live address).mpr ⟨key, live⟩
    rw [← shown.list, empty] at listed
    cases listed
  have noEntry : ∀ id, registry.entries id = none := by
    intro id
    apply Option.eq_none_iff_forall_not_mem.mpr
    intro address entry
    obtain ⟨key, live, -⟩ := sound.entry id address entry
    exact dead address key live
  refine ⟨empty, fun id => by rw [shown.entries, noEntry], fun port hasEntry => ?_, ?_⟩
  · have chain := shown.chain port hasEntry
    have nobody : registry.chains port = [] := by
      apply List.eq_nil_iff_forall_not_mem.mpr
      intro address member
      obtain ⟨key, live, -⟩ := sound.member port address member
      exact dead address key live
    rw [nobody] at chain
    cases first : sts.pLinkPortArray port with
    | none => rfl
    | some start =>
        rw [first] at chain
        cases chain
  · rw [shown.ids]
    refine (List.perm_ext_iff_of_nodup sound.idsNodup List.nodup_range).mpr fun id => ?_
    rw [sound.free, List.mem_range, Nat.lt_succ_iff]
    exact and_iff_left (noEntry id)

end StSock

/-- A socket is closed completely in every state it can be in: `exClose` comes to
its end, nothing is left in the tables and all ids may be given again, no packet makes
a link any more, and the listening thread frees every link exactly once. -/
theorem exClose_frees_all {sock : Nat} {tsWaitTime : Int} {calls : List TableCall}
    (promised : Transition.Guarded StSock.step StSock.Promised (exSocket sock tsWaitTime) calls)
    (spared : Transition.Guarded StSock.step StSock.Spares (exSocket sock tsWaitTime) calls) :
    ∃ sts closed freed,
      Transition.run StSock.step (exSocket sock tsWaitTime) calls = some sts ∧
      sts.exClose (sts.list.length + 1) = some closed ∧ closed.Vacant ∧
      closed.listFreeHead = sts.listFreeHead ++ sts.list ∧
      (∀ ip port type malloc, port < portEntries →
        closed.getLink ip port type malloc = some (closed, none)) ∧
      closed.releaseLoop (closed.listFreeHead.length + 1) = some freed ∧
      ∀ address, freed.memory address = none := by
  obtain ⟨sts, ran, registry, shown, sound⟩ := Transition.run_defined_of_guarded StSock.step
    (fun _ _ ordered guard => StSock.Ordered.step ordered guard.1 guard.2)
    (Transition.guarded_and StSock.step promised spared)
    (StSock.ordered_exSocket sock tsWaitTime)
  have marked : StSock.Shows { sts with linkState := -1 } registry := { shown with }
  obtain ⟨closed, showing, closing, shownClosed, soundClosed, empty, waiting, state⟩ :=
    marked.closeLoop sound (Nat.lt_succ_self _)
  obtain ⟨freed, released, gone⟩ :=
    shownClosed.releaseLoop soundClosed empty (Nat.lt_succ_self _)
  have vacant := shownClosed.vacant soundClosed empty
  refine ⟨sts, closed, freed, ran, closing, vacant, waiting, ?_, released, gone⟩
  intro ip port type malloc hasEntry
  rw [StSock.getLink, if_neg (Nat.not_le.mpr hasEntry)]
  simp only [vacant.ports port hasEntry, if_neg (StSock.not_creates state type)]

theorem exClose_frees_all_three :
    ∃ sts closed freed,
      Transition.run StSock.step (exSocket 4 (-1))
        [.getLink 1 5 .linkSyn (some 100), .getLink 2 5 .linkSyn (some 200),
          .getLink 3 7 .linkSyn (some 300), .delList 100] = some sts ∧
      sts.exClose (sts.list.length + 1) = some closed ∧ closed.Vacant ∧
      closed.listFreeHead = [100, 200, 300] ∧
      closed.releaseLoop (closed.listFreeHead.length + 1) = some freed ∧
      ∀ address, freed.memory address = none := by
  have tables : (Transition.run StSock.step (exSocket 4 (-1))
      [.getLink 1 5 .linkSyn (some 100), .getLink 2 5 .linkSyn (some 200),
        .getLink 3 7 .linkSyn (some 300), .delList 100]).map
        (fun sts => sts.listFreeHead ++ sts.list) = some [100, 200, 300] := by
    decide +kernel
  obtain ⟨sts, closed, freed, ran, closing, vacant, waiting, -, released, gone⟩ :=
    @exClose_frees_all 4 (-1)
      [.getLink 1 5 .linkSyn (some 100), .getLink 2 5 .linkSyn (some 200),
        .getLink 3 7 .linkSyn (some 300), .delList 100] (by decide +kernel) (by decide +kernel)
  rw [ran, Option.map_some, Option.some.injEq] at tables
  exact ⟨sts, closed, freed, ran, closing, vacant, waiting.trans tables, released, gone⟩

end UtilsModules.Udp

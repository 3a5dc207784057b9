import UtilsModules.Udp.Tables

/-!
Runs of `get_link` and `del_list` on one socket.

The tables stay consistent as long as every link that is made finds a free id
and comes from a port with an entry in `pLinkPortArray`, and no link is deleted again
after its id has been given to another one.  When the ids are used up, `add_list` frees
the link that already hangs on its chain; `del_list` tells a deleted link from a live one
by the entry of its id only.
-/

namespace UtilsModules.Udp

/-- The calls that change the tables.  `exClose` marks the socket before it
deletes the links one by one. -/
inductive TableCall where
  | getLink (ip port : Nat) (type : PacketType) (malloc : Option Nat)
  | delList (pslink : Nat)
  | freeFirst
  | exClose
  deriving DecidableEq, Repr

namespace StSock

def step (sts : StSock) : TableCall → Option StSock
  | .getLink ip port type malloc => (sts.getLink ip port type malloc).map Prod.fst
  | .delList pslink => (sts.delList pslink).map Prod.fst
  | .freeFirst => some sts.freeFirst
  | .exClose => some { sts with linkState := -1 }

/-- `malloc` answers with memory that is not in use. -/
def Promised (sts : StSock) : TableCall → Prop
  | .getLink _ _ _ malloc => ∀ new ∈ malloc, sts.memory new = none
  | _ => True

instance (sts : StSock) (call : TableCall) : Decidable (sts.Promised call) := by
  unfold Promised
  split <;> infer_instance

def Known (sts : StSock) (ip port : Nat) : Prop :=
  ∃ pslink ∈ sts.list, ∃ link ∈ sts.memory pslink, link.ip = ip ∧ link.port = port

instance (sts : StSock) (ip port : Nat) : Decidable (sts.Known ip port) :=
  inferInstanceAs (Decidable (∃ pslink ∈ sts.list, _))

/-- The condition on a call: the port has an entry and a link that is made finds an
id; what is deleted is in the list, or has been deleted and neither it has been freed nor
its id given out again. -/
def Spares (sts : StSock) : TableCall → Prop
  | .getLink ip port type malloc => port < portEntries ∧
      (sts.listIDAllocationHead = [] →
        ¬ sts.Creates type ∨ malloc = none ∨ sts.Known ip port)
  | .delList pslink => pslink ∈ sts.list ∨
      ∃ link ∈ sts.memory pslink, sts.pLinkIDArray link.id = none
  | _ => True

instance (sts : StSock) (call : TableCall) : Decidable (sts.Spares call) := by
  unfold Spares
  split <;> infer_instance

def IsLive (sts : StSock) (pslink : Nat) (link : SLink) : Prop :=
  sts.memory pslink = some link ∧ link.linkState ≠ -1

theorem IsLive.of_sameKey {sts after : StSock} {pslink : Nat} {link : SLink}
    (isLive : sts.IsLive pslink link)
    (same : (after.memory pslink).map SLink.key? = (sts.memory pslink).map SLink.key?) :
    ∃ linkAfter, after.IsLive pslink linkAfter ∧ linkAfter.id = link.id := by
  rw [isLive.1, Option.map_some, Option.map_eq_some_iff] at same
  obtain ⟨linkAfter, stored, key⟩ := same
  rw [SLink.key?, SLink.key?, if_neg isLive.2] at key
  split at key
  · cases key
  · next notDeleted =>
    exact ⟨linkAfter, ⟨stored, notDeleted⟩, congrArg Key.id (Option.some.inj key)⟩

/-- All tables agree on the live links. -/
structure Consistent (sts : StSock) : Prop where
  listed : ∀ pslink, pslink ∈ sts.list ↔ ∃ link, sts.IsLive pslink link
  once : sts.list.Nodup
  inRange : ∀ pslink link, sts.IsLive pslink link → link.port < portEntries ∧
    link.id ≤ maxLinkCount
  registered : ∀ pslink link, sts.IsLive pslink link →
    ∀ id, sts.pLinkIDArray id = some pslink ↔ id = link.id
  entries : ∀ id pslink, sts.pLinkIDArray id = some pslink → ∃ link, sts.IsLive pslink link
  chained : ∀ port < portEntries, ∃ chain, Chain sts.next (sts.pLinkPortArray port) chain ∧
    chain.Nodup ∧ ∀ pslink, pslink ∈ chain ↔ ∃ link, sts.IsLive pslink link ∧ link.port = port
  distinct : ∀ first second firstLink secondLink, sts.IsLive first firstLink →
    sts.IsLive second secondLink → firstLink.ip = secondLink.ip →
    firstLink.port = secondLink.port → first = second
  idsOnce : sts.listIDAllocationHead.Nodup
  ids : ∀ id, id ∈ sts.listIDAllocationHead ↔
    id ≤ maxLinkCount ∧ ∀ pslink link, sts.IsLive pslink link → link.id ≠ id

variable {sts : StSock} {registry : Registry}

namespace Shows

theorem live_of_isLive (shown : sts.Shows registry) {pslink : Nat} {link : SLink}
    (isLive : sts.IsLive pslink link) :
    registry.Live pslink ⟨link.socket, link.ip, link.port, link.id⟩ := by
  rw [Registry.Live, ← shown.links, isLive.1, Option.map_some, SLink.key?, if_neg isLive.2]

theorem isLive_of_live (shown : sts.Shows registry) {pslink : Nat} {key : Key}
    (live : registry.Live pslink key) :
    ∃ link, sts.IsLive pslink link ∧ link.port = key.port ∧ link.id = key.id := by
  obtain ⟨link, stored, notDeleted, -, -, port, id⟩ := shown.stored live
  exact ⟨link, ⟨stored, notDeleted⟩, port, id⟩

theorem known_iff (shown : sts.Shows registry) (sound : registry.Sound) {ip port : Nat} :
    sts.Known ip port ↔ ¬ registry.Unknown ip port := by
  constructor
  · rintro ⟨pslink, listed, link, stored, rfl, rfl⟩ unknown
    rw [shown.list, sound.live] at listed
    obtain ⟨key, live⟩ := listed
    obtain ⟨other, otherStored, -, -, sameIp, samePort, -⟩ := shown.stored live
    obtain rfl := Option.some.inj (Eq.trans (Eq.symm stored) otherStored)
    exact unknown pslink key live ⟨sameIp.symm, samePort.symm⟩
  · intro known
    simp only [Registry.Unknown, not_forall, not_not] at known
    obtain ⟨pslink, key, live, rfl, rfl⟩ := known
    obtain ⟨link, stored, -, -, sameIp, samePort, -⟩ := shown.stored live
    refine ⟨pslink, ?_, link, stored, sameIp, samePort⟩
    rw [shown.list, sound.live]
    exact ⟨key, live⟩

theorem consistent (shown : sts.Shows registry) (sound : registry.Sound) : sts.Consistent := by
  constructor
  case listed =>
    intro pslink
    rw [shown.list, sound.live]
    constructor
    · rintro ⟨key, live⟩
      obtain ⟨link, isLive, -⟩ := shown.isLive_of_live live
      exact ⟨link, isLive⟩
    · rintro ⟨link, isLive⟩
      exact ⟨_, shown.live_of_isLive isLive⟩
  case once =>
    rw [shown.list]
    exact sound.nodup
  case inRange =>
    intro pslink link isLive
    obtain ⟨-, port, id, -⟩ := sound.placed pslink _ (shown.live_of_isLive isLive)
    exact ⟨port, id⟩
  case registered =>
    intro pslink link isLive id
    have live := shown.live_of_isLive isLive
    rw [shown.entries]
    constructor
    · intro entry
      obtain ⟨key, keyLive, rfl⟩ := sound.entry id pslink entry
      rw [keyLive.unique live]
    · rintro rfl
      exact (sound.placed pslink _ live).2.2.2.1
  case entries =>
    intro id pslink entry
    rw [shown.entries] at entry
    obtain ⟨key, live, -⟩ := sound.entry id pslink entry
    obtain ⟨link, isLive, -⟩ := shown.isLive_of_live live
    exact ⟨link, isLive⟩
  case chained =>
    intro port hasEntry
    have chain := shown.chain port hasEntry
    refine ⟨registry.chains port, chain, chain.nodup, fun pslink => ⟨fun membership => ?_, ?_⟩⟩
    · obtain ⟨key, live, samePort⟩ := sound.member port pslink membership
      obtain ⟨link, isLive, linkPort, -⟩ := shown.isLive_of_live live
      exact ⟨link, isLive, linkPort.trans samePort⟩
    · rintro ⟨link, isLive, rfl⟩
      exact (sound.placed pslink _ (shown.live_of_isLive isLive)).2.2.2.2
  case distinct =>
    intro first second firstLink secondLink firstLive secondLive
    exact sound.distinct first second _ _ (shown.live_of_isLive firstLive)
      (shown.live_of_isLive secondLive)
  case idsOnce =>
    rw [shown.ids]
    exact sound.idsNodup
  case ids =>
    intro id
    rw [shown.ids, sound.free]
    apply and_congr_right
    intro _
    constructor
    · rintro unused pslink link isLive rfl
      have entry := (sound.placed pslink _ (shown.live_of_isLive isLive)).2.2.2.1
      rw [unused] at entry
      cases entry
    · intro unused
      apply Option.eq_none_iff_forall_not_mem.mpr
      intro pslink entry
      obtain ⟨key, live, named⟩ := sound.entry id pslink entry
      obtain ⟨link, isLive, -, sameId⟩ := shown.isLive_of_live live
      exact unused pslink link isLive (sameId.trans named)

theorem gets (shown : sts.Shows registry) (sound : registry.Sound) {ip port : Nat}
    {type : PacketType} {malloc : Option Nat}
    (promised : sts.Promised (.getLink ip port type malloc))
    (spares : sts.Spares (.getLink ip port type malloc)) :
    ∃ after answer, sts.getLink ip port type malloc = some (after, answer) ∧
      sts.Gets registry ip port type malloc after answer := by
  apply shown.getLink sound spares.1 promised
  intro unknown creates answered noIds
  rcases spares.2 (shown.ids.trans noIds) with refused | failed | known
  · exact refused creates
  · exact answered failed
  · exact (shown.known_iff sound).mp known unknown

end Shows

def Ordered (sts : StSock) : Prop := ∃ registry : Registry, sts.Shows registry ∧ registry.Sound

theorem ordered_exSocket (sock : Nat) (tsWaitTime : Int) : (exSocket sock tsWaitTime).Ordered := by
  refine ⟨Registry.empty sock, ?_, Registry.sound_empty sock⟩
  constructor
  case socket => rfl
  case links =>
    intro address
    rfl
  case list => rfl
  case retired => rfl
  case ids => simp only [exSocket, Registry.empty]
  case entries => rfl
  case chain =>
    intro port _
    exact .nil

theorem Gets.ordered {ip port : Nat} {type : PacketType} {malloc answer : Option Nat}
    {after : StSock} (gets : sts.Gets registry ip port type malloc after answer)
    (shown : sts.Shows registry) (sound : registry.Sound)
    (promised : sts.Promised (.getLink ip port type malloc))
    (spares : sts.Spares (.getLink ip port type malloc)) : after.Ordered := by
  cases gets with
  | known => exact ⟨registry, shown, sound⟩
  | refused => exact ⟨registry, shown, sound⟩
  | created new id rest _ unknown answered ids shownAfter =>
      refine ⟨_, shownAfter, sound.enroll ?_ ids rfl spares.1 unknown⟩
      rw [← shown.links, promised new answered, Option.map_none]

theorem Ordered.delList (ordered : sts.Ordered) {pslink : Nat}
    (spares : sts.Spares (.delList pslink)) :
    ∃ after, sts.step (.delList pslink) = some after ∧ after.Ordered := by
  obtain ⟨registry, shown, sound⟩ := ordered
  rcases spares with listed | ⟨link, stored, cleared⟩
  · rw [shown.list, sound.live] at listed
    obtain ⟨key, live⟩ := listed
    obtain ⟨after, deleted, shownAfter⟩ := shown.delList sound live
    have port := (sound.placed pslink key live).2.1
    refine ⟨after, ?_, _, shownAfter, sound.retire live (shown.chain key.port port).nodup⟩
    simp only [step, deleted, Option.map_some]
  · refine ⟨sts, ?_, registry, shown, sound⟩
    simp only [step, StSock.delList, Option.mem_def.mp stored]
    rw [if_pos (.inr cleared), Option.map_some]

theorem Ordered.step (ordered : sts.Ordered) {call : TableCall} (promised : sts.Promised call)
    (spares : sts.Spares call) : ∃ after, sts.step call = some after ∧ after.Ordered := by
  cases call with
  | getLink ip port type malloc =>
      obtain ⟨registry, shown, sound⟩ := ordered
      obtain ⟨after, answer, got, gets⟩ := shown.gets sound promised spares
      refine ⟨after, ?_, gets.ordered shown sound promised spares⟩
      simp only [StSock.step, got, Option.map_some]
  | delList pslink => exact ordered.delList spares
  | freeFirst =>
      refine ⟨_, rfl, ?_⟩
      obtain ⟨registry, shown, sound⟩ := ordered
      rcases shown.freeFirst sound with nothing | ⟨address, waiting, shownAfter⟩
      · rw [nothing]
        exact ⟨registry, shown, sound⟩
      · exact ⟨_, shownAfter, sound.release waiting⟩
  | exClose =>
      refine ⟨_, rfl, ?_⟩
      obtain ⟨registry, shown, sound⟩ := ordered
      exact ⟨registry, { shown with }, sound⟩

end StSock

/-- In every run that spares the end of the id list, the last port and the ids that have
been given out again, every call comes back, the tables agree on the live links after each
call, and a call of `get_link` that answers with nothing leaves them as they were. -/
theorem link_tables_consistent {sock : Nat} {tsWaitTime : Int} {calls : List TableCall}
    (promised : Transition.Guarded StSock.step StSock.Promised (exSocket sock tsWaitTime) calls)
    (spared : Transition.Guarded StSock.step StSock.Spares (exSocket sock tsWaitTime) calls) :
    ∃ sts, Transition.run StSock.step (exSocket sock tsWaitTime) calls = some sts ∧
      sts.Consistent ∧
      ∀ ip port type malloc after, sts.Promised (.getLink ip port type malloc) →
        sts.Spares (.getLink ip port type malloc) →
        sts.getLink ip port type malloc = some (after, none) → after = sts := by
  obtain ⟨sts, ran, registry, shown, sound⟩ := Transition.run_defined_of_guarded StSock.step
    (fun _ _ ordered guard => StSock.Ordered.step ordered guard.1 guard.2)
    (Transition.guarded_and StSock.step promised spared)
    (StSock.ordered_exSocket sock tsWaitTime)
  refine ⟨sts, ran, shown.consistent sound, ?_⟩
  intro ip port type malloc after promised spares failed
  obtain ⟨_, _, got, gets⟩ := shown.gets sound promised spares
  obtain ⟨rfl, rfl⟩ := Prod.mk.inj (Option.some.inj (got.symm.trans failed))
  cases gets
  rfl

/-- Deleting a link whose id has been given to another one takes the entry of the other
one away. -/
theorem delList_reused_breaks {sts after : StSock} {pslink other : Nat} {link : SLink}
    {answer : Bool} (consistent : sts.Consistent) (stored : sts.memory pslink = some link)
    (dead : link.linkState = -1) (reused : sts.pLinkIDArray link.id = some other)
    (deleted : sts.delList pslink = some (after, answer)) : ¬ after.Consistent := by
  obtain ⟨otherLink, alive⟩ := consistent.entries link.id other reused
  have sameId := (consistent.registered other otherLink alive link.id).mp reused
  have different : other ≠ pslink := by
    rintro rfl
    obtain rfl := Option.some.inj (stored.symm.trans alive.1)
    exact alive.2 dead
  have accepted : ¬ (link.id > maxLinkCount ∨ sts.pLinkIDArray link.id = none) := by
    rw [reused, sameId]
    simpa using (consistent.inRange other otherLink alive).2
  simp only [StSock.delList, stored, if_neg accepted] at deleted
  obtain ⟨middle, unchained, same⟩ := Option.map_eq_some_iff.mp deleted
  obtain ⟨rfl, -⟩ := Prod.mk.inj same
  have relinked := StSock.unchain_relinked unchained
  intro again
  obtain ⟨linkAfter, aliveAfter, sameIdAfter⟩ :
      ∃ linkAfter, (middle.retire pslink link.id).IsLive other linkAfter ∧
        linkAfter.id = otherLink.id := by
    apply alive.of_sameKey
    simp only [StSock.retire, StSock.modify, Function.update_of_ne different]
    exact relinked.links other
  have entry := (again.registered other linkAfter aliveAfter link.id).mpr
    (sameId.trans sameIdAfter.symm)
  have cleared : middle.pLinkIDArray link.id = none := by
    rw [congrArg StSock.pLinkIDArray relinked.same]
    exact Function.update_self ..
  exact Option.some_ne_none other (entry.symm.trans cleared)

/-- Two links share a port, a third is refused, the first is deleted and freed
and its peer comes back. -/
def comingAndGoing : List TableCall :=
  [.getLink 1 5 .linkSyn (some 100), .getLink 2 5 .linkSyn (some 200), .getLink 3 5 .userData none,
    .getLink 3 7 .linkSynAck none, .delList 100, .delList 100, .freeFirst,
    .getLink 1 5 .linkSyn (some 100)]

theorem link_tables_consistent_coming_and_going :
    ∃ sts, Transition.run StSock.step (exSocket 4 (-1)) comingAndGoing = some sts ∧
      sts.list = [200, 100] ∧ sts.Consistent := by
  obtain ⟨sts, ran, consistent, -⟩ :=
    @link_tables_consistent 4 (-1) comingAndGoing (by decide +kernel) (by decide +kernel)
  have listed : (Transition.run StSock.step (exSocket 4 (-1)) comingAndGoing).map StSock.list =
      some [200, 100] := by
    decide +kernel
  rw [ran] at listed
  exact ⟨sts, ran, Option.some.inj listed, consistent⟩

def arrivals (count : Nat) : List TableCall :=
  (List.range count).map fun port => .getLink 1 port .linkSyn (some port)

structure StSock.Filled (sts : StSock) (count : Nat) : Prop where
  opened : sts.linkState = 1
  ids : sts.listIDAllocationHead = List.range' count (maxLinkCount + 1 - count)
  ports : ∀ port, count ≤ port → sts.pLinkPortArray port = none

theorem StSock.Filled.getLink {sts : StSock} {count : Nat} (filled : sts.Filled count)
    (hasEntry : count < portEntries) :
    sts.getLink 1 count .linkSyn (some count) = some (StSock.createLink
      { sts with pLinkPortArray := Function.update sts.pLinkPortArray count (some count) }
      1 count (some count)) := by
  rw [StSock.getLink, if_neg (Nat.not_le.mpr hasEntry)]
  simp only [filled.ports count (Nat.le_refl _)]
  rw [if_pos ⟨.inl rfl, filled.opened⟩]

theorem StSock.Filled.step {sts : StSock} {count : Nat} (filled : sts.Filled count)
    (room : count ≤ maxLinkCount) :
    ∃ after, sts.step (.getLink 1 count .linkSyn (some count)) = some after ∧
      after.Filled (count + 1) := by
  have hasEntry : count < portEntries := by
    unfold maxLinkCount at room
    unfold portEntries
    omega
  have ids : sts.listIDAllocationHead =
      count :: List.range' (count + 1) (maxLinkCount + 1 - (count + 1)) := by
    rw [filled.ids, ← List.range'_succ]
    congr 1
    omega
  refine ⟨_, by rw [StSock.step, filled.getLink hasEntry, Option.map_some], ?_⟩
  simp only [StSock.createLink, StSock.addList, StSock.clear, ids]
  constructor
  case opened => exact filled.opened
  case ids => rfl
  case ports =>
    intro port later
    have different : port ≠ count := by omega
    simp only [StSock.modify, Function.update_of_ne different]
    exact filled.ports port (by omega)

theorem run_arrivals (sock : Nat) (tsWaitTime : Int) {count : Nat}
    (room : count ≤ maxLinkCount + 1) :
    ∃ sts, Transition.run StSock.step (exSocket sock tsWaitTime) (arrivals count) = some sts ∧
      sts.Filled count := by
  induction count with
  | zero =>
      refine ⟨_, rfl, rfl, ?_, fun _ _ => rfl⟩
      simp only [exSocket, List.range_eq_range', Nat.sub_zero]
  | succ count inductionHypothesis =>
      obtain ⟨sts, ran, filled⟩ := inductionHypothesis (by omega)
      obtain ⟨after, stepped, filledAfter⟩ := filled.step (by omega)
      refine ⟨after, ?_, filledAfter⟩
      rw [arrivals, List.range_succ, List.map_append, Transition.run_append]
      rw [arrivals] at ran
      rw [ran, Option.bind_some, List.map_singleton, Transition.run_cons, stepped,
        Option.bind_some, Transition.run_nil]

/-- The link that comes when all ids are used is freed and stays in its chain. -/
theorem exhausted_ids_leave_freed_link :
    ∃ sts after, Transition.run StSock.step (exSocket 4 (-1)) (arrivals 4096) = some sts ∧
      sts.getLink 1 4096 .linkSyn (some 4096) = some (after, none) ∧
      sts.pLinkPortArray 4096 = none ∧ after.pLinkPortArray 4096 = some 4096 ∧
      ¬ after.Consistent := by
  obtain ⟨sts, ran, filled⟩ := run_arrivals 4 (-1) (show 4096 ≤ maxLinkCount + 1 by decide)
  have noIds : sts.listIDAllocationHead = [] := by
    rw [filled.ids]
    rfl
  have got := filled.getLink (by decide)
  simp only [StSock.createLink, StSock.addList, StSock.clear, noIds] at got
  refine ⟨sts, _, ran, got, filled.ports 4096 (Nat.le_refl _), ?_, ?_⟩
  · simp only [StSock.free, Function.update_self]
  · intro consistent
    obtain ⟨chain, linked, -⟩ := consistent.chained 4096 (by decide)
    simp only [StSock.free, Function.update_self] at linked
    obtain ⟨next, rest, -, stored, -⟩ := Chain.some_iff.mp linked
    simp [StSock.next] at stored

end UtilsModules.Udp

import UtilsModules.Library.Chain
import UtilsModules.Library.Transition
import UtilsModules.Udp.Registry

/-!
The tables of a socket show a registry.

`get_link` and `del_list` are followed through the arrays, the lists and the
chains of `st_sock`: they are `enroll` and `retire` of the registry, as long as an
id is free for a link that is made and its port has an entry.
-/

namespace UtilsModules.Udp

/-- What a link in memory is registered under; a link that `del_list` has marked
is registered under nothing. -/
def SLink.key? (link : SLink) : Option Key :=
  if link.linkState = -1 then none else some ⟨link.socket, link.ip, link.port, link.id⟩

namespace StSock

def next (sts : StSock) (pslink : Nat) : Option (Option Nat) :=
  (sts.memory pslink).map SLink.samePortNext

structure Shows (sts : StSock) (registry : Registry) : Prop where
  socket : sts.socket = registry.socket
  links : ∀ address, (sts.memory address).map SLink.key? = registry.links address
  list : sts.list = registry.list
  retired : sts.listFreeHead = registry.retired
  ids : sts.listIDAllocationHead = registry.ids
  entries : sts.pLinkIDArray = registry.entries
  chain : ∀ port < portEntries,
    Chain sts.next (sts.pLinkPortArray port) (registry.chains port)

variable {sts : StSock} {registry : Registry}

namespace Shows

theorem stored (shown : sts.Shows registry) {address : Nat} {key : Key}
    (live : registry.Live address key) :
    ∃ link, sts.memory address = some link ∧ link.linkState ≠ -1 ∧ link.socket = key.socket ∧
      link.ip = key.ip ∧ link.port = key.port ∧ link.id = key.id := by
  have links := shown.links address
  rw [live, Option.map_eq_some_iff] at links
  obtain ⟨link, stored, hasKey⟩ := links
  unfold SLink.key? at hasKey
  split at hasKey
  · cases hasKey
  · next notDeleted =>
    obtain rfl := Option.some.inj hasKey
    exact ⟨link, stored, notDeleted, rfl, rfl, rfl, rfl⟩

theorem chained (shown : sts.Shows registry) (sound : registry.Sound) {port address : Nat}
    (membership : address ∈ registry.chains port) :
    ∃ link key, sts.memory address = some link ∧ registry.Live address key ∧
      link.ip = key.ip ∧ link.socket = sts.socket ∧ key.port = port := by
  obtain ⟨key, live, samePort⟩ := sound.member port address membership
  obtain ⟨link, stored, -, socket, ip, -, -⟩ := shown.stored live
  refine ⟨link, key, stored, live, ip, ?_, samePort⟩
  rw [socket, (sound.placed address key live).1, shown.socket]

end Shows

/-- The walk of `get_link` finds the link with the address, or ends at the last
link of the chain. -/
theorem walkChain_spec {memory : Nat → Option SLink} {start : Nat} {nodes : List Nat} (ip : Nat)
    (chain : Chain (fun address => (memory address).map SLink.samePortNext) (some start) nodes)
    {fuel : Nat} (enough : nodes.length ≤ fuel) :
    (∃ address link, address ∈ nodes ∧ memory address = some link ∧ link.ip = ip ∧
      walkChain memory ip fuel start = some (.found address)) ∨
    (∀ address ∈ nodes, ∀ link, memory address = some link → link.ip ≠ ip) ∧
      ∃ last, nodes.getLast? = some last ∧
        walkChain memory ip fuel start = some (.last last) := by
  induction fuel generalizing start nodes with
  | zero =>
      obtain ⟨after, rest, rfl, -, -⟩ := Chain.some_iff.mp chain
      cases enough
  | succ fuel inductionHypothesis =>
      obtain ⟨after, rest, rfl, linked, tail⟩ := Chain.some_iff.mp chain
      obtain ⟨link, stored, rfl⟩ := Option.map_eq_some_iff.mp linked
      simp only [walkChain, stored]
      split
      · next same => exact .inl ⟨start, link, by simp, stored, same, rfl⟩
      · next different =>
        have here : ∀ other, memory start = some other → other.ip ≠ ip := by
          intro other otherStored
          obtain rfl := Option.some.inj (stored.symm.trans otherStored)
          exact different
        cases following : link.samePortNext with
        | none =>
            rw [following, Chain.none_iff] at tail
            subst tail
            exact .inr ⟨by simpa using here, start, rfl, rfl⟩
        | some second =>
            rw [following] at tail
            rcases inductionHypothesis tail (Nat.le_of_succ_le_succ enough) with
              ⟨address, found, membership, foundStored, same, walked⟩ | ⟨unlike, last, isLast, walked⟩
            · exact .inl ⟨address, found, by simp [membership], foundStored, same, walked⟩
            · refine .inr ⟨?_, last, ?_, walked⟩
              · intro address membership
                rcases List.mem_cons.mp membership with rfl | later
                · exact here
                · exact unlike address later
              · obtain ⟨_, others, rfl, -, -⟩ := Chain.some_iff.mp tail
                rw [List.getLast?_cons_cons]
                exact isLast

theorem links_modify {change : SLink → SLink} (sameKey : ∀ link, (change link).key? = link.key?)
    (sts : StSock) (pslink address : Nat) :
    ((sts.modify pslink change).memory address).map SLink.key? =
      (sts.memory address).map SLink.key? := by
  unfold modify
  by_cases same : address = pslink
  · subst same
    simp only [Function.update_self, Option.map_map]
    congr 1
    funext link
    exact sameKey link
  · simp only [Function.update_of_ne same]

theorem next_modify_of_ne {change : SLink → SLink} (sts : StSock) {pslink address : Nat}
    (different : address ≠ pslink) : (sts.modify pslink change).next address = sts.next address := by
  simp only [next, modify, Function.update_of_ne different]

theorem next_setNext_self {pslink : Nat} {link : SLink} (stored : sts.memory pslink = some link)
    (after : Option Nat) : (sts.setNext pslink after).next pslink = some after := by
  simp [next, setNext, modify, stored]

namespace Shows

theorem chain_length (shown : sts.Shows registry) (sound : registry.Sound) {port : Nat}
    (hasEntry : port < portEntries) : (registry.chains port).length ≤ sts.list.length := by
  have nodup := (shown.chain port hasEntry).nodup
  have members : registry.chains port ⊆ registry.list := by
    intro address membership
    obtain ⟨key, live, -⟩ := sound.member port address membership
    exact (sound.live address).mpr ⟨key, live⟩
  rw [shown.list]
  exact (List.subperm_of_subset nodup members).length_le

theorem fresh_chain (shown : sts.Shows registry) {port new : Nat} (hasEntry : port < portEntries)
    (fresh : sts.memory new = none) : new ∉ registry.chains port := by
  intro membership
  obtain ⟨after, linked⟩ := (shown.chain port hasEntry).stored membership
  rw [next, fresh] at linked
  cases linked

end Shows

/-- The tables while a link is made: the pointer to it hangs at the end of the
chain of its port. -/
structure Hangs (sts : StSock) (registry : Registry) (new port : Nat) : Prop where
  socket : sts.socket = registry.socket
  links : ∀ address, (sts.memory address).map SLink.key? = registry.links address
  list : sts.list = registry.list
  retired : sts.listFreeHead = registry.retired
  ids : sts.listIDAllocationHead = registry.ids
  entries : sts.pLinkIDArray = registry.entries
  chain : ∀ other < portEntries,
    Chain (Function.update sts.next new (some none)) (sts.pLinkPortArray other)
      (Function.update registry.chains port (registry.chains port ++ [new]) other)

namespace Shows

theorem chain_of_ne (shown : sts.Shows registry) (sound : registry.Sound) {new port other : Nat}
    {changed : Nat → Option (Option Nat)} (hasEntry : other < portEntries)
    (different : other ≠ port) (fresh : sts.memory new = none)
    (same : ∀ address, address ∉ registry.chains port → address ≠ new →
      changed address = sts.next address) :
    Chain changed (sts.pLinkPortArray other) (registry.chains other) := by
  apply (shown.chain other hasEntry).congr
  intro address membership
  apply same
  · exact fun here => different (sound.port_unique membership here)
  · rintro rfl
    exact shown.fresh_chain hasEntry fresh membership

theorem hangs_first (shown : sts.Shows registry) (sound : registry.Sound) {new port : Nat}
    (hasEntry : port < portEntries) (fresh : sts.memory new = none)
    (noChain : sts.pLinkPortArray port = none) :
    Hangs { sts with pLinkPortArray := Function.update sts.pLinkPortArray port (some new) }
      registry new port where
  socket := shown.socket
  links := shown.links
  list := shown.list
  retired := shown.retired
  ids := shown.ids
  entries := shown.entries
  chain := by
    intro other otherEntry
    by_cases same : other = port
    · subst same
      have empty : registry.chains other = [] := by
        have chain := shown.chain other hasEntry
        rw [noChain, Chain.none_iff] at chain
        exact chain
      simp only [Function.update_self, empty, List.nil_append]
      exact .cons (Function.update_self ..) .nil
    · simp only [Function.update_of_ne same]
      apply shown.chain_of_ne sound otherEntry same fresh
      intro address _ different
      exact Function.update_of_ne different ..

theorem hangs_last (shown : sts.Shows registry) (sound : registry.Sound) {new port last : Nat}
    (hasEntry : port < portEntries) (fresh : sts.memory new = none)
    (isLast : (registry.chains port).getLast? = some last) :
    (sts.setNext last (some new)).Hangs registry new port where
  socket := shown.socket
  links := by
    intro address
    rw [← shown.links address, setNext]
    apply links_modify
    intro link
    rfl
  list := shown.list
  retired := shown.retired
  ids := shown.ids
  entries := shown.entries
  chain := by
    have inChain := List.mem_of_getLast? isLast
    obtain ⟨link, key, stored, -⟩ := shown.chained sound inChain
    have lastOld : last ≠ new := by
      rintro rfl
      rw [fresh] at stored
      cases stored
    intro other otherEntry
    by_cases same : other = port
    · subst same
      rw [Function.update_self]
      apply (shown.chain other hasEntry).append isLast (shown.fresh_chain hasEntry fresh)
      · rw [Function.update_of_ne lastOld]
        exact next_setNext_self stored _
      · exact Function.update_self ..
      · intro address membership different
        have old : address ≠ new := by
          rintro rfl
          exact shown.fresh_chain hasEntry fresh membership
        rw [Function.update_of_ne old]
        exact next_modify_of_ne sts different
    · rw [Function.update_of_ne same]
      apply shown.chain_of_ne sound otherEntry same fresh
      intro address elsewhere different
      rw [Function.update_of_ne different]
      apply next_modify_of_ne
      rintro rfl
      exact elsewhere inChain

end Shows

theorem Hangs.createLink {new port ip id : Nat} {rest : List Nat}
    (hangs : sts.Hangs registry new port) (ids : registry.ids = id :: rest) :
    ∃ after, sts.createLink ip port (some new) = (after, some new) ∧
      after.Shows (registry.enroll new ⟨registry.socket, ip, port, id⟩) := by
  have stored : (sts.clear new ip port).listIDAllocationHead = id :: rest := hangs.ids.trans ids
  simp only [StSock.createLink, addList, stored]
  refine ⟨_, rfl, ?_⟩
  constructor
  case socket => exact hangs.socket
  case links =>
    intro address
    by_cases same : address = new
    · subst same
      simp [modify, clear, Registry.enroll, SLink.key?, hangs.socket]
    · simp only [modify, clear, Registry.enroll, Function.update_of_ne same]
      exact hangs.links address
  case list =>
    simp only [modify, clear, Registry.enroll, hangs.list]
  case retired => exact hangs.retired
  case ids => simp [Registry.enroll, ids]
  case entries =>
    simp only [modify, clear, Registry.enroll, hangs.entries]
  case chain =>
    intro other hasEntry
    apply (hangs.chain other hasEntry).congr
    intro address _
    by_cases same : address = new
    · subst same
      simp [next, modify, clear]
    · simp only [next, modify, clear, Function.update_of_ne same]

inductive Gets (sts : StSock) (registry : Registry) (ip port : Nat) (type : PacketType)
    (malloc : Option Nat) : StSock → Option Nat → Prop where
  | known (address : Nat) (key : Key) : registry.Live address key → key.ip = ip →
      key.port = port → Gets sts registry ip port type malloc sts (some address)
  | refused : registry.Unknown ip port → ¬ sts.Creates type ∨ malloc = none →
      Gets sts registry ip port type malloc sts none
  | created (new id : Nat) (rest : List Nat) (after : StSock) : registry.Unknown ip port →
      malloc = some new → registry.ids = id :: rest →
      after.Shows (registry.enroll new ⟨registry.socket, ip, port, id⟩) →
      Gets sts registry ip port type malloc after (some new)

namespace Shows

theorem unknown_of_none (shown : sts.Shows registry) (sound : registry.Sound) {port : Nat}
    (hasEntry : port < portEntries) (noChain : sts.pLinkPortArray port = none) (ip : Nat) :
    registry.Unknown ip port := by
  rintro address key live ⟨-, rfl⟩
  have chain := shown.chain key.port hasEntry
  rw [noChain, Chain.none_iff] at chain
  have chained := (sound.placed address key live).2.2.2.2
  rw [chain] at chained
  cases chained

theorem unknown_of_chain (shown : sts.Shows registry) (sound : registry.Sound) {ip port : Nat}
    (unlike : ∀ address ∈ registry.chains port, ∀ link, sts.memory address = some link →
      link.ip ≠ ip) : registry.Unknown ip port := by
  rintro address key live ⟨rfl, rfl⟩
  obtain ⟨link, stored, -, -, sameIp, -⟩ := shown.stored live
  exact unlike address (sound.placed address key live).2.2.2.2 link stored sameIp

/-- The end of both branches of `get_link`, where no link has been found. -/
theorem creation {ip port : Nat} {type : PacketType} {malloc : Option Nat}
    (linked : Option Nat → StSock) (unknown : registry.Unknown ip port)
    (failed : linked none = sts)
    (hangs : ∀ new, sts.memory new = none → (linked (some new)).Hangs registry new port)
    (fresh : ∀ new ∈ malloc, sts.memory new = none)
    (room : sts.Creates type → malloc ≠ none → registry.ids ≠ []) :
    ∃ after answer,
      (if sts.Creates type then (linked malloc).createLink ip port malloc else (sts, none)) =
        (after, answer) ∧
      sts.Gets registry ip port type malloc after answer := by
  split
  · next creates =>
    cases malloc with
    | none =>
        rw [failed]
        exact ⟨sts, none, rfl, .refused unknown (.inr rfl)⟩
    | some new =>
        obtain ⟨id, rest, ids⟩ := List.exists_cons_of_ne_nil (room creates (by simp))
        obtain ⟨after, created, shownAfter⟩ := (hangs new (fresh new rfl)).createLink ids
        exact ⟨after, some new, created, .created new id rest after unknown rfl ids shownAfter⟩
  · next creates => exact ⟨sts, none, rfl, .refused unknown (.inl creates)⟩

theorem setNext_none {last : Nat} (ends : sts.next last = some none) :
    sts.setNext last none = sts := by
  obtain ⟨link, stored, noNext⟩ := Option.map_eq_some_iff.mp ends
  have unchanged : ({ link with samePortNext := none } : SLink) = link := by
    rw [← noNext]
  simp only [setNext, modify, stored, Option.map_some, unchanged]
  rw [← stored, Function.update_eq_self]

theorem getLink (shown : sts.Shows registry) (sound : registry.Sound) {ip port : Nat}
    {type : PacketType} {malloc : Option Nat} (hasEntry : port < portEntries)
    (fresh : ∀ new ∈ malloc, sts.memory new = none)
    (room : registry.Unknown ip port → sts.Creates type → malloc ≠ none → registry.ids ≠ []) :
    ∃ after answer, sts.getLink ip port type malloc = some (after, answer) ∧
      sts.Gets registry ip port type malloc after answer := by
  unfold StSock.getLink
  rw [if_neg (Nat.not_le.mpr hasEntry)]
  cases first : sts.pLinkPortArray port with
  | none =>
      have unknown := shown.unknown_of_none sound hasEntry first ip
      have failed : { sts with pLinkPortArray := Function.update sts.pLinkPortArray port none } =
          sts := by
        rw [← first, Function.update_eq_self]
      obtain ⟨after, answer, created, gets⟩ := creation (fun new =>
        { sts with pLinkPortArray := Function.update sts.pLinkPortArray port new })
        unknown failed (fun new newFresh => shown.hangs_first sound hasEntry newFresh first)
        fresh (room unknown)
      refine ⟨after, answer, ?_, gets⟩
      rw [← created]
      simp only [apply_ite some]
  | some start =>
      have chain := shown.chain port hasEntry
      rw [first] at chain
      have enough : (registry.chains port).length ≤ sts.chainBound := by
        have := shown.chain_length sound hasEntry
        rw [chainBound]
        omega
      rcases walkChain_spec ip chain enough with
        ⟨address, link, membership, stored, rfl, walked⟩ | ⟨unlike, last, isLast, walked⟩
      · obtain ⟨found, key, foundStored, live, sameIp, -, samePort⟩ :=
          shown.chained sound membership
        obtain rfl := Option.some.inj (stored.symm.trans foundStored)
        refine ⟨sts, some address, ?_, .known address key live sameIp.symm samePort⟩
        simp only [walked, Option.map_some]
      · have unknown := shown.unknown_of_chain sound unlike
        obtain ⟨after, answer, created, gets⟩ := creation (sts.setNext last) unknown
          (setNext_none (chain.ends isLast))
          (fun new newFresh => shown.hangs_last sound hasEntry newFresh isLast) fresh (room unknown)
        refine ⟨after, answer, ?_, gets⟩
        simp only [walked, Option.map_some, created]

end Shows

/-- Links are led past others: none changes what it is registered under, and the lists
and the ids stay. -/
structure Relinked (sts after : StSock) : Prop where
  same : { after with memory := sts.memory, pLinkPortArray := sts.pLinkPortArray } = sts
  links : ∀ address, (after.memory address).map SLink.key? = (sts.memory address).map SLink.key?

theorem relinked_setNext (sts : StSock) (pslink : Nat) (after : Option Nat) :
    sts.Relinked (sts.setNext pslink after) := by
  refine ⟨rfl, fun address => ?_⟩
  rw [setNext]
  apply links_modify
  intro link
  rfl

theorem unchainLoop_relinked {ip start : Nat} {after : StSock} {fuel : Nat}
    (unchained : sts.unchainLoop ip fuel start = some after) : sts.Relinked after := by
  induction fuel generalizing start with
  | zero => cases unchained
  | succ fuel inductionHypothesis =>
      unfold unchainLoop at unchained
      split at unchained
      · cases unchained
      · split at unchained
        · obtain rfl := Option.some.inj unchained
          exact ⟨rfl, fun _ => rfl⟩
        · split at unchained
          · cases unchained
          · split at unchained
            · obtain rfl := Option.some.inj unchained
              exact relinked_setNext sts start _
            · exact inductionHypothesis unchained

theorem unchain_relinked {link : SLink} {after : StSock} (unchained : sts.unchain link = some after) :
    sts.Relinked after := by
  unfold unchain at unchained
  split at unchained
  · cases unchained
  · split at unchained
    · obtain rfl := Option.some.inj unchained
      exact ⟨rfl, fun _ => rfl⟩
    · split at unchained
      · cases unchained
      · split at unchained
        · obtain rfl := Option.some.inj unchained
          exact ⟨rfl, fun _ => rfl⟩
        · exact unchainLoop_relinked unchained

/-- The loop of `del_list` leads the predecessor of the link past it. -/
theorem unchainLoop_spec {ip target start : Nat} {nodes : List Nat} {after : Option Nat}
    (chain : Chain sts.next (some start) nodes) (membership : target ∈ nodes)
    (notFirst : target ≠ start) (follows : sts.next target = some after)
    (only : ∀ address ∈ nodes, ∀ link, sts.memory address = some link →
      (link.ip = ip ∧ link.socket = sts.socket ↔ address = target))
    {fuel : Nat} (enough : nodes.length ≤ fuel) :
    ∃ before previous rest, nodes = before ++ previous :: target :: rest ∧
      sts.unchainLoop ip fuel start = some (sts.setNext previous after) := by
  induction fuel generalizing start nodes with
  | zero =>
      rw [Nat.le_zero, List.length_eq_zero_iff] at enough
      rw [enough] at membership
      cases membership
  | succ fuel inductionHypothesis =>
      obtain ⟨second, rest, rfl, linked, tail⟩ := Chain.some_iff.mp chain
      obtain ⟨link, stored, rfl⟩ := Option.map_eq_some_iff.mp linked
      have later : target ∈ rest := (List.mem_cons.mp membership).resolve_left notFirst
      simp only [unchainLoop, stored]
      cases following : link.samePortNext with
      | none =>
          rw [following, Chain.none_iff] at tail
          rw [tail] at later
          cases later
      | some second =>
          rw [following] at tail
          obtain ⟨third, others, rfl, secondLinked, -⟩ := Chain.some_iff.mp tail
          obtain ⟨secondLink, secondStored, rfl⟩ := Option.map_eq_some_iff.mp secondLinked
          have isTarget := only second (by simp) secondLink secondStored
          simp only [secondStored]
          split
          · next same =>
            obtain rfl := isTarget.mp same
            obtain rfl := Option.some.inj (secondLinked.symm.trans follows)
            exact ⟨[], start, others, rfl, rfl⟩
          · next different =>
            have notSecond : target ≠ second := fun same => different (isTarget.mpr same.symm)
            obtain ⟨before, previous, rest, split, unchained⟩ := inductionHypothesis tail later
              notSecond (fun address here => only address (by simp [here]))
              (Nat.le_of_succ_le_succ enough)
            exact ⟨start :: before, previous, rest, by rw [split, List.cons_append], unchained⟩

/-- A link leaves its chain and nothing else is touched. -/
structure Unchained (sts after : StSock) (port target : Nat) (nodes : List Nat) : Prop
    extends sts.Relinked after where
  chain : Chain after.next (after.pLinkPortArray port) (nodes.erase target)
  others : ∀ other, other ≠ port → after.pLinkPortArray other = sts.pLinkPortArray other
  apart : ∀ address, address ∉ nodes → after.memory address = sts.memory address

theorem unchain_spec {link : SLink} {target : Nat} {nodes : List Nat}
    (hasEntry : link.port < portEntries)
    (chain : Chain sts.next (sts.pLinkPortArray link.port) nodes) (membership : target ∈ nodes)
    (only : ∀ address ∈ nodes, ∀ other, sts.memory address = some other →
      (other.ip = link.ip ∧ other.socket = sts.socket ↔ address = target))
    (enough : nodes.length ≤ sts.chainBound) :
    ∃ after, sts.unchain link = some after ∧ sts.Unchained after link.port target nodes := by
  unfold unchain
  rw [if_neg (Nat.not_le.mpr hasEntry)]
  cases first : sts.pLinkPortArray link.port with
  | none =>
      rw [first, Chain.none_iff] at chain
      rw [chain] at membership
      cases membership
  | some start =>
      rw [first] at chain
      obtain ⟨second, rest, nodesEq, linked, tail⟩ := Chain.some_iff.mp chain
      obtain ⟨startLink, stored, rfl⟩ := Option.map_eq_some_iff.mp linked
      have isTarget := only start (by simp [nodesEq]) startLink stored
      simp only [stored]
      split
      · next same =>
        obtain rfl := isTarget.mp same
        refine ⟨_, rfl, ⟨rfl, fun _ => rfl⟩, ?_, ?_, fun _ _ => rfl⟩
        · rw [nodesEq, List.erase_cons_head]
          simp only [Function.update_self]
          exact tail
        · intro other different
          exact Function.update_of_ne different ..
      · next different =>
        have notFirst : target ≠ start := fun same => different (isTarget.mpr same.symm)
        obtain ⟨after, follows⟩ := chain.stored membership
        obtain ⟨before, previous, others, splitting, unchained⟩ :=
          unchainLoop_spec chain membership notFirst follows only enough
        refine ⟨_, unchained, unchainLoop_relinked unchained, ?_, fun _ _ => rfl, ?_⟩
        · have sameStart : (sts.setNext previous after).pLinkPortArray link.port = some start :=
            first
          obtain ⟨previousAfter, previousLinked⟩ := chain.stored
            (show previous ∈ nodes by simp [splitting])
          obtain ⟨previousLink, previousStored, -⟩ := Option.map_eq_some_iff.mp previousLinked
          rw [sameStart]
          apply chain.erase splitting follows (next_setNext_self previousStored after)
          intro address _ otherwise
          exact next_modify_of_ne sts otherwise
        · intro address elsewhere
          have : address ≠ previous := by
            rintro rfl
            exact elsewhere (by simp [splitting])
          simp only [setNext, modify, Function.update_of_ne this]

theorem next_modify_same {change : SLink → SLink}
    (sameNext : ∀ link, (change link).samePortNext = link.samePortNext) (sts : StSock)
    (pslink : Nat) : (sts.modify pslink change).next = sts.next := by
  funext address
  by_cases same : address = pslink
  · subst same
    simp only [next, modify, Function.update_self, Option.map_map]
    congr 1
    funext link
    exact sameNext link
  · exact next_modify_of_ne sts same

namespace Shows

theorem chain_only (shown : sts.Shows registry) (sound : registry.Sound) {target : Nat}
    {key : Key} (live : registry.Live target key) :
    ∀ address ∈ registry.chains key.port, ∀ link, sts.memory address = some link →
      (link.ip = key.ip ∧ link.socket = sts.socket ↔ address = target) := by
  intro address membership link stored
  obtain ⟨other, otherKey, otherStored, otherLive, otherIp, otherSocket, otherPort⟩ :=
    shown.chained sound membership
  obtain rfl := Option.some.inj (stored.symm.trans otherStored)
  constructor
  · rintro ⟨sameIp, -⟩
    exact sound.distinct address target otherKey key otherLive live (otherIp.symm.trans sameIp)
      otherPort
  · rintro rfl
    exact ⟨by rw [otherIp, otherLive.unique live], otherSocket⟩

def withdraw (sts : StSock) (pslink id : Nat) : StSock :=
  StSock.listErase { sts with pLinkIDArray := Function.update sts.pLinkIDArray id none } pslink

theorem withdraw_retire (shown : sts.Shows registry) (sound : registry.Sound) {target : Nat}
    {key : Key} {after : StSock} (live : registry.Live target key)
    (effect : (withdraw sts target key.id).Unchained after key.port target
      (registry.chains key.port)) :
    (after.retire target key.id).Shows (registry.retire target key) := by
  have notRetired : target ∉ sts.listFreeHead := by
    rw [shown.retired, sound.waiting target, live]
    simp
  have keys : ∀ address, (after.memory address).map SLink.key? = registry.links address :=
    fun address => (effect.links address).trans (shown.links address)
  have sameNext : (after.retire target key.id).next = after.next := by
    apply next_modify_same
    intro link
    rfl
  constructor
  case socket => exact (congrArg StSock.socket effect.same).trans shown.socket
  case links =>
    intro address
    simp only [StSock.retire, modify, Registry.retire]
    by_cases same : address = target
    · subst same
      obtain ⟨link, stored, -⟩ := Option.map_eq_some_iff.mp ((keys address).trans live)
      simp [stored, SLink.key?]
    · rw [Function.update_of_ne same, Function.update_of_ne same]
      exact keys address
  case list =>
    have erased : after.list = sts.list.erase target := congrArg StSock.list effect.same
    simp only [StSock.retire, modify, Registry.retire, erased, shown.list]
  case retired =>
    have kept : after.listFreeHead = sts.listFreeHead :=
      (congrArg StSock.listFreeHead effect.same).trans (List.erase_of_not_mem notRetired)
    simp only [StSock.retire, modify, Registry.retire, kept, shown.retired]
  case ids =>
    have kept := congrArg StSock.listIDAllocationHead effect.same
    simp only [StSock.retire, modify, Registry.retire, ← shown.ids]
    exact congrArg (· ++ [key.id]) kept
  case entries =>
    have cleared : after.pLinkIDArray = Function.update sts.pLinkIDArray key.id none :=
      congrArg StSock.pLinkIDArray effect.same
    simp only [StSock.retire, modify, Registry.retire, cleared, shown.entries]
  case chain =>
    intro port hasEntry
    rw [sameNext]
    simp only [Registry.retire]
    by_cases same : port = key.port
    · subst same
      rw [Function.update_self]
      exact effect.chain
    · have elsewhere : after.pLinkPortArray port = sts.pLinkPortArray port :=
        effect.others port same
      simp only [StSock.retire, modify, Function.update_of_ne same, elsewhere]
      apply (shown.chain port hasEntry).congr
      intro address membership
      have apart := effect.apart address fun here => same (sound.port_unique membership here)
      simp only [next, apart]
      rfl

theorem delList (shown : sts.Shows registry) (sound : registry.Sound) {target : Nat} {key : Key}
    (live : registry.Live target key) :
    ∃ after, sts.delList target = some (after, true) ∧
      after.Shows (registry.retire target key) := by
  obtain ⟨link, stored, -, -, sameIp, samePort, sameId⟩ := shown.stored live
  obtain ⟨-, hasEntry, bounded, entry, chained⟩ := sound.placed target key live
  have accepted : ¬ (link.id > maxLinkCount ∨ sts.pLinkIDArray link.id = none) := by
    rw [sameId, shown.entries, entry]
    simpa using bounded
  have bound : (registry.chains key.port).length ≤ (withdraw sts target link.id).chainBound := by
    have listed : target ∈ sts.list := by
      rw [shown.list]
      exact (sound.live target).mpr ⟨key, live⟩
    have shorter := shown.chain_length sound hasEntry
    have erased := List.length_erase_of_mem listed
    simp only [withdraw, chainBound, listErase]
    omega
  obtain ⟨after, unchained, effect⟩ := @unchain_spec (withdraw sts target link.id) link target
    (registry.chains key.port) (samePort ▸ hasEntry) (samePort ▸ shown.chain key.port hasEntry)
    chained (sameIp ▸ shown.chain_only sound live) bound
  rw [samePort, sameId] at effect
  refine ⟨after.retire target key.id, ?_, shown.withdraw_retire sound live effect⟩
  simp only [StSock.delList, stored, if_neg accepted]
  rw [withdraw] at unchained
  rw [unchained, Option.map_some, sameId]

theorem freeFirst (shown : sts.Shows registry) (sound : registry.Sound) :
    sts.freeFirst = sts ∨ ∃ address, registry.links address = some none ∧
      sts.freeFirst.Shows (registry.release address) := by
  cases waiting : sts.listFreeHead with
  | nil => exact .inl (by simp [StSock.freeFirst, waiting])
  | cons address rest =>
      have retired : registry.links address = some none := by
        rw [← sound.waiting, ← shown.retired, waiting]
        simp
      have notListed : address ∉ sts.list := by
        rw [shown.list, sound.live]
        rintro ⟨key, live⟩
        rw [Registry.Live, retired] at live
        cases live
      refine .inr ⟨address, retired, ?_⟩
      simp only [StSock.freeFirst, waiting]
      constructor
      case socket => exact shown.socket
      case links =>
        intro other
        simp only [free, listErase, Registry.release]
        by_cases same : other = address
        · subst same
          simp
        · rw [Function.update_of_ne same, Function.update_of_ne same]
          exact shown.links other
      case list =>
        have kept : sts.list.erase address = registry.list :=
          (List.erase_of_not_mem notListed).trans shown.list
        simp only [free, listErase, Registry.release, kept]
      case retired => simp only [free, listErase, Registry.release, shown.retired]
      case ids => exact shown.ids
      case entries => exact shown.entries
      case chain =>
        intro port hasEntry
        apply (shown.chain port hasEntry).congr
        intro other membership
        have different : other ≠ address := by
          rintro rfl
          obtain ⟨key, live, -⟩ := sound.member port other membership
          rw [Registry.Live, retired] at live
          cases live
        simp only [next, free, listErase, Function.update_of_ne different]

end Shows

end StSock

end UtilsModules.Udp

import Mathlib.Data.List.Nodup
import Mathlib.Data.List.Perm.Basic
import UtilsModules.Udp.Sock

/-!
What the tables of a socket are for: a registry of live links.

A registry knows every link by its address.  It takes in a link under a free id,
retires a live link and releases a retired one.  `Sound` is the consistency of
the tables; the three moves keep it.
-/

namespace UtilsModules.Udp

structure Key where
  socket : Nat
  ip : Nat
  port : Nat
  id : Nat
  deriving DecidableEq, Repr

/-- The tables of a socket.  `links` has `some (some key)` at a live link and
`some none` at a link that waits to be freed. -/
structure Registry where
  socket : Nat
  links : Nat → Option (Option Key)
  list : List Nat
  retired : List Nat
  ids : List Nat
  entries : Nat → Option Nat
  chains : Nat → List Nat

namespace Registry

def Live (registry : Registry) (address : Nat) (key : Key) : Prop :=
  registry.links address = some (some key)

structure Sound (registry : Registry) : Prop where
  live : ∀ address, address ∈ registry.list ↔ ∃ key, registry.Live address key
  waiting : ∀ address, address ∈ registry.retired ↔ registry.links address = some none
  nodup : registry.list.Nodup
  retiredNodup : registry.retired.Nodup
  placed : ∀ address key, registry.Live address key →
    key.socket = registry.socket ∧ key.port < portEntries ∧ key.id ≤ maxLinkCount ∧
      registry.entries key.id = some address ∧ address ∈ registry.chains key.port
  entry : ∀ id address, registry.entries id = some address →
    ∃ key, registry.Live address key ∧ key.id = id
  member : ∀ port address, address ∈ registry.chains port →
    ∃ key, registry.Live address key ∧ key.port = port
  distinct : ∀ first second firstKey secondKey, registry.Live first firstKey →
    registry.Live second secondKey → firstKey.ip = secondKey.ip →
    firstKey.port = secondKey.port → first = second
  idsNodup : registry.ids.Nodup
  free : ∀ id, id ∈ registry.ids ↔ id ≤ maxLinkCount ∧ registry.entries id = none

def empty (socket : Nat) : Registry where
  socket := socket
  links := fun _ => none
  list := []
  retired := []
  ids := List.range (maxLinkCount + 1)
  entries := fun _ => none
  chains := fun _ => []

/-- A link enters under the first free id. -/
def enroll (registry : Registry) (address : Nat) (key : Key) : Registry :=
  { registry with
    links := Function.update registry.links address (some (some key))
    list := registry.list ++ [address]
    ids := registry.ids.tail
    entries := Function.update registry.entries key.id (some address)
    chains := Function.update registry.chains key.port (registry.chains key.port ++ [address]) }

def retire (registry : Registry) (address : Nat) (key : Key) : Registry :=
  { registry with
    links := Function.update registry.links address (some none)
    list := registry.list.erase address
    retired := registry.retired ++ [address]
    ids := registry.ids ++ [key.id]
    entries := Function.update registry.entries key.id none
    chains := Function.update registry.chains key.port
      ((registry.chains key.port).erase address) }

def release (registry : Registry) (address : Nat) : Registry :=
  { registry with
    links := Function.update registry.links address none
    retired := registry.retired.erase address }

theorem sound_empty (socket : Nat) : (empty socket).Sound where
  live := by simp [empty, Live]
  waiting := by simp [empty]
  nodup := List.nodup_nil
  retiredNodup := List.nodup_nil
  placed := by simp [empty, Live]
  entry := by simp [empty]
  member := by simp [empty]
  distinct := by simp [empty, Live]
  idsNodup := by
    simp only [empty]
    exact List.nodup_range
  free := by
    intro id
    simp only [empty, List.mem_range, Nat.lt_succ_iff, and_true]

variable {registry : Registry}

theorem live_enroll_iff {address other : Nat} {key otherKey : Key} :
    (registry.enroll address key).Live other otherKey ↔
      other = address ∧ otherKey = key ∨ other ≠ address ∧ registry.Live other otherKey := by
  unfold Live enroll
  by_cases same : other = address
  · subst same
    simp [eq_comm]
  · simp [same]

theorem live_retire_iff {address other : Nat} {key otherKey : Key} :
    (registry.retire address key).Live other otherKey ↔
      other ≠ address ∧ registry.Live other otherKey := by
  unfold Live retire
  by_cases same : other = address
  · subst same
    simp
  · simp [same]

theorem Live.enroll {address other : Nat} {key otherKey : Key}
    (live : registry.Live other otherKey) (fresh : registry.links address = none) :
    (registry.enroll address key).Live other otherKey := by
  apply live_enroll_iff.mpr
  refine .inr ⟨?_, live⟩
  rintro rfl
  cases fresh.symm.trans live

theorem entries_enroll_iff {address other id : Nat} {key : Key} :
    (registry.enroll address key).entries id = some other ↔
      id = key.id ∧ other = address ∨ id ≠ key.id ∧ registry.entries id = some other := by
  unfold enroll
  by_cases same : id = key.id
  · subst same
    simp [eq_comm]
  · simp [same]

theorem mem_chains_enroll_iff {address other port : Nat} {key : Key} :
    other ∈ (registry.enroll address key).chains port ↔
      other ∈ registry.chains port ∨ port = key.port ∧ other = address := by
  unfold enroll
  by_cases same : port = key.port
  · subst same
    simp
  · simp [same]

theorem entries_retire_iff {address other id : Nat} {key : Key} :
    (registry.retire address key).entries id = some other ↔
      id ≠ key.id ∧ registry.entries id = some other := by
  unfold retire
  by_cases same : id = key.id
  · subst same
    simp
  · simp [same]

theorem mem_chains_retire_iff {address other port : Nat} {key : Key}
    (nodup : (registry.chains key.port).Nodup) :
    other ∈ (registry.retire address key).chains port ↔
      other ∈ registry.chains port ∧ (port = key.port → other ≠ address) := by
  unfold retire
  by_cases same : port = key.port
  · subst same
    simp [nodup.mem_erase_iff, and_comm]
  · simp [same]

theorem live_release_iff {address other : Nat} {otherKey : Key}
    (waiting : registry.links address = some none) :
    (registry.release address).Live other otherKey ↔ registry.Live other otherKey := by
  unfold Live release
  by_cases same : other = address
  · subst same
    simp [waiting]
  · simp [Function.update_of_ne same]

theorem Live.unique {address : Nat} {first second : Key} (one : registry.Live address first)
    (other : registry.Live address second) : first = second :=
  Option.some.inj (Option.some.inj (Eq.trans (Eq.symm one) other))

def Unknown (registry : Registry) (ip port : Nat) : Prop :=
  ∀ address key, registry.Live address key → ¬ (key.ip = ip ∧ key.port = port)

namespace Sound

theorem id_injective (sound : registry.Sound) {first second : Nat} {firstKey secondKey : Key}
    (one : registry.Live first firstKey) (other : registry.Live second secondKey)
    (same : firstKey.id = secondKey.id) : first = second := by
  obtain ⟨-, -, -, firstEntry, -⟩ := sound.placed first firstKey one
  obtain ⟨-, -, -, secondEntry, -⟩ := sound.placed second secondKey other
  rw [same, secondEntry] at firstEntry
  exact (Option.some.inj firstEntry).symm

theorem port_unique (sound : registry.Sound) {address first second : Nat}
    (one : address ∈ registry.chains first) (other : address ∈ registry.chains second) :
    first = second := by
  obtain ⟨firstKey, firstLive, rfl⟩ := sound.member first address one
  obtain ⟨secondKey, secondLive, rfl⟩ := sound.member second address other
  rw [firstLive.unique secondLive]

theorem placed_enroll (sound : registry.Sound) {address other : Nat} {key otherKey : Key}
    (freeId : key.id ≤ maxLinkCount ∧ registry.entries key.id = none)
    (socket : key.socket = registry.socket) (port : key.port < portEntries)
    (live : (registry.enroll address key).Live other otherKey) :
    otherKey.socket = registry.socket ∧ otherKey.port < portEntries ∧
      otherKey.id ≤ maxLinkCount ∧
      (registry.enroll address key).entries otherKey.id = some other ∧
      other ∈ (registry.enroll address key).chains otherKey.port := by
  rw [entries_enroll_iff, mem_chains_enroll_iff]
  rcases live_enroll_iff.mp live with ⟨rfl, rfl⟩ | ⟨-, live⟩
  · exact ⟨socket, port, freeId.1, .inl ⟨rfl, rfl⟩, .inr ⟨rfl, rfl⟩⟩
  · obtain ⟨otherSocket, otherPort, bounded, entry, chained⟩ := sound.placed other otherKey live
    refine ⟨otherSocket, otherPort, bounded, .inr ⟨?_, entry⟩, .inl chained⟩
    intro same
    rw [same, freeId.2] at entry
    cases entry

theorem distinct_enroll (sound : registry.Sound) {address first second : Nat}
    {key firstKey secondKey : Key} (unknown : registry.Unknown key.ip key.port)
    (one : (registry.enroll address key).Live first firstKey)
    (two : (registry.enroll address key).Live second secondKey)
    (sameIp : firstKey.ip = secondKey.ip) (samePort : firstKey.port = secondKey.port) :
    first = second := by
  rcases live_enroll_iff.mp one with ⟨rfl, rfl⟩ | ⟨-, old⟩
  · rcases live_enroll_iff.mp two with ⟨rfl, rfl⟩ | ⟨-, live⟩
    · rfl
    · exact absurd ⟨sameIp.symm, samePort.symm⟩ (unknown second secondKey live)
  · rcases live_enroll_iff.mp two with ⟨-, rfl⟩ | ⟨-, live⟩
    · exact absurd ⟨sameIp, samePort⟩ (unknown first firstKey old)
    · exact sound.distinct first second firstKey secondKey old live sameIp samePort

theorem free_enroll (sound : registry.Sound) {key : Key} {rest : List Nat}
    (ids : registry.ids = key.id :: rest) (address id : Nat) :
    id ∈ (registry.enroll address key).ids ↔
      id ≤ maxLinkCount ∧ (registry.enroll address key).entries id = none := by
  have nodup := sound.idsNodup
  have old := sound.free id
  rw [ids, List.nodup_cons] at nodup
  simp only [Registry.enroll, ids, List.tail_cons, List.mem_cons] at old ⊢
  by_cases same : id = key.id
  · rw [same, Function.update_self]
    simp [nodup.1]
  · rw [Function.update_of_ne same]
    simpa [same] using old

theorem enroll (sound : registry.Sound) {address : Nat} {key : Key} {rest : List Nat}
    (fresh : registry.links address = none) (ids : registry.ids = key.id :: rest)
    (socket : key.socket = registry.socket) (port : key.port < portEntries)
    (unknown : registry.Unknown key.ip key.port) : (registry.enroll address key).Sound := by
  have newLive : (registry.enroll address key).Live address key :=
    live_enroll_iff.mpr (.inl ⟨rfl, rfl⟩)
  have freeId := (sound.free key.id).mp (by simp [ids])
  constructor
  case live =>
    intro other
    simp only [Registry.enroll, List.mem_append, List.mem_singleton, sound.live]
    constructor
    · rintro (⟨otherKey, live⟩ | rfl)
      · exact ⟨otherKey, live.enroll fresh⟩
      · exact ⟨key, newLive⟩
    · rintro ⟨otherKey, live⟩
      rcases live_enroll_iff.mp live with ⟨rfl, -⟩ | ⟨-, live⟩
      · exact .inr rfl
      · exact .inl ⟨otherKey, live⟩
  case waiting =>
    intro other
    simp only [Registry.enroll, sound.waiting]
    by_cases same : other = address
    · subst same
      simp [fresh]
    · rw [Function.update_of_ne same]
  case nodup =>
    apply List.nodup_append.mpr
    refine ⟨sound.nodup, by simp, ?_⟩
    rintro other membership new isNew rfl
    obtain ⟨otherKey, live⟩ := (sound.live other).mp membership
    rw [List.mem_singleton.mp isNew] at live
    cases fresh.symm.trans live
  case retiredNodup => exact sound.retiredNodup
  case placed => exact fun other otherKey => sound.placed_enroll freeId socket port
  case entry =>
    intro id other entry
    rcases entries_enroll_iff.mp entry with ⟨rfl, rfl⟩ | ⟨-, old⟩
    · exact ⟨key, newLive, rfl⟩
    · obtain ⟨otherKey, live, named⟩ := sound.entry id other old
      exact ⟨otherKey, live.enroll fresh, named⟩
  case member =>
    intro otherPort other membership
    rcases mem_chains_enroll_iff.mp membership with chained | ⟨rfl, rfl⟩
    · obtain ⟨otherKey, live, named⟩ := sound.member otherPort other chained
      exact ⟨otherKey, live.enroll fresh, named⟩
    · exact ⟨key, newLive, rfl⟩
  case distinct => exact fun _ _ _ _ => sound.distinct_enroll unknown
  case idsNodup => exact sound.idsNodup.tail
  case free => exact sound.free_enroll ids address

theorem retire (sound : registry.Sound) {address : Nat} {key : Key}
    (live : registry.Live address key)
    (chainNodup : (registry.chains key.port).Nodup) : (registry.retire address key).Sound := by
  obtain ⟨-, -, bounded, entryHere, -⟩ := sound.placed address key live
  constructor
  case live =>
    intro other
    simp only [live_retire_iff, exists_and_left]
    simp only [Registry.retire, sound.nodup.mem_erase_iff, sound.live]
  case waiting =>
    intro other
    simp only [Registry.retire, List.mem_append, List.mem_singleton, sound.waiting]
    by_cases same : other = address
    · subst same
      simp
    · simp [same]
  case nodup => exact sound.nodup.erase address
  case retiredNodup =>
    apply List.nodup_append.mpr
    refine ⟨sound.retiredNodup, by simp, ?_⟩
    intro other membership new isNew same
    have waiting := (sound.waiting other).mp membership
    rw [same, List.mem_singleton.mp isNew, live] at waiting
    cases waiting
  case placed =>
    intro other otherKey otherLive
    obtain ⟨different, otherLive⟩ := live_retire_iff.mp otherLive
    obtain ⟨socket, port, otherBounded, entry, chained⟩ := sound.placed other otherKey otherLive
    rw [entries_retire_iff, mem_chains_retire_iff chainNodup]
    refine ⟨socket, port, otherBounded, ⟨?_, entry⟩, chained, fun _ => different⟩
    exact fun same => different (sound.id_injective otherLive live same)
  case entry =>
    intro id other entry
    obtain ⟨different, old⟩ := entries_retire_iff.mp entry
    obtain ⟨otherKey, otherLive, named⟩ := sound.entry id other old
    refine ⟨otherKey, live_retire_iff.mpr ⟨?_, otherLive⟩, named⟩
    rintro rfl
    exact different (named ▸ congrArg Key.id (otherLive.unique live))
  case member =>
    intro port other membership
    obtain ⟨chained, different⟩ := (mem_chains_retire_iff chainNodup).mp membership
    obtain ⟨otherKey, otherLive, named⟩ := sound.member port other chained
    refine ⟨otherKey, live_retire_iff.mpr ⟨?_, otherLive⟩, named⟩
    rintro rfl
    exact different (named ▸ congrArg Key.port (otherLive.unique live)) rfl
  case distinct =>
    intro first second firstKey secondKey firstLive secondLive
    exact sound.distinct first second firstKey secondKey (live_retire_iff.mp firstLive).2
      (live_retire_iff.mp secondLive).2
  case idsNodup =>
    apply List.nodup_append.mpr
    refine ⟨sound.idsNodup, by simp, ?_⟩
    intro id membership new isNew same
    have unused := ((sound.free id).mp membership).2
    rw [same, List.mem_singleton.mp isNew, entryHere] at unused
    cases unused
  case free =>
    intro id
    simp only [Registry.retire, List.mem_append, List.mem_singleton, sound.free]
    by_cases same : id = key.id
    · simp [same, bounded]
    · simp [same]

theorem release (sound : registry.Sound) {address : Nat}
    (waiting : registry.links address = some none) : (registry.release address).Sound := by
  have lives := fun other otherKey =>
    @live_release_iff registry address other otherKey waiting
  constructor
  case live =>
    simp only [lives]
    exact sound.live
  case waiting =>
    intro other
    simp only [Registry.release, sound.retiredNodup.mem_erase_iff, sound.waiting]
    by_cases same : other = address
    · simp [same]
    · simp [same]
  case nodup => exact sound.nodup
  case retiredNodup => exact sound.retiredNodup.erase address
  case placed =>
    simp only [lives]
    exact sound.placed
  case entry =>
    simp only [lives]
    exact sound.entry
  case member =>
    simp only [lives]
    exact sound.member
  case distinct =>
    simp only [lives]
    exact sound.distinct
  case idsNodup => exact sound.idsNodup
  case free => exact sound.free

end Sound

end Registry

end UtilsModules.Udp

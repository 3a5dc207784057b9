import UtilsModules.Datastruct.Idr
import UtilsModules.Library.Chain
import UtilsModules.Library.Radix

/-!
The layers of `struct idr` in memory, as a tree over the numbers.

A position of height zero is a number; a layer of height `h` stands at a position
of height `h + 1` and has an entry for each of 64 positions of height `h`.
-/

namespace UtilsModules.Datastruct

variable {Address : Type}

/-! ## Bits -/

namespace IdrLayer

variable {layer : IdrLayer Address} {n m : Nat}

theorem getLsbD_setBit (small : m < 64) :
    (layer.setBit n).bitmap.getLsbD m = (layer.bitmap.getLsbD m || decide (n = m)) := by
  simp only [setBit, BitVec.getLsbD_or, BitVec.getLsbD_twoPow]
  by_cases same : n = m
  · simp [same, small]
  · simp [same]

theorem getLsbD_clearBit (small : m < 64) :
    (layer.clearBit n).bitmap.getLsbD m = (layer.bitmap.getLsbD m && !decide (n = m)) := by
  simp only [clearBit, BitVec.getLsbD_and, BitVec.getLsbD_not, BitVec.getLsbD_twoPow, small,
    decide_true, Bool.true_and]
  by_cases same : n = m
  · simp [same, small]
  · simp [same]

theorem bitmap_full_iff : layer.bitmap = idrFull ↔ ∀ m < 64, layer.bitmap.getLsbD m = true := by
  constructor
  · intro full m small
    rw [full, idrFull, BitVec.getLsbD_allOnes, decide_eq_true small]
  · intro all
    apply BitVec.eq_of_getLsbD_eq
    intro m small
    rw [all m small, idrFull, BitVec.getLsbD_allOnes, decide_eq_true small]

/-- Apart from its link a cleared layer is like a new one. -/
theorem setAry_zero (noBits : layer.bitmap = 0) (noCount : layer.count = 0)
    (empty : ∀ m, m ≠ 0 → layer.ary m = none) (link : Option Address) :
    layer.setAry 0 link = zero.setAry 0 link := by
  unfold setAry zero
  rw [noBits, noCount]
  congr 1
  funext m
  by_cases first : m = 0
  · rw [first, Function.update_self, Function.update_self]
  · rw [Function.update_of_ne first, Function.update_of_ne first, empty m first]

end IdrLayer

theorem findNextBit_cases (bm : BitVec 64) (offset : Nat) :
    (findNextBit bm offset = idrSize ∧ ∀ m, offset ≤ m → m < 64 → bm.getLsbD m = false) ∨
      (findNextBit bm offset < idrSize ∧ offset ≤ findNextBit bm offset ∧
        bm.getLsbD (findNextBit bm offset) = true ∧
          ∀ m, offset ≤ m → m < findNextBit bm offset → bm.getLsbD m = false) := by
  unfold findNextBit idrSize
  cases found : (List.range' offset (64 - offset)).find? fun n => bm.getLsbD n with
  | none =>
      left
      refine ⟨rfl, fun m after small => ?_⟩
      have := List.find?_eq_none.mp found m (List.mem_range'_1.mpr ⟨after, by omega⟩)
      simpa using this
  | some n =>
      right
      obtain ⟨set, within, before⟩ := List.find?_range'_eq_some.mp found
      rw [List.mem_range'_1] at within
      refine ⟨by simp; omega, within.1, set, fun m after below => ?_⟩
      simpa using before m after below

/-! ## The tree -/

/-- Where the layers are, what the users have stored, which entries are marked as
full and by how much the counts are too high. -/
structure IdrTree (Address : Type) where
  node : Nat → Nat → Option Address
  value : Nat → Option (Option Address)
  marked : Nat → Nat → Prop
  excess : Nat → Nat → Int

def IdrTree.entry (tree : IdrTree Address) : Nat → Nat → Option (Option Address)
  | 0, id => tree.value id
  | h + 1, q => (tree.node h q).map some

def IdrTree.root (tree : IdrTree Address) : Nat → Option Address
  | 0 => none
  | h + 1 => tree.node h 0

/-- The layers lie on the ways from the root to the entries, each at an address of
its own. -/
structure IdrTree.Shaped (tree : IdrTree Address) (layers : Nat) : Prop where
  above : ∀ h pos, (tree.entry h pos).isSome →
    (h < layers ∧ (tree.node h (pos / 64)).isSome) ∨ (h = layers ∧ 0 < h ∧ pos = 0)
  grown : 0 < layers → (tree.node (layers - 1) 0).isSome
  distinct : ∀ h q other otherPos a, tree.node h q = some a → tree.node other otherPos = some a →
    h = other ∧ q = otherPos

structure IdrLayer.Shows (layer : IdrLayer Address) (entries : Nat → Option (Option Address))
    (marked : Nat → Prop) (excess : Int) : Prop where
  ary : ∀ m < 64, layer.ary m = (entries m).join
  rest : ∀ m, 64 ≤ m → layer.ary m = none
  bitmap : ∀ m < 64, layer.bitmap.getLsbD m = true ↔ marked m
  count : layer.count = ((List.range 64).countP fun m => (entries m).isSome : Nat) + excess

/-- The free layers are chained through their first pointers and empty
otherwise. -/
structure Idr.FreeList (idp : Idr Address) (free : List Address) : Prop where
  chain : Chain (fun a => (idp.memory a).map fun layer => layer.ary 0) idp.idFree free
  zeroed : ∀ a ∈ free, ∃ link, idp.memory a = some (IdrLayer.zero.setAry 0 link)
  counted : idp.idFreeCnt = (free.length : Int)

/-- The tree lies in memory.  The layers outside it are free, or have been taken
from the free ones and not been linked yet. -/
structure Idr.Laid (idp : Idr Address) (tree : IdrTree Address) (free loose : List Address) :
    Prop where
  shaped : tree.Shaped idp.layers
  small : idp.layers ≤ 5
  rooted : idp.top = tree.root idp.layers
  shows : ∀ h q a, tree.node h q = some a → ∃ layer, idp.memory a = some layer ∧
    layer.Shows (fun m => tree.entry h (64 * q + m)) (fun m => tree.marked h (64 * q + m))
      (tree.excess h q)
  unused : idp.FreeList free
  fresh : ∀ a ∈ loose, idp.memory a = some .zero ∧ a ∉ free
  apart : ∀ a, a ∈ free ∨ a ∈ loose → ∀ h q, tree.node h q ≠ some a
  kept : ∀ a layer, idp.memory a = some layer →
    (a ∈ free ∨ a ∈ loose) ∨ ∃ h q, tree.node h q = some a

def Present (value : Nat → Option (Option Address)) (id : Nat) : Prop := (value id).isSome

/-- The tree between the calls: the full entries are marked and the counts are
right. -/
def IdrTree.between (node : Nat → Nat → Option Address) (value : Nat → Option (Option Address)) :
    IdrTree Address :=
  ⟨node, value, Radix.Full 64 (Present value), fun _ _ => 0⟩

/-- What holds between the calls. -/
def Idr.Sound (idp : Idr Address) (node : Nat → Nat → Option Address)
    (value : Nat → Option (Option Address)) (free : List Address) : Prop :=
  idp.Laid (.between node value) free []

namespace IdrTree

variable {tree changed : IdrTree Address} {layers h pos : Nat}

theorem isSome_entry_succ : (tree.entry (h + 1) pos).isSome = (tree.node h pos).isSome := by
  simp [entry]

theorem join_entry_succ : (tree.entry (h + 1) pos).join = tree.node h pos := by
  cases here : tree.node h pos with
  | none => simp [entry, here]
  | some a => simp [entry, here]

namespace Shaped

theorem ancestor (shaped : tree.Shaped layers) (occupied : (tree.entry h pos).isSome) (up : Nat)
    (inside : h + up ≤ layers) : (tree.entry (h + up) (pos / 64 ^ up)).isSome := by
  induction up with
  | zero => simpa using occupied
  | succ up inductionHypothesis =>
      rcases shaped.above _ _ (inductionHypothesis (by omega)) with ⟨-, present⟩ | ⟨top, -, -⟩
      · rw [← Nat.add_assoc, isSome_entry_succ, Radix.div_pow_succ]
        exact present
      · omega

theorem height_le (shaped : tree.Shaped layers) (occupied : (tree.entry h pos).isSome) :
    h ≤ layers := by
  rcases shaped.above _ _ occupied with ⟨below, -⟩ | ⟨top, -⟩ <;> omega

theorem position_lt (shaped : tree.Shaped layers) (occupied : (tree.entry h pos).isSome) :
    pos < 64 ^ (layers - h) := by
  have inside := shaped.height_le occupied
  have top := shaped.ancestor occupied (layers - h) (by omega)
  rw [Nat.add_sub_cancel' inside] at top
  rcases shaped.above _ _ top with ⟨below, -⟩ | ⟨-, -, first⟩
  · exact absurd below (Nat.lt_irrefl _)
  · have positive : 64 ^ (layers - h) ≠ 0 := Nat.pos_iff_ne_zero.mp (Nat.pow_pos (by decide))
    exact (Nat.div_eq_zero_iff.mp first).resolve_left positive

theorem node_lt (shaped : tree.Shaped layers) {q : Nat} {a : Address}
    (here : tree.node h q = some a) : h < layers :=
  @height_le _ tree layers (h + 1) q shaped (by rw [isSome_entry_succ, here]; rfl)

theorem none_below (shaped : tree.Shaped layers) {height up : Nat} (inside : height < layers)
    (missing : tree.node height (pos / 64 ^ up) = none) (heights : h + up = height + 1) :
    tree.entry h pos = none := by
  by_contra occupied
  have present := shaped.ancestor (Option.isSome_iff_ne_none.mpr occupied) up (by omega)
  rw [heights, isSome_entry_succ, missing] at present
  cases present

theorem node_of_present (shaped : tree.Shaped layers) {id : Nat} (present : (tree.value id).isSome)
    (inside : h < layers) : ∃ a, tree.node h (id / 64 ^ (h + 1)) = some a := by
  have above := @ancestor _ tree layers 0 id shaped present (h + 1) (by omega)
  rw [Nat.zero_add, isSome_entry_succ] at above
  exact Option.isSome_iff_exists.mp above

theorem top_pos (shaped : tree.Shaped (h + 1)) {a : Address} (here : tree.node h pos = some a) :
    pos = 0 := by
  have small := @position_lt _ tree (h + 1) (h + 1) pos shaped
    (by rw [isSome_entry_succ, here]; rfl)
  rwa [Nat.sub_self, Nat.pow_zero, Nat.lt_one_iff] at small

theorem none_of_zero (shaped : tree.Shaped 0) : tree.entry h pos = none := by
  by_contra occupied
  rcases shaped.above h pos (Option.isSome_iff_ne_none.mpr occupied) with
    ⟨below, -⟩ | ⟨rfl, positive, -⟩
  · exact absurd below (Nat.not_lt_zero h)
  · exact absurd positive (Nat.lt_irrefl 0)

/-- Below a top layer without entries there is nothing. -/
theorem none_of_vacant (shaped : tree.Shaped (h + 1))
    (vacant : ∀ m < 64, tree.entry h m = none) {height : Nat} (below : height ≤ h) :
    tree.entry height pos = none := by
  by_contra occupied
  have above := shaped.ancestor (Option.isSome_iff_ne_none.mpr occupied) (h - height) (by omega)
  rw [Nat.add_sub_cancel' below] at above
  have small := shaped.position_lt above
  rw [Nat.add_sub_cancel_left, Nat.pow_one] at small
  rw [vacant _ small] at above
  cases above

theorem value_none (shaped : tree.Shaped layers) {id : Nat} (large : 64 ^ layers ≤ id) :
    tree.value id = none := by
  by_contra present
  have := @position_lt _ tree layers 0 id shaped (Option.isSome_iff_ne_none.mpr present)
  rw [Nat.sub_zero] at this
  omega

end Shaped

end IdrTree

namespace IdrLayer.Shows

variable {layer : IdrLayer Address} {entries changed : Nat → Option (Option Address)}
  {marked : Nat → Prop} {excess : Int}

theorem of_none (empty : ∀ m < 64, entries m = none) (unmarked : ∀ m < 64, ¬ marked m) :
    (zero : IdrLayer Address).Shows entries marked 0 where
  ary m small := by
    rw [empty m small]
    rfl
  rest _ _ := rfl
  bitmap m small := by
    have := unmarked m small
    simp [zero, this]
  count := by
    have none : (List.range 64).countP (fun m => (entries m).isSome) = 0 := by
      rw [List.countP_eq_zero]
      intro m within
      simp [empty m (List.mem_range.mp within)]
    simp [zero, none]

theorem eq_none_of_count (shows : layer.Shows entries marked 0) (zero : layer.count = 0) :
    ∀ m < 64, entries m = none := by
  have none : (List.range 64).countP (fun m => (entries m).isSome) = 0 := by
    have := shows.count
    omega
  intro m small
  simpa using List.countP_eq_zero.mp none m (List.mem_range.mpr small)

theorem ary_none (shows : layer.Shows entries marked excess)
    (empty : ∀ m < 64, m ≠ 0 → entries m = none) (m : Nat) (notFirst : m ≠ 0) :
    layer.ary m = none := by
  by_cases small : m < 64
  · rw [shows.ary m small, empty m small notFirst]
    rfl
  · exact shows.rest m (by omega)

theorem bitmap_zero (shows : layer.Shows entries marked excess)
    (unmarked : ∀ m < 64, ¬ marked m) : layer.bitmap = 0 := by
  apply BitVec.eq_of_getLsbD_eq
  intro m small
  have := (shows.bitmap m small).not.mpr (unmarked m small)
  simpa using this

end IdrLayer.Shows

theorem countP_range_update {size n : Nat} {before after : Nat → Bool} (small : n < size)
    (was : before n = false) (becomes : after n = true)
    (same : ∀ m < size, m ≠ n → after m = before m) :
    (List.range size).countP after = (List.range size).countP before + 1 := by
  induction size with
  | zero => omega
  | succ size inductionHypothesis =>
      rw [List.range_succ, List.countP_append, List.countP_append]
      by_cases last : n = size
      · have early : (List.range size).countP after = (List.range size).countP before := by
          apply List.countP_congr
          intro m within
          have := List.mem_range.mp within
          rw [same m (by omega) (by omega)]
        rw [early, ← last]
        simp [was, becomes]
      · rw [inductionHypothesis (by omega) fun m inside => same m (by omega),
          List.countP_singleton, List.countP_singleton, same size (by omega) (Ne.symm last)]
        omega

theorem IdrLayer.Shows.congr {layer : IdrLayer Address}
    {entries changed : Nat → Option (Option Address)} {marked remarked : Nat → Prop}
    {excess other : Int} (shows : layer.Shows entries marked excess)
    (sameEntries : ∀ m < 64, changed m = entries m) (sameMarks : ∀ m < 64, remarked m ↔ marked m)
    (sameExcess : other = excess) : layer.Shows changed remarked other where
  ary m small := by rw [shows.ary m small, sameEntries m small]
  rest := shows.rest
  bitmap m small := (shows.bitmap m small).trans (sameMarks m small).symm
  count := by
    rw [shows.count, sameExcess]
    congr 2
    apply List.countP_congr
    intro m within
    rw [sameEntries m (List.mem_range.mp within)]

namespace IdrTree

def place (tree : IdrTree Address) (h q : Nat) (a : Option Address) : IdrTree Address :=
  { tree with node := fun height pos =>
      if height = h ∧ pos = q then a else tree.node height pos }

variable {tree : IdrTree Address} {h q height pos : Nat} {a : Option Address}

theorem node_place : (tree.place h q a).node height pos =
    if height = h ∧ pos = q then a else tree.node height pos := rfl

theorem entry_place : (tree.place h q a).entry height pos =
    if height = h + 1 ∧ pos = q then a.map some else tree.entry height pos := by
  cases height with
  | zero => simp [entry, place]
  | succ height =>
      simp only [entry, node_place, Nat.add_right_cancel_iff]
      split <;> rfl

theorem root_place {layers : Nat} (below : h + 1 < layers) :
    (tree.place h q a).root layers = tree.root layers := by
  cases layers with
  | zero => rfl
  | succ layers =>
      rw [root, root, node_place, if_neg]
      omega

/-- The layer at a position is gone, and the count of the one above is to follow. -/
def unlinked (tree : IdrTree Address) (h q : Nat) : IdrTree Address :=
  { tree.place h q none with
    excess := fun height pos => if height = h + 1 ∧ pos = q / 64
      then tree.excess height pos + 1 else tree.excess height pos }

theorem node_unlinked : (tree.unlinked h q).node height pos =
    if height = h ∧ pos = q then none else tree.node height pos := rfl

theorem entry_unlinked : (tree.unlinked h q).entry height pos =
    if height = h + 1 ∧ pos = q then none else tree.entry height pos := by
  refine Eq.trans ?_ (@entry_place _ tree h q height pos none)
  cases height with
  | zero => rfl
  | succ height => rfl

theorem Shaped.unlinked {layers : Nat} (shaped : (tree.place h q none).Shaped layers) :
    (tree.unlinked h q).Shaped layers where
  above height pos occupied := by
    rw [entry_unlinked] at occupied
    exact shaped.above height pos (by rwa [entry_place])
  grown := shaped.grown
  distinct := shaped.distinct

end IdrTree

namespace IdrLayer.Shows

variable {layer : IdrLayer Address} {entries changed : Nat → Option (Option Address)}
  {marked : Nat → Prop} {excess : Int} {n : Nat} {x : Option Address}

theorem put (shows : layer.Shows entries marked excess) (small : n < 64)
    (vacant : entries n = none) (filled : changed n = some x)
    (same : ∀ m < 64, m ≠ n → changed m = entries m) :
    IdrLayer.Shows { layer.setAry n x with count := layer.count + 1 } changed marked excess where
  ary m inside := by
    by_cases here : m = n
    · subst here
      simp [setAry, filled]
    · simp only [setAry, Function.update_of_ne here]
      rw [shows.ary m inside, same m inside here]
  rest m outside := by
    simp only [setAry, Function.update_of_ne (show m ≠ n by omega)]
    exact shows.rest m outside
  bitmap := shows.bitmap
  count := by
    have more := @countP_range_update 64 n (fun m => (entries m).isSome)
      (fun m => (changed m).isSome) small (by simp [vacant]) (by simp [filled])
      fun m inside apart => by simp only [same m inside apart]
    simp only [shows.count, more]
    omega

theorem drop (shows : layer.Shows entries marked excess) (small : n < 64)
    (filled : entries n = some x) (vacant : changed n = none)
    (same : ∀ m < 64, m ≠ n → changed m = entries m) :
    (layer.setAry n none).Shows changed marked (excess + 1) where
  ary m inside := by
    by_cases here : m = n
    · subst here
      simp [setAry, vacant]
    · simp only [setAry, Function.update_of_ne here]
      rw [shows.ary m inside, same m inside here]
  rest m outside := by
    simp only [setAry, Function.update_of_ne (show m ≠ n by omega)]
    exact shows.rest m outside
  bitmap := shows.bitmap
  count := by
    have more := @countP_range_update 64 n (fun m => (changed m).isSome)
      (fun m => (entries m).isSome) small (by simp [vacant]) (by simp [filled])
      fun m inside apart => by simp only [same m inside apart]
    simp only [setAry, shows.count, more]
    omega

theorem setBit (shows : layer.Shows entries marked excess) (n : Nat) (remarked : Nat → Prop)
    (more : ∀ m < 64, remarked m ↔ marked m ∨ m = n) :
    (layer.setBit n).Shows entries remarked excess where
  ary := shows.ary
  rest := shows.rest
  bitmap m small := by
    rw [getLsbD_setBit small, Bool.or_eq_true, decide_eq_true_iff, shows.bitmap m small,
      more m small, eq_comm (a := n)]
  count := shows.count

theorem clearBit (shows : layer.Shows entries marked excess) (n : Nat) (remarked : Nat → Prop)
    (fewer : ∀ m < 64, remarked m ↔ marked m ∧ m ≠ n) :
    (layer.clearBit n).Shows entries remarked excess where
  ary := shows.ary
  rest := shows.rest
  bitmap m small := by
    rw [getLsbD_clearBit small, Bool.and_eq_true, Bool.not_eq_true', decide_eq_false_iff_not,
      shows.bitmap m small, fewer m small, eq_comm (a := n)]
  count := shows.count

theorem decrease (shows : layer.Shows entries marked excess) :
    IdrLayer.Shows { layer with count := layer.count - 1 } entries marked (excess - 1) where
  ary := shows.ary
  rest := shows.rest
  bitmap := shows.bitmap
  count := by
    simp only [shows.count]
    omega

end IdrLayer.Shows

namespace IdrTree.Shaped

variable {tree : IdrTree Address} {layers h pos : Nat} {new : Address}

theorem isSome_place {height other : Nat} (present : (tree.node height other).isSome) :
    ((tree.place h pos (some new)).node height other).isSome := by
  rw [node_place]
  split
  · rfl
  · exact present

theorem distinct_place (shaped : tree.Shaped layers)
    (apart : ∀ height other, tree.node height other ≠ some new)
    {height other second otherSecond : Nat} {a : Address}
    (one : (tree.place h pos (some new)).node height other = some a)
    (two : (tree.place h pos (some new)).node second otherSecond = some a) :
    height = second ∧ other = otherSecond := by
  rw [node_place] at one two
  split at one
  · next same =>
      split at two
      · next sameToo => exact ⟨same.1.trans sameToo.1.symm, same.2.trans sameToo.2.symm⟩
      · exact absurd (two.trans one.symm) (apart _ _)
  · split at two
    · exact absurd (one.trans two.symm) (apart _ _)
    · exact shaped.distinct _ _ _ _ _ one two

theorem place (shaped : tree.Shaped layers) (parent : (tree.node (h + 1) (pos / 64)).isSome)
    (apart : ∀ height other, tree.node height other ≠ some new) :
    (tree.place h pos (some new)).Shaped layers where
  above := by
    obtain ⟨p, here⟩ := Option.isSome_iff_exists.mp parent
    have inside := shaped.node_lt here
    intro height other occupied
    rw [entry_place] at occupied
    split at occupied
    · next same =>
        obtain ⟨rfl, rfl⟩ := same
        exact .inl ⟨inside, isSome_place parent⟩
    · rcases shaped.above height other occupied with ⟨lower, present⟩ | top
      · exact .inl ⟨lower, isSome_place present⟩
      · exact .inr top
  grown positive := isSome_place (shaped.grown positive)
  distinct _ _ _ _ _ := shaped.distinct_place apart

theorem raise (shaped : tree.Shaped layers)
    (apart : ∀ height other, tree.node height other ≠ some new) :
    (tree.place layers 0 (some new)).Shaped (layers + 1) where
  above := by
    intro height other occupied
    rw [entry_place] at occupied
    split at occupied
    · next same => exact .inr ⟨same.1, by omega, same.2⟩
    · rcases shaped.above height other occupied with ⟨lower, present⟩ | ⟨rfl, -, rfl⟩
      · exact .inl ⟨by omega, isSome_place present⟩
      · refine .inl ⟨by omega, ?_⟩
        rw [node_place, if_pos ⟨rfl, rfl⟩]
        rfl
  grown _ := by
    rw [Nat.add_sub_cancel, node_place, if_pos ⟨rfl, rfl⟩]
    rfl
  distinct _ _ _ _ _ := shaped.distinct_place apart

theorem remove (shaped : tree.Shaped layers) (inside : h + 1 < layers)
    (empty : ∀ m < 64, tree.entry h (64 * pos + m) = none) :
    (tree.place h pos none).Shaped layers where
  above := by
    intro height other occupied
    rw [entry_place] at occupied
    split at occupied
    · cases occupied
    · rcases shaped.above height other occupied with ⟨lower, present⟩ | top
      · refine .inl ⟨lower, ?_⟩
        rw [node_place, if_neg]
        · exact present
        · rintro ⟨rfl, rfl⟩
          have vacant := empty (other % 64) (Nat.mod_lt _ (by decide))
          rw [Radix.position_eq] at vacant
          rw [vacant] at occupied
          cases occupied
      · exact .inr top
  grown positive := by
    rw [node_place, if_neg (by omega)]
    exact shaped.grown positive
  distinct := by
    intro height other second otherSecond a one two
    rw [node_place] at one two
    split at one
    · cases one
    · split at two
      · cases two
      · exact shaped.distinct _ _ _ _ _ one two

end IdrTree.Shaped

/-- Only the marks below the top layer are kept in memory. -/
theorem Idr.Laid.congr_marked {idp : Idr Address} {tree : IdrTree Address}
    {free loose : List Address} (laid : idp.Laid tree free loose) {marked : Nat → Nat → Prop}
    (same : ∀ h pos, h < idp.layers → (marked h pos ↔ tree.marked h pos)) :
    idp.Laid { tree with marked := marked } free loose where
  shaped := by
    refine ⟨?_, laid.shaped.grown, laid.shaped.distinct⟩
    intro h pos occupied
    refine laid.shaped.above h pos ?_
    cases h with
    | zero => exact occupied
    | succ h => exact occupied
  small := laid.small
  rooted := by
    rw [laid.rooted]
    cases idp.layers with
    | zero => rfl
    | succ layers => rfl
  shows := by
    intro h q a here
    obtain ⟨layer, stored, shown⟩ := laid.shows h q a here
    refine ⟨layer, stored, shown.congr (fun m _ => ?_) (fun m _ => ?_) rfl⟩
    · cases h with
      | zero => rfl
      | succ h => rfl
    · exact same h _ (laid.shaped.node_lt here)
  unused := laid.unused
  fresh := laid.fresh
  apart := laid.apart
  kept := laid.kept

namespace Idr.Laid

variable {idp : Idr Address} {tree changed : IdrTree Address} {free loose : List Address}
  {h pos height position : Nat} {put : Option Address} {a b p new other : Address}
  {layer : IdrLayer Address}

theorem kept_elsewhere (laid : idp.Laid tree free loose)
    (nodes : ∀ height position, changed.node height position =
      if height = h ∧ position = pos then put else tree.node height position)
    (apart : tree.node h pos ≠ some other) (there : idp.memory other = some layer) :
    (other ∈ free ∨ other ∈ loose) ∨
      ∃ height position, changed.node height position = some other := by
  refine (laid.kept other layer there).imp_right ?_
  rintro ⟨height, position, present⟩
  refine ⟨height, position, ?_⟩
  rw [nodes, if_neg]
  · exact present
  · rintro ⟨rfl, rfl⟩
    exact apart present

theorem apart_put (laid : idp.Laid tree free [new])
    (nodes : ∀ height position, changed.node height position =
      if height = h ∧ position = pos then some new else tree.node height position)
    (outside : other ∈ free ∨ other ∈ ([] : List Address)) :
    changed.node height position ≠ some other := by
  intro there
  rw [nodes] at there
  split at there
  · obtain rfl := Option.some.inj there
    rcases outside with within | within
    · exact (laid.fresh new List.mem_cons_self).2 within
    · cases within
  · exact laid.apart other (outside.imp_right (by simp)) height position there

theorem node_of_removed (laid : idp.Laid tree free loose) (here : tree.node h pos = some p)
    (nodes : ∀ height position, changed.node height position =
      if height = h ∧ position = pos then none else tree.node height position)
    (there : changed.node height position = some b) :
    tree.node height position = some b ∧ ¬ (height = h ∧ position = pos) ∧ b ≠ p := by
  rw [nodes] at there
  split at there
  · cases there
  · next notHere =>
      refine ⟨there, notHere, ?_⟩
      rintro rfl
      exact notHere (laid.shaped.distinct _ _ _ _ _ there here)

theorem apart_removed (laid : idp.Laid tree free []) (here : tree.node h pos = some p)
    (nodes : ∀ height position, changed.node height position =
      if height = h ∧ position = pos then none else tree.node height position)
    (outside : other ∈ p :: free ∨ other ∈ ([] : List Address)) :
    changed.node height position ≠ some other := by
  intro there
  obtain ⟨old, -, notP⟩ := laid.node_of_removed here nodes there
  rcases outside with within | within
  · rcases List.mem_cons.mp within with same | later
    · exact notP same
    · exact laid.apart other (.inl later) height position old
  · cases within

theorem entry_elsewhere {m : Nat} (parent : tree.node (h + 1) (pos / 64) = some a)
    (there : tree.node height position = some b) (apart : b ≠ a) (small : m < 64) :
    ¬ (height = h + 1 ∧ 64 * position + m = pos) := by
  rintro ⟨rfl, rfl⟩
  rw [Radix.child_div small] at parent
  exact apart (Option.some.inj (there.symm.trans parent))

/-- The layer above shows one entry less, which its count still has. -/
theorem shows_unlinked (here : tree.node h pos = some p)
    (shown : layer.Shows (fun m => tree.entry (h + 1) (64 * (pos / 64) + m))
      (fun m => tree.marked (h + 1) (64 * (pos / 64) + m)) (tree.excess (h + 1) (pos / 64))) :
    (layer.setAry (pos % 64) none).Shows
      (fun m => (tree.unlinked h pos).entry (h + 1) (64 * (pos / 64) + m))
      (fun m => (tree.unlinked h pos).marked (h + 1) (64 * (pos / 64) + m))
      ((tree.unlinked h pos).excess (h + 1) (pos / 64)) := by
  have split := Radix.position_eq pos 64
  have more : (tree.unlinked h pos).excess (h + 1) (pos / 64) =
      tree.excess (h + 1) (pos / 64) + 1 := if_pos ⟨rfl, rfl⟩
  rw [more]
  refine shown.drop (n := pos % 64) (x := some p) (Nat.mod_lt _ (by decide)) ?_ ?_ ?_
  · rw [split, IdrTree.entry, here]
    rfl
  · rw [split, IdrTree.entry_unlinked, if_pos ⟨rfl, rfl⟩]
  · intro m small different
    rw [IdrTree.entry_unlinked, if_neg (by omega)]

theorem shows_unlinked_elsewhere (parent : tree.node (h + 1) (pos / 64) = some a)
    (there : tree.node height position = some b) (apart : b ≠ a)
    (shown : layer.Shows (fun m => tree.entry height (64 * position + m))
      (fun m => tree.marked height (64 * position + m)) (tree.excess height position)) :
    layer.Shows (fun m => (tree.unlinked h pos).entry height (64 * position + m))
      (fun m => (tree.unlinked h pos).marked height (64 * position + m))
      ((tree.unlinked h pos).excess height position) := by
  refine shown.congr (fun m small => ?_) (fun m _ => Iff.rfl) ?_
  · rw [IdrTree.entry_unlinked, if_neg (entry_elsewhere parent there apart small)]
  · refine if_neg ?_
    rintro ⟨rfl, rfl⟩
    exact apart (Option.some.inj (there.symm.trans parent))

end Idr.Laid

/-! ## The free layers -/

namespace Idr.FreeList

variable {idp after : Idr Address} {free rest : List Address} {a : Address}

theorem congr (list : idp.FreeList free) (same : ∀ a ∈ free, after.memory a = idp.memory a)
    (start : after.idFree = idp.idFree) (number : after.idFreeCnt = idp.idFreeCnt) :
    after.FreeList free where
  chain := by
    rw [start]
    exact list.chain.congr fun a within => by rw [same a within]
  zeroed a within := by
    rw [same a within]
    exact list.zeroed a within
  counted := number.trans list.counted

variable [DecidableEq Address]

theorem alloc_nil (list : idp.FreeList []) : allocLayer idp = some (idp, none) := by
  have start : idp.idFree = none := by
    have chain := list.chain
    cases idFree : idp.idFree with
    | none => rfl
    | some a =>
        rw [idFree] at chain
        cases chain
  rw [allocLayer, start]

theorem alloc_cons (list : idp.FreeList (a :: rest)) :
    ∃ link, allocLayer idp = some ({ idp with
        memory := Function.update idp.memory a (some .zero)
        idFree := link, idFreeCnt := idp.idFreeCnt - 1 }, some a) ∧
      Idr.FreeList { idp with
        memory := Function.update idp.memory a (some .zero)
        idFree := link, idFreeCnt := idp.idFreeCnt - 1 } rest := by
  obtain ⟨link, stored⟩ := list.zeroed a List.mem_cons_self
  have notIn := (List.nodup_cons.mp list.chain.nodup).1
  obtain ⟨start, linked⟩ : idp.idFree = some a ∧
      Chain (fun a => (idp.memory a).map fun layer => layer.ary 0) link rest := by
    have chain := list.chain
    cases idFree : idp.idFree with
    | none =>
        rw [idFree] at chain
        cases chain
    | some first =>
        rw [idFree] at chain
        obtain ⟨after, others, same, here, linked⟩ := Chain.some_iff.mp chain
        obtain ⟨rfl, rfl⟩ := List.cons.inj same
        rw [stored] at here
        obtain rfl : link = after := by simpa [IdrLayer.setAry] using here
        exact ⟨rfl, linked⟩
  have zeroAgain : ((IdrLayer.zero : IdrLayer Address).setAry 0 link).setAry 0 none = .zero := by
    simp only [IdrLayer.setAry, IdrLayer.zero, Function.update_idem]
    congr 1
    exact Function.update_eq_self 0 _
  refine ⟨link, ?_, ?_, ?_, ?_⟩
  · simp only [allocLayer, start, stored, Idr.assign, Option.bind_eq_bind, Option.bind_some,
      zeroAgain]
    simp [IdrLayer.setAry]
  · refine linked.congr fun other within => ?_
    have apart : other ≠ a := fun same => notIn (same ▸ within)
    simp only [Function.update_of_ne apart]
  · intro other within
    have apart : other ≠ a := fun same => notIn (same ▸ within)
    simp only [Function.update_of_ne apart]
    exact list.zeroed other (List.mem_cons_of_mem _ within)
  · have := list.counted
    simp only [List.length_cons] at this ⊢
    omega

end Idr.FreeList

end UtilsModules.Datastruct

import Mathlib.Algebra.GroupWithZero.Nat
import Mathlib.Data.List.Pairwise
import Mathlib.Order.Interval.Finset.Nat

/-!
Regions of an address space: an address and a size.
-/

/-- The bytes from `address` to below `address + size`. -/
structure Region where
  address : Nat
  size : Nat
  deriving DecidableEq, Repr

namespace Region

def stop (region : Region) : Nat := region.address + region.size

def Within (inner outer : Region) : Prop :=
  outer.address ≤ inner.address ∧ inner.stop ≤ outer.stop

instance (inner outer : Region) : Decidable (inner.Within outer) :=
  inferInstanceAs (Decidable (_ ∧ _))

def Covers (region : Region) (address : Nat) : Prop :=
  region.address ≤ address ∧ address < region.stop

instance (region : Region) (address : Nat) : Decidable (region.Covers address) :=
  inferInstanceAs (Decidable (_ ∧ _))

def Apart (first second : Region) : Prop :=
  first.stop ≤ second.address ∨ second.stop ≤ first.address

instance (first second : Region) : Decidable (first.Apart second) :=
  inferInstanceAs (Decidable (_ ∨ _))

theorem Apart.symm {first second : Region} (apart : first.Apart second) : second.Apart first :=
  Or.symm apart

theorem Apart.mono {first second largerFirst largerSecond : Region}
    (apart : largerFirst.Apart largerSecond) (firstWithin : first.Within largerFirst)
    (secondWithin : second.Within largerSecond) : first.Apart second := by
  rcases apart with before | after
  · exact .inl (Nat.le_trans firstWithin.2 (Nat.le_trans before secondWithin.1))
  · exact .inr (Nat.le_trans secondWithin.2 (Nat.le_trans after firstWithin.1))

/-- The regions have no byte in common; an empty one has none at all. -/
def Separate (first second : Region) : Prop :=
  first.size = 0 ∨ second.size = 0 ∨ first.Apart second

instance (first second : Region) : Decidable (first.Separate second) :=
  inferInstanceAs (Decidable (_ ∨ _ ∨ _))

theorem separate_iff {first second : Region} :
    first.Separate second ↔ ∀ byte, first.Covers byte → ¬ second.Covers byte := by
  constructor
  · intro separate byte inFirst inSecond
    simp only [Separate, Apart, Covers, stop] at *
    omega
  · intro noCommon
    by_contra joint
    have inFirst := noCommon first.address
    have inSecond := noCommon second.address
    simp only [Separate, Apart, Covers, stop] at *
    omega

theorem Separate.symm {first second : Region} (separate : first.Separate second) :
    second.Separate first :=
  separate_iff.mpr fun byte inSecond inFirst => separate_iff.mp separate byte inFirst inSecond

theorem Within.covers {inner outer : Region} (within : inner.Within outer) {byte : Nat}
    (covers : inner.Covers byte) : outer.Covers byte :=
  ⟨Nat.le_trans within.1 covers.1, Nat.lt_of_lt_of_le covers.2 within.2⟩

theorem Separate.mono {first second smallerFirst smallerSecond : Region}
    (separate : first.Separate second) (firstWithin : smallerFirst.Within first)
    (secondWithin : smallerSecond.Within second) : smallerFirst.Separate smallerSecond :=
  separate_iff.mpr fun byte inFirst inSecond =>
    separate_iff.mp separate byte (firstWithin.covers inFirst) (secondWithin.covers inSecond)

theorem Within.refl (region : Region) : region.Within region := ⟨Nat.le_refl _, Nat.le_refl _⟩

theorem Separate.joined {address size more : Nat} {other : Region}
    (separate : Region.Separate ⟨address, size⟩ other)
    (behind : Region.Separate ⟨address + size, more⟩ other) :
    Region.Separate ⟨address, size + more⟩ other := by
  rw [separate_iff] at *
  intro byte covers
  by_cases front : byte < address + size
  · exact separate byte ⟨covers.1, front⟩
  · refine behind byte ⟨Nat.le_of_not_lt front, ?_⟩
    have upper := covers.2
    simp only [stop] at upper ⊢
    omega

def bytes : List Region → Finset Nat
  | [] => ∅
  | region :: rest => Finset.Ico region.address region.stop ∪ bytes rest

theorem mem_bytes {regions : List Region} {byte : Nat} :
    byte ∈ bytes regions ↔ ∃ region ∈ regions, region.Covers byte := by
  induction regions with
  | nil => simp [bytes]
  | cons region rest inductionHypothesis => simp [bytes, inductionHypothesis, Covers]

theorem card_bytes {regions : List Region} (apart : regions.Pairwise Apart) :
    (bytes regions).card = (regions.map size).sum := by
  induction regions with
  | nil => rfl
  | cons region rest inductionHypothesis =>
      obtain ⟨here, later⟩ := List.pairwise_cons.mp apart
      rw [bytes, Finset.card_union_of_disjoint, inductionHypothesis later, List.map_cons,
        List.sum_cons, Nat.card_Ico, stop, Nat.add_sub_cancel_left]
      rw [Finset.disjoint_left]
      intro byte inRegion inRest
      obtain ⟨other, listed, covers⟩ := mem_bytes.mp inRest
      have separate := here other listed
      rw [Finset.mem_Ico] at inRegion
      simp only [Apart, Covers] at separate covers
      omega

/-- Disjoint regions below a bound have no more bytes than the bound. -/
theorem sum_size_le {regions : List Region} {bound : Nat} (apart : regions.Pairwise Apart)
    (below : ∀ region ∈ regions, region.stop ≤ bound) : (regions.map size).sum ≤ bound := by
  rw [← card_bytes apart]
  calc (bytes regions).card ≤ (Finset.range bound).card := by
        apply Finset.card_le_card
        intro byte inside
        obtain ⟨region, listed, covers⟩ := mem_bytes.mp inside
        exact Finset.mem_range.mpr (Nat.lt_of_lt_of_le covers.2 (below region listed))
    _ = bound := Finset.card_range bound

end Region

import UtilsModules.Datastruct.IdrRemove
import UtilsModules.Library.Transition

/-!
Runs of `idr_pre_get`, `idr_get_new` and `idr_remove` on one handle, with what the
callers know about their numbers.
-/

namespace UtilsModules.Datastruct

variable {Address : Type}

inductive IdrCall (Address : Type) where
  | preGet (offers : List Address)
  | getNew (ptr : Option Address)
  | remove (id : Nat)
  deriving DecidableEq, Repr

/-- A handle, and the pointers that have been stored under numbers not removed
since. -/
structure IdrState (Address : Type) where
  idp : Idr Address
  stored : Nat → Option (Option Address)

/-- The tree has less than five layers, or its top is not full: a sixth layer would
be written behind the end of `pa`. -/
def Idr.Spacious (idp : Idr Address) : Prop :=
  idp.layers < 5 ∨ ∃ top ∈ idp.top, ∃ layer ∈ idp.memory top, layer.bitmap ≠ idrFull

instance (idp : Idr Address) : Decidable idp.Spacious :=
  inferInstanceAs (Decidable (_ ∨ ∃ top ∈ _, ∃ layer ∈ _, _))

namespace IdrState

variable [DecidableEq Address]

def start : IdrState Address := ⟨.init, fun _ => none⟩

def step (rounds : Nat) (state : IdrState Address) : IdrCall Address → Option (IdrState Address)
  | .preGet offers => (idrPreGet state.idp offers).map fun (idp, _) => { state with idp := idp }
  | .getNew ptr => (idrGetNew rounds state.idp ptr).map fun
      | (idp, .ok id) => ⟨idp, Function.update state.stored id (some ptr)⟩
      | (idp, .error _) => { state with idp := idp }
  | .remove id => (idrRemove state.idp id).map fun idp =>
      ⟨idp, Function.update state.stored id none⟩

/-- The cache gives memory that is not in use, the tree has space, and a number that
is removed has been given. -/
def Allowed (state : IdrState Address) : IdrCall Address → Prop
  | .preGet offers => offers.Nodup ∧ ∀ a ∈ offers, state.idp.memory a = none
  | .getNew _ => state.idp.Spacious
  | .remove id => (state.stored id).isSome

instance : DecidableRel (@Allowed Address)
  | state, .preGet _ =>
      have : DecidablePred fun a => state.idp.memory a = none := fun _ =>
        decidable_of_iff _ Option.isNone_iff_eq_none
      inferInstanceAs (Decidable (_ ∧ _))
  | _, .getNew _ => inferInstanceAs (Decidable (Idr.Spacious _))
  | _, .remove _ => inferInstanceAs (Decidable (_ = true))

/-- The handle stores what the callers know. -/
def Faithful (state : IdrState Address) : Prop :=
  ∃ node free, state.idp.Sound node state.stored free

omit [DecidableEq Address] in
theorem start_faithful : (start : IdrState Address).Faithful := by
  refine ⟨fun _ _ => none, [], ⟨?_, ?_, ?_⟩, Nat.zero_le 5, rfl, ?_, ⟨.nil, by simp, rfl⟩, by simp,
    by simp, ?_⟩
  · intro h pos occupied
    cases h with
    | zero => cases occupied
    | succ h => cases occupied
  · intro positive
    cases positive
  · intro h q other otherPos a there
    cases there
  · intro h q a there
    cases there
  · intro a layer there
    cases there

end IdrState

/-- The tree has space as long as a number of 30 bits is free. -/
theorem Idr.Sound.spacious_iff [DecidableEq Address] {idp : Idr Address}
    {node : Nat → Nat → Option Address} {value : Nat → Option (Option Address)} {free : List Address}
    (sound : idp.Sound node value free) :
    idp.Spacious ↔ ∃ id < 64 ^ 5, ¬ Present value id := by
  have few := sound.small
  by_cases low : idp.layers < 5
  · refine iff_of_true (.inl low) ⟨64 ^ idp.layers, Nat.pow_lt_pow_right (by decide) low, ?_⟩
    exact Option.not_isSome_iff_eq_none.mpr (sound.shaped.value_none (Nat.le_refl _))
  · have layers : idp.layers = 4 + 1 := by omega
    obtain ⟨p, pa, top, -, searching⟩ := sound.searching 0 layers (by decide) (by simp)
    obtain ⟨layer, stored, -⟩ := sound.shows _ _ _ searching.here
    have isFull : layer.bitmap = idrFull ↔ Radix.Full 64 (Present value) 5 0 := by
      rw [IdrLayer.bitmap_full_iff, Radix.full_succ (by decide)]
      exact forall₂_congr fun m small => searching.bit_iff stored small
    have spacious : idp.Spacious ↔ layer.bitmap ≠ idrFull := by
      refine ⟨?_, fun notFull => .inr ⟨p, top, layer, stored, notFull⟩⟩
      rintro (below | ⟨other, otherTop, record, recordStored, notFull⟩)
      · exact absurd below low
      · obtain rfl := Option.some.inj (top.symm.trans otherTop)
        obtain rfl := Option.some.inj (stored.symm.trans recordStored)
        exact notFull
    rw [spacious, Ne, isFull]
    simp only [Radix.Full, not_forall, exists_prop]
    refine exists_congr fun id => and_congr_left fun _ => ?_
    rw [Nat.div_eq_zero_iff]
    exact or_iff_right (by decide)

namespace IdrState

variable [DecidableEq Address] {state : IdrState Address} {rounds : Nat}

theorem Faithful.step (faithful : state.Faithful) (enough : 5 ≤ rounds) {call : IdrCall Address}
    (allowed : state.Allowed call) :
    ∃ next, IdrState.step rounds state call = some next ∧ next.Faithful := by
  obtain ⟨node, free, sound⟩ := faithful
  cases call with
  | preGet offers =>
      obtain ⟨after, answer, rest, ran, kept, -⟩ := sound.idrPreGet_spec allowed.1 allowed.2
      exact ⟨_, by rw [IdrState.step, ran, Option.map_some], node, rest, kept⟩
  | getNew ptr =>
      obtain ⟨after, answer, ran, got⟩ :=
        sound.idrGetNew_spec (sound.spacious_iff.mp allowed) enough ptr
      rcases got with ⟨rfl, -, placed, kept⟩ | ⟨id, placed, rest, rfl, -, -, kept⟩
      · exact ⟨_, by rw [IdrState.step, ran, Option.map_some], placed, [], kept⟩
      · exact ⟨_, by rw [IdrState.step, ran, Option.map_some], placed, rest, kept⟩
  | remove id =>
      obtain ⟨after, placed, rest, ran, kept⟩ := sound.idrRemove_spec allowed
      exact ⟨_, by rw [IdrState.step, ran, Option.map_some], placed, rest, kept⟩

theorem run_faithful (enough : 5 ≤ rounds) {calls : List (IdrCall Address)}
    (allowed : Transition.Guarded (step rounds) Allowed start calls) :
    ∃ last, Transition.run (step rounds) (start : IdrState Address) calls = some last ∧
      last.Faithful :=
  Transition.run_defined_of_guarded (step rounds)
    (fun _ _ faithful here => Faithful.step faithful enough here) allowed start_faithful

/-- Over every run `idr_find` gives the pointers that have been stored and not been
removed, and `idr_get_new` gives the least number that is free, unless it reports
that the free layers did not suffice. -/
theorem run_idr (enough : 5 ≤ rounds) {calls : List (IdrCall Address)}
    (allowed : Transition.Guarded (step rounds) Allowed start calls) :
    ∃ last, Transition.run (step rounds) (start : IdrState Address) calls = some last ∧
      (∀ id < maxIdBit, idrFind last.idp id = some (last.stored id).join) ∧
        (last.idp.Spacious → ∀ ptr, ∃ after answer,
          idrGetNew rounds last.idp ptr = some (after, answer) ∧
            (answer = .error .eagain ∨ ∃ id, answer = .ok id ∧ last.stored id = none ∧
              ∀ other < id, (last.stored other).isSome)) := by
  obtain ⟨last, ran, node, free, sound⟩ := run_faithful enough allowed
  refine ⟨last, ran, fun id small => sound.idrFind_spec small, fun spacious ptr => ?_⟩
  obtain ⟨after, answer, got, found⟩ :=
    sound.idrGetNew_spec (sound.spacious_iff.mp spacious) enough ptr
  refine ⟨after, answer, got, ?_⟩
  rcases found with ⟨error, -⟩ | ⟨id, -, -, given, absent, before, -⟩
  · exact .inl error
  · exact .inr ⟨id, given, Option.not_isSome_iff_eq_none.mp absent, before⟩

/-- The third pointer is found again, and a number that has been removed is the next
one. -/
theorem run_idr_five :
    ∃ last, Transition.run (step 5) (start : IdrState Nat)
        [.preGet [1, 2, 3], .getNew (some 70), .getNew none, .getNew (some 72), .remove 0] =
          some last ∧
      idrFind last.idp 2 = some (some 72) ∧
        ∃ after answer, idrGetNew 5 last.idp none = some (after, answer) ∧
          (answer = .error .eagain ∨ answer = .ok 0) := by
  obtain ⟨last, ran, finds, gives⟩ := @run_idr Nat _ 5 (Nat.le_refl 5)
    [.preGet [1, 2, 3], .getNew (some 70), .getNew none, .getNew (some 72), .remove 0]
    (by decide +kernel)
  have view : (Transition.run (step 5) (start : IdrState Nat)
      [.preGet [1, 2, 3], .getNew (some 70), .getNew none, .getNew (some 72), .remove 0]).map
        (fun last => (last.stored 0, last.stored 2, last.idp.layers)) =
      some (none, some (some 72), 1) := by
    decide +kernel
  rw [ran, Option.map_some, Option.some.injEq, Prod.mk.injEq, Prod.mk.injEq] at view
  obtain ⟨first, third, layers⟩ := view
  refine ⟨last, ran, ?_, ?_⟩
  · rw [finds 2 (by decide), third]
    rfl
  · obtain ⟨after, answer, given, found⟩ := gives (.inl (by rw [layers]; decide)) none
    refine ⟨after, answer, given, found.imp_right ?_⟩
    rintro ⟨id, rfl, -, before⟩
    rcases Nat.eq_zero_or_pos id with rfl | positive
    · rfl
    · have := before 0 positive
      rw [first] at this
      cases this

end IdrState

end UtilsModules.Datastruct

import Mathlib.Data.List.Basic

/-!
Runs of a deterministic labelled system.

A step may refuse its label (`none`).  `run` plays a list of labels and is
defined as long as no step refuses.  `Guarded` says that every step the run
takes meets a condition on the state before the step and the label.
-/

namespace Transition

variable {State Label : Type*} (step : State → Label → Option State)

def run : State → List Label → Option State
  | state, [] => some state
  | state, label :: labels => (step state label).bind fun next => run next labels

@[simp]
theorem run_nil (state : State) : run step state [] = some state := rfl

@[simp]
theorem run_cons (state : State) (label : Label) (labels : List Label) :
    run step state (label :: labels) =
      (step state label).bind fun next => run step next labels := rfl

theorem run_append (state : State) (first second : List Label) :
    run step state (first ++ second) =
      (run step state first).bind fun middle => run step middle second := by
  induction first generalizing state with
  | nil => rfl
  | cons label rest inductionHypothesis =>
      simp only [List.cons_append, run_cons, Option.bind_assoc]
      congr 1
      funext next
      exact inductionHypothesis next

/-- Every step taken along the labels meets the guard. -/
def Guarded (guard : State → Label → Prop) : State → List Label → Prop
  | _, [] => True
  | state, label :: labels =>
      guard state label ∧ ∀ next, step state label = some next → Guarded guard next labels

instance decidableGuarded {guard : State → Label → Prop}
    [∀ state label, Decidable (guard state label)] :
    ∀ (state : State) (labels : List Label), Decidable (Guarded step guard state labels)
  | _, [] => isTrue trivial
  | state, label :: labels =>
      match equal : step state label with
      | none => decidable_of_iff (guard state label)
          ⟨fun here => ⟨here, by simp [equal]⟩, And.left⟩
      | some next =>
          have : Decidable (Guarded step guard next labels) := decidableGuarded next labels
          decidable_of_iff (guard state label ∧ Guarded step guard next labels)
            ⟨fun both => ⟨both.1, by simpa [equal] using both.2⟩,
              fun both => ⟨both.1, both.2 next equal⟩⟩

theorem guarded_and {first second : State → Label → Prop} {state : State} {labels : List Label}
    (one : Guarded step first state labels) (other : Guarded step second state labels) :
    Guarded step (fun state label => first state label ∧ second state label) state labels := by
  induction labels generalizing state with
  | nil => trivial
  | cons label rest inductionHypothesis =>
      refine ⟨⟨one.1, other.1⟩, fun next stepped => ?_⟩
      exact inductionHypothesis (one.2 next stepped) (other.2 next stepped)

theorem guarded_append {guard : State → Label → Prop} {state middle : State}
    {first second : List Label} (guarded : Guarded step guard state (first ++ second))
    (ran : run step state first = some middle) :
    Guarded step guard state first ∧ Guarded step guard middle second := by
  induction first generalizing state with
  | nil =>
      obtain rfl := Option.some.inj ran
      exact ⟨trivial, guarded⟩
  | cons label rest inductionHypothesis =>
      rw [run_cons, Option.bind_eq_some_iff] at ran
      obtain ⟨next, stepped, ran⟩ := ran
      obtain ⟨here, later⟩ := guarded
      obtain ⟨-, rest⟩ := inductionHypothesis (later next stepped) ran
      refine ⟨⟨here, fun other otherStepped => ?_⟩, rest⟩
      obtain rfl := Option.some.inj (stepped.symm.trans otherStepped)
      exact (inductionHypothesis (later next stepped) ran).1

theorem guarded_append_of_run {guard : State → Label → Prop} {state middle : State}
    {first second : List Label} (guarded : Guarded step guard state first)
    (ran : run step state first = some middle) (later : Guarded step guard middle second) :
    Guarded step guard state (first ++ second) := by
  induction first generalizing state with
  | nil =>
      obtain rfl := Option.some.inj ran
      exact later
  | cons label rest inductionHypothesis =>
      refine ⟨guarded.1, fun next stepped => ?_⟩
      rw [run_cons, stepped, Option.bind_some] at ran
      exact inductionHypothesis (guarded.2 next stepped) ran

theorem run_invariant_of_guarded
    {guard : State → Label → Prop} {inv : State → Prop}
    (kept : ∀ state label next, inv state → guard state label →
      step state label = some next → inv next)
    {state last : State} {labels : List Label}
    (guarded : Guarded step guard state labels)
    (started : inv state) (ran : run step state labels = some last) : inv last := by
  induction labels generalizing state with
  | nil =>
      simp only [run_nil, Option.some.injEq] at ran
      exact ran ▸ started
  | cons label rest inductionHypothesis =>
      rw [run_cons, Option.bind_eq_some_iff] at ran
      obtain ⟨next, stepped, ran⟩ := ran
      exact inductionHypothesis (guarded.2 next stepped)
        (kept state label next started guarded.1 stepped) ran

/-- A guarded run comes to its end if each guarded step is taken and keeps the
property. -/
theorem run_defined_of_guarded
    {guard : State → Label → Prop} {inv : State → Prop}
    (taken : ∀ state label, inv state → guard state label →
      ∃ next, step state label = some next ∧ inv next)
    {state : State} {labels : List Label}
    (guarded : Guarded step guard state labels) (started : inv state) :
    ∃ last, run step state labels = some last ∧ inv last := by
  induction labels generalizing state with
  | nil => exact ⟨state, rfl, started⟩
  | cons label rest inductionHypothesis =>
      obtain ⟨here, later⟩ := guarded
      obtain ⟨next, stepped, kept⟩ := taken state label started here
      obtain ⟨last, ran, finished⟩ := inductionHypothesis (later next stepped) kept
      exact ⟨last, by rw [run_cons, stepped, Option.bind_some, ran], finished⟩

theorem guarded_of_run {state last : State} {labels : List Label}
    (ran : run step state labels = some last) :
    Guarded step (fun state label => ∃ next, step state label = some next) state labels := by
  induction labels generalizing state with
  | nil => trivial
  | cons label rest inductionHypothesis =>
      rw [run_cons, Option.bind_eq_some_iff] at ran
      obtain ⟨next, stepped, ran⟩ := ran
      refine ⟨⟨next, stepped⟩, fun other otherStepped => ?_⟩
      obtain rfl := Option.some.inj (stepped.symm.trans otherStepped)
      exact inductionHypothesis ran

/-- The unguarded rule: a property kept by every step holds along every run. -/
theorem run_invariant
    {inv : State → Prop}
    (kept : ∀ state label next, inv state → step state label = some next → inv next)
    {state last : State} {labels : List Label}
    (started : inv state) (ran : run step state labels = some last) : inv last := by
  apply run_invariant_of_guarded step ?_ (guarded_of_run step ran) started ran
  intro state label next here _ stepped
  exact kept state label next here stepped

/-- A guard that is exactly what one step needs is exactly what a run needs: if,
from a good state, the guard says the same as a demand on the step together with
a good next state, then a run is guarded just when all its states are good and
all its steps meet the demand. -/
theorem guarded_iff_of_step {guard demand : State → Label → Prop} {good : State → Prop}
    (exact : ∀ state label next, good state → step state label = some next →
      (guard state label ↔ demand state label ∧ good next))
    {state last : State} {labels : List Label} (started : good state)
    (ran : run step state labels = some last) :
    Guarded step guard state labels ↔
      ∀ count middle, run step state (labels.take count) = some middle →
        good middle ∧ ∀ label ∈ labels[count]?, demand middle label := by
  induction labels generalizing state with
  | nil =>
      refine ⟨fun _ count middle reached => ?_, fun _ => trivial⟩
      rw [List.take_nil] at reached
      obtain rfl := Option.some.inj reached
      exact ⟨started, by simp⟩
  | cons label rest inductionHypothesis =>
      rw [run_cons, Option.bind_eq_some_iff] at ran
      obtain ⟨next, stepped, ran⟩ := ran
      have step_iff := exact state label next started stepped
      constructor
      · rintro ⟨here, later⟩ count middle reached
        obtain ⟨demanded, goodNext⟩ := step_iff.mp here
        cases count with
        | zero =>
            obtain rfl := Option.some.inj reached
            exact ⟨started, by simpa using demanded⟩
        | succ count =>
            rw [List.take_succ_cons, run_cons, stepped, Option.bind_some] at reached
            simpa using (inductionHypothesis goodNext ran).mp (later next stepped) count middle
              reached
      · intro along
        have demanded : demand state label := (along 0 state rfl).2 label rfl
        have goodNext : good next := by
          refine (along 1 next ?_).1
          simp [stepped]
        refine ⟨step_iff.mpr ⟨demanded, goodNext⟩, fun other otherStepped => ?_⟩
        obtain rfl := Option.some.inj (stepped.symm.trans otherStepped)
        refine (inductionHypothesis goodNext ran).mpr fun count middle reached => ?_
        have := along (count + 1) middle (by
          rw [List.take_succ_cons, run_cons, stepped, Option.bind_some]
          exact reached)
        simpa using this

/-- The same for a property that is seen from outside, an invariant behind it and
a promise on the steps: a run is guarded just when all its states have the
property. -/
theorem guarded_iff_of_promised {promise guard : State → Label → Prop} {inv seen : State → Prop}
    (taken : ∀ state label, inv state → promise state label →
      ∃ next, step state label = some next)
    (exact : ∀ state label next, inv state → promise state label →
      step state label = some next → (guard state label ↔ seen next))
    (kept : ∀ state label next, inv state → promise state label → guard state label →
      step state label = some next → inv next)
    (shows : ∀ state, inv state → seen state)
    {state : State} {labels : List Label} (started : inv state)
    (promised : Guarded step promise state labels) :
    Guarded step guard state labels ↔
      ∀ count middle, run step state (labels.take count) = some middle → seen middle := by
  induction labels generalizing state with
  | nil =>
      refine ⟨fun _ count middle reached => ?_, fun _ => trivial⟩
      rw [List.take_nil] at reached
      obtain rfl := Option.some.inj reached
      exact shows state started
  | cons label rest inductionHypothesis =>
      obtain ⟨next, stepped⟩ := taken state label started promised.1
      have later := promised.2 next stepped
      constructor
      · rintro ⟨here, guarded⟩ count middle reached
        cases count with
        | zero =>
            obtain rfl := Option.some.inj reached
            exact shows state started
        | succ count =>
            rw [List.take_succ_cons, run_cons, stepped, Option.bind_some] at reached
            have good := kept state label next started promised.1 here stepped
            exact (inductionHypothesis good later).mp (guarded next stepped) count middle reached
      · intro along
        have here : guard state label := by
          apply (exact state label next started promised.1 stepped).mpr
          exact along 1 next (by simp [stepped])
        refine ⟨here, fun other otherStepped => ?_⟩
        obtain rfl := Option.some.inj (stepped.symm.trans otherStepped)
        have good := kept state label next started promised.1 here stepped
        refine (inductionHypothesis good later).mpr fun count middle reached => ?_
        apply along (count + 1) middle
        rw [List.take_succ_cons, run_cons, stepped, Option.bind_some, reached]

theorem guarded_iff_of_visible {guard : State → Label → Prop} {inv seen : State → Prop}
    (exact : ∀ state label next, inv state → step state label = some next →
      (guard state label ↔ seen next))
    (kept : ∀ state label next, inv state → guard state label →
      step state label = some next → inv next)
    (shows : ∀ state, inv state → seen state)
    {state last : State} {labels : List Label} (started : inv state)
    (ran : run step state labels = some last) :
    Guarded step guard state labels ↔
      ∀ count middle, run step state (labels.take count) = some middle → seen middle :=
  guarded_iff_of_promised step (fun _ _ _ taken => taken)
    (fun state label next good _ => exact state label next good)
    (fun state label next good _ => kept state label next good) shows started
    (guarded_of_run step ran)

end Transition

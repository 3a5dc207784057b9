import Mathlib.Data.List.TakeDrop
import UtilsModules.Datastruct.StringCopy

/-!
Strings that are put together in a buffer of fixed size.

Each of the copying functions puts a beginning of its source behind the place it
starts at and ends it with a NUL; from that, what any sequence of them leaves in a
buffer.
-/

namespace UtilsModules.Strings

open Places

/-- A string has been put at a place, and nothing else has changed. -/
structure Put (after memory : CharMemory) (dest : Nat) (text : List UInt8) : Prop where
  string : StringAt after dest text
  outside : SameOutside after memory dest (text.length + 1)

def Apart (src : Nat) (text : List UInt8) (dest room : Nat) : Prop :=
  src + text.length + 1 ≤ dest ∨ dest + room ≤ src

section Functions

variable {memory after : CharMemory} {dest src count rounds size : Nat} {text old more : List UInt8}

theorem endOfString_spec (string : StringAt memory src text) (enough : text.length < rounds) :
    endOfString memory rounds src = some (src + text.length) := by
  induction text generalizing src rounds with
  | nil =>
      obtain ⟨left, rfl⟩ := Nat.exists_eq_add_one.mpr enough
      rw [StringAt, ended_nil] at string
      simp [endOfString, string]
  | cons byte rest inductionHypothesis =>
      obtain ⟨left, rfl⟩ := Nat.exists_eq_add_one.mpr (Nat.zero_lt_of_lt enough)
      rw [StringAt, ended_cons] at string
      obtain ⟨here, notNul, later⟩ := string
      rw [endOfString, here, Option.bind_eq_bind, Option.bind_some, if_neg notNul,
        inductionHypothesis later (Nat.lt_of_succ_lt_succ enough), List.length_cons,
        Nat.add_right_comm, Nat.add_assoc]

theorem strlen_spec (string : StringAt memory src text) (enough : text.length < rounds) :
    strlen memory rounds src = some text.length := by
  rw [strlen, endOfString_spec string enough, Option.bind_eq_bind, Option.bind_some,
    Nat.add_sub_cancel_left]

theorem put_nul (usable : Usable memory dest 1) :
    ∃ after, store memory dest 0 = some after ∧ Put after memory dest [] := by
  refine ⟨_, store_of_usable (usable 0 Nat.one_pos) 0, ?_, sameOutside_update 0⟩
  rw [StringAt, ended_nil]
  exact Function.update_self ..

theorem Put.cons {byte : UInt8} (notNul : byte ≠ 0)
    (put : Put after (Function.update memory dest (some byte)) (dest + 1) text) :
    Put after memory dest (byte :: text) where
  string := by
    rw [StringAt, ended_cons]
    refine ⟨?_, notNul, put.string⟩
    rw [put.outside dest (by omega), Function.update_self]
  outside := by
    refine (put.outside.mono (Nat.le_succ _) (by rw [List.length_cons]; omega)).trans ?_
    exact (sameOutside_update byte).mono (Nat.le_refl _) (by rw [List.length_cons]; omega)

theorem Put.usable {start length : Nat} (put : Put after memory dest text)
    (usable : Usable memory start length) : Usable after start length := by
  refine usable.congr_outside put.outside ?_
  have written := put.string.1.usable
  rwa [List.length_append, List.length_singleton] at written

theorem Put.append (string : StringAt memory dest old) (put : Put after memory (dest + old.length) more) :
    StringAt after dest (old ++ more) := by
  have whole := string
  rw [StringAt, ← List.append_nil old, ended_append] at whole
  obtain ⟨front, clean, -⟩ := whole
  rw [StringAt, ended_append]
  exact ⟨front.congr_outside put.outside (.inl (Nat.le_refl _)), clean, put.string⟩

theorem step_source {byte : UInt8} {room : Nat} (source : StringAt memory src (byte :: text))
    (apart : Apart src (byte :: text) dest (room + 1)) :
    StringAt (Function.update memory dest (some byte)) (src + 1) text ∧
      Apart (src + 1) text (dest + 1) room := by
  rw [StringAt, ended_cons] at source
  unfold Apart at *
  rw [List.length_cons] at apart
  exact ⟨source.2.2.congr_outside (sameOutside_update byte) (by omega), by omega⟩

theorem step_target {byte : UInt8} (target : Usable memory dest (count + 1)) :
    store memory dest byte = some (Function.update memory dest (some byte)) ∧
      Usable (Function.update memory dest (some byte)) (dest + 1) count := by
  refine ⟨store_of_usable (target 0 (Nat.succ_pos _)) byte, ?_⟩
  have rest := (target.update dest byte).drop (show 1 ≤ count + 1 by omega)
  rwa [Nat.add_sub_cancel] at rest

theorem strcpy_spec (source : StringAt memory src text) (enough : text.length < rounds)
    (target : Usable memory dest (text.length + 1)) (apart : Apart src text dest (text.length + 1)) :
    ∃ after, strcpy rounds memory dest src = some after ∧ Put after memory dest text := by
  induction text generalizing memory dest src rounds with
  | nil =>
      obtain ⟨left, rfl⟩ := Nat.exists_eq_add_one.mpr enough
      obtain ⟨after, stored, put⟩ := put_nul target
      refine ⟨after, ?_, put⟩
      simp only [strcpy, ended_nil.mp source, stored, Option.bind_eq_bind, Option.bind_some, if_true]
  | cons byte rest inductionHypothesis =>
      obtain ⟨left, rfl⟩ := Nat.exists_eq_add_one.mpr (Nat.zero_lt_of_lt enough)
      obtain ⟨here, notNul, -⟩ := ended_cons.mp source
      obtain ⟨stored, further⟩ := @step_target _ _ _ byte target
      obtain ⟨later, apartLater⟩ := step_source source apart
      obtain ⟨after, ran, put⟩ :=
        inductionHypothesis later (Nat.lt_of_succ_lt_succ enough) further apartLater
      refine ⟨after, ?_, put.cons notNul⟩
      simp only [strcpy, here, stored, Option.bind_eq_bind, Option.bind_some, if_neg notNul, ran]

theorem strncatLoop_spec (positive : 0 < count) (source : StringAt memory src text)
    (target : Usable memory dest ((text.take count).length + 1))
    (apart : Apart src text dest ((text.take count).length + 1)) :
    ∃ after, strncatLoop count memory dest src = some after ∧
      Put after memory dest (text.take count) := by
  induction text generalizing memory dest src count with
  | nil =>
      obtain ⟨left, rfl⟩ := Nat.exists_eq_add_one.mpr positive
      obtain ⟨after, stored, put⟩ := put_nul target
      refine ⟨after, ?_, put⟩
      simp only [strncatLoop, ended_nil.mp source, stored, Option.bind_eq_bind, Option.bind_some,
        ne_eq, not_true, if_false]
  | cons byte rest inductionHypothesis =>
      obtain ⟨left, rfl⟩ := Nat.exists_eq_add_one.mpr positive
      rw [List.take_succ_cons] at target apart ⊢
      obtain ⟨here, notNul, -⟩ := ended_cons.mp source
      obtain ⟨stored, further⟩ := @step_target _ _ _ byte target
      obtain ⟨later, apartLater⟩ := step_source source apart
      simp only [strncatLoop, here, stored, Option.bind_eq_bind, Option.bind_some, if_pos notNul]
      cases left with
      | zero =>
          obtain ⟨after, ended, put⟩ := put_nul (further.mono (Nat.succ_le_succ (Nat.zero_le _)))
          exact ⟨after, (if_pos rfl).trans ended, put.cons notNul⟩
      | succ left =>
          obtain ⟨after, ran, put⟩ :=
            inductionHypothesis (Nat.succ_pos left) later further apartLater
          exact ⟨after, (if_neg (Nat.succ_ne_zero left)).trans ran, put.cons notNul⟩

theorem cpystrnLoop_spec (source : StringAt memory src text)
    (target : Usable memory dest ((text.take count).length + 1))
    (apart : Apart src text dest ((text.take count).length + 1)) :
    ∃ after, cpystrnLoop count memory dest src = some (after, dest + (text.take count).length) ∧
      Put after memory dest (text.take count) := by
  induction count generalizing memory dest src text with
  | zero =>
      obtain ⟨after, stored, put⟩ := put_nul target
      exact ⟨after, by rw [cpystrnLoop, stored]; rfl, put⟩
  | succ count inductionHypothesis =>
      cases text with
      | nil =>
          obtain ⟨after, stored, put⟩ := put_nul target
          refine ⟨after, ?_, put⟩
          simp only [cpystrnLoop, ended_nil.mp source, stored, Option.bind_eq_bind, Option.bind_some,
            if_true]
          rfl
      | cons byte rest =>
          rw [List.take_succ_cons] at target apart ⊢
          obtain ⟨here, notNul, -⟩ := ended_cons.mp source
          obtain ⟨stored, further⟩ := @step_target _ _ _ byte target
          obtain ⟨later, apartLater⟩ := step_source source apart
          obtain ⟨after, ran, put⟩ := inductionHypothesis later further apartLater
          refine ⟨after, ?_, put.cons notNul⟩
          simp only [cpystrnLoop, here, stored, Option.bind_eq_bind, Option.bind_some, if_neg notNul,
            ran, List.length_cons]
          rw [Nat.add_right_comm, Nat.add_assoc]

theorem put_of_memcpy (source : Holds memory src text) (clean : 0 ∉ text)
    (target : Usable memory dest (text.length + 1))
    (apart : src + text.length ≤ dest ∨ dest + text.length ≤ src) :
    ∃ middle after, memcpy memory dest src text.length = some middle ∧
      store middle (dest + text.length) 0 = some after ∧ Put after memory dest text := by
  obtain ⟨middle, ran, outside, copied⟩ :=
    copyForwards_spec (target.mono (Nat.le_succ _)) source.usable
  have held : Holds middle dest text := by
    refine holds_iff.mpr fun offset inside => ?_
    rw [copied offset inside, ← holds_iff.mp source offset inside]
    split
    · rw [Nat.mod_eq_of_lt (by omega)]
    · rfl
  have usable : Usable middle (dest + text.length) 1 := by
    intro offset inside
    rw [outside _ (by omega), Nat.add_assoc]
    exact target _ (by omega)
  obtain ⟨after, stored, put⟩ := put_nul usable
  refine ⟨middle, after, ran, stored, ?_, ?_⟩
  · rw [StringAt, ← List.append_nil text, ended_append]
    exact ⟨held.congr_outside put.outside (.inl (Nat.le_refl _)), clean, put.string⟩
  · refine (put.outside.mono (Nat.le_add_right _ _) ?_).trans (outside.mono (Nat.le_refl _) ?_)
    · rw [List.length_nil]
      omega
    · omega

theorem take_source (source : StringAt memory src text) (length : Nat) :
    Holds memory src (text.take length) ∧ 0 ∉ text.take length := by
  have whole := source
  rw [StringAt, ← List.take_append_drop length text, ended_append] at whole
  exact ⟨whole.1, whole.2.1⟩

theorem length_take_lt (text : List UInt8) (positive : 0 < size) :
    (text.take (size - 1)).length < size := by
  rw [List.length_take]
  omega

theorem strlcpy_spec (positive : 0 < size) (source : StringAt memory src text)
    (enough : text.length < rounds) (target : Usable memory dest size)
    (apart : Apart src text dest size) :
    ∃ after, strlcpy rounds memory dest src size = some (after, text.length) ∧
      Put after memory dest (text.take (size - 1)) := by
  obtain ⟨held, clean⟩ := take_source source (size - 1)
  have short : (text.take (size - 1)).length = if text.length ≥ size then size - 1 else text.length := by
    rw [List.length_take]
    split <;> omega
  have room : (text.take (size - 1)).length + 1 ≤ size := by
    rw [List.length_take]
    omega
  have less : (text.take (size - 1)).length ≤ text.length := List.length_take_le' _ _
  unfold Apart at apart
  obtain ⟨middle, after, copied, stored, put⟩ := put_of_memcpy held clean (target.mono room)
    (show src + _ ≤ dest ∨ _ by omega)
  rw [short] at copied stored
  refine ⟨after, ?_, put⟩
  rw [strlcpy, strlen_spec source enough, Option.bind_eq_bind, Option.bind_some,
    if_pos (Nat.ne_of_gt positive)]
  simp only [copied, stored, Option.bind_eq_bind, Option.bind_some]

theorem strlcat_spec (string : StringAt memory dest old) (inside : old.length < size)
    (source : StringAt memory src text) (enough : text.length < rounds) (long : size ≤ rounds)
    (target : Usable memory dest size) (apart : Apart src text dest size) :
    ∃ after, strlcat rounds memory dest src size = some (after, old.length + text.length) ∧
      Put after memory (dest + old.length) (text.take (size - old.length - 1)) := by
  obtain ⟨held, clean⟩ := take_source source (size - old.length - 1)
  have short : (text.take (size - old.length - 1)).length =
      if text.length ≥ size - old.length then size - old.length - 1 else text.length := by
    rw [List.length_take]
    split <;> omega
  have room : (text.take (size - old.length - 1)).length + 1 ≤ size - old.length := by
    rw [List.length_take]
    omega
  have less : (text.take (size - old.length - 1)).length ≤ text.length := List.length_take_le' _ _
  unfold Apart at apart
  obtain ⟨middle, after, copied, stored, put⟩ := put_of_memcpy held clean
    ((target.drop (Nat.le_of_lt inside)).mono room) (show src + _ ≤ dest + old.length ∨ _ by omega)
  rw [short] at copied stored
  refine ⟨after, ?_, put⟩
  rw [strlcat, strlen_spec string (Nat.lt_of_lt_of_le inside long), Option.bind_eq_bind,
    Option.bind_some, strlen_spec source enough, Option.bind_some, if_neg (Nat.not_le.mpr inside)]
  simp only [copied, stored, Option.bind_eq_bind, Option.bind_some]

theorem strncpy_nul (source : StringAt memory src []) (target : Usable memory dest count)
    (apart : Apart src [] dest count) :
    ∃ after, strncpy count memory dest src = some after ∧ SameOutside after memory dest count ∧
      Usable after dest count ∧ (0 < count → after dest = some 0) := by
  induction count generalizing memory dest with
  | zero =>
      exact ⟨memory, rfl, fun _ _ => rfl, target, fun positive => absurd positive (Nat.lt_irrefl _)⟩
  | succ count inductionHypothesis =>
      obtain ⟨stored, further⟩ := @step_target _ _ _ 0 target
      unfold Apart at *
      rw [List.length_nil] at *
      have kept : StringAt (Function.update memory dest (some 0)) src [] :=
        source.congr_outside (sameOutside_update 0) (by rw [List.length_nil]; omega)
      obtain ⟨after, ran, outside, usable, -⟩ := inductionHypothesis kept further (by omega)
      have first : after dest = some 0 := by
        rw [outside dest (by omega), Function.update_self]
      refine ⟨after, ?_, ?_, usable.cons first, fun _ => first⟩
      · simp only [strncpy, ended_nil.mp source, stored, Option.bind_eq_bind, Option.bind_some,
          ne_eq, not_true, if_false, ran]
      · refine (outside.mono (Nat.le_succ _) (by omega)).trans ?_
        exact (sameOutside_update 0).mono (Nat.le_refl _) (by omega)

/-- A source that ends within `count` characters arrives whole. -/
theorem strncpy_spec (source : StringAt memory src text) (short : text.length < count)
    (target : Usable memory dest count) (apart : Apart src text dest count) :
    ∃ after, strncpy count memory dest src = some after ∧ StringAt after dest text ∧
      SameOutside after memory dest count ∧ Usable after dest count := by
  induction text generalizing memory dest src count with
  | nil =>
      obtain ⟨after, ran, outside, usable, first⟩ := strncpy_nul source target apart
      exact ⟨after, ran, ended_nil.mpr (first short), outside, usable⟩
  | cons byte rest inductionHypothesis =>
      obtain ⟨count, rfl⟩ := Nat.exists_eq_add_one.mpr (Nat.zero_lt_of_lt short)
      obtain ⟨here, notNul, -⟩ := ended_cons.mp source
      obtain ⟨stored, further⟩ := @step_target _ _ _ byte target
      obtain ⟨later, apartLater⟩ := step_source source apart
      obtain ⟨after, ran, string, outside, usable⟩ :=
        inductionHypothesis later (Nat.lt_of_succ_lt_succ short) further apartLater
      have first : after dest = some byte := by
        rw [outside dest (by omega), Function.update_self]
      refine ⟨after, ?_, ended_cons.mpr ⟨first, notNul, string⟩, ?_, usable.cons first⟩
      · simp only [strncpy, here, stored, Option.bind_eq_bind, Option.bind_some, if_pos notNul, ran]
      · refine (outside.mono (Nat.le_succ _) (by omega)).trans ?_
        exact (sameOutside_update byte).mono (Nat.le_refl _) (by omega)

end Functions

inductive BufferFunction where
  | strcpy
  | strncpy (count : Nat)
  | strlcpy
  | cpystrn
  | strcat
  | strncat (count : Nat)
  | strlcat
  deriving DecidableEq, Repr

/-- A call on the buffer; `text` is the string at `src`. -/
structure BufferCall where
  function : BufferFunction
  src : Nat
  text : List UInt8
  deriving DecidableEq, Repr

/-- A memory, and the string that should be in the buffer. -/
structure BufferState where
  memory : CharMemory
  text : List UInt8

namespace BufferFunction

def perform (dest size rounds : Nat) (memory : CharMemory) (src : Nat) :
    BufferFunction → Option CharMemory
  | strcpy => Strings.strcpy rounds memory dest src
  | strncpy count => Strings.strncpy count memory dest src
  | strlcpy => (Strings.strlcpy rounds memory dest src size).map Prod.fst
  | cpystrn => (moduleCpystrn memory dest src size).map Prod.fst
  | strcat => Strings.strcat rounds memory dest src
  | strncat count => Strings.strncat rounds memory dest src count
  | strlcat => (Strings.strlcat rounds memory dest src size).map Prod.fst

def apply (size : Nat) (old text : List UInt8) : BufferFunction → List UInt8
  | strcpy | strncpy _ => text
  | strlcpy | cpystrn => text.take (size - 1)
  | strcat => old ++ text
  | strncat count => old ++ text.take count
  | strlcat => (old ++ text).take (size - 1)

/-- What the functions without a size rely on. -/
def Fits (size : Nat) (old text : List UInt8) : BufferFunction → Prop
  | strcpy => text.length < size
  | strncpy count => text.length < count ∧ count ≤ size
  | strcat => old.length + text.length < size
  | strncat count => old.length + (text.take count).length < size
  | _ => True

instance (size : Nat) (old text : List UInt8) :
    ∀ function : BufferFunction, Decidable (function.Fits size old text)
  | strcpy => inferInstanceAs (Decidable (_ < _))
  | strncpy _ => inferInstanceAs (Decidable (_ ∧ _))
  | strcat => inferInstanceAs (Decidable (_ < _))
  | strncat _ => inferInstanceAs (Decidable (_ < _))
  | strlcpy | cpystrn | strlcat => inferInstanceAs (Decidable True)

end BufferFunction

def assemble (size : Nat) (old : List UInt8) (calls : List BufferCall) : List UInt8 :=
  calls.foldl (fun old call => call.function.apply size old call.text) old

instance decidableHolds (memory : CharMemory) :
    ∀ (place : Nat) (values : List UInt8), Decidable (Holds memory place values)
  | _, [] => isTrue trivial
  | place, value :: rest =>
      have := decidableHolds memory (place + 1) rest
      inferInstanceAs (Decidable (memory place = some value ∧ Holds memory (place + 1) rest))

instance (memory : CharMemory) (s : Nat) (text : List UInt8) : Decidable (StringAt memory s text) :=
  inferInstanceAs (Decidable (Holds _ _ _ ∧ _))

instance (src : Nat) (text : List UInt8) (dest room : Nat) : Decidable (Apart src text dest room) :=
  inferInstanceAs (Decidable (_ ∨ _))

namespace BufferState

def step (dest size rounds : Nat) (state : BufferState) (call : BufferCall) : Option BufferState :=
  (call.function.perform dest size rounds state.memory call.src).map fun memory =>
    ⟨memory, call.function.apply size state.text call.text⟩

/-- The source is a string outside of the buffer, and what is not cut off fits. -/
def Allowed (dest size rounds : Nat) (state : BufferState) (call : BufferCall) : Prop :=
  StringAt state.memory call.src call.text ∧ call.text.length < rounds ∧
    Apart call.src call.text dest size ∧ call.function.Fits size state.text call.text

instance (dest size rounds : Nat) : DecidableRel (Allowed dest size rounds) := fun _ _ =>
  inferInstanceAs (Decidable (_ ∧ _ ∧ _ ∧ _))

/-- The buffer holds the string, and nothing but the buffer has changed. -/
structure Faithful (memory : CharMemory) (dest size : Nat) (state : BufferState) : Prop where
  string : StringAt state.memory dest state.text
  inside : state.text.length < size
  usable : Usable state.memory dest size
  outside : SameOutside state.memory memory dest size

variable {memory after : CharMemory} {dest size rounds : Nat} {state : BufferState}
  {text more : List UInt8}

theorem Faithful.put (faithful : state.Faithful memory dest size) {kept : Nat}
    (put : Put after state.memory (dest + kept) more) (string : StringAt after dest text)
    (inside : text.length < size) (room : kept + more.length < size) :
    Faithful memory dest size ⟨after, text⟩ where
  string := string
  inside := inside
  usable := put.usable faithful.usable
  outside := (put.outside.mono (Nat.le_add_right _ _) (by omega)).trans faithful.outside

theorem Faithful.replace (faithful : state.Faithful memory dest size)
    (put : Put after state.memory dest more) (room : more.length < size) :
    Faithful memory dest size ⟨after, more⟩ :=
  @Faithful.put _ _ _ _ _ _ _ faithful 0 put put.string room (by rwa [Nat.zero_add])

theorem Faithful.append (faithful : state.Faithful memory dest size)
    (put : Put after state.memory (dest + state.text.length) more)
    (room : state.text.length + more.length < size) :
    Faithful memory dest size ⟨after, state.text ++ more⟩ :=
  faithful.put put (put.append faithful.string) (by rwa [List.length_append]) room

theorem Faithful.step (faithful : state.Faithful memory dest size) (positive : 0 < size)
    (long : size ≤ rounds) {call : BufferCall} (allowed : state.Allowed dest size rounds call) :
    ∃ next, BufferState.step dest size rounds state call = some next ∧
      next.Faithful memory dest size := by
  obtain ⟨function, src, text⟩ := call
  obtain ⟨source, enough, apart, fits⟩ : StringAt state.memory src text ∧ text.length < rounds ∧
    Apart src text dest size ∧ function.Fits size state.text text := allowed
  have string := faithful.string
  have inside := faithful.inside
  have found := endOfString_spec string (Nat.lt_of_lt_of_le inside long)
  have assembled {changed : CharMemory}
      (performed : function.perform dest size rounds state.memory src = some changed)
      (kept : Faithful memory dest size ⟨changed, function.apply size state.text text⟩) :
      ∃ next, BufferState.step dest size rounds state ⟨function, src, text⟩ = some next ∧
        next.Faithful memory dest size :=
    ⟨_, by rw [BufferState.step, performed, Option.map_some], kept⟩
  have within {kept room : Nat} (small : kept + room ≤ size) : Apart src text (dest + kept) room := by
    unfold Apart at *
    omega
  cases function with
  | strcpy =>
      have short : text.length < size := fits
      obtain ⟨after, ran, put⟩ := strcpy_spec source enough (faithful.usable.mono short)
        (@within 0 _ (by omega))
      exact assembled ran (faithful.replace put short)
  | strncpy count =>
      obtain ⟨short, bounded⟩ : text.length < count ∧ count ≤ size := fits
      obtain ⟨after, ran, written, outside, usable⟩ := strncpy_spec source short
        (faithful.usable.mono bounded) (@within 0 _ (by omega))
      exact assembled ran ⟨written, Nat.lt_of_lt_of_le short bounded,
        faithful.usable.congr_outside outside usable,
        (outside.mono (Nat.le_refl _) (by omega)).trans faithful.outside⟩
  | strlcpy =>
      obtain ⟨after, ran, put⟩ := strlcpy_spec positive source enough faithful.usable apart
      have short := length_take_lt text positive
      exact assembled (by rw [BufferFunction.perform, ran, Option.map_some])
        (faithful.replace put short)
  | cpystrn =>
      have short := length_take_lt text positive
      obtain ⟨after, ran, put⟩ := cpystrnLoop_spec source (faithful.usable.mono short)
        (@within 0 _ (by omega))
      refine assembled ?_ (faithful.replace put short)
      rw [BufferFunction.perform, moduleCpystrn, if_neg (Nat.ne_of_gt positive), ran, Option.map_some]
  | strcat =>
      have short : state.text.length + text.length < size := fits
      obtain ⟨after, ran, put⟩ := strcpy_spec source enough
        ((faithful.usable.drop (Nat.le_of_lt inside)).mono (by omega)) (within (by omega))
      refine assembled ?_ (faithful.append put short)
      rw [BufferFunction.perform, Strings.strcat, found]
      exact ran
  | strncat count =>
      have short : state.text.length + (text.take count).length < size := fits
      by_cases none : count = 0
      · refine assembled (show _ = some state.memory from if_neg (not_not_intro none)) ?_
        rw [BufferFunction.apply, none, List.take_zero, List.append_nil]
        exact faithful
      · obtain ⟨after, ran, put⟩ := strncatLoop_spec (Nat.pos_of_ne_zero none) source
          ((faithful.usable.drop (Nat.le_of_lt inside)).mono (by omega)) (within (by omega))
        refine assembled ?_ (faithful.append put short)
        rw [BufferFunction.perform, Strings.strncat, if_pos none, found]
        exact ran
  | strlcat =>
      obtain ⟨after, ran, put⟩ :=
        strlcat_spec string inside source enough long faithful.usable apart
      have short : state.text.length + (text.take (size - state.text.length - 1)).length < size := by
        rw [List.length_take]
        omega
      have cut : (state.text ++ text).take (size - 1) =
          state.text ++ text.take (size - state.text.length - 1) := by
        rw [List.take_append, List.take_of_length_le (by omega), Nat.sub_right_comm]
      refine assembled (by rw [BufferFunction.perform, ran, Option.map_some]) ?_
      rw [BufferFunction.apply, cut]
      exact faithful.append put short

theorem text_of_run {last : BufferState} {calls : List BufferCall}
    (ran : Transition.run (BufferState.step dest size rounds) state calls = some last) :
    last.text = assemble size state.text calls := by
  induction calls generalizing state with
  | nil =>
      obtain rfl := Option.some.inj ran
      rfl
  | cons call rest inductionHypothesis =>
      rw [Transition.run_cons, Option.bind_eq_some_iff] at ran
      obtain ⟨next, stepped, ran⟩ := ran
      obtain ⟨memory, -, rfl⟩ := Option.map_eq_some_iff.mp stepped
      exact inductionHypothesis ran

/-- In a buffer that begins with an empty string, any sequence of copying and appending
calls leaves the string that the same calls make of sequences, cut to what the buffer
holds, and changes nothing else; the answer of a further `strlcat` tells whether it cuts. -/
theorem run_buffer (positive : 0 < size) (long : size ≤ rounds) (usable : Usable memory dest size)
    (empty : memory dest = some 0) {calls : List BufferCall}
    (allowed : Transition.Guarded (BufferState.step dest size rounds) (Allowed dest size rounds)
      ⟨memory, []⟩ calls) :
    ∃ last, Transition.run (BufferState.step dest size rounds) ⟨memory, []⟩ calls = some last ∧
      last.text = assemble size [] calls ∧
      StringAt last.memory dest last.text ∧ last.text.length < size ∧
      SameOutside last.memory memory dest size ∧
      ∀ src more, StringAt last.memory src more → more.length < rounds →
        Apart src more dest size →
        ∃ after answer, Strings.strlcat rounds last.memory dest src size = some (after, answer) ∧
          (size ≤ answer ↔ (last.text ++ more).take (size - 1) ≠ last.text ++ more) := by
  have started : Faithful memory dest size ⟨memory, []⟩ :=
    ⟨ended_nil.mpr empty, positive, usable, fun _ _ => rfl⟩
  obtain ⟨last, ran, faithful⟩ := Transition.run_defined_of_guarded
    (BufferState.step dest size rounds)
    (fun _ _ faithful here => Faithful.step faithful positive long here) allowed started
  refine ⟨last, ran, text_of_run ran, faithful.string, faithful.inside, faithful.outside, ?_⟩
  intro src more source enough apart
  obtain ⟨after, ranCat, -⟩ :=
    strlcat_spec faithful.string faithful.inside source enough long faithful.usable apart
  refine ⟨after, _, ranCat, ?_⟩
  rw [Ne, List.take_eq_self_iff, List.length_append]
  omega

theorem run_buffer_cut :
    let memory : CharMemory := fun place =>
      ([0, 9, 9, 9, 9, 9, 97, 98, 99, 0, 100, 101, 102, 103, 0] : List UInt8)[place]?
    let calls : List BufferCall :=
      [⟨.strcpy, 10, [100, 101, 102, 103]⟩, ⟨.strncpy 4, 6, [97, 98, 99]⟩,
        ⟨.strncat 1, 10, [100, 101, 102, 103]⟩, ⟨.strlcat, 6, [97, 98, 99]⟩]
    ∃ last, Transition.run (step 0 6 6) ⟨memory, []⟩ calls = some last ∧
      last.text = assemble 6 [] calls ∧ StringAt last.memory 0 last.text ∧
      last.text.length < 6 ∧ SameOutside last.memory memory 0 6 ∧
      ∀ src more, StringAt last.memory src more → more.length < 6 → Apart src more 0 6 →
        ∃ after answer, Strings.strlcat 6 last.memory 0 src 6 = some (after, answer) ∧
          (6 ≤ answer ↔ (last.text ++ more).take 5 ≠ last.text ++ more) :=
  run_buffer (by decide) (by decide) (by unfold Usable; decide) rfl (by decide)

end BufferState

end UtilsModules.Strings

import UtilsModules.Datastruct.StringBuffer

/-!
`strsep` call after call.

Each call takes a token off the front of what is left of a string, and may ask for other
separators than the one before.  The tokens stay where they were in the string, one
behind the other, while later calls write their NULs.
-/

namespace UtilsModules.Strings

open Places

def strsepCalls (rounds : Nat) :
    CharMemory → Option Nat → List Nat → Option (CharMemory × Option Nat × List (Option Nat))
  | memory, s, [] => some (memory, s, [])
  | memory, s, ct :: cts => do
      let (memory, s, answer) ← strsep rounds memory s ct
      let (memory, s, answers) ← strsepCalls rounds memory s cts
      some (memory, s, answer :: answers)

def tokensOf : List UInt8 → List (List UInt8) → List (List UInt8)
  | _, [] => []
  | text, set :: sets =>
      match text.findIdx? (· ∈ set) with
      | none => [text]
      | some index => text.take index :: tokensOf (text.drop (index + 1)) sets

/-- The answers are the tokens, one behind the other, and NULL when there are no more. -/
def Answered (memory : CharMemory) : Nat → List (List UInt8) → List (Option Nat) → Prop
  | _, [], answers => ∀ answer ∈ answers, answer = none
  | place, token :: tokens, answers =>
      ∃ rest, answers = some place :: rest ∧ StringAt memory place token ∧
        Answered memory (place + token.length + 1) tokens rest

variable {memory after : CharMemory} {rounds s ct : Nat} {text set : List UInt8}

theorem isOneOf_spec (separators : StringAt memory ct set) (enough : set.length < rounds)
    (byte : UInt8) : isOneOf memory byte rounds ct = some (decide (byte ∈ set)) := by
  induction set generalizing ct rounds with
  | nil =>
      obtain ⟨left, rfl⟩ := Nat.exists_eq_add_one.mpr enough
      simp [isOneOf, ended_nil.mp separators]
  | cons other rest inductionHypothesis =>
      obtain ⟨left, rfl⟩ := Nat.exists_eq_add_one.mpr (Nat.zero_lt_of_lt enough)
      obtain ⟨here, notNul, later⟩ := ended_cons.mp separators
      rw [isOneOf, here, Option.bind_eq_bind, Option.bind_some, if_neg notNul,
        inductionHypothesis later (Nat.lt_of_succ_lt_succ enough)]
      by_cases same : byte = other
      · simp [same]
      · simp [same]

theorem strpbrkLoop_spec {left : Nat} (string : StringAt memory s text) (long : text.length < left)
    (separators : StringAt memory ct set) (enough : set.length < rounds) :
    strpbrkLoop memory rounds ct left s =
      some ((text.findIdx? (· ∈ set)).map fun index => s + index) := by
  induction text generalizing s left with
  | nil =>
      obtain ⟨left, rfl⟩ := Nat.exists_eq_add_one.mpr long
      simp [strpbrkLoop, ended_nil.mp string]
  | cons byte rest inductionHypothesis =>
      obtain ⟨left, rfl⟩ := Nat.exists_eq_add_one.mpr (Nat.zero_lt_of_lt long)
      obtain ⟨here, notNul, later⟩ := ended_cons.mp string
      rw [strpbrkLoop, here, Option.bind_eq_bind, Option.bind_some, if_neg notNul,
        isOneOf_spec separators enough, Option.bind_eq_bind, Option.bind_some, map_findIdx_cons,
        inductionHypothesis later (Nat.lt_of_succ_lt_succ long)]
      split <;> rfl

theorem strsep_last (string : StringAt memory s text) (long : text.length < rounds)
    (separators : StringAt memory ct set) (enough : set.length < rounds)
    (missing : text.findIdx? (· ∈ set) = none) :
    strsep rounds memory (some s) ct = some (memory, none, some s) := by
  rw [strsep, strpbrk, strpbrkLoop_spec string long separators enough, missing]
  rfl

theorem strsep_token (string : StringAt memory s text) (long : text.length < rounds)
    (separators : StringAt memory ct set) (enough : set.length < rounds) {index : Nat}
    (found : text.findIdx? (· ∈ set) = some index) :
    ∃ after, strsep rounds memory (some s) ct = some (after, some (s + index + 1), some s) ∧
      SameOutside after memory (s + index) 1 ∧ StringAt after s (text.take index) ∧
      StringAt after (s + index + 1) (text.drop (index + 1)) ∧ index < text.length := by
  obtain ⟨inside, -, -⟩ := List.findIdx?_eq_some_iff_getElem.mp found
  have parted := string
  rw [StringAt, ← List.take_append_drop index text, ended_append,
    List.drop_eq_getElem_cons inside, ended_cons, List.length_take_of_le (Nat.le_of_lt inside)] at parted
  obtain ⟨front, clean, here, -, back⟩ := parted
  have outside := @sameOutside_update _ memory (s + index) 0
  refine ⟨_, ?_, outside, ?_, ?_, inside⟩
  · rw [strsep, strpbrk, strpbrkLoop_spec string long separators enough, found]
    simp only [Option.map_some, Option.bind_eq_bind, Option.bind_some, store, here]
  · rw [StringAt, ← List.append_nil (text.take index), ended_append, ended_nil,
      List.length_take_of_le (Nat.le_of_lt inside)]
    refine ⟨front.congr_outside outside (.inl (Nat.le_of_eq ?_)), clean, Function.update_self ..⟩
    rw [List.length_take_of_le (Nat.le_of_lt inside)]
  · exact back.congr_outside outside (.inr (Nat.le_refl _))

theorem strsepCalls_null (memory : CharMemory) (cts : List Nat) :
    strsepCalls rounds memory none cts = some (memory, none, cts.map fun _ => none) := by
  induction cts with
  | nil => rfl
  | cons ct cts inductionHypothesis =>
      simp only [strsepCalls, strsep, inductionHypothesis, Option.bind_eq_bind, Option.bind_some,
        List.map_cons]

theorem tokensOf_last {sets : List (List UInt8)} (missing : text.findIdx? (· ∈ set) = none) :
    tokensOf text (set :: sets) = [text] := by
  rw [tokensOf, missing]

theorem tokensOf_cons {sets : List (List UInt8)} {index : Nat}
    (found : text.findIdx? (· ∈ set) = some index) :
    tokensOf text (set :: sets) = text.take index :: tokensOf (text.drop (index + 1)) sets := by
  rw [tokensOf, found]

theorem tokensOf_replicate (set : List UInt8) (count : Nat) :
    tokensOf text (List.replicate count set) = (text.splitOnP (· ∈ set)).take count := by
  induction count generalizing text with
  | zero => rfl
  | succ count inductionHypothesis =>
      rw [List.replicate_succ]
      cases found : text.findIdx? (· ∈ set) with
      | none =>
          rw [tokensOf_last found, List.splitOnP_eq_singleton (List.findIdx?_eq_none_iff.mp found),
            List.take_succ_cons, List.take_nil]
      | some index =>
          obtain ⟨inside, separator, before⟩ := List.findIdx?_eq_some_iff_getElem.mp found
          have clean : ∀ byte ∈ text.take index, decide (byte ∈ set) = false := by
            intro byte member
            obtain ⟨place, below, rfl⟩ := List.mem_take_iff_getElem.mp member
            exact eq_false_of_ne_true (before place (Nat.lt_min.mp below).1)
          have parted : text = text.take index ++ text[index] :: text.drop (index + 1) := by
            rw [← List.drop_eq_getElem_cons inside, List.take_append_drop]
          conv_rhs => rw [parted, List.splitOnP_append_cons_of_forall_mem clean _ separator]
          rw [tokensOf_cons found, List.take_succ_cons, inductionHypothesis]

theorem strsepCalls_spec (string : StringAt memory s text) (long : text.length < rounds)
    (calls : List (Nat × List UInt8))
    (separators : ∀ call ∈ calls, StringAt memory call.1 call.2 ∧ call.2.length < rounds ∧
      Apart call.1 call.2 s (text.length + 1)) :
    ∃ after left answers,
      strsepCalls rounds memory (some s) (calls.map Prod.fst) = some (after, left, answers) ∧
      Answered after s (tokensOf text (calls.map Prod.snd)) answers ∧
      SameOutside after memory s text.length := by
  induction calls generalizing memory s text with
  | nil => exact ⟨memory, some s, [], rfl, fun _ member => absurd member List.not_mem_nil, fun _ _ => rfl⟩
  | cons call calls inductionHypothesis =>
      obtain ⟨ct, set⟩ := call
      obtain ⟨⟨here, enough, -⟩, further⟩ := List.forall_mem_cons.mp separators
      rw [List.map_cons, List.map_cons, strsepCalls]
      cases found : text.findIdx? (· ∈ set) with
      | none =>
          rw [tokensOf_last found]
          refine ⟨memory, none, some s :: (calls.map Prod.fst).map fun _ => none, ?_,
            ⟨_, rfl, string, ?_⟩, fun _ _ => rfl⟩
          · simp only [strsep_last string long here enough found, strsepCalls_null,
              Option.bind_eq_bind, Option.bind_some]
          · intro answer member
            obtain ⟨-, -, rfl⟩ := List.mem_map.mp member
            rfl
      | some index =>
          obtain ⟨middle, stepped, changed, token, rest, inside⟩ :=
            strsep_token string long here enough found
          have shorter : (text.drop (index + 1)).length < rounds := by
            rw [List.length_drop]
            omega
          have apartLater : ∀ call ∈ calls, StringAt middle call.1 call.2 ∧ call.2.length < rounds ∧
              Apart call.1 call.2 (s + index + 1) ((text.drop (index + 1)).length + 1) := by
            intro call member
            obtain ⟨held, short, apart⟩ := further call member
            unfold Apart at *
            rw [List.length_drop]
            exact ⟨held.congr_outside changed (by omega), short, by omega⟩
          obtain ⟨after, left, answers, ran, answered, outside⟩ :=
            inductionHypothesis rest shorter apartLater
          rw [tokensOf_cons found]
          refine ⟨after, left, some s :: answers, ?_, ⟨_, rfl, ?_, ?_⟩, ?_⟩
          · rw [stepped, Option.bind_eq_bind, Option.bind_some]
            simp only [ran, Option.bind_eq_bind, Option.bind_some]
          · -- Later calls write behind the token.
            refine token.congr_outside outside (.inl (Nat.le_of_eq ?_))
            rw [List.length_take_of_le (Nat.le_of_lt inside)]
          · rwa [List.length_take_of_le (Nat.le_of_lt inside)]
          · rw [List.length_drop] at outside
            exact (outside.mono (by omega) (by omega)).trans (changed.mono (by omega) (by omega))

/-- Repeated `strsep` hands out the tokens of a string as strings, one behind the other,
and NULL when there are no more; it writes to nothing but the string.  With one set of
separators the tokens are the pieces between them. -/
theorem strsep_tokens (string : StringAt memory s text) (long : text.length < rounds)
    (calls : List (Nat × List UInt8))
    (separators : ∀ call ∈ calls, StringAt memory call.1 call.2 ∧ call.2.length < rounds ∧
      Apart call.1 call.2 s (text.length + 1)) :
    ∃ after left answers,
      strsepCalls rounds memory (some s) (calls.map Prod.fst) = some (after, left, answers) ∧
      Answered after s (tokensOf text (calls.map Prod.snd)) answers ∧
      SameOutside after memory s text.length ∧
      ∀ set, calls.map Prod.snd = List.replicate calls.length set →
        tokensOf text (calls.map Prod.snd) = (text.splitOnP (· ∈ set)).take calls.length := by
  obtain ⟨after, left, answers, ran, answered, outside⟩ :=
    strsepCalls_spec string long calls separators
  refine ⟨after, left, answers, ran, answered, outside, fun set same => ?_⟩
  rw [same, tokensOf_replicate]

theorem strsep_tokens_two_sets :
    let memory : CharMemory := fun place =>
      ([97, 44, 98, 59, 99, 0, 44, 59, 0] : List UInt8)[place]?
    let calls : List (Nat × List UInt8) := [(6, [44, 59]), (7, [59]), (7, [59]), (7, [59])]
    ∃ after left answers,
      strsepCalls 6 memory (some 0) (calls.map Prod.fst) = some (after, left, answers) ∧
      Answered after 0 (tokensOf [97, 44, 98, 59, 99] (calls.map Prod.snd)) answers ∧
      SameOutside after memory 0 5 ∧
      ∀ set, calls.map Prod.snd = List.replicate 4 set →
        tokensOf [97, 44, 98, 59, 99] (calls.map Prod.snd) =
          ([97, 44, 98, 59, 99].splitOnP (· ∈ set)).take 4 :=
  strsep_tokens (show StringAt _ 0 [97, 44, 98, 59, 99] by decide) (by decide) _ (by decide)

end UtilsModules.Strings

import UtilsModules.Datastruct.StringTokens

/-!
The searches for one character, `strspn` and `strcspn`.

A character is asked for as an `int`: `strchr`, `strrchr`, `strnchr` and `memchr` cut it
down to a character, `memscan` compares it as it is.
-/

namespace UtilsModules.Strings

open Places

def charOf (c : Int) : UInt8 := UInt8.ofInt c

def strchr (memory : CharMemory) (c : Int) : Nat → Nat → Option (Option Nat)
  | 0, _ => none
  | rounds + 1, s => do
      let byte ← memory s
      if byte = charOf c then some (some s)
      else if byte = 0 then some none
      else strchr memory c rounds (s + 1)

def strrchrLoop (memory : CharMemory) (c : Int) (s : Nat) : Nat → Option (Option Nat)
  | 0 => do
      let byte ← memory s
      some (if byte = charOf c then some s else none)
  | offset + 1 => do
      let byte ← memory (s + (offset + 1))
      if byte = charOf c then some (some (s + (offset + 1)))
      else strrchrLoop memory c s offset

def strrchr (rounds : Nat) (memory : CharMemory) (s : Nat) (c : Int) : Option (Option Nat) := do
  let length ← strlen memory rounds s
  strrchrLoop memory c s length

def strnchr (memory : CharMemory) (c : Int) : Nat → Nat → Option (Option Nat)
  | 0, _ => some none
  | count + 1, s => do
      let byte ← memory s
      if byte = 0 then some none
      else if byte = charOf c then some (some s)
      else strnchr memory c count (s + 1)

def memchr (memory : CharMemory) (c : Int) : Nat → Nat → Option (Option Nat)
  | 0, _ => some none
  | n + 1, p => do
      let byte ← memory p
      if charOf c = byte then some (some p) else memchr memory c n (p + 1)

def memscan (memory : CharMemory) (c : Int) : Nat → Nat → Option Nat
  | 0, p => some p
  | size + 1, p => do
      let byte ← memory p
      if (byte.toNat : Int) = c then some p else memscan memory c size (p + 1)

/-- The outer loop of `strspn` and `strcspn`: it goes on while the characters are, or are
not, of the other string. -/
def spanLoop (memory : CharMemory) (rounds set : Nat) (wanted : Bool) :
    Nat → Nat → Nat → Option Nat
  | 0, _, _ => none
  | left + 1, p, count => do
      let byte ← memory p
      if byte = 0 then some count
      else do
        let found ← isOneOf memory byte rounds set
        if found = wanted then spanLoop memory rounds set wanted left (p + 1) (count + 1)
        else some count

def strspn (rounds : Nat) (memory : CharMemory) (s accept : Nat) : Option Nat :=
  spanLoop memory rounds accept true rounds s 0

def strcspn (rounds : Nat) (memory : CharMemory) (s reject : Nat) : Option Nat :=
  spanLoop memory rounds reject false rounds s 0

def FirstAt (wanted : UInt8) (area : List UInt8) : Option Nat → Prop
  | none => wanted ∉ area
  | some index => area[index]? = some wanted ∧ wanted ∉ area.take index

def LastAt (wanted : UInt8) (area : List UInt8) : Option Nat → Prop
  | none => wanted ∉ area
  | some index => area[index]? = some wanted ∧ wanted ∉ area.drop (index + 1)

def Spans (condition : UInt8 → Prop) (text : List UInt8) (length : Nat) : Prop :=
  length ≤ text.length ∧ (∀ byte ∈ text.take length, condition byte) ∧
    ∀ byte, text[length]? = some byte → ¬ condition byte

variable {memory : CharMemory} {rounds s ct : Nat} {text set area : List UInt8} {c : Int}

theorem firstAt_findIdx (wanted : UInt8) (area : List UInt8) :
    FirstAt wanted area (area.findIdx? (· = wanted)) := by
  cases found : area.findIdx? (· = wanted) with
  | none =>
      intro member
      exact absurd rfl (of_decide_eq_false (List.findIdx?_eq_none_iff.mp found wanted member))
  | some index =>
      obtain ⟨inside, here, earlier⟩ := List.findIdx?_eq_some_iff_getElem.mp found
      refine ⟨?_, fun member => ?_⟩
      · rw [List.getElem?_eq_getElem inside, of_decide_eq_true here]
      · obtain ⟨place, before, same⟩ := List.mem_take_iff_getElem.mp member
        exact earlier place (Nat.lt_of_lt_of_le before (Nat.min_le_left _ _)) (decide_eq_true same)

theorem strchr_spec (string : StringAt memory s text) (enough : text.length < rounds) :
    strchr memory c rounds s =
      some (((text ++ [0]).findIdx? (· = charOf c)).map fun index => s + index) := by
  induction text generalizing s rounds with
  | nil =>
      obtain ⟨left, rfl⟩ := Nat.exists_eq_add_one.mpr enough
      rw [strchr, ended_nil.mp string, Option.bind_eq_bind, Option.bind_some, List.nil_append,
        map_findIdx_cons]
      by_cases same : (0 : UInt8) = charOf c
      · simp [same]
      · simp [same]
  | cons byte rest inductionHypothesis =>
      obtain ⟨left, rfl⟩ := Nat.exists_eq_add_one.mpr (Nat.zero_lt_of_lt enough)
      obtain ⟨here, notNul, later⟩ := ended_cons.mp string
      rw [strchr, here, Option.bind_eq_bind, Option.bind_some, List.cons_append,
        map_findIdx_cons, inductionHypothesis later (Nat.lt_of_succ_lt_succ enough)]
      by_cases same : byte = charOf c
      · simp only [same, decide_true, if_true]
      · simp only [same, notNul, decide_false, Bool.false_eq_true, if_false]

theorem strnchr_spec (string : StringAt memory s text) (count : Nat) :
    strnchr memory c count s =
      some (((text.take count).findIdx? (· = charOf c)).map fun index => s + index) := by
  induction count generalizing s text with
  | zero => rfl
  | succ count inductionHypothesis =>
      rw [strnchr]
      cases text with
      | nil => rw [ended_nil.mp string]; rfl
      | cons byte rest =>
          obtain ⟨here, notNul, later⟩ := ended_cons.mp string
          rw [here, Option.bind_eq_bind, Option.bind_some, if_neg notNul, List.take_succ_cons,
            map_findIdx_cons, inductionHypothesis later]
          by_cases same : byte = charOf c
          · simp only [same, decide_true, if_true]
          · simp only [same, decide_false, Bool.false_eq_true, if_false]

theorem memchr_spec (holds : Holds memory s area) :
    memchr memory c area.length s =
      some ((area.findIdx? (· = charOf c)).map fun index => s + index) := by
  induction area generalizing s with
  | nil => rfl
  | cons byte rest inductionHypothesis =>
      obtain ⟨here, later⟩ := holds
      rw [List.length_cons, memchr, here, Option.bind_eq_bind, Option.bind_some,
        map_findIdx_cons, inductionHypothesis later]
      by_cases same : byte = charOf c
      · simp only [same, decide_true, if_true]
      · simp only [same, Ne.symm same, decide_false, Bool.false_eq_true, if_false]

theorem lastAt_here (front : List UInt8) (wanted : UInt8) :
    LastAt wanted (front ++ [wanted]) (some front.length) := by
  refine ⟨List.getElem?_concat_length, ?_⟩
  rw [List.drop_of_length_le (by simp)]
  exact List.not_mem_nil

theorem lastAt_concat {wanted byte : UInt8} {front : List UInt8} {last : Option Nat}
    (found : LastAt wanted front last) (different : byte ≠ wanted) :
    LastAt wanted (front ++ [byte]) last := by
  cases last with
  | none => simpa [LastAt, Ne.symm different] using found
  | some index =>
      obtain ⟨here, later⟩ := found
      obtain ⟨inside, -⟩ := List.getElem?_eq_some_iff.mp here
      refine ⟨(List.getElem?_append_left inside).trans here, ?_⟩
      rw [List.drop_append_of_le_length inside]
      simpa [Ne.symm different] using later

theorem strrchrLoop_spec (holds : Holds memory s area) {offset : Nat}
    (inside : offset < area.length) : ∃ last,
      strrchrLoop memory c s offset = some (last.map fun index => s + index) ∧
      LastAt (charOf c) (area.take (offset + 1)) last := by
  induction offset with
  | zero =>
      have read : memory s = some area[0] := holds_iff.mp holds 0 inside
      have start : area.take (0 + 1) = [] ++ [area[0]] := List.take_succ_eq_append_getElem inside
      rw [start, strrchrLoop, read, Option.bind_eq_bind, Option.bind_some]
      by_cases same : area[0] = charOf c
      · exact ⟨some 0, by simp [same], same ▸ lastAt_here [] _⟩
      · exact ⟨none, by simp [same], lastAt_concat List.not_mem_nil same⟩
  | succ offset inductionHypothesis =>
      have read : memory (s + (offset + 1)) = some area[offset + 1] := holds_iff.mp holds _ inside
      have front : (area.take (offset + 1)).length = offset + 1 :=
        List.length_take_of_le (Nat.le_of_lt inside)
      rw [List.take_succ_eq_append_getElem inside, strrchrLoop, read, Option.bind_eq_bind,
        Option.bind_some]
      by_cases same : area[offset + 1] = charOf c
      · refine ⟨some (offset + 1), by simp [same], ?_⟩
        have last := lastAt_here (area.take (offset + 1)) (charOf c)
        rw [same]
        rwa [front] at last
      · obtain ⟨last, ran, found⟩ := inductionHypothesis (Nat.lt_of_succ_lt inside)
        exact ⟨last, by rw [if_neg same, ran], lastAt_concat found same⟩

/-- `strchr` finds the first and `strrchr` the last place of a character, the NUL among
them; `strnchr` does not find the NUL. -/
theorem strchr_strrchr_strnchr (string : StringAt memory s text) (enough : text.length < rounds)
    (c : Int) (count : Nat) :
    ∃ first last near, strchr memory c rounds s = some (first.map fun index => s + index) ∧
      strrchr rounds memory s c = some (last.map fun index => s + index) ∧
      strnchr memory c count s = some (near.map fun index => s + index) ∧
      FirstAt (charOf c) (text ++ [0]) first ∧ LastAt (charOf c) (text ++ [0]) last ∧
      FirstAt (charOf c) (text.take count) near := by
  have inside : text.length < (text ++ [0]).length := by simp
  obtain ⟨last, ran, found⟩ := strrchrLoop_spec (c := c) string.1 inside
  rw [List.take_of_length_le (by simp)] at found
  refine ⟨_, last, _, strchr_spec string enough, ?_, strnchr_spec string count,
    firstAt_findIdx _ _, found, firstAt_findIdx _ _⟩
  rw [strrchr, strlen_spec string enough, Option.bind_eq_bind, Option.bind_some, ran]

theorem strchr_strrchr_strnchr_aba :
    let memory : CharMemory := fun place => ([97, 98, 97, 0] : List UInt8)[place]?
    strchr memory 97 4 0 = some (some 0) ∧ strrchr 4 memory 0 97 = some (some 2) ∧
      strchr memory 0 4 0 = some (some 3) ∧ strnchr memory 0 9 0 = some none ∧
      ∃ first last near, strchr memory 97 4 0 = some (first.map fun index => 0 + index) ∧
        strrchr 4 memory 0 97 = some (last.map fun index => 0 + index) ∧
        strnchr memory 97 9 0 = some (near.map fun index => 0 + index) ∧
        FirstAt (charOf 97) ([97, 98, 97] ++ [0]) first ∧
        LastAt (charOf 97) ([97, 98, 97] ++ [0]) last ∧
        FirstAt (charOf 97) ([97, 98, 97].take 9) near :=
  ⟨by decide, by decide, by decide, by decide,
    strchr_strrchr_strnchr (show StringAt _ 0 [97, 98, 97] by decide) (by decide) 97 9⟩

theorem toNat_eq_iff {byte : UInt8} (positive : 0 ≤ c) (small : c < 256) :
    (byte.toNat : Int) = c ↔ byte = charOf c := by
  obtain ⟨n, rfl⟩ := Int.eq_ofNat_of_zero_le positive
  have cut : (charOf n).toNat = n := by
    simp only [charOf, UInt8.ofInt, UInt8.toNat_ofNat']
    omega
  rw [← UInt8.toNat_inj, cut, Int.natCast_inj]

theorem memscan_spec (holds : Holds memory s area) :
    memscan memory c area.length s =
      some (s + (area.findIdx? (fun byte => (byte.toNat : Int) = c)).getD area.length) := by
  induction area generalizing s with
  | nil => rfl
  | cons byte rest inductionHypothesis =>
      obtain ⟨here, later⟩ := holds
      rw [List.length_cons, memscan, here, Option.bind_eq_bind, Option.bind_some,
        List.findIdx?_cons, inductionHypothesis later]
      by_cases same : (byte.toNat : Int) = c
      · simp [same]
      · simp only [same, decide_false, Bool.false_eq_true, if_false]
        cases rest.findIdx? fun byte => (byte.toNat : Int) = c with
        | none => rw [Option.map_none, Option.getD_none, Option.getD_none, Nat.add_right_comm,
            Nat.add_assoc]
        | some index => rw [Option.map_some, Option.getD_some, Option.getD_some,
            Nat.add_right_comm, Nat.add_assoc]

/-- `memchr` finds the first place of a byte in an area; `memscan` finds the same one, or
the end of the area, exactly if the `int` is the value of a byte or the byte it would be
cut down to is not there. -/
theorem memscan_memchr (holds : Holds memory s area) (c : Int) :
    ∃ found, memchr memory c area.length s = some (found.map fun index => s + index) ∧
      FirstAt (charOf c) area found ∧
      (memscan memory c area.length s = some (s + found.getD area.length) ↔
        0 ≤ c ∧ c < 256 ∨ charOf c ∉ area) := by
  refine ⟨_, memchr_spec holds, firstAt_findIdx _ _, ?_⟩
  rw [memscan_spec holds, Option.some_inj, Nat.add_left_cancel_iff]
  by_cases range : 0 ≤ c ∧ c < 256
  · simp only [toNat_eq_iff range.1 range.2, range, and_self, true_or]
  · have never : area.findIdx? (fun byte => (byte.toNat : Int) = c) = none := by
      refine List.findIdx?_eq_none_iff.mpr fun byte _ => decide_eq_false fun same => range ?_
      have := byte.toNat_lt
      omega
    rw [never, Option.getD_none]
    have first := firstAt_findIdx (charOf c) area
    cases found : area.findIdx? (· = charOf c) with
    | none =>
        rw [found] at first
        exact iff_of_true rfl (.inr first)
    | some index =>
        rw [found] at first
        obtain ⟨inside, here⟩ := List.getElem?_eq_some_iff.mp first.1
        refine iff_of_false (Nat.ne_of_gt inside) ?_
        rintro (small | missing)
        · exact range small
        · exact missing (here ▸ List.getElem_mem inside)

theorem memscan_memchr_negative :
    let memory : CharMemory := fun place => ([7, 255, 8] : List UInt8)[place]?
    memchr memory (-1) 3 0 = some (some 1) ∧ memscan memory (-1) 3 0 = some 3 ∧
      ∃ found, memchr memory (-1) 3 0 = some (found.map fun index => 0 + index) ∧
        FirstAt (charOf (-1)) [7, 255, 8] found ∧
        (memscan memory (-1) 3 0 = some (0 + found.getD 3) ↔
          0 ≤ (-1 : Int) ∧ (-1 : Int) < 256 ∨ charOf (-1) ∉ ([7, 255, 8] : List UInt8)) :=
  ⟨by decide, by decide, memscan_memchr (show Holds _ 0 [7, 255, 8] by decide) (-1)⟩

theorem spans_nil (condition : UInt8 → Prop) : Spans condition [] 0 := by
  simp [Spans]

theorem spans_stop {condition : UInt8 → Prop} {byte : UInt8} (stop : ¬ condition byte)
    (rest : List UInt8) : Spans condition (byte :: rest) 0 := by
  simp [Spans, stop]

theorem Spans.cons {condition : UInt8 → Prop} {byte : UInt8} {length : Nat}
    (spans : Spans condition text length) (here : condition byte) :
    Spans condition (byte :: text) (length + 1) := by
  obtain ⟨short, all, stop⟩ := spans
  refine ⟨Nat.succ_le_succ short, ?_, fun other => ?_⟩
  · rw [List.take_succ_cons, List.forall_mem_cons]
    exact ⟨here, all⟩
  · rw [List.getElem?_cons_succ]
    exact stop other

theorem spanLoop_spec {left count : Nat} (string : StringAt memory s text)
    (long : text.length < left) (letters : StringAt memory ct set) (enough : set.length < rounds)
    (wanted : Bool) : ∃ length, spanLoop memory rounds ct wanted left s count =
      some (count + length) ∧ Spans (fun byte => decide (byte ∈ set) = wanted) text length := by
  induction text generalizing s left count with
  | nil =>
      obtain ⟨left, rfl⟩ := Nat.exists_eq_add_one.mpr long
      exact ⟨0, by simp [spanLoop, ended_nil.mp string], spans_nil _⟩
  | cons byte rest inductionHypothesis =>
      obtain ⟨left, rfl⟩ := Nat.exists_eq_add_one.mpr (Nat.zero_lt_of_lt long)
      obtain ⟨here, notNul, later⟩ := ended_cons.mp string
      rw [spanLoop, here, Option.bind_eq_bind, Option.bind_some, if_neg notNul,
        isOneOf_spec letters enough, Option.bind_eq_bind, Option.bind_some]
      by_cases goes : decide (byte ∈ set) = wanted
      · obtain ⟨length, ran, spans⟩ := @inductionHypothesis (s + 1) left (count + 1) later
          (Nat.lt_of_succ_lt_succ long)
        refine ⟨length + 1, ?_, spans.cons goes⟩
        rw [if_pos goes, ran, Nat.add_right_comm, Nat.add_assoc]
      · exact ⟨0, by rw [if_neg goes, Nat.add_zero], spans_stop goes rest⟩

theorem Spans.findIdx {outside : Nat} (spans : Spans (· ∉ set) text outside) :
    text.findIdx? (· ∈ set) = if outside = text.length then none else some outside := by
  obtain ⟨short, all, stop⟩ := spans
  split
  case isTrue whole =>
    rw [whole, List.take_length] at all
    exact List.findIdx?_eq_none_iff.mpr fun byte member => decide_eq_false (all byte member)
  case isFalse part =>
    have inside : outside < text.length := Nat.lt_of_le_of_ne short part
    refine List.findIdx?_eq_some_iff_getElem.mpr ⟨inside, ?_, fun place before found => ?_⟩
    · exact decide_eq_true (not_not.mp (stop _ (List.getElem?_eq_getElem inside)))
    · refine all _ ?_ (of_decide_eq_true found)
      exact List.mem_take_iff_getElem.mpr ⟨place, by omega, rfl⟩

/-- `strspn` and `strcspn` measure the longest beginning with, and without, the characters
of a set; one of them is 0, and `strpbrk` answers with the end of what `strcspn` measures. -/
theorem strspn_strcspn_strpbrk (string : StringAt memory s text) (long : text.length < rounds)
    (letters : StringAt memory ct set) (enough : set.length < rounds) :
    ∃ inside outside, strspn rounds memory s ct = some inside ∧
      strcspn rounds memory s ct = some outside ∧
      Spans (· ∈ set) text inside ∧ Spans (· ∉ set) text outside ∧
      (inside = 0 ∨ outside = 0) ∧
      strpbrk rounds memory s ct =
        some (if outside = text.length then none else some (s + outside)) := by
  obtain ⟨inside, ranInside, within⟩ :=
    @spanLoop_spec _ _ _ _ _ _ _ 0 string long letters enough true
  obtain ⟨outside, ranOutside, without⟩ :=
    @spanLoop_spec _ _ _ _ _ _ _ 0 string long letters enough false
  simp only [decide_eq_true_eq, decide_eq_false_iff_not, Nat.zero_add] at *
  refine ⟨inside, outside, ranInside, ranOutside, within, without, ?_, ?_⟩
  · cases text with
    | nil => exact .inl (Nat.le_zero.mp within.1)
    | cons byte rest =>
        rcases Nat.eq_zero_or_pos inside with none | some
        · exact .inl none
        · rcases Nat.eq_zero_or_pos outside with none | someOut
          · exact .inr none
          · refine absurd (within.2.1 byte ?_) (without.2.1 byte ?_)
            · exact List.mem_take_iff_getElem.mpr ⟨0, by simp; omega, rfl⟩
            · exact List.mem_take_iff_getElem.mpr ⟨0, by simp; omega, rfl⟩
  · rw [strpbrk, strpbrkLoop_spec string long letters enough, without.findIdx]
    split <;> rfl

theorem strspn_strcspn_strpbrk_two :
    let memory : CharMemory := fun place => ([97, 98, 59, 0, 98, 97, 0] : List UInt8)[place]?
    strspn 4 memory 0 4 = some 2 ∧
      ∃ inside outside, strspn 4 memory 0 4 = some inside ∧ strcspn 4 memory 0 4 = some outside ∧
        Spans (· ∈ ([98, 97] : List UInt8)) [97, 98, 59] inside ∧
        Spans (· ∉ ([98, 97] : List UInt8)) [97, 98, 59] outside ∧
        (inside = 0 ∨ outside = 0) ∧
        strpbrk 4 memory 0 4 = some (if outside = 3 then none else some (0 + outside)) :=
  ⟨by decide, strspn_strcspn_strpbrk (show StringAt _ 0 [97, 98, 59] by decide) (by decide)
    (show StringAt _ 4 [98, 97] by decide) (by decide)⟩

end UtilsModules.Strings

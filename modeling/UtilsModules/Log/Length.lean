import UtilsModules.Log.Record

/-!
The length that `log_core` hands over with a record.

As long as decoration and message stay below the limit, the buffer holds exactly
what has been printed.  Behind the limit `len` is what `vsnprintf` would have
written, while the buffer holds the part that was kept.
-/

namespace UtilsModules.Log

open CString

namespace Record

def Printed (record : Record) (text : List Char) : Prop :=
  Holds logMaxSize record.buffer text ∧ record.len = text.length

variable {state : LogState} {record : Record} {text more : List Char}

theorem start_printed : start.Printed [] :=
  ⟨holds_cleared (by decide), rfl⟩

theorem Printed.print_cut (printed : record.Printed text) (more : List Char)
    (place : text.length < logMaxSize - 1)
    (representable : text.length + more.length ≤ 2147483647) :
    ∃ after, record.print more = some after ∧
      Holds logMaxSize after.buffer (text ++ more.take (logMaxSize - 2 - text.length)) ∧
      after.len = text.length + more.length := by
  obtain ⟨holds, length⟩ := printed
  have limit : record.room = logMaxSize - 1 - text.length := by
    unfold room
    unfold logMaxSize at *
    omega
  obtain ⟨buffer, written, kept⟩ :=
    holds.snprintf more length (Nat.sub_pos_of_lt place)
      (show record.len + (logMaxSize - 1 - text.length) ≤ logMaxSize by omega)
  refine ⟨⟨buffer, record.len + more.length⟩, ?_, ?_, ?_⟩
  · unfold print
    rw [limit, written]
    exact if_pos (by omega)
  · rw [Nat.sub_right_comm] at kept
    exact kept
  · rw [length]

theorem Printed.print (printed : record.Printed text) (more : List Char)
    (room : text.length + more.length < logMaxSize - 1) :
    ∃ after, record.print more = some after ∧ after.Printed (text ++ more) := by
  have small : logMaxSize - 1 ≤ 2147483647 := by decide
  obtain ⟨after, run, holds, length⟩ := printed.print_cut more (by omega) (by omega)
  rw [List.take_of_length_le (by omega)] at holds
  exact ⟨after, run, holds, by rw [length, List.length_append]⟩

theorem print_overflow (overflow : 2147483647 < record.len + more.length) :
    record.print more = none := by
  unfold Record.print
  cases snprintf record.buffer record.len record.room more with
  | none => rfl
  | some buffer => exact if_neg (Nat.not_le_of_lt overflow)

def fieldsText (state : LogState) (fields : List (BitVec 32 × List Char)) : List Char :=
  fields.flatMap fun field => if state.Has field.1 then field.2 else []

theorem fieldsText_cons (field : BitVec 32 × List Char) (rest : List (BitVec 32 × List Char)) :
    fieldsText state (field :: rest) =
      (if state.Has field.1 then field.2 else []) ++ fieldsText state rest :=
  List.flatMap_cons

theorem Printed.printIf (printed : record.Printed text) (asked : Prop) [Decidable asked]
    (more : List Char) (room : text.length + (if asked then more else []).length < logMaxSize - 1) :
    ∃ after, record.printIf asked more = some after ∧
      after.Printed (text ++ if asked then more else []) := by
  unfold Record.printIf
  by_cases wanted : asked
  · rw [if_pos wanted] at room
    rw [if_pos wanted, if_pos wanted]
    exact printed.print more room
  · rw [if_neg wanted, if_neg wanted, List.append_nil]
    exact ⟨record, rfl, printed⟩

theorem Printed.printFields (printed : record.Printed text) (state : LogState)
    (fields : List (BitVec 32 × List Char))
    (room : text.length + (fieldsText state fields).length < logMaxSize - 1) :
    ∃ after, record.printFields state fields = some after ∧
      after.Printed (text ++ fieldsText state fields) := by
  induction fields generalizing record text with
  | nil => exact ⟨record, rfl, by rwa [fieldsText, List.flatMap_nil, List.append_nil]⟩
  | cons field rest inductionHypothesis =>
      rw [fieldsText_cons, List.length_append] at room
      obtain ⟨between, run, written⟩ :=
        printed.printIf (state.Has field.1) field.2 (by omega)
      obtain ⟨after, later, kept⟩ :=
        inductionHypothesis written (by rw [List.length_append]; omega)
      refine ⟨after, ?_, ?_⟩
      · rw [Record.printFields, run]
        exact later
      · rw [fieldsText_cons, ← List.append_assoc]
        exact kept

theorem Printed.fill (printed : record.Printed text) (indent : Nat)
    (room : text.length + indent < logMaxSize) :
    ∃ after, record.fill indent = some after ∧
      after.Printed (text ++ List.replicate indent '.') := by
  obtain ⟨holds, length⟩ := printed
  obtain ⟨buffer, written, kept⟩ :=
    holds.write (List.replicate indent '.') 0 length
      (by rw [List.length_replicate]; omega) (by rw [List.length_replicate]; omega)
  rw [List.replicate_zero, List.append_nil] at written
  refine ⟨⟨buffer, record.len + indent⟩, ?_, kept, ?_⟩
  · rw [Record.fill, written]
    rfl
  · rw [List.length_append, List.length_replicate, length]

def indentText (state : LogState) : List Char :=
  if state.Has logHasIndent ∧ state.indent > 0 then List.replicate state.indent.toNat '.' else []

theorem Printed.indentation (printed : record.Printed text) (state : LogState)
    (room : text.length + (indentText state).length < logMaxSize) :
    ∃ after, record.indentation state = some after ∧ after.Printed (text ++ indentText state) := by
  unfold indentText at room ⊢
  unfold Record.indentation
  by_cases indented : state.Has logHasIndent ∧ state.indent > 0
  · rw [if_pos indented, List.length_replicate] at room
    rw [if_pos indented, if_pos indented]
    exact printed.fill state.indent.toNat room
  · rw [if_neg indented, if_neg indented, List.append_nil]
    exact ⟨record, rfl, printed⟩

end Record

def decoration (state : LogState) (origin : Origin) (level : LogLevel) : List Char :=
  let front := Record.fieldsText state (Record.frontFields origin level)
  front ++ Record.fieldsText state (Record.yearField origin front.length) ++
    Record.fieldsText state (Record.laterFields origin) ++
    (if state.logDecor ≠ 0 ∧ state.logDecor ≠ logHasNewline then [' '] else []) ++
    (if ¬ state.Has logHasThreadSwc ∧ state.Has logHasSpace then [' '] else []) ++
    Record.indentText state

def LogState.width (state : LogState) (mask : BitVec 32) (characters : Nat) : Nat :=
  if state.Has mask then characters else 0

def decorationWidth (state : LogState) (origin : Origin) : Nat :=
  state.width logHasLevelText 6 + state.width logHasDayName 3 +
    state.width logHasYear ((decimal origin.ptime.year).length +
      if state.Has logHasLevelText ∨ state.Has logHasDayName then 1 else 0) +
    state.width logHasMonth 3 + state.width logHasDayOfMon 3 + state.width logHasTime 9 +
    state.width logHasMicroSec 5 + state.width logHasSender 38 +
    state.width logHasThreadId (3 + max 8 (decimal origin.tid).length) +
    state.width logHasProcessId (3 + max 8 (decimal origin.pid).length) +
    (if state.logDecor ≠ 0 ∧ state.logDecor ≠ logHasNewline then 1 else 0) +
    (if ¬ state.Has logHasThreadSwc ∧ state.Has logHasSpace then 1 else 0) +
    (if state.Has logHasIndent ∧ state.indent > 0 then state.indent.toNat else 0)

namespace Record

variable {state : LogState} {origin : Origin} {level : LogLevel}

theorem length_fieldsText (fields : List (BitVec 32 × List Char)) :
    (fieldsText state fields).length =
      (fields.map fun field => state.width field.1 field.2.length).sum := by
  induction fields with
  | nil => rfl
  | cons field rest inductionHypothesis =>
      rw [fieldsText_cons, List.length_append, inductionHypothesis, List.map_cons, List.sum_cons,
        apply_ite List.length]
      rfl

theorem length_ltext (level : LogLevel) : level.ltext.length = 6 := by
  cases level <;> rfl

theorem length_wday (day : Fin 7) : (wdays.getD day []).length = 3 := by
  revert day
  decide

theorem length_frontFields :
    (fieldsText state (frontFields origin level)).length =
      state.width logHasLevelText 6 + state.width logHasDayName 3 := by
  rw [length_fieldsText]
  simp only [frontFields, List.map_cons, List.map_nil, List.sum_cons, List.sum_nil, length_ltext,
    length_wday, Nat.add_zero]

theorem length_yearField (len : Nat) :
    (fieldsText state (yearField origin len)).length =
      state.width logHasYear ((decimal origin.ptime.year).length + if len ≠ 0 then 1 else 0) := by
  rw [length_fieldsText, yearField, List.map_singleton, List.sum_singleton]
  by_cases behind : len ≠ 0
  · simp only [if_pos behind, List.length_cons]
  · simp only [if_neg behind, Nat.add_zero]

theorem length_twoDigits (first : Char) {number : Nat} (small : number < 100) :
    (first :: padLeft 2 '0' (decimal number)).length = 3 := by
  rw [List.length_cons, length_padLeft_decimal (by decide) small]

theorem length_identifier (front : List Char) (number : Nat) :
    (front ++ padLeft 8 ' ' (decimal number) ++ [']']).length =
      front.length + max 8 (decimal number).length + 1 := by
  rw [List.length_append, List.length_append, length_padLeft]
  rfl

theorem length_laterFields :
    (fieldsText state (laterFields origin)).length =
      state.width logHasMonth 3 + state.width logHasDayOfMon 3 + state.width logHasTime 9 +
        state.width logHasMicroSec 5 + state.width logHasSender 38 +
        state.width logHasThreadId (3 + max 8 (decimal origin.tid).length) +
        state.width logHasProcessId (3 + max 8 (decimal origin.pid).length) := by
  obtain ⟨⟨wday, day, mon, year, sec, min, hour, msec⟩, tid, pid⟩ := origin
  have time : (' ' :: padLeft 2 '0' (decimal hour) ++ ':' :: padLeft 2 '0' (decimal min) ++
      ':' :: padLeft 2 '0' (decimal sec)).length = 9 := by
    rw [List.length_append, List.length_append, length_twoDigits _ (by omega),
      length_twoDigits _ (by omega), length_twoDigits _ (by omega)]
  have micro : ('.' :: padLeft 3 '0' (decimal msec) ++ [' ']).length = 5 := by
    rw [List.length_append, List.length_cons, length_padLeft_decimal (by decide) (by omega)]
    rfl
  have thread : (" [".toList ++ padLeft 8 ' ' (decimal tid) ++ [']']).length =
      3 + max 8 (decimal tid).length := by
    rw [length_identifier, Nat.add_right_comm]
    rfl
  have process : ("#[".toList ++ padLeft 8 ' ' (decimal pid) ++ [']']).length =
      3 + max 8 (decimal pid).length := by
    rw [length_identifier, Nat.add_right_comm]
    rfl
  have sender : (" [".toList ++ padLeft 14 ' ' "log.c".toList ++ ':' :: padLeft 16 ' '
      "log_core".toList ++ '#' :: padLeft 3 '0' (decimal 544) ++ [']']).length = 38 := by
    decide
  rw [length_fieldsText]
  simp only [laterFields, List.map_cons, List.map_nil, List.sum_cons, List.sum_nil]
  rw [length_twoDigits '-' (show (mon : Nat) < 100 by omega),
    length_twoDigits '-' (show (day : Nat) < 100 by omega), time, micro, sender, thread, process]
  omega

theorem length_decoration :
    (decoration state origin level).length = decorationWidth state origin := by
  have behind : (fieldsText state (frontFields origin level)).length ≠ 0 ↔
      state.Has logHasLevelText ∨ state.Has logHasDayName := by
    rw [length_frontFields, LogState.width, LogState.width]
    split_ifs with levelText dayName dayName
    · exact iff_of_true (by decide) (Or.inl levelText)
    · exact iff_of_true (by decide) (Or.inl levelText)
    · exact iff_of_true (by decide) (Or.inr dayName)
    · exact iff_of_false (by decide) (not_or.mpr ⟨levelText, dayName⟩)
  simp only [decoration, List.length_append, length_yearField, length_laterFields, behind]
  rw [length_frontFields, indentText, apply_ite List.length, apply_ite List.length,
    apply_ite List.length, List.length_replicate, List.length_singleton, List.length_nil]
  unfold decorationWidth
  omega

theorem width_le (state : LogState) (mask : BitVec 32) (characters : Nat) :
    state.width mask characters ≤ characters := by
  unfold LogState.width
  split_ifs
  · exact Nat.le_refl characters
  · exact Nat.zero_le characters

theorem decorationWidth_le (state : LogState) (origin : Origin) :
    decorationWidth state origin ≤ 182 := by
  have year : (decimal origin.ptime.year).length ≤ 4 :=
    (Nat.length_toDigits_le_iff (by decide) (by decide)).mpr (by omega)
  have thread : (decimal origin.tid).length ≤ 10 :=
    (Nat.length_toDigits_le_iff (by decide) (by decide)).mpr (by omega)
  have process : (decimal origin.pid).length ≤ 10 :=
    (Nat.length_toDigits_le_iff (by decide) (by decide)).mpr (by omega)
  have indent : state.indent.toNat ≤ 80 := by
    unfold LogState.indent logMaxIndent
    split_ifs <;> omega
  have yearWidth := width_le state logHasYear ((decimal origin.ptime.year).length +
    if state.Has logHasLevelText ∨ state.Has logHasDayName then 1 else 0)
  have yearBlank : (if state.Has logHasLevelText ∨ state.Has logHasDayName then 1 else 0) ≤ 1 := by
    split_ifs <;> decide
  have blank : (if state.logDecor ≠ 0 ∧ state.logDecor ≠ logHasNewline then 1 else 0) ≤ 1 := by
    split_ifs <;> decide
  have space : (if ¬ state.Has logHasThreadSwc ∧ state.Has logHasSpace then 1 else 0) ≤ 1 := by
    split_ifs <;> decide
  have dots :
      (if state.Has logHasIndent ∧ state.indent > 0 then state.indent.toNat else 0) ≤ 80 := by
    split_ifs <;> omega
  have threadWidth := width_le state logHasThreadId (3 + max 8 (decimal origin.tid).length)
  have processWidth := width_le state logHasProcessId (3 + max 8 (decimal origin.pid).length)
  have levelWidth := width_le state logHasLevelText 6
  have dayNameWidth := width_le state logHasDayName 3
  have monthWidth := width_le state logHasMonth 3
  have dayWidth := width_le state logHasDayOfMon 3
  have timeWidth := width_le state logHasTime 9
  have microWidth := width_le state logHasMicroSec 5
  have senderWidth := width_le state logHasSender 38
  unfold decorationWidth
  omega

theorem length_decoration_lt : (decoration state origin level).length < logMaxSize - 1 := by
  rw [length_decoration]
  exact Nat.lt_of_le_of_lt (decorationWidth_le state origin) (by decide)

theorem decorate_printed (state : LogState) (origin : Origin) (level : LogLevel) :
    ∃ record, decorate state origin level = some record ∧
      record.Printed (decoration state origin level) := by
  have bound := @length_decoration_lt state origin level
  unfold decoration at bound ⊢
  simp only [List.length_append] at bound
  obtain ⟨front, frontRun, frontText⟩ :=
    start_printed.printFields state (frontFields origin level) (by
      rw [List.length_nil]
      omega)
  rw [List.nil_append] at frontText
  obtain ⟨dated, datedRun, datedText⟩ := frontText.printFields state (yearField origin front.len) (by
    rw [frontText.2]
    omega)
  rw [frontText.2] at datedText
  obtain ⟨later, laterRun, laterText⟩ := datedText.printFields state (laterFields origin) (by
    rw [List.length_append]
    omega)
  obtain ⟨blank, blankRun, blankText⟩ :=
    laterText.printIf (state.logDecor ≠ 0 ∧ state.logDecor ≠ logHasNewline) [' '] (by
      simp only [List.length_append]
      omega)
  obtain ⟨spaced, spacedRun, spacedText⟩ :=
    blankText.printIf (¬ state.Has logHasThreadSwc ∧ state.Has logHasSpace) [' '] (by
      simp only [List.length_append]
      omega)
  obtain ⟨after, afterRun, afterText⟩ := spacedText.indentation state (by
    simp only [List.length_append]
    omega)
  refine ⟨after, ?_, afterText⟩
  unfold decorate
  simp only [frontRun, datedRun, laterRun, blankRun, spacedRun, Option.bind_eq_bind,
    Option.bind_some]
  exact afterRun

variable {record : Record} {front text : List Char}

def newlineText (state : LogState) : List Char := if state.Has logHasNewline then ['\n'] else []

theorem Printed.newline (printed : record.Printed text) (state : LogState)
    (room : text.length + 1 < logMaxSize) :
    ∃ after, record.newline state = some after ∧ after.Printed (text ++ newlineText state) := by
  obtain ⟨holds, length⟩ := printed
  unfold Record.newline newlineText
  by_cases ended : state.Has logHasNewline
  · obtain ⟨buffer, written, kept⟩ := holds.write ['\n'] 0 length
      (by rw [length]; exact room) (by rw [length]; exact Nat.le_of_lt room)
    rw [List.replicate_zero, List.append_nil] at written
    refine ⟨⟨buffer, record.len + 1⟩, ?_, ?_⟩
    · rw [if_pos ended, written]
      rfl
    · rw [if_pos ended]
      exact ⟨kept, by rw [length, List.length_append]; rfl⟩
  · rw [if_neg ended, if_neg ended, List.append_nil]
    exact ⟨record, rfl, holds, length⟩

theorem Printed.finish (printed : record.Printed front) (state : LogState) (text : List Char)
    (fits : front.length + text.length < logMaxSize - 1) :
    ∃ after, record.finish state text = some after ∧
      after.Printed (front ++ text ++ newlineText state) := by
  obtain ⟨between, run, written⟩ := printed.print text fits
  have length := written.2
  rw [List.length_append] at length
  obtain ⟨after, ended, kept⟩ := written.newline state (by
    rw [List.length_append]
    omega)
  refine ⟨after, ?_, kept⟩
  unfold Record.finish
  simp only [run, if_neg (show ¬ between.len ≥ logMaxSize - 1 by omega), ended,
    Option.bind_eq_bind, Option.bind_some, kept.1.write_last]

theorem Printed.finish_cut (printed : record.Printed front) (state : LogState) (text : List Char)
    (place : front.length < logMaxSize - 1) (long : logMaxSize - 1 ≤ front.length + text.length)
    (representable : front.length + text.length ≤ 2147483647) :
    ∃ after, record.finish state text = some after ∧
      Holds logMaxSize after.buffer (front ++ text.take (logMaxSize - 2 - front.length)) ∧
      after.len = front.length + text.length := by
  obtain ⟨after, run, kept, length⟩ := printed.print_cut text place representable
  refine ⟨after, ?_, kept, length⟩
  unfold Record.finish
  simp only [run, if_pos (show after.len ≥ logMaxSize - 1 by omega), Option.bind_eq_bind,
    Option.bind_some, kept.write_last]

theorem finish_overflow (state : LogState) (text : List Char)
    (overflow : 2147483647 < record.len + text.length) : record.finish state text = none := by
  unfold Record.finish
  rw [print_overflow overflow]
  rfl

theorem nul_not_mem_ite {asked : Prop} [Decidable asked] {text : List Char} (clean : nul ∉ text) :
    nul ∉ if asked then text else [] := by
  split_ifs
  · exact clean
  · exact List.not_mem_nil

theorem nul_not_mem_fieldsText {fields : List (BitVec 32 × List Char)}
    (clean : ∀ field ∈ fields, nul ∉ field.2) : nul ∉ fieldsText state fields := by
  intro inside
  obtain ⟨field, membership, within⟩ := List.mem_flatMap.mp inside
  exact nul_not_mem_ite (clean field membership) within

theorem nul_not_mem_frontFields :
    nul ∉ fieldsText state (frontFields origin level) := by
  have levels : nul ∉ level.ltext := by
    cases level <;> decide
  have days : ∀ day : Fin 7, nul ∉ wdays.getD day [] := by
    decide
  apply nul_not_mem_fieldsText
  simp only [frontFields, List.forall_mem_cons, levels, days, not_false_eq_true, true_and,
    List.not_mem_nil, false_imp_iff, implies_true]

theorem nul_not_mem_yearField (len : Nat) : nul ∉ fieldsText state (yearField origin len) := by
  have year := nul_not_mem_decimal origin.ptime.year
  have blank : nul ≠ ' ' := by
    decide
  apply nul_not_mem_fieldsText
  rw [yearField, List.forall_mem_singleton]
  split_ifs
  · exact List.not_mem_cons_of_ne_of_not_mem blank year
  · exact year

theorem nul_not_mem_laterFields : nul ∉ fieldsText state (laterFields origin) := by
  have number (width : Nat) {pad : Char} (value : Nat) (padded : pad ≠ nul) :
      nul ∉ padLeft width pad (decimal value) :=
    nul_not_mem_padLeft padded (nul_not_mem_decimal value)
  have zero := fun width value => number width value (show '0' ≠ nul by decide)
  have blank := fun width value => number width value (show ' ' ≠ nul by decide)
  have sender : nul ∉ " [".toList ++ padLeft 14 ' ' "log.c".toList ++ ':' :: padLeft 16 ' '
      "log_core".toList ++ '#' :: padLeft 3 '0' (decimal 544) ++ [']'] := by
    decide
  apply nul_not_mem_fieldsText
  simp only [laterFields, List.forall_mem_cons]
  refine ⟨?_, ?_, ?_, ?_, sender, ?_, ?_, List.forall_mem_nil _⟩ <;>
    simp only [List.mem_append, List.mem_cons, zero, blank] <;>
    decide

theorem nul_not_mem_decoration (state : LogState) (origin : Origin) (level : LogLevel) :
    nul ∉ decoration state origin level := by
  have dots : nul ∉ indentText state := by
    apply nul_not_mem_ite
    intro inside
    exact absurd (List.eq_of_mem_replicate inside) (by decide)
  have blank : nul ∉ [' '] := by
    decide
  unfold decoration
  simp only [List.mem_append, not_or]
  exact ⟨⟨⟨⟨⟨nul_not_mem_frontFields, nul_not_mem_yearField _⟩, nul_not_mem_laterFields⟩,
    nul_not_mem_ite blank⟩, nul_not_mem_ite blank⟩, dots⟩

/-- The record is a string in the buffer, with its length. -/
structure Proper (record : Record) : Prop where
  size : record.buffer.length = logMaxSize
  terminated : nul ∈ record.buffer
  length : record.len = strlen record.buffer
  below : record.len < logMaxSize

theorem Printed.proper_iff (printed : record.Printed text) : record.Proper ↔ nul ∉ text := by
  obtain ⟨holds, length⟩ := printed
  rw [← holds.strlen_eq_iff]
  constructor
  · intro proper
    rw [← proper.length, length]
  · intro same
    exact ⟨holds.length_eq, holds.terminated, by rw [same, length], by rw [length]; exact holds.1⟩

/-- A length that counts more than the buffer can hold is not that of its string. -/
theorem not_proper_of_long (holds : Holds logMaxSize record.buffer text)
    (kept : text.length < logMaxSize - 1) (long : logMaxSize - 1 ≤ record.len) :
    ¬ record.Proper := by
  intro proper
  have bound := holds.strlen_le
  have length := proper.length
  omega

end Record

section Core

variable {state : LogState} {origin : Origin} {level : LogLevel} {text : List Char}

/-- The level is logged, and the thread has not suspended logging. -/
def Logged (state : LogState) (level : LogLevel) : Prop :=
  ¬ (level.toInt > state.logMaxLevel ∨ state.suspended = true)

instance (state : LogState) (level : LogLevel) : Decidable (Logged state level) :=
  inferInstanceAs (Decidable (¬ _))

theorem logCore_logged (origin : Origin) (text : List Char) (logged : Logged state level) :
    ∃ record : Record, record.Printed (decoration state origin level) ∧
      logCore state origin level text = (record.finish state text).map some := by
  obtain ⟨record, run, printed⟩ := Record.decorate_printed state origin level
  refine ⟨record, printed, ?_⟩
  rw [logCore, if_neg logged, run, Option.bind_eq_bind, Option.bind_some]
  cases record.finish state text <;> rfl

theorem logCore_fits (origin : Origin) (text : List Char) (logged : Logged state level)
    (fits : decorationWidth state origin + text.length < logMaxSize - 1) :
    ∃ record, logCore state origin level text = some (some record) ∧
      record.Printed (decoration state origin level ++ text ++ Record.newlineText state) := by
  obtain ⟨record, printed, run⟩ := logCore_logged origin text logged
  obtain ⟨after, finished, written⟩ :=
    printed.finish state text (by rwa [Record.length_decoration])
  exact ⟨after, by rw [run, finished, Option.map_some], written⟩

/-- Of a message that does not fit the buffer has a part, and `len` counts it all. -/
theorem logCore_cut (origin : Origin) (text : List Char) (logged : Logged state level)
    (long : logMaxSize - 1 ≤ decorationWidth state origin + text.length)
    (representable : decorationWidth state origin + text.length ≤ 2147483647) :
    ∃ record kept, logCore state origin level text = some (some record) ∧
      Holds logMaxSize record.buffer kept ∧ kept.length = logMaxSize - 2 ∧
      record.len = decorationWidth state origin + text.length := by
  obtain ⟨record, printed, run⟩ := logCore_logged origin text logged
  obtain ⟨after, finished, kept, length⟩ := printed.finish_cut state text
    Record.length_decoration_lt (by rwa [Record.length_decoration])
    (by rwa [Record.length_decoration])
  refine ⟨after, _, by rw [run, finished, Option.map_some], kept, ?_, ?_⟩
  · have place := @Record.length_decoration_lt state origin level
    rw [← @Record.length_decoration state origin level] at long
    rw [List.length_append, List.length_take]
    omega
  · rw [length, Record.length_decoration]

theorem logCore_overflow (logged : Logged state level)
    (overflow : 2147483647 < decorationWidth state origin + text.length) :
    logCore state origin level text = none := by
  obtain ⟨record, printed, run⟩ := logCore_logged origin text logged
  rw [run, Record.finish_overflow, Option.map_none]
  rwa [printed.2, Record.length_decoration]

/-- Every write is inside the buffer and the string is ended, also when the message
is cut off. -/
theorem logCore_inside (state : LogState) (origin : Origin) (level : LogLevel) (text : List Char)
    (representable : decorationWidth state origin + text.length ≤ 2147483647) :
    ∃ outcome, logCore state origin level text = some outcome ∧
      ∀ record ∈ outcome, record.buffer.length = logMaxSize ∧ nul ∈ record.buffer := by
  by_cases logged : Logged state level
  · rcases Nat.lt_or_ge (decorationWidth state origin + text.length) (logMaxSize - 1) with fits | long
    · obtain ⟨record, run, printed⟩ := logCore_fits origin text logged fits
      refine ⟨some record, run, ?_⟩
      rintro _ ⟨⟩
      exact ⟨printed.1.length_eq, printed.1.terminated⟩
    · obtain ⟨record, kept, run, holds, -⟩ := logCore_cut origin text logged long representable
      refine ⟨some record, run, ?_⟩
      rintro _ ⟨⟩
      exact ⟨holds.length_eq, holds.terminated⟩
  · exact ⟨none, if_pos (not_not.mp logged), fun _ membership => nomatch membership⟩

/-- `log_core` stays inside the buffer and hands over what it should. -/
def RecordProper (state : LogState) (origin : Origin) (level : LogLevel) (text : List Char) : Prop :=
  ∃ outcome, logCore state origin level text = some outcome ∧ ∀ record ∈ outcome, record.Proper

theorem recordProper_of_run {record : Record}
    (run : logCore state origin level text = some (some record)) :
    RecordProper state origin level text ↔ record.Proper := by
  constructor
  · rintro ⟨outcome, same, proper⟩
    rw [run] at same
    cases same
    exact proper record rfl
  · intro proper
    refine ⟨some record, run, ?_⟩
    rintro _ ⟨⟩
    exact proper

theorem not_recordProper_of_refused (refused : logCore state origin level text = none) :
    ¬ RecordProper state origin level text := by
  rintro ⟨outcome, same, -⟩
  rw [refused] at same
  cases same

theorem recordProper_of_not_logged (silent : ¬ Logged state level) :
    RecordProper state origin level text :=
  ⟨none, if_pos (not_not.mp silent), fun _ membership => nomatch membership⟩

theorem nul_not_mem_newlineText (state : LogState) : nul ∉ Record.newlineText state :=
  Record.nul_not_mem_ite (by decide)

/-- The length handed over with a record is right exactly if decoration and message
stay below the limit together and the message has no NUL. -/
theorem record_length_iff (state : LogState) (origin : Origin) (level : LogLevel)
    (text : List Char) :
    RecordProper state origin level text ↔
      (Logged state level →
        decorationWidth state origin + text.length < logMaxSize - 1 ∧ nul ∉ text) := by
  by_cases logged : Logged state level
  · rw [forall_prop_of_true logged]
    rcases Nat.lt_or_ge (decorationWidth state origin + text.length) (logMaxSize - 1) with fits | long
    · obtain ⟨record, run, printed⟩ := logCore_fits origin text logged fits
      rw [recordProper_of_run run, printed.proper_iff, List.mem_append, List.mem_append, not_or,
        not_or]
      constructor
      · rintro ⟨⟨-, clean⟩, -⟩
        exact ⟨fits, clean⟩
      · rintro ⟨-, clean⟩
        exact ⟨⟨Record.nul_not_mem_decoration state origin level, clean⟩,
          nul_not_mem_newlineText state⟩
    · apply iff_of_false
      · rcases Nat.lt_or_ge 2147483647 (decorationWidth state origin + text.length) with large | small
        · exact not_recordProper_of_refused (logCore_overflow logged large)
        · obtain ⟨record, kept, run, holds, length, counted⟩ :=
            logCore_cut origin text logged long small
          rw [recordProper_of_run run]
          apply Record.not_proper_of_long holds
          · rw [length]
            decide
          · rwa [counted]
      · exact fun condition => Nat.not_lt_of_le long condition.1
  · exact iff_of_true (recordProper_of_not_logged logged) fun required => absurd required logged

/-- With the decoration the module starts with, a message of 4000 characters has a
record of 4038, of which the buffer has the first 3998. -/
theorem cut_message_counted_whole :
    let state : LogState := ⟨6, false, 0x53B0, 0⟩
    let origin : Origin := ⟨⟨1, 2, 3, 2024, 45, 30, 12, 500⟩, 1001, 1000⟩
    ∃ record, logCore state origin .info (List.replicate 4000 'a') = some (some record) ∧
      record.len = 4038 ∧ strlen record.buffer ≤ 3998 ∧
      ¬ RecordProper state origin .info (List.replicate 4000 'a') := by
  intro state origin
  have logged : Logged state .info := by
    decide
  have width : decorationWidth state origin = 38 := by
    decide
  obtain ⟨record, kept, run, holds, length, counted⟩ :=
    logCore_cut origin (List.replicate 4000 'a') logged
      (by rw [width, List.length_replicate]; decide) (by rw [width, List.length_replicate]; decide)
  rw [width, List.length_replicate] at counted
  refine ⟨record, run, counted, ?_, ?_⟩
  · exact Nat.le_trans holds.strlen_le (Nat.le_of_eq length)
  · rw [recordProper_of_run run]
    intro proper
    exact absurd proper.below (by rw [counted]; decide)

end Core

end UtilsModules.Log

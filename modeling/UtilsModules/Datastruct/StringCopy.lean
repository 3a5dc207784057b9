import UtilsModules.Datastruct.Strings
import UtilsModules.Library.Transition

/-!
What the copying functions of `string.c` and `module_string.c` leave in memory.
-/

namespace UtilsModules.Strings

open Places

variable {memory : CharMemory} {dest src count : Nat}

theorem succ_mod {period : Nat} (positive : 0 < period) (offset : Nat) :
    (offset + 1) % period = if offset % period + 1 = period then 0 else offset % period + 1 := by
  have bound := Nat.mod_lt offset positive
  conv_lhs => rw [← Nat.div_add_mod offset period, Nat.add_assoc, Nat.mul_add_mod]
  split
  · next wraps => rw [wraps, Nat.mod_self]
  · next inside => exact Nat.mod_eq_of_lt (Nat.lt_of_le_of_ne bound inside)

/-- The exact effect of the forward loop: when the target begins inside the source,
what has been written already is copied again. -/
theorem copyForwards_spec (target : Usable memory dest count) (source : Usable memory src count) :
    ∃ after, copyForwards count memory dest src = some after ∧
      SameOutside after memory dest count ∧
      ∀ offset < count, after (dest + offset) =
        memory (src + if src < dest then offset % (dest - src) else offset) := by
  induction count generalizing memory dest src with
  | zero => exact ⟨memory, rfl, fun _ _ => rfl, fun _ small => absurd small (Nat.not_lt_zero _)⟩
  | succ count inductionHypothesis =>
      obtain ⟨byte, read⟩ := Option.isSome_iff_exists.mp (source 0 (Nat.succ_pos _))
      have written := store_of_usable (target 0 (Nat.succ_pos _)) byte
      rw [Nat.add_zero] at read written
      have further {place : Nat} (usable : Usable memory place (count + 1)) :
          Usable (Function.update memory dest (some byte)) (place + 1) count := by
        have rest := (usable.update dest byte).drop (show 1 ≤ count + 1 by omega)
        rwa [Nat.add_sub_cancel] at rest
      obtain ⟨after, ran, outside, copied⟩ := inductionHypothesis (further target) (further source)
      refine ⟨after, ?_, ?_, ?_⟩
      · simp only [copyForwards, read, written, Option.bind_eq_bind, Option.bind_some, ran]
      · refine (outside.mono (Nat.le_succ _) (by omega)).trans ?_
        exact (sameOutside_update byte).mono (Nat.le_refl _) (by omega)
      · intro offset small
        cases offset with
        | zero =>
            rw [Nat.add_zero, outside dest (by omega), Function.update_self, Nat.zero_mod, ite_self,
              Nat.add_zero, read]
        | succ offset =>
            have there := copied offset (Nat.lt_of_succ_lt_succ small)
            rw [Nat.add_right_comm, Nat.add_assoc] at there
            rw [there]
            by_cases overlap : src < dest
            · rw [if_pos (Nat.succ_lt_succ overlap), if_pos overlap, Nat.add_sub_add_right]
              have bound := Nat.mod_lt offset (Nat.sub_pos_of_lt overlap)
              by_cases wraps : offset % (dest - src) + 1 = dest - src
              · rw [succ_mod (Nat.sub_pos_of_lt overlap), if_pos wraps,
                  show src + 1 + offset % (dest - src) = dest by omega, Function.update_self,
                  Nat.add_zero, read]
              · rw [succ_mod (Nat.sub_pos_of_lt overlap), if_neg wraps,
                  Function.update_of_ne (by omega), Nat.add_assoc, Nat.add_comm 1]
            · rw [if_neg (by omega), if_neg overlap, Function.update_of_ne (by omega), Nat.add_assoc,
                Nat.add_comm 1]

theorem copyBackwards_spec (behind : src < dest) (target : Usable memory dest count)
    (source : Usable memory src count) :
    ∃ after, copyBackwards count memory (dest + count) (src + count) = some after ∧
      SameOutside after memory dest count ∧
      ∀ offset < count, after (dest + offset) = memory (src + offset) := by
  induction count generalizing memory with
  | zero => exact ⟨memory, rfl, fun _ _ => rfl, fun _ small => absurd small (Nat.not_lt_zero _)⟩
  | succ count inductionHypothesis =>
      obtain ⟨byte, read⟩ := Option.isSome_iff_exists.mp (source count (Nat.lt_succ_self _))
      have written := store_of_usable (target count (Nat.lt_succ_self _)) byte
      obtain ⟨after, ran, outside, copied⟩ := inductionHypothesis
        ((target.update (dest + count) byte).mono (Nat.le_succ _))
        ((source.update (dest + count) byte).mono (Nat.le_succ _))
      refine ⟨after, ?_, ?_, ?_⟩
      · simp only [copyBackwards, Nat.add_succ_sub_one, read, written, Option.bind_eq_bind,
          Option.bind_some, ran]
      · refine (outside.mono (Nat.le_refl _) (by omega)).trans ?_
        exact (sameOutside_update byte).mono (Nat.le_add_right _ _) (by omega)
      · intro offset small
        by_cases last : offset = count
        · rw [last, outside _ (by omega), Function.update_self, read]
        · rw [copied offset (by omega), Function.update_of_ne (by omega)]

/-- `memmove` copies every stretch to every other, however they overlap.  `memcpy`
repeats what lies before its target when that begins inside the source, and is
`memmove` otherwise. -/
theorem memmove_memcpy (target : Usable memory dest count) (source : Usable memory src count) :
    (∃ moved, memmove memory dest src count = some moved ∧ SameOutside moved memory dest count ∧
      ∀ offset < count, moved (dest + offset) = memory (src + offset)) ∧
    (∃ copied, memcpy memory dest src count = some copied ∧
      SameOutside copied memory dest count ∧
      ∀ offset < count, copied (dest + offset) =
        memory (src + if src < dest then offset % (dest - src) else offset)) ∧
    (dest ≤ src ∨ src + count ≤ dest →
      memcpy memory dest src count = memmove memory dest src count) := by
  obtain ⟨copied, ran, outside, forwards⟩ := copyForwards_spec target source
  by_cases order : dest ≤ src
  · have same : memmove memory dest src count = some copied := (if_pos order).trans ran
    refine ⟨⟨copied, same, outside, fun offset small => ?_⟩, ⟨copied, ran, outside, forwards⟩,
      fun _ => ran.trans same.symm⟩
    rw [forwards offset small, if_neg (by omega)]
  · obtain ⟨moved, ranBack, outsideBack, backwards⟩ :=
      copyBackwards_spec (Nat.lt_of_not_le order) target source
    have same : memmove memory dest src count = some moved := (if_neg order).trans ranBack
    refine ⟨⟨moved, same, outsideBack, backwards⟩, ⟨copied, ran, outside, forwards⟩, fun apart => ?_⟩
    have apart : src + count ≤ dest := apart.resolve_left order
    rw [same]
    refine ran.trans (congrArg some (funext fun place => ?_))
    by_cases inside : dest ≤ place ∧ place < dest + count
    · obtain ⟨offset, rfl⟩ := Nat.exists_eq_add_of_le inside.1
      have small : offset < count := by omega
      rw [forwards offset small, backwards offset small, if_pos (by omega),
        Nat.mod_eq_of_lt (by omega)]
    · rw [outside place inside, outsideBack place inside]

theorem memmove_memcpy_overlap :
    ∃ moved copied, memmove (fun place => if place < 6 then some (.ofNat place) else none) 1 0 3 =
        some moved ∧
      memcpy (fun place => if place < 6 then some (.ofNat place) else none) 1 0 3 = some copied ∧
      (List.range 6).map moved = [some 0, some 0, some 1, some 2, some 4, some 5] ∧
      (List.range 6).map copied = [some 0, some 0, some 0, some 0, some 4, some 5] := by
  have usable {place : Nat} (small : place ≤ 3) :
      Usable (fun place => if place < 6 then some (UInt8.ofNat place) else none) place 3 := by
    intro offset inside
    simp only
    rw [if_pos (by omega)]
    rfl
  obtain ⟨⟨moved, ranMove, -⟩, ⟨copied, ranCopy, -⟩, -⟩ :=
    memmove_memcpy (usable (show 1 ≤ 3 by decide)) (usable (show 0 ≤ 3 by decide))
  refine ⟨moved, copied, ranMove, ranCopy, ?_, ?_⟩
  · obtain rfl := Option.some.inj (Eq.symm ranMove)
    decide
  · obtain rfl := Option.some.inj (Eq.symm ranCopy)
    decide

end UtilsModules.Strings

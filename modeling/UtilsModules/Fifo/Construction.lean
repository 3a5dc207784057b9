import UtilsModules.Fifo.Kfifo

/-!
How `kfifo.c` makes a ring: the rounding of the size and the two assertions.

The rounding is right.  Both assertions are the wrong way round, and between
them they leave no size for which a ring is made.
-/

namespace UtilsModules.Fifo

/-- One step of the search in `generic_fls`: drop the bits of the mask if they
are all clear. -/
def flsStep (mask : BitVec 32) (shift : Nat) (state : BitVec 32 × Nat) : BitVec 32 × Nat :=
  if state.1 &&& mask = 0 then (state.1 <<< shift, state.2 - shift) else state

/-- `generic_fls`: the place of the highest bit that is set, counted from one. -/
def genericFls (x : BitVec 32) : Nat :=
  if x = 0 then
    0
  else
    let state := flsStep 0xffff0000 16 (x, 32)
    let state := flsStep 0xff000000 8 state
    let state := flsStep 0xf0000000 4 state
    let state := flsStep 0xc0000000 2 state
    (flsStep 0x80000000 1 state).2

/-- `roundup_pow_of_two` on a 64-bit `unsigned long`, whose predecessor is passed
as an `int`. -/
def roundupPowOfTwo (x : Nat) : Nat :=
  1 <<< genericFls (BitVec.ofNat 32 ((x + 18446744073709551615) % 18446744073709551616))

/-- `kfifo_init`: `none` is a failed assertion, `some none` is `NULL`.
`allocated` is whether there is memory for the structure. -/
def kfifoInit (buffer : List UInt8) (size : Nat) (allocated : Bool) : Option (Option Kfifo) :=
  if size &&& uintSub size 1 ≠ 0 then
    some (if allocated then some ⟨buffer, size, 0, 0⟩ else none)
  else
    none

/-- `kfifo_alloc`; `malloc` answers a request for a buffer of the given size. -/
def kfifoAlloc (malloc : Nat → Option (List UInt8)) (allocated : Bool) (size : Nat) :
    Option (Option Kfifo) := do
  let size ←
    if size &&& uintSub size 1 ≠ 0 then
      if size > 0x80000000 then some (roundupPowOfTwo size % uintSpace) else none
    else
      some size
  match malloc size with
  | none => some none
  | some buffer => kfifoInit buffer size allocated

theorem testBit_mask {mask : BitVec 32} {count : Nat}
    (value : mask.toNat = 2 ^ 32 - 2 ^ (32 - count)) (index : Nat) :
    mask.toNat.testBit index = (decide (index < 32) && !decide (index < 32 - count)) := by
  have positive := Nat.two_pow_pos (32 - count)
  have below : 2 ^ (32 - count) ≤ 2 ^ 32 := Nat.pow_le_pow_right (by decide) (by omega)
  have rest : 2 ^ 32 - 2 ^ (32 - count) = 2 ^ 32 - (2 ^ (32 - count) - 1 + 1) := by
    omega
  rw [value, rest, Nat.testBit_two_pow_sub_succ (by omega), Nat.testBit_two_pow_sub_one]

theorem and_mask_eq_zero_iff {mask : BitVec 32} {count : Nat}
    (value : mask.toNat = 2 ^ 32 - 2 ^ (32 - count)) (y : BitVec 32) :
    y &&& mask = 0 ↔ y.toNat < 2 ^ (32 - count) := by
  rw [← BitVec.toNat_inj, BitVec.toNat_and]
  constructor
  · intro clear
    apply Nat.lt_pow_two_of_testBit
    intro index high
    by_cases inside : index < 32
    · have bit := congrArg (·.testBit index) clear
      simpa [testBit_mask value, inside, Nat.not_lt.mpr high] using bit
    · exact Nat.testBit_lt_two_pow (y.isLt.trans_le (Nat.pow_le_pow_right (by decide) (by omega)))
  · intro small
    apply Nat.eq_of_testBit_eq
    intro index
    rw [Nat.testBit_and, testBit_mask value]
    by_cases low : index < 32 - count
    · simp [low]
    · have zero : y.toNat.testBit index = false :=
        Nat.testBit_lt_two_pow (small.trans_le (Nat.pow_le_pow_right (by decide) (by omega)))
      simp [zero]

/-- The search has shifted the number so far that its highest bit is among the
top bits, as many as `width`. -/
structure Located (x : BitVec 32) (width : Nat) (state : BitVec 32 × Nat) : Prop where
  shifted : state.1.toNat = x.toNat * 2 ^ (32 - state.2)
  lower : width ≤ state.2
  upper : state.2 ≤ 32
  top : 2 ^ (32 - width) ≤ state.1.toNat

theorem located_flsStep {x mask : BitVec 32} {shift : Nat} {state : BitVec 32 × Nat}
    (located : Located x (shift + shift) state)
    (value : mask.toNat = 2 ^ 32 - 2 ^ (32 - shift)) :
    Located x shift (flsStep mask shift state) := by
  obtain ⟨shifted, lower, upper, top⟩ := located
  unfold flsStep
  split
  · next clear =>
    rw [and_mask_eq_zero_iff value] at clear
    have whole : state.1.toNat * 2 ^ shift < 2 ^ 32 := by
      calc state.1.toNat * 2 ^ shift
          < 2 ^ (32 - shift) * 2 ^ shift := Nat.mul_lt_mul_of_pos_right clear (Nat.two_pow_pos _)
        _ = 2 ^ 32 := by rw [← Nat.pow_add]; congr 1; omega
    have moved : (state.1 <<< shift).toNat = state.1.toNat * 2 ^ shift := by
      rw [BitVec.toNat_shiftLeft, Nat.shiftLeft_eq, Nat.mod_eq_of_lt whole]
    constructor
    · dsimp only
      rw [moved, shifted, Nat.mul_assoc, ← Nat.pow_add]
      congr 2
      omega
    · dsimp only
      omega
    · dsimp only
      omega
    · dsimp only
      rw [moved]
      calc 2 ^ (32 - shift)
          = 2 ^ (32 - (shift + shift)) * 2 ^ shift := by rw [← Nat.pow_add]; congr 1; omega
        _ ≤ state.1.toNat * 2 ^ shift := Nat.mul_le_mul_right _ top
  · next set =>
    rw [and_mask_eq_zero_iff value] at set
    exact ⟨shifted, by omega, upper, by omega⟩

theorem genericFls_spec {x : BitVec 32} (nonzero : x ≠ 0) :
    1 ≤ genericFls x ∧ genericFls x ≤ 32 ∧ 2 ^ (genericFls x - 1) ≤ x.toNat ∧
      x.toNat < 2 ^ genericFls x := by
  have positive : 1 ≤ x.toNat := by
    apply Nat.pos_of_ne_zero
    exact fun zero => nonzero (BitVec.eq_of_toNat_eq zero)
  have start : Located x (16 + 16) (x, 32) := ⟨by simp, Nat.le_refl _, Nat.le_refl _, positive⟩
  have sixteen : Located x (8 + 8) (flsStep 0xffff0000 16 (x, 32)) := located_flsStep start rfl
  have eight := @located_flsStep x 0xff000000 8 _ sixteen rfl
  have four := @located_flsStep x 0xf0000000 4 _ eight rfl
  have two := @located_flsStep x 0xc0000000 2 _ four rfl
  have one := @located_flsStep x 0x80000000 1 _ two rfl
  simp only [genericFls, if_neg nonzero]
  generalize flsStep 0x80000000 1 _ = state at one
  obtain ⟨shifted, lower, upper, top⟩ := one
  have whole : 2 ^ state.2 * 2 ^ (32 - state.2) = 2 ^ 32 := by
    rw [← Nat.pow_add]
    congr 1
    omega
  have half : 2 ^ (state.2 - 1) * 2 ^ (32 - state.2) = 2 ^ (32 - 1) := by
    rw [← Nat.pow_add]
    congr 1
    omega
  refine ⟨lower, upper, ?_, ?_⟩
  · apply Nat.le_of_mul_le_mul_right _ (Nat.two_pow_pos (32 - state.2))
    rw [half, ← shifted]
    exact top
  · apply Nat.lt_of_mul_lt_mul_right (a := 2 ^ (32 - state.2))
    rw [whole, ← shifted]
    exact state.1.isLt

def IsLeastPower (size rounded : Nat) : Prop :=
  rounded.isPowerOfTwo ∧ size ≤ rounded ∧ ∀ power, power.isPowerOfTwo → size ≤ power → rounded ≤ power

theorem roundupPowOfTwo_places {size : Nat} (large : 2 ≤ size) (fits : size < uintSpace) :
    ∃ places ≤ 32, roundupPowOfTwo size = 2 ^ places ∧ 2 ^ (places - 1) < size ∧
      size ≤ 2 ^ places := by
  unfold uintSpace at fits
  have predecessor : (size + 18446744073709551615) % 18446744073709551616 = size - 1 := by
    omega
  have value : (BitVec.ofNat 32 (size - 1)).toNat = size - 1 := by
    rw [BitVec.toNat_ofNat]
    omega
  have nonzero : BitVec.ofNat 32 (size - 1) ≠ 0 := by
    intro zero
    have same := congrArg BitVec.toNat zero
    rw [value] at same
    have : size - 1 = 0 := same
    omega
  obtain ⟨-, upper, below, above⟩ := genericFls_spec nonzero
  rw [value] at below above
  refine ⟨genericFls (BitVec.ofNat 32 (size - 1)), upper, ?_, by omega, by omega⟩
  rw [roundupPowOfTwo, predecessor, Nat.one_shiftLeft]

/-- `roundup_pow_of_two` is right for every size whose rounded value fits. -/
theorem roundupPowOfTwo_least {size : Nat} (positive : 1 ≤ size) (small : size ≤ 2 ^ 31) :
    IsLeastPower size (roundupPowOfTwo size) ∧ roundupPowOfTwo size ≤ 2 ^ 31 := by
  by_cases one : size = 1
  · subst one
    exact ⟨⟨⟨0, rfl⟩, Nat.le_refl _, fun _ _ above => above⟩, by decide⟩
  · obtain ⟨places, -, rounded, below, above⟩ :=
      @roundupPowOfTwo_places size (by omega) (by unfold uintSpace; omega)
    have least : ∀ exponent, size ≤ 2 ^ exponent → 2 ^ places ≤ 2 ^ exponent := by
      intro exponent reaches
      have fewer := (Nat.pow_lt_pow_iff_right (by decide : 1 < 2)).mp (below.trans_le reaches)
      exact Nat.pow_le_pow_right (by decide) (by omega)
    rw [rounded]
    refine ⟨⟨⟨places, rfl⟩, above, ?_⟩, least 31 small⟩
    rintro power ⟨exponent, rfl⟩ reaches
    exact least exponent reaches

/-- Above `2 ^ 31` the rounded size does not fit an `unsigned int` and becomes
zero. -/
theorem roundupPowOfTwo_overflow {size : Nat} (large : 2 ^ 31 < size) (fits : size < uintSpace) :
    roundupPowOfTwo size % uintSpace = 0 := by
  obtain ⟨places, upper, rounded, -, above⟩ := @roundupPowOfTwo_places size (by omega) fits
  have more := (Nat.pow_lt_pow_iff_right (by decide : 1 < 2)).mp (large.trans_le above)
  obtain rfl : places = 32 := by omega
  rw [rounded]
  rfl

/-- The test both functions make: no bit is left exactly for a power of two. -/
theorem and_pred_eq_zero_iff {size : Nat} (positive : 1 ≤ size) (fits : size < uintSpace) :
    size &&& uintSub size 1 = 0 ↔ size.isPowerOfTwo := by
  have predecessor : uintSub size 1 = size - 1 := by
    unfold uintSub uintSpace at *
    omega
  rw [predecessor]
  exact Nat.and_sub_one_eq_zero_iff_isPowerOfTwo (by omega)

theorem kfifoInit_of_clear {size : Nat} (buffer : List UInt8) (allocated : Bool)
    (clear : size &&& uintSub size 1 = 0) : kfifoInit buffer size allocated = none := by
  rw [kfifoInit, if_neg (by simpa using clear)]

theorem kfifoInit_isSome_iff (buffer : List UInt8) {size : Nat} (allocated : Bool)
    (positive : 1 ≤ size) (fits : size < uintSpace) :
    (kfifoInit buffer size allocated).isSome ↔ ¬ size.isPowerOfTwo := by
  rw [← and_pred_eq_zero_iff positive fits]
  by_cases clear : size &&& uintSub size 1 = 0
  · simp [kfifoInit_of_clear buffer allocated clear, clear]
  · simp [kfifoInit, clear]

/-- `kfifo_alloc` makes no ring for any size: a power of two fails the assertion
of `kfifo_init`, another size its own or, rounded to zero, that of `kfifo_init`. -/
theorem kfifoAlloc_ne_some {size : Nat} (malloc : Nat → Option (List UInt8)) (allocated : Bool)
    (fits : size < uintSpace) (fifo : Kfifo) :
    kfifoAlloc malloc allocated size ≠ some (some fifo) := by
  have refused {passed : Nat} (clear : passed &&& uintSub passed 1 = 0) :
      (match malloc passed with
        | none => some none
        | some buffer => kfifoInit buffer passed allocated) ≠ some (some fifo) := by
    cases malloc passed with
    | none => simp
    | some buffer => simp [kfifoInit_of_clear buffer allocated clear]
  unfold kfifoAlloc
  by_cases clear : size &&& uintSub size 1 = 0
  · rw [if_neg (by simpa using clear)]
    exact refused clear
  · rw [if_pos clear]
    split
    · next large =>
      rw [roundupPowOfTwo_overflow large fits]
      exact refused rfl
    · simp

def AllocPromise (malloc : Nat → Option (List UInt8)) (allocated : Bool) (size : Nat) : Prop :=
  ∃ fifo, kfifoAlloc malloc allocated size = some (some fifo) ∧ fifo.in_ = 0 ∧ fifo.out = 0 ∧
    IsLeastPower size fifo.size

def InitPromise (buffer : List UInt8) (allocated : Bool) (size : Nat) : Prop :=
  (kfifoInit buffer size allocated).isSome ↔ size.isPowerOfTwo

/-- No size at all gets what either function promises. -/
theorem construction_never_right {size : Nat} (positive : 1 ≤ size) (fits : size < uintSpace)
    (malloc : Nat → Option (List UInt8)) (buffer : List UInt8) (allocated : Bool) :
    ¬ AllocPromise malloc allocated size ∧ ¬ InitPromise buffer allocated size := by
  constructor
  · rintro ⟨fifo, made, -⟩
    exact kfifoAlloc_ne_some malloc allocated fits fifo made
  · intro promise
    have opposite := kfifoInit_isSome_iff buffer allocated positive fits
    rw [InitPromise, opposite] at promise
    exact not_iff_self promise

def plentiful (size : Nat) : Option (List UInt8) := some (List.replicate size 0)

theorem construction_never_right_eight :
    ¬ AllocPromise plentiful true 8 ∧ ¬ InitPromise (List.replicate 8 0) true 8 :=
  construction_never_right (by decide) (by decide) plentiful (List.replicate 8 0) true

/-- A request for eight bytes fails the assertion of `kfifo_init`, one for five
that of `kfifo_alloc`, and a ring of five bytes passes `kfifo_init`. -/
theorem assertions_inverted :
    kfifoAlloc plentiful true 8 = none ∧ kfifoAlloc plentiful true 5 = none ∧
      kfifoInit (List.replicate 5 0) 5 true = some (some (Kfifo.empty (List.replicate 5 0))) ∧
      ¬ AllocPromise plentiful true 8 ∧ ¬ InitPromise (List.replicate 5 0) true 5 := by
  refine ⟨by decide, by decide, by decide, ?_, ?_⟩
  · rintro ⟨fifo, made, -⟩
    have failed : kfifoAlloc plentiful true 8 = none := by decide
    rw [failed] at made
    cases made
  · intro promise
    have power : Nat.isPowerOfTwo 5 := promise.mp rfl
    revert power
    decide

end UtilsModules.Fifo

import UtilsModules.Library.Places

/-!
The functions of `string.c` and `module_string.c` on characters of eight bits.

`memory` is `none` where the program has no object; a result `none` says that a
function reads or writes there, or that the rounds of a loop are over.  A loop that
counts down needs no rounds.
-/

namespace UtilsModules.Strings

open Places

abbrev CharMemory : Type := Nat → Option UInt8

/-- The string at a place, without its NUL. -/
def StringAt (memory : CharMemory) (s : Nat) (text : List UInt8) : Prop := Ended 0 memory s text

def endOfString (memory : CharMemory) : Nat → Nat → Option Nat
  | 0, _ => none
  | rounds + 1, sc => do
      let byte ← memory sc
      if byte = 0 then some sc else endOfString memory rounds (sc + 1)

def strlen (memory : CharMemory) (rounds s : Nat) : Option Nat := do
  let sc ← endOfString memory rounds s
  some (sc - s)

def copyForwards : Nat → CharMemory → Nat → Nat → Option CharMemory
  | 0, memory, _, _ => some memory
  | count + 1, memory, tmp, s => do
      let byte ← memory s
      let memory ← store memory tmp byte
      copyForwards count memory (tmp + 1) (s + 1)

def copyBackwards : Nat → CharMemory → Nat → Nat → Option CharMemory
  | 0, memory, _, _ => some memory
  | count + 1, memory, tmp, s => do
      let byte ← memory (s - 1)
      let memory ← store memory (tmp - 1) byte
      copyBackwards count memory (tmp - 1) (s - 1)

def memcpy (memory : CharMemory) (dest src count : Nat) : Option CharMemory :=
  copyForwards count memory dest src

def memmove (memory : CharMemory) (dest src count : Nat) : Option CharMemory :=
  if dest ≤ src then copyForwards count memory dest src
  else copyBackwards count memory (dest + count) (src + count)

def strcpy : Nat → CharMemory → Nat → Nat → Option CharMemory
  | 0, _, _, _ => none
  | rounds + 1, memory, dest, src => do
      let byte ← memory src
      let memory ← store memory dest byte
      if byte = 0 then some memory else strcpy rounds memory (dest + 1) (src + 1)

def strcat (rounds : Nat) (memory : CharMemory) (dest src : Nat) : Option CharMemory := do
  let last ← endOfString memory rounds dest
  strcpy rounds memory last src

def strncpy : Nat → CharMemory → Nat → Nat → Option CharMemory
  | 0, memory, _, _ => some memory
  | count + 1, memory, dest, src => do
      let byte ← memory src
      let memory ← store memory dest byte
      strncpy count memory (dest + 1) (if byte ≠ 0 then src + 1 else src)

def strlcpy (rounds : Nat) (memory : CharMemory) (dest src size : Nat) :
    Option (CharMemory × Nat) := do
  let ret ← strlen memory rounds src
  if size ≠ 0 then do
    let len := if ret ≥ size then size - 1 else ret
    let memory ← memcpy memory dest src len
    let memory ← store memory (dest + len) 0
    some (memory, ret)
  else some (memory, ret)

def strncatLoop : Nat → CharMemory → Nat → Nat → Option CharMemory
  | 0, _, _, _ => none
  | count + 1, memory, dest, src => do
      let byte ← memory src
      let memory ← store memory dest byte
      if byte ≠ 0 then
        if count = 0 then store memory (dest + 1) 0
        else strncatLoop count memory (dest + 1) (src + 1)
      else some memory

def strncat (rounds : Nat) (memory : CharMemory) (dest src count : Nat) : Option CharMemory :=
  if count ≠ 0 then do
    let last ← endOfString memory rounds dest
    strncatLoop count memory last src
  else some memory

/-- `strlcat`; a string that does not end within `count` is a `BUG_ON`. -/
def strlcat (rounds : Nat) (memory : CharMemory) (dest src count : Nat) :
    Option (CharMemory × Nat) := do
  let dsize ← strlen memory rounds dest
  let len ← strlen memory rounds src
  if dsize ≥ count then none
  else do
    let room := count - dsize
    let short := if len ≥ room then room - 1 else len
    let memory ← memcpy memory (dest + dsize) src short
    let memory ← store memory (dest + dsize + short) 0
    some (memory, dsize + len)

def cpystrnLoop : Nat → CharMemory → Nat → Nat → Option (CharMemory × Nat)
  | 0, memory, dst, _ => do
      let memory ← store memory dst 0
      some (memory, dst)
  | n + 1, memory, dst, src => do
      let byte ← memory src
      let memory ← store memory dst byte
      if byte = 0 then some (memory, dst) else cpystrnLoop n memory (dst + 1) (src + 1)

def moduleCpystrn (memory : CharMemory) (dst src n : Nat) : Option (CharMemory × Nat) :=
  if n = 0 then some (memory, dst) else cpystrnLoop (n - 1) memory dst src

/-- The inner loop of `strpbrk` and `strspn`: is the character one of a string? -/
def isOneOf (memory : CharMemory) (byte : UInt8) : Nat → Nat → Option Bool
  | 0, _ => none
  | rounds + 1, sc => do
      let other ← memory sc
      if other = 0 then some false
      else if byte = other then some true
      else isOneOf memory byte rounds (sc + 1)

def strpbrkLoop (memory : CharMemory) (rounds ct : Nat) : Nat → Nat → Option (Option Nat)
  | 0, _ => none
  | left + 1, sc => do
      let byte ← memory sc
      if byte = 0 then some none
      else do
        let found ← isOneOf memory byte rounds ct
        if found then some (some sc) else strpbrkLoop memory rounds ct left (sc + 1)

def strpbrk (rounds : Nat) (memory : CharMemory) (cs ct : Nat) : Option (Option Nat) :=
  strpbrkLoop memory rounds ct rounds cs

/-- `strsep`: the memory, the new value of `*s` and the answer. -/
def strsep (rounds : Nat) (memory : CharMemory) (s : Option Nat) (ct : Nat) :
    Option (CharMemory × Option Nat × Option Nat) :=
  match s with
  | none => some (memory, none, none)
  | some sbegin => do
      match ← strpbrk rounds memory sbegin ct with
      | none => some (memory, none, some sbegin)
      | some last => do
          let memory ← store memory last 0
          some (memory, some (last + 1), some sbegin)

def memcmp (memory : CharMemory) : Nat → Nat → Nat → Option Int
  | 0, _, _ => some 0
  | count + 1, su1, su2 => do
      let one ← memory su1
      let two ← memory su2
      if one ≠ two then some ((one.toNat : Int) - two.toNat)
      else memcmp memory count (su1 + 1) (su2 + 1)

def strstrLoop (memory : CharMemory) (s2 l2 : Nat) : Nat → Nat → Option (Option Nat)
  | 0, _ => some none
  | l1 + 1, s1 =>
      if l1 + 1 < l2 then some none
      else do
        let res ← memcmp memory l2 s1 s2
        if res = 0 then some (some s1) else strstrLoop memory s2 l2 l1 (s1 + 1)

def strstr (rounds : Nat) (memory : CharMemory) (s1 s2 : Nat) : Option (Option Nat) := do
  let l2 ← strlen memory rounds s2
  if l2 = 0 then some (some s1)
  else do
    let l1 ← strlen memory rounds s1
    if l1 < 0x80000000 ∧ l2 < 0x80000000 then strstrLoop memory s2 l2 l1 s1 else none

def signedChar (one two : UInt8) : Int := (one - two).toInt8.toInt

def strcmp (memory : CharMemory) : Nat → Nat → Nat → Option Int
  | 0, _, _ => none
  | rounds + 1, cs, ct => do
      let one ← memory cs
      let two ← memory ct
      if signedChar one two ≠ 0 ∨ one = 0 then some (signedChar one two)
      else strcmp memory rounds (cs + 1) (ct + 1)

def strncmp (memory : CharMemory) : Nat → Nat → Nat → Option Int
  | 0, _, _ => some 0
  | count + 1, cs, ct => do
      let one ← memory cs
      let two ← memory ct
      if signedChar one two ≠ 0 ∨ one = 0 then some (signedChar one two)
      else strncmp memory count (cs + 1) (ct + 1)

def rstrncmpLoop (memory : CharMemory) (s1 s2 : Nat) : Nat → Option Int
  | 0 => do
      let one ← memory s1
      let two ← memory s2
      if one ≠ two then some ((one.toNat : Int) - two.toNat) else some 0
  | n + 1 => do
      let one ← memory (s1 + (n + 1))
      let two ← memory (s2 + (n + 1))
      if one ≠ two then some ((one.toNat : Int) - two.toNat) else rstrncmpLoop memory s1 s2 n

def moduleRstrncmp (memory : CharMemory) (s1 s2 n : Nat) : Option Int :=
  if n = 0 then some 0 else rstrncmpLoop memory s1 s2 (n - 1)

end UtilsModules.Strings

import Mathlib.Algebra.GroupWithZero.Nat
import Mathlib.Logic.Function.Basic

/-!
The translation from numbers to pointers of `idr.c`, on a machine with long
integers of 64 bits.

A result `none` says that a pointer was followed to where no layer is, that an
array was left, that `1 << n` left the range of an `int`, or that the rounds of a
loop are over.
-/

namespace UtilsModules.Datastruct

def idrBits : Nat := 6

def idrSize : Nat := 64

def idrMask : Nat := 63

def idrFull : BitVec 64 := BitVec.allOnes 64

def maxIdBit : Nat := 2 ^ 31

def maxIdMask : Nat := 2 ^ 31 - 1

def maxLevel : Nat := 6

def idrFreeMax : Int := 12

def shiftedOne (count : Nat) : Option Nat := if count < 31 then some (2 ^ count) else none

/-- `struct idr_layer`.  In the lowest layers `ary` holds the pointers of the
users. -/
structure IdrLayer (Address : Type) where
  bitmap : BitVec 64
  ary : Nat → Option Address
  count : Int

structure Idr (Address : Type) where
  memory : Address → Option (IdrLayer Address)
  top : Option Address
  idFree : Option Address
  layers : Nat
  idFreeCnt : Int

variable {Address : Type}

namespace IdrLayer

def zero : IdrLayer Address := ⟨0, fun _ => none, 0⟩

def setAry (layer : IdrLayer Address) (n : Nat) (value : Option Address) : IdrLayer Address :=
  { layer with ary := Function.update layer.ary n value }

def setBit (layer : IdrLayer Address) (n : Nat) : IdrLayer Address :=
  { layer with bitmap := layer.bitmap ||| BitVec.twoPow 64 n }

def clearBit (layer : IdrLayer Address) (n : Nat) : IdrLayer Address :=
  { layer with bitmap := layer.bitmap &&& ~~~BitVec.twoPow 64 n }

end IdrLayer

variable [DecidableEq Address]

namespace Idr

def init : Idr Address := ⟨fun _ => none, none, none, 0, 0⟩

def assign (idp : Idr Address) (p : Address) (change : IdrLayer Address → IdrLayer Address) :
    Option (Idr Address) := do
  let layer ← idp.memory p
  some { idp with memory := Function.update idp.memory p (some (change layer)) }

end Idr

def allocLayer (idp : Idr Address) : Option (Idr Address × Option Address) :=
  match idp.idFree with
  | none => some (idp, none)
  | some p => do
      let layer ← idp.memory p
      let idp ← idp.assign p fun layer => layer.setAry 0 none
      some ({ idp with idFree := layer.ary 0, idFreeCnt := idp.idFreeCnt - 1 }, some p)

def freeLayer (idp : Idr Address) (p : Address) : Option (Idr Address) := do
  let idp ← idp.assign p fun layer => layer.setAry 0 idp.idFree
  some { idp with idFree := some p, idFreeCnt := idp.idFreeCnt + 1 }

def cacheAlloc (idp : Idr Address) (new : Address) : Idr Address :=
  { idp with memory := Function.update idp.memory new (some .zero) }

def cacheFree (idp : Idr Address) (p : Address) : Idr Address :=
  { idp with memory := Function.update idp.memory p none }

/-- `idr_pre_get`; the memory that `kmem_cache_alloc` gives comes to an end where
it returns `NULL`. -/
def idrPreGet : Idr Address → List Address → Option (Idr Address × Nat)
  | idp, [] => some (idp, if idp.idFreeCnt < idrFreeMax then 0 else 1)
  | idp, new :: offers =>
      if idp.idFreeCnt < idrFreeMax then do
        idrPreGet (← freeLayer (cacheAlloc idp new) new) offers
      else some (idp, 1)

def findNextBit (bm : BitVec 64) (offset : Nat) : Nat :=
  ((List.range' offset (idrSize - offset)).find? fun n => bm.getLsbD n).getD idrSize

/-- The array `pa` of `sub_alloc`; `none` is a place that nothing has been written
to. -/
abbrev IdrPath (Address : Type) := List (Option (Option Address))

namespace IdrPath

def write (pa : IdrPath Address) (l : Nat) (value : Option Address) : Option (IdrPath Address) :=
  if l < pa.length then some (pa.set l (some value)) else none

def read (pa : IdrPath Address) (l : Nat) : Option (Option Address) := pa[l]?.join

end IdrPath

/-- Where the first loop of `sub_alloc` ends: with `-1`, with `-2` and another
number to begin with, with `-3`, or at the slot `m` of the leaf `p`. -/
inductive IdrSearch (Address : Type) where
  | noLayer
  | again (startingId : Nat)
  | noId
  | leaf (p : Address) (m id : Nat) (pa : IdrPath Address)

/-- `p->ary[m]`; the layer is created if it is missing. -/
def layerBelow (idp : Idr Address) (p : Address) (m : Nat) :
    Option (Idr Address × Option Address) := do
  let layer ← idp.memory p
  match layer.ary m with
  | some below => some (idp, some below)
  | none =>
      match ← allocLayer idp with
      | (idp, none) => some (idp, none)
      | (idp, some new) => do
          let idp ← idp.assign p fun layer =>
            { layer.setAry m (some new) with count := layer.count + 1 }
          some (idp, some new)

def subAllocSearch : Nat → Idr Address → Address → Nat → Nat → IdrPath Address →
    Option (Idr Address × IdrSearch Address)
  | 0, _, _, _, _, _ => none
  | rounds + 1, idp, p, l, id, pa => do
      let layer ← idp.memory p
      let n := id >>> (idrBits * l) &&& idrMask
      let m := findNextBit (~~~layer.bitmap) n
      if m = idrSize then do
        -- no space available go back to previous layer
        let low ← shiftedOne (idrBits * (l + 1))
        let id := (id ||| (low - 1)) + 1
        match ← pa.read (l + 1) with
        | none => some (idp, .again id)
        | some p => subAllocSearch rounds idp p (l + 1) id pa
      else
        let sh := idrBits * l
        let id := if m ≠ n then (id >>> sh ^^^ n ^^^ m) <<< sh else id
        if maxIdBit ≤ id then some (idp, .noId)
        else if l = 0 then some (idp, .leaf p m id pa)
        else
          match ← layerBelow idp p m with
          | (idp, none) => some (idp, .noLayer)
          | (idp, some below) => do
              subAllocSearch rounds idp below (l - 1) id (← pa.write l (some p))

/-- The second loop of `sub_alloc`, with the part of `pa` that it has not come
to. -/
def markFull : Idr Address → Address → Nat → IdrPath Address → Option (Idr Address)
  | idp, p, n, above => do
      let layer ← idp.memory p
      if layer.bitmap = idrFull then
        match above with
        | [] => none
        | none :: _ => none
        | some none :: _ => some idp
        | some (some p) :: above =>
            let n := n >>> idrBits
            markFull (← idp.assign p fun layer => layer.setBit (n &&& idrMask)) p n above
      else some idp

/-- How `idr_get_new_above_int` ends when it does not find a number: `-1` and
`-3`. -/
inductive IdrError where
  | eagain
  | enospc
  deriving DecidableEq, Repr

/-- What `sub_alloc` returns: a number to begin with again, or an answer. -/
abbrev IdrAnswer := Except IdrError Nat

def subAlloc (rounds : Nat) (idp : Idr Address) (ptr : Option Address) (startingId : Nat) :
    Option (Idr Address × (Nat ⊕ IdrAnswer)) := do
  let p ← idp.top
  let pa ← IdrPath.write (List.replicate maxLevel none) idp.layers none
  match ← subAllocSearch rounds idp p (idp.layers - 1) startingId pa with
  | (idp, .noLayer) => some (idp, .inr (.error .eagain))
  | (idp, .again id) => some (idp, .inl id)
  | (idp, .noId) => some (idp, .inr (.error .enospc))
  | (idp, .leaf p m id pa) => do
      let idp ← idp.assign p fun layer =>
        { (layer.setAry m ptr).setBit m with count := layer.count + 1 }
      let idp ← markFull idp p id (pa.drop 1)
      some (idp, .inr (.ok id))

/-- The layers on the way from a failed allocation back to the top are freed. -/
def tearDown : Nat → Idr Address → Option Address → Option (Idr Address)
  | 0, _, _ => none
  | _ + 1, idp, none => some idp
  | rounds + 1, idp, some new =>
      if idp.top = some new then some idp
      else do
        let layer ← idp.memory new
        let idp ← idp.assign new fun layer => { layer.setAry 0 none with bitmap := 0, count := 0 }
        tearDown rounds (← freeLayer idp new) (layer.ary 0)

/-- The loop that adds layers to the top of the tree, with the number of layers
that may still be added. -/
def growTop (rounds id : Nat) :
    Nat → Idr Address → Address → Nat → Option (Idr Address × Option (Address × Nat))
  | 0, idp, p, layers => some (idp, some (p, layers))
  | left + 1, idp, p, layers => do
      let low ← shiftedOne (layers * idrBits)
      if id < low then some (idp, some (p, layers))
      else do
        let layer ← idp.memory p
        if layer.count = 0 then growTop rounds id left idp p (layers + 1)
        else
          match ← allocLayer idp with
          | (idp, none) => do some (← tearDown rounds idp (some p), none)
          | (idp, some new) => do
              let idp ← idp.assign new fun fresh =>
                let fresh := { fresh.setAry 0 (some p) with count := 1 }
                if layer.bitmap = idrFull then fresh.setBit 0 else fresh
              growTop rounds id left idp new (layers + 1)

def topLayer (idp : Idr Address) : Option (Idr Address × Option (Address × Nat)) :=
  match idp.top with
  | some p => some (idp, some (p, idp.layers))
  | none => do
      match ← allocLayer idp with
      | (idp, none) => some (idp, none)
      | (idp, some p) => some (idp, some (p, 1))

/-- One pass of `idr_get_new_above_int` from `build_up` on. -/
def buildUp (rounds : Nat) (idp : Idr Address) (ptr : Option Address) (id : Nat) :
    Option (Idr Address × (Nat ⊕ IdrAnswer)) := do
  match ← topLayer idp with
  | (idp, none) => some (idp, .inr (.error .eagain))
  | (idp, some (p, layers)) =>
      match ← growTop rounds id (maxLevel - layers) idp p layers with
      | (idp, none) => some (idp, .inr (.error .eagain))
      | (idp, some (p, layers)) =>
          subAlloc rounds { idp with top := some p, layers := layers } ptr id

def idrGetNewAboveInt (rounds : Nat) : Nat → Idr Address → Option Address → Nat →
    Option (Idr Address × IdrAnswer)
  | 0, _, _, _ => none
  | builds + 1, idp, ptr, startingId => do
      match ← buildUp rounds idp ptr startingId with
      | (idp, .inl id) => idrGetNewAboveInt rounds builds idp ptr id
      | (idp, .inr answer) => some (idp, answer)

def idrGetNewAbove (rounds : Nat) (idp : Idr Address) (ptr : Option Address) (startingId : Nat) :
    Option (Idr Address × IdrAnswer) :=
  idrGetNewAboveInt rounds rounds idp ptr startingId

def idrGetNew (rounds : Nat) (idp : Idr Address) (ptr : Option Address) :
    Option (Idr Address × IdrAnswer) :=
  idrGetNewAboveInt rounds rounds idp ptr 0

/-- What an element of `pa` in `sub_remove` points at: `idp->top`, or a place in
the `ary` of a layer. -/
inductive IdrSlot (Address : Type) where
  | top
  | ary (p : Address) (n : Nat)

namespace IdrSlot

def read (idp : Idr Address) : IdrSlot Address → Option (Option Address)
  | .top => some idp.top
  | .ary p n => (idp.memory p).map fun layer => layer.ary n

def clear (idp : Idr Address) : IdrSlot Address → Option (Idr Address)
  | .top => some { idp with top := none }
  | .ary p n => idp.assign p fun layer => layer.setAry n none

end IdrSlot

/-- The way down in `sub_remove`; `paa` holds the slots behind the `NULL` at the
beginning of `pa`, the last one first. -/
def removePath (id : Nat) : Nat → Idr Address → Option Address → List (IdrSlot Address) →
    Option (Idr Address × Option Address × List (IdrSlot Address))
  | 0, idp, p, paa => some (idp, p, paa)
  | _ + 1, idp, none, paa => some (idp, none, paa)
  | level + 1, idp, some p, paa => do
      let n := id >>> (idrBits * (level + 1)) &&& idrMask
      let idp ← idp.assign p fun layer => layer.clearBit n
      let layer ← idp.memory p
      if paa.length + 1 < maxLevel then
        removePath id level idp (layer.ary n) (.ary p n :: paa)
      else none

/-- Layers that become empty are freed, from the leaf upwards. -/
def releaseEmpty : Idr Address → List (IdrSlot Address) →
    Option (Idr Address × List (IdrSlot Address))
  | idp, [] => some (idp, [])
  | idp, slot :: paa => do
      let p ← (← slot.read idp)
      let idp ← idp.assign p fun layer => { layer with count := layer.count - 1 }
      let layer ← idp.memory p
      if layer.count = 0 then do
        releaseEmpty (← slot.clear (← freeLayer idp p)) paa
      else some (idp, slot :: paa)

/-- `p != NULL && test_bit(n, &p->bitmap)`. -/
def slotTaken (idp : Idr Address) : Option Address → Nat → Option Bool
  | none, _ => some false
  | some p, n => (idp.memory p).map fun layer => layer.bitmap.getLsbD n

def subRemove (idp : Idr Address) (level id : Nat) : Option (Idr Address) := do
  let (idp, p, paa) ← removePath id level idp idp.top [.top]
  let n := id &&& idrMask
  if ← slotTaken idp p n then do
    let idp ← idp.assign (← p) fun layer => (layer.clearBit n).setAry n none
    let (idp, paa) ← releaseEmpty idp paa
    some { idp with layers := if paa.isEmpty then 0 else idp.layers }
  else some idp

/-- `idr_remove` drops a layer whose only child is its first one. -/
def dropTop (idp : Idr Address) : Option (Idr Address) :=
  match idp.top with
  | none => some idp
  | some top => do
      let layer ← idp.memory top
      if layer.count = 1 ∧ 1 < idp.layers ∧ (layer.ary 0).isSome then do
        let idp ← idp.assign top fun layer => { layer with bitmap := 0, count := 0 }
        let idp ← freeLayer idp top
        some { idp with top := layer.ary 0, layers := idp.layers - 1 }
      else some idp

def idrRemove (idp : Idr Address) (id : Nat) : Option (Idr Address) := do
  let id := id &&& maxIdMask
  let idp ← subRemove idp (idp.layers - 1) id
  let idp ← dropTop idp
  if idrFreeMax ≤ idp.idFreeCnt then do
    let (idp, p) ← allocLayer idp
    some (cacheFree idp (← p))
  else some idp

def findBelow (idp : Idr Address) (id : Nat) : Nat → Option Address → Option (Option Address)
  | 0, p => some p
  | _ + 1, none => some none
  | level + 1, some p => do
      let layer ← idp.memory p
      findBelow idp id level (layer.ary (id >>> (idrBits * level) &&& idrMask))

def idrFind (idp : Idr Address) (id : Nat) : Option (Option Address) := do
  let id := id &&& maxIdMask
  let low ← shiftedOne (idp.layers * idrBits)
  if low ≤ id then some none else findBelow idp id idp.layers idp.top

end UtilsModules.Datastruct

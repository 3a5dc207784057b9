import UtilsModules.Library.Cells

/-!
The three sorts of `sort.c`.

An array is the list of its cells, and an access outside it is refused
(`none`).  Each loop carries a bound on its turns, and running out of turns is
refused as well.  The time measurements are left out.
-/

namespace UtilsModules.Datastruct

def intMax : Int := 2147483647

def skipRight (arr : List Int) (tmp i : Int) : Nat → Int → Option Int
  | 0, _ => none
  | turns + 1, j =>
      if i < j then do
        let value ← Cells.read arr j
        if value ≥ tmp then skipRight arr tmp i turns (j - 1) else some j
      else
        some j

def skipLeft (arr : List Int) (tmp j : Int) : Nat → Int → Option Int
  | 0, _ => none
  | turns + 1, i =>
      if i < j then do
        let value ← Cells.read arr i
        if value < tmp then skipLeft arr tmp j turns (i + 1) else some i
      else
        some i

def fillLeft (arr : List Int) (tmp i j : Int) : Option (List Int × Int × Int) := do
  let j ← skipRight arr tmp i (arr.length + 1) j
  if i < j then
    let value ← Cells.read arr j
    let arr ← Cells.write arr i value
    some (arr, i + 1, j)
  else
    some (arr, i, j)

def fillRight (arr : List Int) (tmp i j : Int) : Option (List Int × Int × Int) := do
  let i ← skipLeft arr tmp j (arr.length + 1) i
  if i < j then
    let value ← Cells.read arr i
    let arr ← Cells.write arr j value
    some (arr, i, j - 1)
  else
    some (arr, i, j)

def adjustLoop (tmp : Int) : Nat → List Int → Int → Int → Option (List Int × Int)
  | 0, _, _, _ => none
  | turns + 1, arr, i, j =>
      if i < j then do
        let (arr, i, j) ← fillLeft arr tmp i j
        let (arr, i, j) ← fillRight arr tmp i j
        adjustLoop tmp turns arr i j
      else
        some (arr, i)

def adjustArray (arr : List Int) (left right : Int) : Option (List Int × Int) := do
  let tmp ← Cells.read arr left
  let (arr, i) ← adjustLoop tmp (arr.length + 1) arr left right
  let arr ← Cells.write arr i tmp
  some (arr, i)

def quickSortRange : Nat → List Int → Int → Int → Option (List Int)
  | 0, _, _, _ => none
  | turns + 1, arr, left, right =>
      if left < right then do
        let (arr, i) ← adjustArray arr left right
        let arr ← quickSortRange turns arr left (i - 1)
        quickSortRange turns arr (i + 1) right
      else
        some arr

def quickSort (a : List Int) : Option (List Int) :=
  quickSortRange (a.length + 1) a 0 (a.length - 1)

/-- The scratch buffer: a cell that has not been written holds no value. -/
abbrev Scratch := List (Option Int)

/-- The first loop of `mergearray`, up to the end of one of the two stretches. -/
def mergeLoop (a : List Int) (m n : Int) :
    Nat → Int → Int → Int → Scratch → Option (Int × Int × Int × Scratch)
  | 0, _, _, _, _ => none
  | turns + 1, i, j, k, temp =>
      if i ≤ m ∧ j ≤ n then do
        let left ← Cells.read a i
        let right ← Cells.read a j
        if left ≤ right then
          let temp ← Cells.write temp k (some left)
          mergeLoop a m n turns (i + 1) j (k + 1) temp
        else
          let temp ← Cells.write temp k (some right)
          mergeLoop a m n turns i (j + 1) (k + 1) temp
      else
        some (i, j, k, temp)

def drainLoop (a : List Int) (m : Int) : Nat → Int → Int → Scratch → Option (Int × Scratch)
  | 0, _, _, _ => none
  | turns + 1, i, k, temp =>
      if i ≤ m then do
        let value ← Cells.read a i
        let temp ← Cells.write temp k (some value)
        drainLoop a m turns (i + 1) (k + 1) temp
      else
        some (k, temp)

/-- `for (i = 0; i < k; i++) a[first + i] = temp[i];`, which refuses to read a
cell that has not been written. -/
def copyBack (first k : Int) (temp : Scratch) : Nat → Int → List Int → Option (List Int)
  | 0, _, _ => none
  | turns + 1, i, a =>
      if i < k then do
        let cell ← Cells.read temp i
        let value ← cell
        let a ← Cells.write a (first + i) value
        copyBack first k temp turns (i + 1) a
      else
        some a

def mergearray (a : List Int) (first mid last : Int) (temp : Scratch) :
    Option (List Int × Scratch) := do
  let (i, j, k, temp) ← mergeLoop a mid last (a.length + 1) first (mid + 1) 0 temp
  let (k, temp) ← drainLoop a mid (a.length + 1) i k temp
  let (k, temp) ← drainLoop a last (a.length + 1) j k temp
  let a ← copyBack first k temp (a.length + 1) 0 a
  some (a, temp)

def mergeSortRange : Nat → List Int → Int → Int → Scratch → Option (List Int × Scratch)
  | 0, _, _, _, _ => none
  | turns + 1, a, first, last, res =>
      if first < last then
        if first + last ≤ intMax then do
          let mid := (first + last) / 2
          let (a, res) ← mergeSortRange turns a first mid res
          let (a, res) ← mergeSortRange turns a (mid + 1) last res
          mergearray a first mid last res
        else
          none
      else
        some (a, res)

/-- `merge_sort`, with the buffer `malloc` has made; the answer is the array and
the buffer that is returned. -/
def mergeSort (a : List Int) : Option (List Int × Scratch) :=
  mergeSortRange (a.length + 1) a 0 (a.length - 1) (List.replicate a.length none)

def bubbleInner (limit : Int) : Nat → Int → List Int → Option (List Int)
  | 0, _, _ => none
  | turns + 1, j, a =>
      if j < limit then do
        let upper ← Cells.read a (j + 1)
        let lower ← Cells.read a j
        if upper < lower then
          let a ← Cells.write a j upper
          let a ← Cells.write a (j + 1) lower
          bubbleInner limit turns (j + 1) a
        else
          bubbleInner limit turns (j + 1) a
      else
        some a

def bubbleOuter (n : Int) : Nat → Int → List Int → Option (List Int)
  | 0, _, _ => none
  | turns + 1, i, a =>
      if i < n - 1 then do
        let a ← bubbleInner (n - 1 - i) (a.length + 1) 0 a
        bubbleOuter n turns (i + 1) a
      else
        some a

def bubbleSort (a : List Int) : Option (List Int) := bubbleOuter a.length (a.length + 1) 0 a

structure Sorts (sorted a : List Int) : Prop where
  perm : sorted.Perm a
  ordered : sorted.Pairwise (· ≤ ·)

theorem Sorts.unique {one other a : List Int} (first : Sorts one a) (second : Sorts other a) :
    one = other :=
  (first.perm.trans second.perm.symm).eq_of_pairwise
    (fun _ _ _ _ below above => Int.le_antisymm below above) first.ordered second.ordered

end UtilsModules.Datastruct

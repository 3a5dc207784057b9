import UtilsModules.Datastruct.List
import UtilsModules.Pool.Pool

/-!
Reset and destruction of a pool.

The blocks of a pool are on a list of `list.h`.  `blockLinks` gives its links
as `list_add` has made them, the last block first.  The functions return the
calls of `block_free` they make, up to the point where they end; the links in
memory that has been given back cannot be read any more.
-/

namespace UtilsModules.Pool

open Datastruct Linked

inductive Ending (α : Type) where
  | returned (result : α)
  /-- A link was followed from `NULL` or from memory that had been given back. -/
  | faulted
  /-- A loop did not stop within its bound. -/
  | unfinished
  deriving DecidableEq, Repr

/-- `&pool->block_head_list`, and `&block->block_node_list` of a block. -/
inductive BlockNode where
  | head
  | block (address : Nat)
  deriving DecidableEq, Repr

def blockLinks : List MdlPoolBlock → Option (BlockNode → Option (LinkPair BlockNode))
  | [] => some fun
      | .head => some ⟨some .head, some .head⟩
      | .block _ => none
  | block :: rest => do
      let links ← blockLinks rest
      let node := BlockNode.block block.address
      listAdd (Function.update links node (some ⟨none, none⟩)) node .head

/-- Memory that is given back takes the links in it away. -/
def forget (links : BlockNode → Option (LinkPair BlockNode)) (region : Region) :
    BlockNode → Option (LinkPair BlockNode)
  | .head => links .head
  | .block address =>
      if region.Covers address then none else links (.block address)

def MdlPoolBlock.freeCall (block : MdlPoolBlock) : Region :=
  ⟨block.address, (block.end_ + sizeSpace - block.address) % sizeSpace⟩

/-- The loop of `reset_pool`, with the value of `block`.  It returns that value
and the blocks that are left. -/
def resetLoop : Nat → Option BlockNode → Option Nat → List MdlPoolBlock →
    (BlockNode → Option (LinkPair BlockNode)) → List Region →
      List Region × Ending (Option Nat × List MdlPoolBlock)
  | 0, _, _, _, _, freed => (freed, .unfinished)
  | rounds + 1, node, block, blocks, links, freed =>
      match node with
      | none => (freed, .faulted)
      | some .head => (freed, .returned (block, blocks))
      | some (.block address) =>
          match prevOf links (.block address), blocks.find? (·.address = address) with
          | some prev, some block =>
              if prev = some .head then
                (freed, .returned (some address, blocks))
              else
                match listDel links (.block address) with
                | none => (freed, .faulted)
                | some links =>
                    let links := forget links block.freeCall
                    let freed := freed ++ [block.freeCall]
                    match prevOf links (.block address) with
                    | none => (freed, .faulted)
                    | some node => resetLoop rounds node (some address)
                        (blocks.filter (·.address ≠ address)) links freed
          | _, _ => (freed, .faulted)

def MdlPoolBlock.rewind (block : MdlPoolBlock) : MdlPoolBlock :=
  { block with current := alignPtr block.start poolAlignment }

/-- What `reset_pool` does behind its loop, to the block the loop has left. -/
def resetRest (pool : MdlPool) (address : Option Nat) (blocks : List MdlPoolBlock) :
    Ending MdlPool :=
  match blocks.find? (some ·.address = address) with
  | none => .faulted
  | some block => .returned { pool with
      capacity := (block.end_ + sizeSpace - pool.address) % sizeSpace
      blockHeadList := blocks.map fun other =>
        if other.address = block.address then other.rewind else other }

def resetPool (pool : MdlPool) : List Region × Ending MdlPool :=
  match blockLinks pool.blockHeadList with
  | none => ([], .faulted)
  | some links =>
      if listEmpty links .head then
        ([], .returned pool)
      else
        match prevOf links .head with
        | none => ([], .faulted)
        | some node =>
            match resetLoop (pool.blockHeadList.length + 1) node none pool.blockHeadList links [] with
            | (freed, .returned (block, blocks)) => (freed, resetRest pool block blocks)
            | (freed, .faulted) => (freed, .faulted)
            | (freed, .unfinished) => (freed, .unfinished)

def mdlPoolReset (pool : MdlPool) : List Region × Ending MdlPool :=
  resetPool pool

def mdlPoolDestroyInt (pool : MdlPool) : List Region × Ending Unit :=
  let first := pool.blockHeadList.head?.map MdlPoolBlock.address
  match resetPool pool with
  | (freed, .returned pool) =>
      match pool.blockHeadList.find? (some ·.address = first) with
      | none => (freed, .faulted)
      | some block =>
          let initialSize := (block.end_ + sizeSpace - pool.address) % sizeSpace
          (freed ++ [⟨pool.address, initialSize⟩], .returned ())
  | (freed, .faulted) => (freed, .faulted)
  | (freed, .unfinished) => (freed, .unfinished)

def blockNodes (blocks : List MdlPoolBlock) : List BlockNode :=
  blocks.map fun block => .block block.address

theorem blockLinks_rings {blocks : List MdlPoolBlock}
    (distinct : (blocks.map MdlPoolBlock.address).Nodup) :
    ∃ links, blockLinks blocks = some links ∧
      Rings links (· = .head) (fun _ => blockNodes blocks) := by
  induction blocks with
  | nil =>
      refine ⟨_, rfl, ?_, by simp [blockNodes], by simp [blockNodes], by simp [blockNodes]⟩
      rintro _ rfl
      exact .nil ⟨rfl, rfl⟩
  | cons block rest inductionHypothesis =>
      rw [List.map_cons, List.nodup_cons] at distinct
      obtain ⟨links, made, rings⟩ := inductionHypothesis distinct.2
      have outside : BlockNode.block block.address ∉ blockNodes rest := by
        simpa [blockNodes] using distinct.1
      have room : Rings (Function.update links (.block block.address) (some ⟨none, none⟩))
          (· = .head) (fun _ => blockNodes rest) := by
        refine rings.congr fun node inside => Function.update_of_ne ?_ _ _
        rcases inside with rfl | ⟨-, -, listed⟩
        · simp
        · exact fun same => outside (same ▸ listed)
      obtain ⟨added, addition, ringsAdded⟩ := listAdd_rings room rfl
        (Function.update_self ..) (by simp) (fun _ _ => outside)
      refine ⟨added, ?_, ringsAdded.congr_lists ?_⟩
      · simp only [blockLinks, made, Option.bind_eq_bind, Option.bind_some]
        exact addition
      · rintro _ rfl
        simp [blockNodes]

theorem resetPool_single {pool : MdlPool} {block : MdlPoolBlock}
    (single : pool.blockHeadList = [block]) :
    resetPool pool = ([], .returned { pool with
      capacity := (block.end_ + sizeSpace - pool.address) % sizeSpace
      blockHeadList := [block.rewind] }) := by
  obtain ⟨links, made, rings⟩ := @blockLinks_rings [block] (by simp)
  have segment := rings.closed .head rfl
  have last : prevOf links .head = some (some (.block block.address)) := rings.prev_head rfl
  have front : prevOf links (.block block.address) = some (some .head) := segment.joined_first.prev
  have notEmpty : ¬ listEmpty links .head = true := by
    simp [listEmpty_rings rings rfl, blockNodes]
  simp only [resetPool, single, made, if_neg notEmpty, last]
  simp [resetLoop, front, resetRest]

/-- A pool with more blocks: `block_free` is called for the block at the end of
the list, and the way on from there is lost. -/
theorem resetPool_many {pool : MdlPool} {front : List MdlPoolBlock} {block : MdlPoolBlock}
    (many : pool.blockHeadList = front ++ [block]) (expanded : front ≠ [])
    (distinct : (pool.blockHeadList.map MdlPoolBlock.address).Nodup) :
    resetPool pool = ([block.freeCall], .faulted) := by
  obtain ⟨links, made, rings⟩ := blockLinks_rings distinct
  have nodes : blockNodes pool.blockHeadList = blockNodes front ++ [.block block.address] := by
    simp [blockNodes, many]
  have segment := rings.closed .head rfl
  rw [nodes] at segment
  obtain ⟨enter, -⟩ := segment.split
  have notEmpty : ¬ listEmpty links .head = true := by
    simp [listEmpty_rings rings rfl, nodes]
  have last : prevOf links .head = some (some (.block block.address)) := by
    rw [rings.prev_head rfl, nodes]
    simp
  obtain ⟨before, previous⟩ : ∃ before,
      prevOf links (.block block.address) = some (some (.block before)) := by
    obtain ⟨init, behind, rfl⟩ := (List.eq_nil_or_concat front).resolve_left expanded
    refine ⟨behind.address, ?_⟩
    rw [enter.joined_last.prev]
    simp [blockNodes]
  have found : pool.blockHeadList.find? (·.address = block.address) = some block := by
    rw [many, List.map_append, List.nodup_append] at distinct
    rw [many, List.find?_append, List.find?_eq_none.mpr]
    · simp
    · intro other inFront
      simpa using distinct.2.2 other.address (List.mem_map_of_mem inFront) block.address (by simp)
  obtain ⟨changed, deleted, cleared, -⟩ := @listDel_rings _ _ _ _ _ .head (.block block.address)
    rings rfl (by simp [nodes])
  have round : ∀ rounds, resetLoop (rounds + 2) (some (.block block.address)) none
      pool.blockHeadList links [] = ([block.freeCall], .faulted) := by
    intro rounds
    rw [resetLoop]
    simp only [previous, found, deleted,
      if_neg (show ¬ some (BlockNode.block before) = some .head by simp)]
    -- The link is `NULL` by now, or gone with the memory.
    by_cases inside : block.freeCall.Covers block.address
    · simp [prevOf, forget, inside]
    · simp [prevOf, forget, inside, cleared, resetLoop]
  obtain ⟨rounds, length⟩ : ∃ rounds, pool.blockHeadList.length + 1 = rounds + 2 :=
    ⟨front.length, by simp [many]⟩
  simp only [resetPool, made, if_neg notEmpty, last, length, round]

theorem mdlPoolDestroyInt_single {pool : MdlPool} {block : MdlPoolBlock}
    (single : pool.blockHeadList = [block]) :
    mdlPoolDestroyInt pool =
      ([⟨pool.address, (block.end_ + sizeSpace - pool.address) % sizeSpace⟩], .returned ()) := by
  simp [mdlPoolDestroyInt, resetPool_single single, single, MdlPoolBlock.rewind]

end UtilsModules.Pool

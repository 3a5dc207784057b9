import UtilsModules.Udp.Packet
import Mathlib.Logic.Function.Basic

/-!
The tables of a socket: `st_sock` with the links it knows.

A pointer to a link is a number, and `memory` holds the links that are allocated
at the moment.  A list of links is its nodes in order, as in the timer module;
the chains of links with one port are kept in the links themselves.  A result
`none` says that the call does not come back properly: it reads outside of an
array, follows a pointer to freed memory or runs round a chain for ever.
-/

namespace UtilsModules.Udp

def maxLinkCount : Nat := 0xFFF

def portEntries : Nat := 0xFFFF

/-- The fields of `s_link` that the tables use. -/
structure SLink where
  linkState : Int
  id : Nat
  socket : Nat
  port : Nat
  ip : Nat
  accept : Bool
  tsWaitTime : Int
  samePortNext : Option Nat
  deriving DecidableEq, Repr

structure StSock where
  memory : Nat → Option SLink
  list : List Nat
  linkState : Int
  listIDAllocationHead : List Nat
  socket : Nat
  tsWaitTime : Int
  listFreeHead : List Nat
  pLinkPortArray : Nat → Option Nat
  pLinkIDArray : Nat → Option Nat

def exSocket (sock : Nat) (tsWaitTime : Int) : StSock where
  memory := fun _ => none
  list := []
  linkState := 1
  listIDAllocationHead := List.range (maxLinkCount + 1)
  socket := sock
  tsWaitTime := tsWaitTime
  listFreeHead := []
  pLinkPortArray := fun _ => none
  pLinkIDArray := fun _ => none

namespace StSock

def modify (sts : StSock) (pslink : Nat) (change : SLink → SLink) : StSock :=
  { sts with memory := Function.update sts.memory pslink ((sts.memory pslink).map change) }

def clear (sts : StSock) (pslink ip port : Nat) : StSock :=
  { sts with
    memory := Function.update sts.memory pslink (some ⟨0, 0, sts.socket, port, ip, false, 0, none⟩) }

def free (sts : StSock) (pslink : Nat) : StSock :=
  { sts with memory := Function.update sts.memory pslink none }

def listErase (sts : StSock) (pslink : Nat) : StSock :=
  { sts with
    list := sts.list.erase pslink
    listFreeHead := sts.listFreeHead.erase pslink }

def setNext (sts : StSock) (pslink : Nat) (next : Option Nat) : StSock :=
  sts.modify pslink fun link => { link with samePortNext := next }

/-- Every link that is allocated is in one of the two lists, or is the one that
is being created or deleted.  A walk along a chain that is longer than this
goes round. -/
def chainBound (sts : StSock) : Nat := sts.list.length + sts.listFreeHead.length + 2

def addList (sts : StSock) (pslink : Nat) : StSock × Bool :=
  match sts.listIDAllocationHead with
  | [] => (sts.free pslink, false)
  | id :: rest =>
      let sts := sts.modify pslink fun link =>
        { link with tsWaitTime := sts.tsWaitTime, linkState := 0, id := id }
      ({ sts with
          listIDAllocationHead := rest
          pLinkIDArray := Function.update sts.pLinkIDArray id (some pslink)
          list := sts.list ++ [pslink] }, true)

/-- `CREATE_LINK`, after the answer of `malloc` has been stored in the chain. -/
def createLink (sts : StSock) (ip port : Nat) : Option Nat → StSock × Option Nat
  | none => (sts, none)
  | some pslink =>
      match (sts.clear pslink ip port).addList pslink with
      | (sts, true) => (sts, some pslink)
      | (sts, false) => (sts, none)

/-- `ASSERT_CREATE_NEW_LINK`: may a link be made? -/
def Creates (sts : StSock) (type : PacketType) : Prop :=
  (type = .linkSyn ∨ type = .linkSynAck) ∧ sts.linkState = 1

instance (sts : StSock) (type : PacketType) : Decidable (sts.Creates type) :=
  inferInstanceAs (Decidable (_ ∧ _))

inductive ChainEnd where
  | found (pslink : Nat)
  | last (pslink : Nat)
  deriving DecidableEq, Repr

def walkChain (memory : Nat → Option SLink) (ip : Nat) : Nat → Nat → Option ChainEnd
  | 0, _ => none
  | fuel + 1, pslink =>
      match memory pslink with
      | none => none
      | some link =>
          if link.ip = ip then
            some (.found pslink)
          else
            match link.samePortNext with
            | none => some (.last pslink)
            | some next => walkChain memory ip fuel next

/-- `get_link`.  `malloc` is what `malloc` answers, should it be called. -/
def getLink (sts : StSock) (ip port : Nat) (type : PacketType) (malloc : Option Nat) :
    Option (StSock × Option Nat) :=
  if port ≥ portEntries then
    none
  else
    match sts.pLinkPortArray port with
    | none =>
        if sts.Creates type then
          some (createLink
            { sts with pLinkPortArray := Function.update sts.pLinkPortArray port malloc }
            ip port malloc)
        else
          some (sts, none)
    | some first =>
        (walkChain sts.memory ip sts.chainBound first).map fun
          | .found pslink => (sts, some pslink)
          | .last pslink =>
              if sts.Creates type then createLink (sts.setNext pslink malloc) ip port malloc
              else (sts, none)

/-- The loop of `del_list`: the link is taken out of the chain behind
`pLinkPort`. -/
def unchainLoop (sts : StSock) (ip : Nat) : Nat → Nat → Option StSock
  | 0, _ => none
  | fuel + 1, pLinkPort =>
      match sts.memory pLinkPort with
      | none => none
      | some link =>
          match link.samePortNext with
          | none => some sts
          | some next =>
              match sts.memory next with
              | none => none
              | some nextLink =>
                  if nextLink.ip = ip ∧ nextLink.socket = sts.socket then
                    some (sts.setNext pLinkPort nextLink.samePortNext)
                  else
                    unchainLoop sts ip fuel next

/-- The part of `del_list` that takes a link out of the chain of its port. -/
def unchain (sts : StSock) (link : SLink) : Option StSock :=
  if link.port ≥ portEntries then
    none
  else
    match sts.pLinkPortArray link.port with
    | none => some sts
    | some first =>
        match sts.memory first with
        | none => none
        | some firstLink =>
            if firstLink.ip = link.ip ∧ firstLink.socket = sts.socket then
              some { sts with
                pLinkPortArray :=
                  Function.update sts.pLinkPortArray link.port firstLink.samePortNext }
            else
              unchainLoop sts link.ip sts.chainBound first

/-- The end of `del_list`: the link waits to be freed and its id may be used
again. -/
def retire (sts : StSock) (pslink id : Nat) : StSock :=
  let sts := sts.modify pslink fun link => { link with linkState := -1 }
  { sts with
    listFreeHead := sts.listFreeHead ++ [pslink]
    listIDAllocationHead := sts.listIDAllocationHead ++ [id] }

def delList (sts : StSock) (pslink : Nat) : Option (StSock × Bool) :=
  match sts.memory pslink with
  | none => none
  | some link =>
      if link.id > maxLinkCount ∨ sts.pLinkIDArray link.id = none then
        some (sts, false)
      else
        let sts := { sts with pLinkIDArray := Function.update sts.pLinkIDArray link.id none }
        (unchain (sts.listErase pslink) link).map fun sts => (sts.retire pslink link.id, true)

def freeFirst (sts : StSock) : StSock :=
  match sts.listFreeHead with
  | [] => sts
  | pslink :: _ => (sts.listErase pslink).free pslink

def acceptLoop (sts : StSock) : List Nat → Option (StSock × Option Nat)
  | [] => some (sts, none)
  | pslink :: rest =>
      match sts.memory pslink with
      | none => none
      | some link =>
          if link.accept = false then
            some (sts.modify pslink fun link =>
              { link with accept := true, tsWaitTime := sts.tsWaitTime }, some pslink)
          else
            acceptLoop sts rest

def getLinkAccept (sts : StSock) : Option (StSock × Option Nat) := sts.acceptLoop sts.list

def connectLoop (sts : StSock) (ip port : Nat) : List Nat → Option (StSock × Option Nat)
  | [] => some (sts, none)
  | pslink :: rest =>
      match sts.memory pslink with
      | none => none
      | some link =>
          if link.ip = ip ∧ link.port = port then
            some (sts.modify pslink fun link => { link with accept := true }, some pslink)
          else
            connectLoop sts ip port rest

end StSock

end UtilsModules.Udp

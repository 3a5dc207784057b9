import UtilsModules.Library.Transition
import UtilsModules.Udp.Sock
import Mathlib.Data.List.Nodup

/-!
Who gets a link: `exAccept`, `exConnect` and the links made by `thread_recv`.

Every section under `semLink` is one step, and so is every wait on `semAccept`.
The socket stays open and no link is deleted, so a link is its address.
-/

namespace UtilsModules.Udp

inductive Accepting where
  | idle
  /-- About to call `GetLinkAccept`. -/
  | scan
  /-- In `sem_wait(&sts->semAccept)`. -/
  | wait
  /-- About to read `connectPriority`. -/
  | check
  deriving DecidableEq, Repr

/-- Where the call of `exConnect` stands; `times` is the counter of its loop. -/
inductive Connecting where
  | idle
  | request (ip port times : Nat)
  | wait (ip port times : Nat)
  /-- About to go through the list. -/
  | scan (ip port times : Nat)
  | returned (answer : Option Nat)
  deriving DecidableEq, Repr

def Connecting.answer : Connecting → Option Nat
  | returned answer => answer
  | _ => none

/-- A socket with the calls that look for its links. -/
structure Exchange where
  sts : StSock
  semAccept : Nat
  connectPriority : Bool
  acceptors : Nat → Accepting
  connector : Connecting
  /-- The links that `exAccept` calls have returned. -/
  accepted : List Nat

def Exchange.start (sock : Nat) (tsWaitTime : Int) : Exchange where
  sts := exSocket sock tsWaitTime
  semAccept := 0
  connectPriority := false
  acceptors := fun _ => .idle
  connector := .idle
  accepted := []

inductive ExchangeStep where
  /-- `thread_recv` looks for the link of a datagram. -/
  | getLink (ip port : Nat) (type : PacketType) (malloc : Option Nat)
  /-- The next step of the `exAccept` call of a thread. -/
  | exAccept (caller : Nat)
  /-- `exConnect` is called; `times` is `MAX_LINK_TIMES` as `setListenTime` has left it. -/
  | exConnect (ip port times : Nat)
  /-- The next step of the `exConnect` call. -/
  | connect
  deriving DecidableEq, Repr

namespace Exchange

/-- `add_list` posts `semAccept` for a link that it puts into the list. -/
def threadRecv (exchange : Exchange) (ip port : Nat) (type : PacketType) (malloc : Option Nat) :
    Option Exchange :=
  (exchange.sts.getLink ip port type malloc).map fun (sts, _) =>
    { exchange with
      sts := sts
      semAccept := exchange.semAccept + (sts.list.length - exchange.sts.list.length) }

def exAccept (exchange : Exchange) (caller : Nat) : Option Exchange :=
  let goto (exchange : Exchange) (place : Accepting) : Exchange :=
    { exchange with acceptors := Function.update exchange.acceptors caller place }
  match exchange.acceptors caller with
  | .idle => some (goto exchange .scan)
  | .scan =>
      exchange.sts.getLinkAccept.map fun
        | (sts, none) => goto { exchange with sts := sts } .wait
        | (sts, some pslink) =>
            goto { exchange with sts := sts, accepted := exchange.accepted ++ [pslink] } .idle
  | .wait =>
      if exchange.semAccept > 0 then
        some (goto { exchange with semAccept := exchange.semAccept - 1 } .check)
      else
        none
  | .check =>
      if exchange.connectPriority then
        some (goto { exchange with semAccept := exchange.semAccept + 1 } .wait)
      else
        some (goto exchange .scan)

def finish (exchange : Exchange) (answer : Option Nat) : Exchange :=
  { exchange with
    connectPriority := false
    semAccept := exchange.semAccept + 1
    connector := .returned answer }

def connect (exchange : Exchange) : Option Exchange :=
  match exchange.connector with
  | .idle => none
  | .request _ _ 0 => some (exchange.finish none)
  | .request ip port (times + 1) => some { exchange with connector := .wait ip port times }
  | .wait ip port times =>
      if exchange.semAccept > 0 then
        some { exchange with
          semAccept := exchange.semAccept - 1
          connector := .scan ip port times }
      else
        -- the wait has timed out
        some { exchange with connector := .request ip port times }
  | .scan ip port times =>
      (exchange.sts.connectLoop ip port exchange.sts.list).map fun
        | (sts, none) => { exchange with sts := sts, connector := .request ip port times }
        | (sts, some pslink) => finish { exchange with sts := sts } (some pslink)
  | .returned _ => none

/-- One step of some thread.  `malloc` never answers with memory in use, and
there is one call of `exConnect`. -/
def step (exchange : Exchange) : ExchangeStep → Option Exchange
  | .getLink ip port type malloc =>
      if ∀ new ∈ malloc, exchange.sts.memory new = none then
        exchange.threadRecv ip port type malloc
      else
        none
  | .exAccept caller => exchange.exAccept caller
  | .exConnect ip port times =>
      if exchange.connector = .idle then
        some { exchange with
          connectPriority := true
          connector := .request ip port times }
      else
        none
  | .connect => exchange.connect

/-- No link has been returned twice. -/
def OneOwner (exchange : Exchange) : Prop :=
  exchange.accepted.Nodup ∧
    ∀ pslink, exchange.connector.answer = some pslink → pslink ∉ exchange.accepted

end Exchange

namespace StSock

def accepts (sts : StSock) (pslink : Nat) : Option Bool := (sts.memory pslink).map SLink.accept

def firstTo (sts : StSock) (ip port : Nat) : Option Nat :=
  sts.list.find? fun pslink =>
    (sts.memory pslink).any fun link => link.ip = ip ∧ link.port = port

end StSock

namespace Exchange

/-- The condition on a step: when `exConnect` goes through the list, the link to
its peer has not been accepted. -/
def Unclaimed (exchange : Exchange) : ExchangeStep → Prop
  | .connect =>
      match exchange.connector with
      | .scan ip port _ =>
          ∀ pslink ∈ exchange.sts.firstTo ip port, exchange.sts.accepts pslink ≠ some true
      | _ => True
  | _ => True

instance (exchange : Exchange) (label : ExchangeStep) : Decidable (exchange.Unclaimed label) := by
  unfold Unclaimed
  split
  · split <;> infer_instance
  · infer_instance

end Exchange

namespace StSock

variable {sts after : StSock}

theorem accepts_modify (sts : StSock) (pslink other : Nat) (change : SLink → SLink) :
    (sts.modify pslink change).accepts other =
      if other = pslink then (sts.memory pslink).map fun link => (change link).accept
      else sts.accepts other := by
  by_cases same : other = pslink
  · subst same
    simp [accepts, modify, Function.comp_def]
  · simp [accepts, modify, same]

theorem accepts_modify_same {change : SLink → SLink}
    (sameFlag : ∀ link, (change link).accept = link.accept) (sts : StSock) (pslink : Nat) :
    (sts.modify pslink change).accepts = sts.accepts := by
  funext other
  rw [accepts_modify]
  split
  · next same =>
    rw [same, accepts]
    simp only [sameFlag]
  · rfl

theorem accepts_modify_set {pslink : Nat} {link : SLink} {change : SLink → SLink}
    (stored : sts.memory pslink = some link) (set : ∀ link, (change link).accept = true)
    (other : Nat) :
    (sts.modify pslink change).accepts other = some true ↔
      other = pslink ∨ sts.accepts other = some true := by
  rw [accepts_modify, stored]
  split
  · next same => simp [same, set]
  · next different => simp [different]

theorem createLink_accepts {ip port : Nat} {malloc answer : Option Nat}
    (fresh : ∀ new ∈ malloc, sts.accepts new = none)
    (created : sts.createLink ip port malloc = (after, answer)) (other : Nat) :
    after.accepts other = some true ↔ sts.accepts other = some true := by
  cases malloc with
  | none =>
      obtain ⟨rfl, -⟩ := Prod.mk.inj created
      exact Iff.rfl
  | some new =>
      cases ids : (sts.clear new ip port).listIDAllocationHead with
      | nil =>
          simp only [createLink, addList, ids] at created
          obtain ⟨rfl, -⟩ := Prod.mk.inj created
          by_cases same : other = new
          · subst same
            rw [fresh other rfl]
            simp [accepts, free]
          · simp [accepts, free, clear, same]
      | cons id rest =>
          simp only [createLink, addList, ids] at created
          obtain ⟨rfl, -⟩ := Prod.mk.inj created
          by_cases same : other = new
          · subst same
            rw [fresh other rfl]
            simp [accepts, modify, clear]
          · simp [accepts, modify, clear, same]

theorem getLink_accepts {ip port : Nat} {type : PacketType} {malloc answer : Option Nat}
    (fresh : ∀ new ∈ malloc, sts.memory new = none)
    (got : sts.getLink ip port type malloc = some (after, answer)) (other : Nat) :
    after.accepts other = some true ↔ sts.accepts other = some true := by
  have unmarked : ∀ new ∈ malloc, sts.accepts new = none := by
    intro new answered
    rw [accepts, fresh new answered, Option.map_none]
  unfold getLink at got
  split at got
  · cases got
  · split at got
    · split at got
      · refine Iff.trans (createLink_accepts ?_ (Option.some.inj got) other) Iff.rfl
        exact unmarked
      · obtain ⟨rfl, -⟩ := Prod.mk.inj (Option.some.inj got)
        exact Iff.rfl
    · obtain ⟨place, -, got⟩ := Option.map_eq_some_iff.mp got
      cases place with
      | found pslink =>
          obtain ⟨rfl, -⟩ := Prod.mk.inj got
          exact Iff.rfl
      | last pslink =>
          simp only at got
          split at got
          · have sameFlags : (sts.setNext pslink malloc).accepts = sts.accepts := by
              apply accepts_modify_same
              intro link
              rfl
            rw [← sameFlags] at unmarked ⊢
            exact createLink_accepts unmarked got other
          · obtain ⟨rfl, -⟩ := Prod.mk.inj got
            exact Iff.rfl

theorem acceptLoop_accepts {nodes : List Nat} {answer : Option Nat}
    (scanned : sts.acceptLoop nodes = some (after, answer)) :
    answer = none ∧ after = sts ∨
      ∃ pslink, answer = some pslink ∧ sts.accepts pslink = some false ∧
        ∀ other, after.accepts other = some true ↔
          other = pslink ∨ sts.accepts other = some true := by
  induction nodes with
  | nil =>
      obtain ⟨rfl, rfl⟩ := Prod.mk.inj (Option.some.inj scanned)
      exact .inl ⟨rfl, rfl⟩
  | cons pslink rest inductionHypothesis =>
      rw [acceptLoop] at scanned
      split at scanned
      · cases scanned
      · next link stored =>
        split at scanned
        · next unaccepted =>
          obtain ⟨rfl, rfl⟩ := Prod.mk.inj (Option.some.inj scanned)
          refine .inr ⟨pslink, rfl, ?_, accepts_modify_set stored fun _ => rfl⟩
          rw [accepts, stored, Option.map_some, unaccepted]
        · exact inductionHypothesis scanned

theorem connectLoop_accepts {ip port : Nat} {nodes : List Nat} {answer : Option Nat}
    (scanned : sts.connectLoop ip port nodes = some (after, answer)) :
    (answer = nodes.find? fun pslink =>
      (sts.memory pslink).any fun link => link.ip = ip ∧ link.port = port) ∧
      (answer = none ∧ after = sts ∨
        ∃ pslink, answer = some pslink ∧
          ∀ other, after.accepts other = some true ↔
            other = pslink ∨ sts.accepts other = some true) := by
  induction nodes with
  | nil =>
      obtain ⟨rfl, rfl⟩ := Prod.mk.inj (Option.some.inj scanned)
      exact ⟨rfl, .inl ⟨rfl, rfl⟩⟩
  | cons pslink rest inductionHypothesis =>
      rw [connectLoop] at scanned
      split at scanned
      · cases scanned
      · next link stored =>
        split at scanned
        · next isPeer =>
          obtain ⟨rfl, rfl⟩ := Prod.mk.inj (Option.some.inj scanned)
          refine ⟨?_, .inr ⟨pslink, rfl, accepts_modify_set stored fun _ => rfl⟩⟩
          rw [List.find?_cons_of_pos]
          simpa [stored] using isPeer
        · next otherPeer =>
          rw [List.find?_cons_of_neg]
          · exact inductionHypothesis scanned
          · simpa [stored] using otherPeer

end StSock

namespace Exchange

variable {exchange next : Exchange}

/-- A flag is set just for the links that somebody has got. -/
def Marked (exchange : Exchange) : Prop :=
  ∀ pslink, exchange.sts.accepts pslink = some true ↔
    pslink ∈ exchange.accepted ∨ exchange.connector.answer = some pslink

inductive Hands (exchange : Exchange) (label : ExchangeStep) (next : Exchange) : Prop where
  | nothing : exchange.Unclaimed label → next.accepted = exchange.accepted →
      next.connector.answer = exchange.connector.answer →
      (∀ other, next.sts.accepts other = some true ↔ exchange.sts.accepts other = some true) →
      Hands exchange label next
  | accepts (pslink : Nat) : exchange.Unclaimed label →
      next.accepted = exchange.accepted ++ [pslink] →
      next.connector.answer = exchange.connector.answer →
      exchange.sts.accepts pslink = some false →
      (∀ other, next.sts.accepts other = some true ↔
        other = pslink ∨ exchange.sts.accepts other = some true) →
      Hands exchange label next
  | connects (pslink : Nat) :
      (exchange.Unclaimed label ↔ exchange.sts.accepts pslink ≠ some true) →
      next.accepted = exchange.accepted → exchange.connector.answer = none →
      next.connector.answer = some pslink →
      (∀ other, next.sts.accepts other = some true ↔
        other = pslink ∨ exchange.sts.accepts other = some true) →
      Hands exchange label next

theorem exAccept_hands {caller : Nat} (stepped : exchange.exAccept caller = some next) :
    exchange.Hands (.exAccept caller) next := by
  unfold exAccept at stepped
  split at stepped
  · obtain rfl := Option.some.inj stepped
    exact .nothing trivial rfl rfl fun _ => Iff.rfl
  · obtain ⟨⟨sts, answer⟩, scanned, stepped⟩ := Option.map_eq_some_iff.mp stepped
    rcases StSock.acceptLoop_accepts scanned with
      ⟨rfl, rfl⟩ | ⟨pslink, rfl, unaccepted, flags⟩
    · subst stepped
      exact .nothing trivial rfl rfl fun _ => Iff.rfl
    · subst stepped
      exact .accepts pslink trivial rfl rfl unaccepted flags
  · split at stepped
    · obtain rfl := Option.some.inj stepped
      exact .nothing trivial rfl rfl fun _ => Iff.rfl
    · cases stepped
  · split at stepped
    · obtain rfl := Option.some.inj stepped
      exact .nothing trivial rfl rfl fun _ => Iff.rfl
    · obtain rfl := Option.some.inj stepped
      exact .nothing trivial rfl rfl fun _ => Iff.rfl

theorem connect_hands (stepped : exchange.connect = some next) :
    exchange.Hands .connect next := by
  have elsewhere : (∀ ip port times, exchange.connector ≠ .scan ip port times) →
      exchange.Unclaimed .connect := by
    intro notScan
    cases place : exchange.connector with
    | scan ip port times => exact absurd place (notScan ip port times)
    | _ => simp only [Unclaimed, place]
  unfold connect at stepped
  split at stepped
  · cases stepped
  · next place =>
    obtain rfl := Option.some.inj stepped
    exact .nothing (elsewhere (by simp [place])) rfl (by simp [finish, place, Connecting.answer])
      fun _ => Iff.rfl
  · next place =>
    obtain rfl := Option.some.inj stepped
    exact .nothing (elsewhere (by simp [place])) rfl (by simp [place, Connecting.answer])
      fun _ => Iff.rfl
  · next place =>
    split at stepped
    · obtain rfl := Option.some.inj stepped
      exact .nothing (elsewhere (by simp [place])) rfl (by simp [place, Connecting.answer])
        fun _ => Iff.rfl
    · obtain rfl := Option.some.inj stepped
      exact .nothing (elsewhere (by simp [place])) rfl (by simp [place, Connecting.answer])
        fun _ => Iff.rfl
  · next ip port times place =>
    obtain ⟨⟨sts, answer⟩, scanned, stepped⟩ := Option.map_eq_some_iff.mp stepped
    have guard : exchange.Unclaimed .connect ↔
        ∀ pslink ∈ exchange.sts.firstTo ip port, exchange.sts.accepts pslink ≠ some true := by
      simp only [Unclaimed, place]
    obtain ⟨first, effect⟩ := StSock.connectLoop_accepts scanned
    change answer = exchange.sts.firstTo ip port at first
    rcases effect with ⟨rfl, rfl⟩ | ⟨pslink, rfl, flags⟩
    · subst stepped
      refine .nothing ?_ rfl (by simp [place, Connecting.answer]) fun _ => Iff.rfl
      rw [guard, ← first]
      simp
    · subst stepped
      refine .connects pslink ?_ rfl (by rw [place]; rfl) rfl flags
      rw [guard, ← first]
      simp
  · cases stepped

theorem step_hands {label : ExchangeStep} (stepped : exchange.step label = some next) :
    exchange.Hands label next := by
  cases label with
  | getLink ip port type malloc =>
      rw [step] at stepped
      split at stepped
      · next fresh =>
        obtain ⟨⟨sts, answer⟩, got, rfl⟩ := Option.map_eq_some_iff.mp stepped
        exact .nothing trivial rfl rfl (StSock.getLink_accepts fresh got)
      · cases stepped
  | exAccept caller => exact exAccept_hands stepped
  | exConnect ip port times =>
      rw [step] at stepped
      split at stepped
      · next idle =>
        obtain rfl := Option.some.inj stepped
        exact .nothing trivial rfl (by rw [idle]; rfl) fun _ => Iff.rfl
      · cases stepped
  | connect => exact connect_hands stepped

theorem Hands.marked {label : ExchangeStep} (hands : exchange.Hands label next)
    (marked : exchange.Marked) : next.Marked := by
  intro other
  cases hands with
  | nothing _ accepted answer flags =>
      rw [flags, accepted, answer]
      exact marked other
  | accepts pslink _ accepted answer _ flags =>
      rw [flags, accepted, answer, marked other, List.mem_append, List.mem_singleton]
      tauto
  | connects pslink _ accepted noAnswer answer flags =>
      rw [flags, accepted, answer, marked other, noAnswer]
      simp only [Option.some.injEq, reduceCtorEq, or_false]
      tauto

/-- A step keeps one owner for each link just when it meets the condition. -/
theorem Hands.oneOwner_iff {label : ExchangeStep} (hands : exchange.Hands label next)
    (marked : exchange.Marked) (before : exchange.OneOwner) :
    exchange.Unclaimed label ↔ next.OneOwner := by
  obtain ⟨nodup, apart⟩ := before
  unfold OneOwner
  cases hands with
  | nothing unclaimed accepted answer _ =>
      rw [accepted, answer]
      exact ⟨fun _ => ⟨nodup, apart⟩, fun _ => unclaimed⟩
  | accepts pslink unclaimed accepted answer unmarked _ =>
      have free : ¬ (pslink ∈ exchange.accepted ∨ exchange.connector.answer = some pslink) := by
        rw [← marked pslink, unmarked]
        simp
      rw [accepted, answer]
      refine ⟨fun _ => ⟨?_, ?_⟩, fun _ => unclaimed⟩
      · rw [List.nodup_append]
        refine ⟨nodup, by simp, ?_⟩
        intro other membership new isNew same
        rw [same, List.mem_singleton.mp isNew] at membership
        exact free (.inl membership)
      · intro other isAnswer membership
        rcases List.mem_append.mp membership with old | new
        · exact apart other isAnswer old
        · rw [List.mem_singleton.mp new] at isAnswer
          exact free (.inr isAnswer)
  | connects pslink guard accepted noAnswer answer _ =>
      have owned : exchange.sts.accepts pslink = some true ↔ pslink ∈ exchange.accepted := by
        rw [marked pslink, noAnswer]
        simp
      rw [guard, accepted, answer, Ne, owned]
      constructor
      · intro free
        refine ⟨nodup, ?_⟩
        intro other isAnswer
        rw [← Option.some.inj isAnswer]
        exact free
      · exact fun after => after.2 pslink rfl

theorem marked_start (sock : Nat) (tsWaitTime : Int) : (start sock tsWaitTime).Marked := by
  intro pslink
  simp [start, exSocket, StSock.accepts, Connecting.answer]

theorem oneOwner_start (sock : Nat) (tsWaitTime : Int) : (start sock tsWaitTime).OneOwner := by
  refine ⟨List.nodup_nil, ?_⟩
  intro pslink answered
  cases answered

end Exchange

/-- In a run every link has one owner at every moment just when `exConnect` never
finds its link accepted. -/
theorem one_owner_iff_unclaimed {sock : Nat} {tsWaitTime : Int} {labels : List ExchangeStep}
    {last : Exchange}
    (ran : Transition.run Exchange.step (.start sock tsWaitTime) labels = some last) :
    (∀ count middle,
      Transition.run Exchange.step (.start sock tsWaitTime) (labels.take count) = some middle →
        middle.OneOwner) ↔
      Transition.Guarded Exchange.step Exchange.Unclaimed (.start sock tsWaitTime) labels := by
  refine Iff.symm (@Transition.guarded_iff_of_visible _ _ Exchange.step Exchange.Unclaimed
    (fun exchange => exchange.Marked ∧ exchange.OneOwner) Exchange.OneOwner ?_ ?_ ?_ _ last labels
    ⟨Exchange.marked_start sock tsWaitTime, Exchange.oneOwner_start sock tsWaitTime⟩ ran)
  · intro exchange label next before stepped
    exact (Exchange.step_hands stepped).oneOwner_iff before.1 before.2
  · intro exchange label next before unclaimed stepped
    have hands := Exchange.step_hands stepped
    exact ⟨hands.marked before.1, (hands.oneOwner_iff before.1 before.2).mp unclaimed⟩
  · exact fun exchange before => before.2

/-- `exConnect` asks for a link, which `thread_recv` makes. -/
def answered : List ExchangeStep :=
  [.exConnect 1 5 3, .connect, .getLink 1 5 .linkSynAck (some 100)]

theorem one_owner_iff_unclaimed_in_turn :
    ∃ exchange, Transition.run Exchange.step (.start 4 (-1))
        (answered ++ [.connect, .connect, .getLink 2 5 .linkSyn (some 200), .exAccept 0,
          .exAccept 0]) = some exchange ∧
      exchange.accepted = [200] ∧ exchange.connector = .returned (some 100) ∧
      exchange.OneOwner := by
  have view : (Transition.run Exchange.step (.start 4 (-1))
      (answered ++ [.connect, .connect, .getLink 2 5 .linkSyn (some 200), .exAccept 0,
        .exAccept 0])).map (fun exchange => (exchange.accepted, exchange.connector)) =
      some ([200], .returned (some 100)) := by
    decide +kernel
  obtain ⟨exchange, ran, seen⟩ := Option.map_eq_some_iff.mp view
  obtain ⟨accepted, answer⟩ := Prod.mk.inj seen
  refine ⟨exchange, ran, accepted, answer, ?_⟩
  exact (one_owner_iff_unclaimed ran).mpr (by decide +kernel) 8 exchange ran

/-- A call of `exAccept` that begins in between takes the link first, and
`exConnect` returns it again. -/
theorem link_handed_out_twice :
    ∃ exchange, Transition.run Exchange.step (.start 4 (-1))
        (answered ++ [.exAccept 0, .exAccept 0, .connect, .connect]) = some exchange ∧
      exchange.accepted = [100] ∧ exchange.connector = .returned (some 100) ∧
      ¬ exchange.OneOwner := by
  have view : (Transition.run Exchange.step (.start 4 (-1))
      (answered ++ [.exAccept 0, .exAccept 0, .connect, .connect])).map
        (fun exchange => (exchange.accepted, exchange.connector)) =
      some ([100], .returned (some 100)) := by
    decide +kernel
  obtain ⟨exchange, ran, seen⟩ := Option.map_eq_some_iff.mp view
  obtain ⟨accepted, answer⟩ := Prod.mk.inj seen
  refine ⟨exchange, ran, accepted, answer, ?_⟩
  rintro ⟨-, apart⟩
  apply apart 100
  · rw [answer]
    rfl
  · rw [accepted]
    simp

end UtilsModules.Udp

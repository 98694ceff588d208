import Cirrus.Lib.Transition
import Cirrus.Lib.Compaction
import Mathlib.Data.UInt

/-
The connections of the parameter server. Three poll threads share the arrays
`fdses` of pollfd slots; `process` queues a request that holds a reference to
the slot it was read from, and the worker threads read the socket, close it or
re-arm it through that reference. Each loop body of `loop` is a step, so is the
purge after the loop, and a worker pops, handles and re-arms in three steps.

The kernel is modelled by its table of open client sockets and by what its
calls may return: `poll` reports what is asked for besides errors and hang-ups,
`accept` returns a descriptor that is not open. A connection is named by the
order of its acceptance. `accepted`, `closed` and `subtracted` are histories
that no step of the code reads.
-/
namespace Connections
open Transition

abbrev PollThread := Fin 3

theorem threads_neZero : NeZero 3 := ⟨by decide⟩

abbrev Slot := PollThread × Nat

def maxFds : Nat := 2000

def pollIn : UInt16 := 1
def pollErr : UInt16 := 8
def pollHup : UInt16 := 16
def pollNval : UInt16 := 32

structure PollFd where
  fd : Int := 0
  events : UInt16 := 0
  revents : UInt16 := 0
  deriving DecidableEq, Repr

/-- What a server is started with: its configuration and the descriptors it opens for itself. -/
structure Host where
  nworkers : UInt64
  serverSock : Int
  pipe : PollThread → Int
  serverSock_nonneg : 0 ≤ serverSock
  pipe_nonneg : ∀ t, 0 ≤ pipe t
  pipe_ne_serverSock : ∀ t, pipe t ≠ serverSock

/-- `pollFd` is the index of the slot the reference points at, `conn` the connection read from. -/
structure Request where
  sock : Int
  id : PollThread
  pollFd : Nat
  conn : Option Nat
  deriving DecidableEq, Repr

def Request.slot (q : Request) : Slot := (q.id, q.pollFd)

inductive PollPc where
  | polling
  | scanning (i : Nat)
  | purging
  deriving DecidableEq, Repr

/-- `handling` keeps the `sock` latched after the pop; `rearming` whether the handler closed it. -/
inductive WorkerPc where
  | free
  | handling (req : Request) (sock : Int)
  | rearming (req : Request) (gone : Bool)
  deriving DecidableEq, Repr

def WorkerPc.request : WorkerPc → Option Request
  | .free => none
  | .handling req _ => some req
  | .rearming req _ => some req

/-- An uncaught exception ends the process; a write past an array is undefined. -/
inductive Health where
  | running
  | terminated
  | undefined
  deriving DecidableEq, Repr

@[ext]
structure State (nWork : Nat) where
  fdses : Slot → PollFd
  currIndexes : PollThread → Nat
  pollPc : PollThread → PollPc := fun _ => .polling
  toProcess : List Request := []
  worker : Fin nWork → WorkerPc := fun _ => .free
  sockets : Int → Option Nat := fun _ => none
  numConnections : UInt32 := 0
  health : Health := .running
  accepted : Nat := 0
  closed : List Nat := []
  subtracted : List (Option Nat) := []

inductive Outcome where
  | served
  | failedReadOfOperation
  | failedRead
  | threw
  deriving DecidableEq, Repr

inductive Label (nWork : Nat) where
  | poll (t : PollThread) (ready : Nat → UInt16)
  | interrupted (t : PollThread)
  | scan (t : PollThread) (newsock : Int) (r : PollThread)
  | purge (t : PollThread)
  | take (w : Fin nWork)
  | serve (w : Fin nWork) (outcome : Outcome)
  | rearm (w : Fin nWork)

variable {nWork : Nat}

def base (t : PollThread) : Nat := if t = 0 then 2 else 1

/-- The slot of the pipe that wakes a thread's `poll`. -/
def posit (t : PollThread) : Nat := if t = 0 then 1 else 0

def ownFd (host : Host) (p : Slot) : Int := if p = (0, 0) then host.serverSock else host.pipe p.1

def start (host : Host) (nWork : Nat) : State nWork where
  fdses p := if p.2 < base p.1 then { fd := ownFd host p, events := pollIn } else {}
  currIndexes := base

def atStart (host : Host) (s : State nWork) : Prop := s = start host nWork

def State.setSlot (s : State nWork) (p : Slot) (x : PollFd) : State nWork :=
  { s with fdses := Function.update s.fdses p x }

def State.setPc (s : State nWork) (t : PollThread) (pc : PollPc) : State nWork :=
  { s with pollPc := Function.update s.pollPc t pc }

def State.setWorker (s : State nWork) (w : Fin nWork) (pc : WorkerPc) : State nWork :=
  { s with worker := Function.update s.worker w pc }

/-- `close`, which fails without effect on a descriptor that is not open. -/
def closeFd (s : State nWork) (fd : Int) : State nWork :=
  match s.sockets fd with
  | some c => { s with sockets := Function.update s.sockets fd none, closed := s.closed ++ [c] }
  | none => s

def subtract (s : State nWork) (fd : Int) : State nWork :=
  { s with
    numConnections := s.numConnections - 1
    subtracted := s.subtracted ++ [s.sockets fd] }

def handleFailedRead (s : State nWork) (p : Slot) : State nWork :=
  let x := s.fdses p
  (closeFd (subtract s x.fd) x.fd).setSlot p { x with fd := -1, revents := 0 }

/-- The POLLHUP branch of the loop. -/
def hangUp (s : State nWork) (p : Slot) : State nWork :=
  let x := s.fdses p
  (closeFd (subtract s x.fd) x.fd).setSlot p { x with fd := -1 }

/-- "Reset the event flags", at the end of a loop body. -/
def resetRevents (s : State nWork) (p : Slot) : State nWork :=
  s.setSlot p { s.fdses p with revents := 0 }

def process (s : State nWork) (p : Slot) : State nWork :=
  let x := s.fdses p
  let req : Request := { sock := x.fd, id := p.1, pollFd := p.2, conn := s.sockets x.fd }
  { s.setSlot p { x with events := 0 } with toProcess := s.toProcess ++ [req] }

def atCapacity (host : Host) (s : State nWork) : Prop :=
  s.numConnections.toUInt64 > host.nworkers * 2 + 1 - 1

instance (host : Host) (s : State nWork) : Decidable (atCapacity host s) :=
  inferInstanceAs (Decidable (_ > _))

def inUse (host : Host) (s : State nWork) (fd : Int) : Prop :=
  s.sockets fd ≠ none ∨ fd = host.serverSock ∨ ∃ t, fd = host.pipe t

instance (host : Host) (s : State nWork) (fd : Int) : Decidable (inUse host s fd) :=
  inferInstanceAs (Decidable (_ ∨ _ ∨ _))

def store (s : State nWork) (newsock : Int) (r : PollThread) : State nWork :=
  let p := (r, s.currIndexes r)
  { s.setSlot p { s.fdses p with fd := newsock, events := pollIn } with
    currIndexes := Function.update s.currIndexes r (s.currIndexes r + 1)
    sockets := Function.update s.sockets newsock (some s.accepted)
    numConnections := s.numConnections + 1
    accepted := s.accepted + 1 }

/-- The body of the loop for the listening socket; a rejected socket is closed at once. The check
for room looks at the array of thread 0 only. -/
def acceptConnection (host : Host) (s : State nWork) (newsock : Int) (r : PollThread) : State nWork :=
  if newsock < 0 then { s with health := .terminated }
  else if atCapacity host s then s
  else if s.currIndexes 0 = maxFds then { s with health := .terminated }
  else if s.currIndexes r < maxFds then store s newsock r
  else { s with health := .undefined }

def scanSlot (host : Host) (s : State nWork) (p : Slot) (newsock : Int) (r : PollThread) :
    State nWork :=
  let x := s.fdses p
  if x.fd = -1 then s
  else if x.revents ≠ pollIn then
    resetRevents (if x.revents &&& pollHup ≠ 0 then hangUp s p else s) p
  else if p.1 = 0 ∧ x.fd = host.serverSock then
    resetRevents (acceptConnection host s newsock r) p
  else resetRevents (process s p) p

/-- What the kernel may report for a slot; the server's own descriptors never fail or hang up. -/
def reportable (s : State nWork) (t : PollThread) (ready : Nat → UInt16) (i : Nat) : Prop :=
  ((s.fdses (t, i)).fd < 0 → ready i = 0) ∧
    ready i &&& ~~~((s.fdses (t, i)).events ||| pollErr ||| pollHup ||| pollNval) = 0 ∧
    (i < base t → ready i = 0 ∨ ready i = pollIn)

instance (s : State nWork) (t : PollThread) (ready : Nat → UInt16) (i : Nat) :
    Decidable (reportable s t ready i) :=
  inferInstanceAs (Decidable (_ ∧ _ ∧ _))

def report (s : State nWork) (t : PollThread) (ready : Nat → UInt16) : State nWork :=
  { s with fdses := fun p =>
      if p.1 = t ∧ p.2 < s.currIndexes t then { s.fdses p with revents := ready p.2 }
      else s.fdses p }

/-- After `poll`: a byte in the pipe ends the round, no event too, anything else starts the scan. -/
def afterPoll (s : State nWork) (t : PollThread) (ready : Nat → UInt16) : State nWork :=
  let s := report s t ready
  if (s.fdses (t, posit t)).revents = pollIn then
    (resetRevents s (t, posit t)).setPc t .purging
  else if ∀ i < s.currIndexes t, ready i = 0 then s.setPc t .purging
  else s.setPc t (.scanning 0)

def dead (x : PollFd) : Bool := x.fd = -1

def State.row (s : State nWork) (t : PollThread) (i : Nat) : PollFd := s.fdses (t, i)

/-- `remove_if` with `testRemove`, which counts `curr_indexes` down for every slot it removes. -/
def purgeSlots (s : State nWork) (t : PollThread) : State nWork :=
  { s with
    fdses := fun p => if p.1 = t then Compaction.removeIf dead (s.row t) maxFds p.2 else s.fdses p
    currIndexes := Function.update s.currIndexes t
      (s.currIndexes t - Compaction.removed dead (s.row t) maxFds) }

def takeRequest (s : State nWork) (w : Fin nWork) : Option (State nWork) :=
  match s.toProcess with
  | [] => none
  | req :: rest =>
    some { s.setWorker w (.handling req (s.fdses req.slot).fd) with toProcess := rest }

/-- How a request ends. Reading a socket that is not open throws. -/
def finish (s : State nWork) (w : Fin nWork) (req : Request) : Outcome → State nWork
  | .served => s.setWorker w (.rearming req false)
  | .failedReadOfOperation => (handleFailedRead s req.slot).setWorker w .free
  | .failedRead => (handleFailedRead s req.slot).setWorker w (.rearming req true)
  | .threw => { s with health := .terminated }

def rearmSlot (s : State nWork) (w : Fin nWork) (req : Request) : State nWork :=
  (s.setSlot req.slot { s.fdses req.slot with events := pollIn }).setWorker w .free

def step (host : Host) (s : State nWork) (l : Label nWork) : Option (State nWork) :=
  if s.health ≠ .running then none else
  match l with
  | .poll t ready =>
    if s.pollPc t = .polling ∧ ∀ i < s.currIndexes t, reportable s t ready i then
      some (afterPoll s t ready)
    else none
  | .interrupted t => if s.pollPc t = .polling then some (s.setPc t .purging) else none
  | .scan t newsock r =>
    match s.pollPc t with
    | .scanning i =>
      if inUse host s newsock then none
      else if i < s.currIndexes t then
        some ((scanSlot host s (t, i) newsock r).setPc t (.scanning (i + 1)))
      else some (s.setPc t .purging)
    | _ => none
  | .purge t =>
    if s.pollPc t = .purging then
      some ((if s.currIndexes t = maxFds then purgeSlots s t else s).setPc t .polling)
    else none
  | .take w => if s.worker w = .free then takeRequest s w else none
  | .serve w outcome =>
    match s.worker w with
    | .handling req sock =>
      if s.sockets sock = none ∧ outcome ≠ .threw then none else some (finish s w req outcome)
    | _ => none
  | .rearm w =>
    match s.worker w with
    | .rearming req _ => some (rearmSlot s w req)
    | _ => none

end Connections

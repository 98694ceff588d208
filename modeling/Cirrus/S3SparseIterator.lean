import Cirrus.CircularBuffer
import Cirrus.Lib.Transition

/-!
`S3SparseIterator`: a thread that fetches objects and cuts them into minibatches,
and a consumer that takes the minibatches one by one. The steps of the two
threads are the accesses to what they share. Those to the map `list_strings` are
not atomic, and no lock is held: each has a first step and a last one, and where
one begins while the other thread is in another the behaviour is undefined. A run
begins when the constructor has returned. `count` is never incremented by the
thread, so its limit on the number of passes is never reached.
-/
namespace S3SparseIterator
open Transition

/-- What the constructor is given. An object is cut at the positions `starts`,
or not at all, where an assertion of the walk over it fails. -/
structure Iterator (O P : Type) where
  leftId : UInt64
  rightId : UInt64
  randomAccess : Bool
  s3Rows : UInt64
  minibatchRows : UInt64
  starts : O → Option (List P)
  starts_length : ∀ obj positions, starts obj = some positions →
    positions.length = (s3Rows / minibatchRows).toNat

/-- A minibatch in the ring: a position in the string of a version, and `is_last`. -/
structure Minibatch (P : Type) where
  version : Int
  position : P
  isLast : Int
  deriving DecidableEq

def intMax : Int := 2147483647

def readAhead : Nat := 1

/-- `sem_post`, which fails at the largest value of a semaphore. -/
def semPost (value : Nat) : Nat := if value < 2147483647 then value + 1 else value

variable {O P : Type}

inductive Prefetch (O P : Type)
  | waiting
  | fetching (id : UInt64)
  | pushing (id : UInt64) (obj : O)
  /-- In `list_strings[str_version] = ..`. -/
  | inserting (id : UInt64) (obj : O)
  | inserted (id : UInt64)
  /-- In `list_strings.find(str_version)`. -/
  | finding (id : UInt64)
  | locking (queue : List (Minibatch P))
  | adding (queue : List (Minibatch P))
  | unlocking
  | counting (i : Nat)
  | posting (i : Nat)
  | closing

/-- Where the consumer is; `idle` is outside of `getNext`. -/
inductive Consumer (P : Type)
  | idle
  /-- In `list_strings.erase(to_delete)`. -/
  | erasing
  | waiting
  | locking
  | discarding
  | counting (ret : Minibatch P)
  | unlocking (ret : Minibatch P)
  | marking (ret : Minibatch P)
  | checkingReady (ret : Minibatch P)
  | checkingSem (ret : Minibatch P)
  | signalling (ret : Minibatch P)
  | building (ret : Minibatch P)
  | failed

def Prefetch.begins : Prefetch O P → Bool
  | .pushing _ _ | .inserted _ => true
  | _ => false

def Prefetch.accesses : Prefetch O P → Bool
  | .inserting _ _ | .finding _ => true
  | _ => false

def Consumer.accesses : Consumer P → Bool
  | .erasing => true
  | _ => false

/-- `fetched`, `pushed` and `returned` are histories: the objects cut, the
minibatches added to the ring, and those returned with the string they were read from.
`racing` is set by an access to `list_strings` that begins during one of the other thread. -/
structure State (O P : Type) where
  prefetch : Prefetch O P := .waiting
  consumer : Consumer P := .idle
  prefSem : Nat := readAhead
  semaphore : Nat := 0
  ringLock : Bool := false
  minibatchesList : CircularBuffer (List (Minibatch P))
  numMinibatchesReady : Int32 := 0
  listStrings : Int → Option O := fun _ => none
  strVersion : Int := 0
  toDelete : Int := -1
  current : UInt64
  fetched : List (UInt64 × O) := []
  pushed : List (Minibatch P) := []
  returned : List (Option O × Minibatch P) := []
  frontOfEmpty : Bool := false
  racing : Bool := false

namespace Iterator
variable (it : Iterator O P)

def nMinibatches : Nat := (it.s3Rows / it.minibatchRows).toNat

/-- The id of the next object, and what `current` is afterwards. -/
def getObjId (current sampled : UInt64) : Option (UInt64 × UInt64) :=
  if it.randomAccess then
    if it.leftId ≤ sampled ∧ sampled < it.rightId then some (sampled, current) else none
  else some (current, if current + 1 = it.rightId then it.leftId else current + 1)

/-- The queue of an object: the last of its minibatches is marked with its version. -/
def queue (version : Int) (positions : List P) : List (Minibatch P) :=
  positions.zipIdx.map fun (position, i) =>
    { version, position, isLast := if i + 1 = it.nMinibatches then version else -1 }

inductive Choice (O : Type)
  | go
  | sample (id : UInt64)
  | fails
  | object (obj : O)

def threadFunction (s : State O P) (choice : Choice O) : Option (State O P) :=
  match s.prefetch, choice with
  | .waiting, .sample sampled =>
    if 0 < s.prefSem then
      (it.getObjId s.current sampled).map fun (id, current) =>
        { s with prefSem := s.prefSem - 1, current, prefetch := .fetching id }
    else none
  | .fetching _, .fails => some s
  | .fetching id, .object obj =>
    -- `count / (right_id - left_id)` is undefined where the ids are equal
    if it.rightId = it.leftId then none else some { s with prefetch := .pushing id obj }
  | .pushing id obj, .go => some { s with prefetch := .inserting id obj }
  | .inserting id obj, .go =>
    some { s with listStrings := Function.update s.listStrings s.strVersion (some obj), prefetch := .inserted id }
  | .inserted id, .go => some { s with prefetch := .finding id }
  | .finding id, .go =>
    -- an iterator at the end of the map has no string
    (s.listStrings s.strVersion).bind fun obj => (it.starts obj).map fun positions =>
      { s with fetched := s.fetched ++ [(id, obj)], prefetch := .locking (it.queue s.strVersion positions) }
  | .locking queue, .go => if s.ringLock then none else some { s with ringLock := true, prefetch := .adding queue }
  | .adding queue, .go =>
    some { s with
      minibatchesList := s.minibatchesList.add queue
      pushed := s.pushed ++ queue
      prefetch := .unlocking }
  | .unlocking, .go => some { s with ringLock := false, prefetch := .counting 0 }
  | .counting i, .go =>
    if i < it.nMinibatches then
      some { s with numMinibatchesReady := s.numMinibatchesReady + 1, prefetch := .posting i }
    else some { s with prefetch := .closing }
  | .posting i, .go => some { s with semaphore := semPost s.semaphore, prefetch := .counting (i + 1) }
  | .closing, .go =>
    -- `str_version` is an `int`
    if s.strVersion < intMax then some { s with strVersion := s.strVersion + 1, prefetch := .waiting } else none
  | _, _ => none

end Iterator

/-- The loop over the front of the ring, and the removal of its first minibatch. -/
def takeFront (s : State O P) : State O P :=
  match s.minibatchesList.first with
  | .ok [] =>
    match s.minibatchesList.pop with
    | .ok (_, popped) => { s with minibatchesList := popped }
    | .error _ => { s with frontOfEmpty := true, consumer := .failed }
  | .ok (ret :: rest) => { s with minibatchesList := s.minibatchesList.setFirst rest, consumer := .counting ret }
  | .error _ => { s with frontOfEmpty := true, consumer := .failed }

/-- The next step of a call of `getNext`. -/
def getNext (s : State O P) : Option (State O P) :=
  match s.consumer with
  | .idle => some { s with consumer := if s.toDelete ≠ -1 then .erasing else .waiting }
  | .erasing => some { s with listStrings := Function.update s.listStrings s.toDelete none, consumer := .waiting }
  | .waiting => if 0 < s.semaphore then some { s with semaphore := s.semaphore - 1, consumer := .locking } else none
  | .locking => if s.ringLock then none else some { s with ringLock := true, consumer := .discarding }
  | .discarding => some (takeFront s)
  | .counting ret => some { s with numMinibatchesReady := s.numMinibatchesReady - 1, consumer := .unlocking ret }
  | .unlocking ret => some { s with ringLock := false, consumer := .marking ret }
  | .marking ret => some { s with toDelete := ret.isLast, consumer := .checkingReady ret }
  | .checkingReady ret =>
    some { s with consumer := if s.numMinibatchesReady < 200 then .checkingSem ret else .building ret }
  | .checkingSem ret => some { s with consumer := if s.prefSem < readAhead then .signalling ret else .building ret }
  | .signalling ret => some { s with prefSem := semPost s.prefSem, consumer := .building ret }
  | .building ret => some { s with returned := s.returned ++ [(s.listStrings ret.version, ret)], consumer := .idle }
  | .failed => none

inductive Label (O : Type)
  | prefetch (choice : Iterator.Choice O)
  | consumer

/-- A step that begins an access to `list_strings` while the other thread is in one. -/
def races (s : State O P) : Label O → Bool
  | .prefetch .go => s.prefetch.begins && s.consumer.accesses
  | .prefetch _ => false
  | .consumer =>
    match s.consumer with
    | .idle => s.toDelete ≠ -1 && s.prefetch.accesses
    | _ => false

def Iterator.act (it : Iterator O P) (s : State O P) : Label O → Option (State O P)
  | .prefetch choice => it.threadFunction s choice
  | .consumer => getNext s

/-- After a race there are no more steps. -/
def Iterator.step (it : Iterator O P) (s : State O P) (l : Label O) : Option (State O P) :=
  if s.racing then none
  else if races s l then some { s with racing := true }
  else it.act s l

/-- The accesses to `list_strings` do not overlap. -/
def Apart (s : State O P) (l : Label O) : Prop := races s l = false

/-- The iterator as the constructor leaves it. The slots of the ring hold anything. -/
def Iterator.AtStart (it : Iterator O P) (s : State O P) : Prop :=
  ∃ garbage, s =
    { minibatchesList := .ofCapacity 100000 (by decide) garbage
      current := if it.randomAccess then 0 else it.leftId }

inductive ThreadMove (it : Iterator O P) (s : State O P) : State O P → Prop where
  | wait {sampled id current : UInt64} (here : s.prefetch = .waiting) (credit : 0 < s.prefSem)
      (chosen : it.getObjId s.current sampled = some (id, current)) :
      ThreadMove it s { s with prefSem := s.prefSem - 1, current, prefetch := .fetching id }
  | retry {id : UInt64} (here : s.prefetch = .fetching id) : ThreadMove it s s
  | fetch {id : UInt64} {obj : O} (here : s.prefetch = .fetching id) (distinct : it.rightId ≠ it.leftId) :
      ThreadMove it s { s with prefetch := .pushing id obj }
  | insert {id : UInt64} {obj : O} (here : s.prefetch = .pushing id obj) :
      ThreadMove it s { s with prefetch := .inserting id obj }
  | inserted {id : UInt64} {obj : O} (here : s.prefetch = .inserting id obj) :
      ThreadMove it s { s with
        listStrings := Function.update s.listStrings s.strVersion (some obj)
        prefetch := .inserted id }
  | find {id : UInt64} (here : s.prefetch = .inserted id) : ThreadMove it s { s with prefetch := .finding id }
  | cut {id : UInt64} {obj : O} {positions : List P} (here : s.prefetch = .finding id)
      (found : s.listStrings s.strVersion = some obj) (walked : it.starts obj = some positions) :
      ThreadMove it s { s with
        fetched := s.fetched ++ [(id, obj)]
        prefetch := .locking (it.queue s.strVersion positions) }
  | lock {queue : List (Minibatch P)} (here : s.prefetch = .locking queue) (free : s.ringLock = false) :
      ThreadMove it s { s with ringLock := true, prefetch := .adding queue }
  | add {queue : List (Minibatch P)} (here : s.prefetch = .adding queue) :
      ThreadMove it s { s with
        minibatchesList := s.minibatchesList.add queue
        pushed := s.pushed ++ queue
        prefetch := .unlocking }
  | unlock (here : s.prefetch = .unlocking) : ThreadMove it s { s with ringLock := false, prefetch := .counting 0 }
  | count {i : Nat} (here : s.prefetch = .counting i) (more : i < it.nMinibatches) :
      ThreadMove it s { s with numMinibatchesReady := s.numMinibatchesReady + 1, prefetch := .posting i }
  | counted {i : Nat} (here : s.prefetch = .counting i) (all : ¬ i < it.nMinibatches) :
      ThreadMove it s { s with prefetch := .closing }
  | post {i : Nat} (here : s.prefetch = .posting i) :
      ThreadMove it s { s with semaphore := semPost s.semaphore, prefetch := .counting (i + 1) }
  | close (here : s.prefetch = .closing) (small : s.strVersion < intMax) :
      ThreadMove it s { s with strVersion := s.strVersion + 1, prefetch := .waiting }

theorem threadFunction_moves {it : Iterator O P} {s t : State O P} {choice : Iterator.Choice O}
    (taken : it.threadFunction s choice = some t) : ThreadMove it s t := by
  unfold Iterator.threadFunction at taken
  split at taken
  case h_1 here =>
    split at taken
    next credit =>
      obtain ⟨⟨id, current⟩, chosen, rfl⟩ := Option.map_eq_some_iff.mp taken
      exact .wait here credit chosen
    next => cases taken
  case h_2 here =>
    obtain rfl := Option.some.inj taken
    exact .retry here
  case h_3 here =>
    split at taken
    next => cases taken
    next distinct =>
      obtain rfl := Option.some.inj taken
      exact .fetch here distinct
  case h_4 here =>
    obtain rfl := Option.some.inj taken
    exact .insert here
  case h_5 here =>
    obtain rfl := Option.some.inj taken
    exact .inserted here
  case h_6 here =>
    obtain rfl := Option.some.inj taken
    exact .find here
  case h_7 here =>
    obtain ⟨obj, found, taken⟩ := Option.bind_eq_some_iff.mp taken
    obtain ⟨positions, walked, rfl⟩ := Option.map_eq_some_iff.mp taken
    exact .cut here found walked
  case h_8 here =>
    split at taken
    next => cases taken
    next free =>
      obtain rfl := Option.some.inj taken
      exact .lock here (by simpa using free)
  case h_9 here =>
    obtain rfl := Option.some.inj taken
    exact .add here
  case h_10 here =>
    obtain rfl := Option.some.inj taken
    exact .unlock here
  case h_11 here =>
    split at taken
    next more =>
      obtain rfl := Option.some.inj taken
      exact .count here more
    next all =>
      obtain rfl := Option.some.inj taken
      exact .counted here all
  case h_12 here =>
    obtain rfl := Option.some.inj taken
    exact .post here
  case h_13 here =>
    split at taken
    next small =>
      obtain rfl := Option.some.inj taken
      exact .close here small
    next => cases taken
  case h_14 => cases taken

inductive GetNextMove (s : State O P) : State O P → Prop where
  | erase (here : s.consumer = .idle) (deletes : s.toDelete ≠ -1) : GetNextMove s { s with consumer := .erasing }
  | call (here : s.consumer = .idle) (none : s.toDelete = -1) : GetNextMove s { s with consumer := .waiting }
  | erased (here : s.consumer = .erasing) :
      GetNextMove s { s with listStrings := Function.update s.listStrings s.toDelete none, consumer := .waiting }
  | wait (here : s.consumer = .waiting) (posted : 0 < s.semaphore) :
      GetNextMove s { s with semaphore := s.semaphore - 1, consumer := .locking }
  | lock (here : s.consumer = .locking) (free : s.ringLock = false) :
      GetNextMove s { s with ringLock := true, consumer := .discarding }
  | discard {rest : List (List (Minibatch P))} (here : s.consumer = .discarding)
      (front : s.minibatchesList.contents = [] :: rest) :
      GetNextMove s { s with minibatchesList := s.minibatchesList.advance }
  | take {ret : Minibatch P} {queue : List (Minibatch P)} {rest : List (List (Minibatch P))}
      (here : s.consumer = .discarding) (front : s.minibatchesList.contents = (ret :: queue) :: rest) :
      GetNextMove s { s with minibatchesList := s.minibatchesList.setFirst queue, consumer := .counting ret }
  | throw (here : s.consumer = .discarding) (front : s.minibatchesList.contents = []) :
      GetNextMove s { s with frontOfEmpty := true, consumer := .failed }
  | count {ret : Minibatch P} (here : s.consumer = .counting ret) :
      GetNextMove s { s with numMinibatchesReady := s.numMinibatchesReady - 1, consumer := .unlocking ret }
  | unlock {ret : Minibatch P} (here : s.consumer = .unlocking ret) :
      GetNextMove s { s with ringLock := false, consumer := .marking ret }
  | mark {ret : Minibatch P} (here : s.consumer = .marking ret) :
      GetNextMove s { s with toDelete := ret.isLast, consumer := .checkingReady ret }
  | few {ret : Minibatch P} (here : s.consumer = .checkingReady ret) (few : s.numMinibatchesReady < 200) :
      GetNextMove s { s with consumer := .checkingSem ret }
  | enough {ret : Minibatch P} (here : s.consumer = .checkingReady ret) (enough : ¬ s.numMinibatchesReady < 200) :
      GetNextMove s { s with consumer := .building ret }
  | noCredit {ret : Minibatch P} (here : s.consumer = .checkingSem ret) (none : s.prefSem < readAhead) :
      GetNextMove s { s with consumer := .signalling ret }
  | credit {ret : Minibatch P} (here : s.consumer = .checkingSem ret) (some : ¬ s.prefSem < readAhead) :
      GetNextMove s { s with consumer := .building ret }
  | signal {ret : Minibatch P} (here : s.consumer = .signalling ret) :
      GetNextMove s { s with prefSem := semPost s.prefSem, consumer := .building ret }
  | build {ret : Minibatch P} (here : s.consumer = .building ret) :
      GetNextMove s { s with returned := s.returned ++ [(s.listStrings ret.version, ret)], consumer := .idle }

theorem takeFront_moves {s : State O P} (here : s.consumer = .discarding) : GetNextMove s (takeFront s) := by
  unfold takeFront
  cases front : s.minibatchesList.contents with
  | nil =>
    have empty : s.minibatchesList.size = 0 := by
      rw [← CircularBuffer.contents_length, front]
      rfl
    simp only [CircularBuffer.first, empty, if_true]
    exact .throw here front
  | cons queue rest =>
    rw [CircularBuffer.first_of_contents _ front]
    cases queue with
    | nil =>
      simp only [(CircularBuffer.pop_of_contents _ front).1]
      exact .discard here front
    | cons ret queue => exact .take here front

theorem getNext_moves {s t : State O P} (taken : getNext s = some t) : GetNextMove s t := by
  unfold getNext at taken
  split at taken
  case h_1 here =>
    obtain rfl := Option.some.inj taken
    split
    next deletes => exact .erase here deletes
    next keeps => exact .call here (not_not.mp keeps)
  case h_2 here =>
    obtain rfl := Option.some.inj taken
    exact .erased here
  case h_3 here =>
    split at taken
    next posted =>
      obtain rfl := Option.some.inj taken
      exact .wait here posted
    next => cases taken
  case h_4 here =>
    split at taken
    next => cases taken
    next free =>
      obtain rfl := Option.some.inj taken
      exact .lock here (by simpa using free)
  case h_5 here =>
    obtain rfl := Option.some.inj taken
    exact takeFront_moves here
  case h_6 here =>
    obtain rfl := Option.some.inj taken
    exact .count here
  case h_7 here =>
    obtain rfl := Option.some.inj taken
    exact .unlock here
  case h_8 here =>
    obtain rfl := Option.some.inj taken
    exact .mark here
  case h_9 here =>
    obtain rfl := Option.some.inj taken
    split
    next few => exact .few here few
    next enough => exact .enough here enough
  case h_10 here =>
    obtain rfl := Option.some.inj taken
    split
    next none => exact .noCredit here none
    next credit => exact .credit here credit
  case h_11 here =>
    obtain rfl := Option.some.inj taken
    exact .signal here
  case h_12 here =>
    obtain rfl := Option.some.inj taken
    exact .build here
  case h_13 => cases taken

theorem act_moves {it : Iterator O P} {s t : State O P} {l : Label O} (acted : it.act s l = some t) :
    ThreadMove it s t ∨ GetNextMove s t := by
  cases l with
  | prefetch choice => exact .inl (threadFunction_moves acted)
  | consumer => exact .inr (getNext_moves acted)

theorem act_of_step {it : Iterator O P} {s t : State O P} {l : Label O} (taken : it.step s l = some t) :
    it.act s l = some t ∨ races s l = true ∧ t = { s with racing := true } := by
  unfold Iterator.step at taken
  split at taken
  next => cases taken
  split at taken
  next overlaps =>
    obtain rfl := Option.some.inj taken
    exact .inr ⟨overlaps, rfl⟩
  next => exact .inl taken

theorem step_of_act (it : Iterator O P) {s : State O P} {l : Label O} (clear : s.racing = false)
    (apart : Apart s l) : it.step s l = it.act s l := by
  unfold Iterator.step
  rw [clear, if_neg Bool.false_ne_true, apart, if_neg Bool.false_ne_true]

end S3SparseIterator

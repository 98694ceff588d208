import Cirrus.LibsvmLines
import Cirrus.PrefetchCounts

/-!
`S3IteratorLibsvm`: a thread that fetches ranges of a text file and parses each
of them into minibatches, and a consumer that takes the minibatches. The thread
spends one credit of `pref_sem` on a range, and only `getNext` gives credits.
-/
namespace S3IteratorLibsvm
open Transition SparseLR
open S3SparseIterator (semPost readAhead)
variable {F : Type}

def fetchSize : UInt64 := 10 * 1024 * 1024

/-- What the constructor is given, with the object that is under `s3_key`. -/
structure Iterator (F : Type) extends Parser F where
  file : List Char
  fileSize : UInt64
  randomAccess : Bool

abbrev Range := UInt64 × UInt64

inductive Prefetch (F : Type)
  | waiting
  | fetching (range : Range)
  | pushing (text : List Char)
  | locking (dataset : List (SparseDataset F))
  | adding (dataset : List (SparseDataset F))
  | unlocking (left : Nat)
  | counting (left : Nat)
  | posting (left : Nat)

/-- Where the consumer is; `idle` is outside of `getNext`. -/
inductive Consumer (F : Type)
  | idle
  | waiting
  | locking
  | discarding
  | counting (ret : SparseDataset F)
  | unlocking (ret : SparseDataset F)
  | checkingReady (ret : SparseDataset F)
  | checkingSem (ret : SparseDataset F)
  | signalling (ret : SparseDataset F)
  | failed

/-- `texts`, `pushed` and `returned` are histories: what was fetched, the
minibatches added to the ring, and those returned. An exception in the thread
terminates the process. -/
structure State (F : Type) where
  prefetch : Prefetch F := .waiting
  consumer : Consumer F := .idle
  prefSem : Nat := readAhead
  semaphore : Nat := 0
  ringLock : Bool := false
  minibatchesList : CircularBuffer (List (SparseDataset F))
  numMinibatchesReady : Int32 := 0
  curIndex : UInt64 := 0
  terminated : Bool := false
  texts : List (List Char) := []
  pushed : List (SparseDataset F) := []
  returned : List (SparseDataset F) := []

namespace Iterator
variable (it : Iterator F)

/-- The next range, and what `cur_index` is afterwards. The bounds of the sampler are `int`s. -/
def getFileRange (curIndex : UInt64) (sampled : Int32) : Option (Range × UInt64) :=
  if it.fileSize < fetchSize then some ((0, it.fileSize), curIndex)
  else if it.randomAccess then
    if 0 ≤ sampled ∧ sampled ≤ (it.fileSize - 1).toUInt32.toInt32 then
      let leftIndex := UInt64.ofNat sampled.toInt.toNat
      let leftIndex := if it.fileSize - leftIndex < fetchSize then it.fileSize - fetchSize else leftIndex
      some ((leftIndex, leftIndex + fetchSize), curIndex)
    else none
  else
    let curIndex := if it.fileSize ≤ curIndex then 0 else curIndex
    some ((curIndex, min (curIndex + fetchSize) it.fileSize), min (curIndex + fetchSize) it.fileSize)

/-- What a request with the header `bytes=first-last` returns: the last byte is
part of it, and a range that does not begin inside of the object is refused. -/
def s3GetObjectRange (range : Range) : Option (List Char) :=
  if range.1 ≤ range.2 ∧ range.1.toNat < it.file.length then
    some ((it.file.drop range.1.toNat).take (range.2.toNat + 1 - range.1.toNat))
  else none

inductive Choice
  | go
  | sample (value : Int32)
  | fails

def threadFunction (s : State F) (choice : Choice) : Option (State F) :=
  match s.prefetch, choice with
  | .waiting, .sample sampled =>
    if 0 < s.prefSem then
      (it.getFileRange s.curIndex sampled).map fun (range, curIndex) =>
        { s with prefSem := s.prefSem - 1, curIndex, prefetch := .fetching range }
    else none
  | .fetching _, .fails => some s
  | .fetching range, .go =>
    (it.s3GetObjectRange range).map fun text => { s with texts := s.texts ++ [text], prefetch := .pushing text }
  | .pushing text, .go =>
    match it.parseObjLibsvm text with
    | .ok dataset => some { s with prefetch := .locking dataset }
    | .error _ => some { s with terminated := true }
  | .locking dataset, .go =>
    if s.ringLock then none else some { s with ringLock := true, prefetch := .adding dataset }
  | .adding dataset, .go =>
    some { s with
      minibatchesList := s.minibatchesList.add dataset
      pushed := s.pushed ++ dataset
      prefetch := .unlocking dataset.length }
  | .unlocking left, .go => some { s with ringLock := false, prefetch := .counting left }
  | .counting 0, .go => some { s with prefetch := .waiting }
  | .counting (left + 1), .go =>
    some { s with numMinibatchesReady := s.numMinibatchesReady + 1, prefetch := .posting (left + 1) }
  | .posting left, .go => some { s with semaphore := semPost s.semaphore, prefetch := .counting (left - 1) }
  | _, _ => none

end Iterator

/-- The loop over the front of the ring, and the removal of its last minibatch. -/
def takeBack (s : State F) : State F :=
  match s.minibatchesList.first with
  | .ok queue =>
    match queue.getLast? with
    | some ret => { s with minibatchesList := s.minibatchesList.setFirst queue.dropLast, consumer := .counting ret }
    | none =>
      match s.minibatchesList.pop with
      | .ok (_, popped) => { s with minibatchesList := popped }
      | .error _ => { s with consumer := .failed }
  | .error _ => { s with consumer := .failed }

/-- The next step of a call of `getNext`. -/
def getNext (s : State F) : Option (State F) :=
  match s.consumer with
  | .idle => some { s with consumer := .waiting }
  | .waiting => if 0 < s.semaphore then some { s with semaphore := s.semaphore - 1, consumer := .locking } else none
  | .locking => if s.ringLock then none else some { s with ringLock := true, consumer := .discarding }
  | .discarding => some (takeBack s)
  | .counting ret => some { s with numMinibatchesReady := s.numMinibatchesReady - 1, consumer := .unlocking ret }
  | .unlocking ret => some { s with ringLock := false, consumer := .checkingReady ret }
  | .checkingReady ret =>
    some (if s.numMinibatchesReady < 200 then { s with consumer := .checkingSem ret }
      else { s with returned := s.returned ++ [ret], consumer := .idle })
  | .checkingSem ret =>
    some (if s.prefSem < readAhead then { s with consumer := .signalling ret }
      else { s with returned := s.returned ++ [ret], consumer := .idle })
  | .signalling ret =>
    some { s with prefSem := semPost s.prefSem, returned := s.returned ++ [ret], consumer := .idle }
  | .failed => none

inductive Label
  | prefetch (choice : Iterator.Choice)
  | consumer

def Iterator.step (it : Iterator F) (s : State F) (l : Label) : Option (State F) :=
  if s.terminated then none
  else
    match l with
    | .prefetch choice => it.threadFunction s choice
    | .consumer => getNext s

/-- The iterator as the constructor leaves it. The slots of the ring hold anything. -/
def AtStart (s : State F) : Prop := ∃ garbage, s = { minibatchesList := .ofCapacity 100000 CircularBuffer.hundredThousand_pos garbage }

/-- Both threads wait for each other, and the ring holds no minibatch. -/
structure Deadlocked (s : State F) : Prop where
  running : s.terminated = false
  consumer : s.consumer = .waiting
  semaphore : s.semaphore = 0
  prefetch : s.prefetch = .waiting
  prefSem : s.prefSem = 0
  ring : s.minibatchesList.contents.flatten = []

theorem Deadlocked.stuck {it : Iterator F} {s : State F} (deadlocked : Deadlocked s) (l : Label) : it.step s l = none := by
  unfold Iterator.step
  rw [deadlocked.running]
  cases l with
  | prefetch choice => simp [Iterator.threadFunction, deadlocked.prefetch, deadlocked.prefSem]; cases choice <;> rfl
  | consumer => simp [getNext, deadlocked.consumer, deadlocked.semaphore]

inductive ThreadMove (it : Iterator F) (s : State F) : State F → Prop where
  | wait {sampled : Int32} {range : Range} {curIndex : UInt64} (here : s.prefetch = .waiting) (credit : 0 < s.prefSem)
      (chosen : it.getFileRange s.curIndex sampled = some (range, curIndex)) :
      ThreadMove it s { s with prefSem := s.prefSem - 1, curIndex, prefetch := .fetching range }
  | retry {range : Range} (here : s.prefetch = .fetching range) : ThreadMove it s s
  | fetch {range : Range} {text : List Char} (here : s.prefetch = .fetching range)
      (got : it.s3GetObjectRange range = some text) :
      ThreadMove it s { s with texts := s.texts ++ [text], prefetch := .pushing text }
  | parse {text : List Char} {dataset : List (SparseDataset F)} (here : s.prefetch = .pushing text)
      (parsed : it.parseObjLibsvm text = .ok dataset) : ThreadMove it s { s with prefetch := .locking dataset }
  | throw {text : List Char} {fault : Fault} (here : s.prefetch = .pushing text)
      (failed : it.parseObjLibsvm text = .error fault) : ThreadMove it s { s with terminated := true }
  | lock {dataset : List (SparseDataset F)} (here : s.prefetch = .locking dataset) (free : s.ringLock = false) :
      ThreadMove it s { s with ringLock := true, prefetch := .adding dataset }
  | add {dataset : List (SparseDataset F)} (here : s.prefetch = .adding dataset) :
      ThreadMove it s { s with
        minibatchesList := s.minibatchesList.add dataset
        pushed := s.pushed ++ dataset
        prefetch := .unlocking dataset.length }
  | unlock {left : Nat} (here : s.prefetch = .unlocking left) :
      ThreadMove it s { s with ringLock := false, prefetch := .counting left }
  | counted (here : s.prefetch = .counting 0) : ThreadMove it s { s with prefetch := .waiting }
  | count {left : Nat} (here : s.prefetch = .counting (left + 1)) :
      ThreadMove it s { s with numMinibatchesReady := s.numMinibatchesReady + 1, prefetch := .posting (left + 1) }
  | post {left : Nat} (here : s.prefetch = .posting left) :
      ThreadMove it s { s with semaphore := semPost s.semaphore, prefetch := .counting (left - 1) }

theorem threadFunction_moves {it : Iterator F} {s t : State F} {choice : Iterator.Choice}
    (taken : it.threadFunction s choice = some t) : ThreadMove it s t := by
  unfold Iterator.threadFunction at taken
  split at taken
  case h_1 here =>
    split at taken
    next credit =>
      obtain ⟨⟨range, curIndex⟩, chosen, rfl⟩ := Option.map_eq_some_iff.mp taken
      exact .wait here credit chosen
    next => cases taken
  case h_2 here =>
    obtain rfl := Option.some.inj taken
    exact .retry here
  case h_3 here =>
    obtain ⟨text, got, rfl⟩ := Option.map_eq_some_iff.mp taken
    exact .fetch here got
  case h_4 here =>
    split at taken
    next parsed =>
      obtain rfl := Option.some.inj taken
      exact .parse here parsed
    next failed =>
      obtain rfl := Option.some.inj taken
      exact .throw here failed
  case h_5 here =>
    split at taken
    next => cases taken
    next free =>
      obtain rfl := Option.some.inj taken
      exact .lock here (by simpa using free)
  case h_6 here =>
    obtain rfl := Option.some.inj taken
    exact .add here
  case h_7 here =>
    obtain rfl := Option.some.inj taken
    exact .unlock here
  case h_8 here =>
    obtain rfl := Option.some.inj taken
    exact .counted here
  case h_9 here =>
    obtain rfl := Option.some.inj taken
    exact .count here
  case h_10 here =>
    obtain rfl := Option.some.inj taken
    exact .post here
  case h_11 => cases taken

inductive GetNextMove (s : State F) : State F → Prop where
  | call (here : s.consumer = .idle) : GetNextMove s { s with consumer := .waiting }
  | wait (here : s.consumer = .waiting) (posted : 0 < s.semaphore) :
      GetNextMove s { s with semaphore := s.semaphore - 1, consumer := .locking }
  | lock (here : s.consumer = .locking) (free : s.ringLock = false) :
      GetNextMove s { s with ringLock := true, consumer := .discarding }
  | discard {popped : CircularBuffer (List (SparseDataset F))} (here : s.consumer = .discarding) :
      GetNextMove s { s with minibatchesList := popped }
  | take {queue : List (SparseDataset F)} {ret : SparseDataset F} (here : s.consumer = .discarding) :
      GetNextMove s { s with minibatchesList := s.minibatchesList.setFirst queue, consumer := .counting ret }
  | throw (here : s.consumer = .discarding) : GetNextMove s { s with consumer := .failed }
  | count {ret : SparseDataset F} (here : s.consumer = .counting ret) :
      GetNextMove s { s with numMinibatchesReady := s.numMinibatchesReady - 1, consumer := .unlocking ret }
  | unlock {ret : SparseDataset F} (here : s.consumer = .unlocking ret) :
      GetNextMove s { s with ringLock := false, consumer := .checkingReady ret }
  | few {ret : SparseDataset F} (here : s.consumer = .checkingReady ret) (few : s.numMinibatchesReady < 200) :
      GetNextMove s { s with consumer := .checkingSem ret }
  | enough {ret : SparseDataset F} (here : s.consumer = .checkingReady ret) (enough : ¬ s.numMinibatchesReady < 200) :
      GetNextMove s { s with returned := s.returned ++ [ret], consumer := .idle }
  | noCredit {ret : SparseDataset F} (here : s.consumer = .checkingSem ret) (none : s.prefSem < readAhead) :
      GetNextMove s { s with consumer := .signalling ret }
  | credit {ret : SparseDataset F} (here : s.consumer = .checkingSem ret) (some : ¬ s.prefSem < readAhead) :
      GetNextMove s { s with returned := s.returned ++ [ret], consumer := .idle }
  | signal {ret : SparseDataset F} (here : s.consumer = .signalling ret) :
      GetNextMove s { s with prefSem := semPost s.prefSem, returned := s.returned ++ [ret], consumer := .idle }

theorem takeBack_moves {s : State F} (here : s.consumer = .discarding) : GetNextMove s (takeBack s) := by
  unfold takeBack
  split
  next queue _ =>
    split
    next ret _ => exact .take here
    next =>
      split
      next => exact .discard here
      next => exact .throw here
  next => exact .throw here

theorem getNext_moves {s t : State F} (taken : getNext s = some t) : GetNextMove s t := by
  unfold getNext at taken
  split at taken
  case h_1 here =>
    obtain rfl := Option.some.inj taken
    exact .call here
  case h_2 here =>
    split at taken
    next posted =>
      obtain rfl := Option.some.inj taken
      exact .wait here posted
    next => cases taken
  case h_3 here =>
    split at taken
    next => cases taken
    next free =>
      obtain rfl := Option.some.inj taken
      exact .lock here (by simpa using free)
  case h_4 here =>
    obtain rfl := Option.some.inj taken
    exact takeBack_moves here
  case h_5 here =>
    obtain rfl := Option.some.inj taken
    exact .count here
  case h_6 here =>
    obtain rfl := Option.some.inj taken
    exact .unlock here
  case h_7 here =>
    obtain rfl := Option.some.inj taken
    split
    next few => exact .few here few
    next enough => exact .enough here enough
  case h_8 here =>
    obtain rfl := Option.some.inj taken
    split
    next none => exact .noCredit here none
    next credit => exact .credit here credit
  case h_9 here =>
    obtain rfl := Option.some.inj taken
    exact .signal here
  case h_10 => cases taken

theorem step_moves {it : Iterator F} {s t : State F} {l : Label} (taken : it.step s l = some t) :
    s.terminated = false ∧ (ThreadMove it s t ∨ GetNextMove s t) := by
  unfold Iterator.step at taken
  split at taken
  next => cases taken
  next running =>
    refine ⟨by simpa using running, ?_⟩
    cases l with
    | prefetch choice => exact .inl (threadFunction_moves taken)
    | consumer => exact .inr (getNext_moves taken)

end S3IteratorLibsvm

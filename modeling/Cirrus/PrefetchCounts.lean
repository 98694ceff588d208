import Cirrus.S3SparseIterator

/-!
The counting of the prefetch ring: what the two semaphores and the counter of
ready minibatches stand for, and how many minibatches are ever under way.
-/
namespace S3SparseIterator
variable {O P : Type}

namespace Prefetch

def unposted (n : Nat) : Prefetch O P → Nat
  | .unlocking => n
  | .counting i => n - i
  | .posting i => n - i
  | _ => 0

def uncounted (n : Nat) : Prefetch O P → Nat
  | .unlocking => n
  | .counting i => n - i
  | .posting i => n - (i + 1)
  | _ => 0

def due (n : Nat) : Prefetch O P → Nat
  | .fetching _ | .pushing _ _ | .inserting _ _ | .inserted _ | .finding _ | .locking _ | .adding _ => n
  | _ => 0

def InRange (n : Nat) : Prefetch O P → Prop
  | .locking queue | .adding queue => queue.length = n
  | .counting i => i ≤ n
  | .posting i => i < n
  | _ => True

theorem uncounted_le (n : Nat) (p : Prefetch O P) : p.uncounted n ≤ p.unposted n := by
  unfold uncounted unposted
  split <;> omega

/-- An object is on its way to the ring, or in the ring and being counted, but never both. -/
theorem uncounted_add_due_le (n : Nat) (p : Prefetch O P) : p.uncounted n + p.due n ≤ n := by
  cases p <;> simp [uncounted, due]

end Prefetch

namespace Consumer

/-- A wait on the semaphore is over and its minibatch not taken. -/
def claimed : Consumer P → Nat
  | .locking | .discarding => 1
  | _ => 0

def held : Consumer P → List (Minibatch P)
  | .counting ret | .unlocking ret | .marking ret | .checkingReady ret | .checkingSem ret | .signalling ret
  | .building ret => [ret]
  | _ => []

def uncounted : Consumer P → Nat
  | .counting _ => 1
  | _ => 0

/-- How many minibatches may be under way. A consumer that has seen few of them ready may add an object. -/
def limit (n : Nat) : Consumer P → Nat
  | .checkingSem _ | .signalling _ => 199 + 2 * n
  | _ => 199 + 3 * n

def Settled : Consumer P → Prop
  | .idle | .erasing | .waiting | .locking | .discarding | .building _ => True
  | _ => False

end Consumer

def State.takenCount (s : State O P) : Nat := s.returned.length + s.consumer.held.length

structure Counts (it : Iterator O P) (s : State O P) : Prop where
  index : s.prefetch.InRange it.nMinibatches
  posts : s.semaphore + s.prefetch.unposted it.nMinibatches + s.consumer.claimed + s.takenCount = s.pushed.length
  ready : s.numMinibatchesReady.toInt + s.prefetch.uncounted it.nMinibatches + s.takenCount =
    s.pushed.length + s.consumer.uncounted
  one : s.prefSem ≤ 1
  bounded : it.nMinibatches * s.prefSem + s.prefetch.due it.nMinibatches + s.pushed.length +
    s.consumer.uncounted ≤ s.takenCount + s.consumer.limit it.nMinibatches
  signals : ∀ ret, s.consumer = .signalling ret → s.prefSem = 0
  alive : s.consumer.Settled →
    s.takenCount < s.pushed.length + it.nMinibatches * s.prefSem + s.prefetch.due it.nMinibatches

section Words

theorem toInt_succ {x : Int32} (small : x.toInt + 1 < 2 ^ 31) : (x + 1).toInt = x.toInt + 1 := by
  have lower := x.le_toInt
  rw [Int32.toInt_add, show (1 : Int32).toInt = 1 by decide, Int.bmod_def]
  omega

theorem toInt_pred {x : Int32} (large : 0 < x.toInt) : (x - 1).toInt = x.toInt - 1 := by
  have upper := x.toInt_lt
  rw [Int32.toInt_sub, show (1 : Int32).toInt = 1 by decide, Int.bmod_def]
  omega

theorem semPost_small {value : Nat} (small : value < 2147483647) : semPost value = value + 1 := if_pos small

end Words

variable {it : Iterator O P} {s t : State O P}

theorem counts_start (positive : 1 ≤ it.nMinibatches) (start : it.AtStart s) : Counts it s := by
  obtain ⟨garbage, rfl⟩ := start
  refine ⟨trivial, rfl, rfl, Nat.le_refl _, ?_, by simp, fun _ => ?_⟩ <;>
    simp only [Prefetch.due, Consumer.uncounted, Consumer.limit, Consumer.held, State.takenCount, readAhead,
      List.length_nil] <;> omega

theorem queue_length {version : Int} {obj : O} {positions : List P} (walked : it.starts obj = some positions) :
    (it.queue version positions).length = it.nMinibatches := by
  unfold Iterator.queue
  rw [List.length_map, List.length_zipIdx]
  exact it.starts_length obj positions walked

theorem counts_thread (small : 3 * it.nMinibatches + 199 < 2 ^ 31) (positive : 1 ≤ it.nMinibatches)
    (counts : Counts it s) (move : ThreadMove it s t) : Counts it t := by
  obtain ⟨index, posts, ready, one, bounded, signals, alive⟩ := counts
  have limit : s.consumer.limit it.nMinibatches ≤ 199 + 3 * it.nMinibatches := by
    unfold Consumer.limit
    split <;> omega
  cases move with
  | @wait sampled id current here credit chosen =>
    obtain credit : s.prefSem = 1 := by omega
    simp only [here, credit, Prefetch.unposted, Prefetch.uncounted, Prefetch.due, Nat.mul_one] at posts ready bounded alive
    refine ⟨trivial, posts, ready, ?_, ?_, ?_, ?_⟩
    · simp [credit]
    · simp only [credit, Prefetch.due, State.takenCount] at bounded ⊢
      omega
    · intro ret signalling
      have := signals ret signalling
      omega
    · intro settled
      have := alive settled
      simp only [credit, Prefetch.due, State.takenCount] at this ⊢
      omega
  | retry here => exact ⟨index, posts, ready, one, bounded, signals, alive⟩
  | fetch here distinct =>
    simp only [here, Prefetch.unposted, Prefetch.uncounted, Prefetch.due] at posts ready bounded alive
    exact ⟨trivial, posts, ready, one, bounded, signals, alive⟩
  | insert here | inserted here | find here =>
    simp only [here, Prefetch.unposted, Prefetch.uncounted, Prefetch.due] at posts ready bounded alive
    exact ⟨trivial, posts, ready, one, bounded, signals, alive⟩
  | cut here found walked =>
    simp only [here, Prefetch.unposted, Prefetch.uncounted, Prefetch.due] at posts ready bounded alive
    exact ⟨queue_length walked, posts, ready, one, bounded, signals, alive⟩
  | lock here free =>
    simp only [here, Prefetch.InRange, Prefetch.unposted, Prefetch.uncounted, Prefetch.due] at index posts ready bounded alive
    exact ⟨index, posts, ready, one, bounded, signals, alive⟩
  | add here =>
    simp only [here, Prefetch.InRange, Prefetch.unposted, Prefetch.uncounted, Prefetch.due, State.takenCount]
      at index posts ready bounded alive
    refine ⟨trivial, ?_, ?_, one, ?_, signals, ?_⟩ <;>
      simp only [Prefetch.unposted, Prefetch.uncounted, Prefetch.due, State.takenCount, List.length_append, index]
    · omega
    · omega
    · omega
    · intro settled
      have := alive settled
      omega
  | unlock here =>
    simp only [here, Prefetch.unposted, Prefetch.uncounted, Prefetch.due] at posts ready bounded alive
    exact ⟨Nat.zero_le _, posts, ready, one, bounded, signals, alive⟩
  | @count i here more =>
    simp only [here, Prefetch.unposted, Prefetch.uncounted, Prefetch.due, State.takenCount] at posts ready bounded alive
    refine ⟨more, posts, ?_, one, bounded, signals, alive⟩
    simp only [Prefetch.uncounted, State.takenCount]
    rw [toInt_succ (by omega)]
    omega
  | @counted i here all =>
    simp only [here, Prefetch.InRange, Prefetch.unposted, Prefetch.uncounted, Prefetch.due, State.takenCount]
      at index posts ready bounded alive
    refine ⟨trivial, ?_, ?_, one, bounded, signals, alive⟩ <;>
      simp only [Prefetch.unposted, Prefetch.uncounted, State.takenCount] <;> omega
  | @post i here =>
    simp only [here, Prefetch.InRange, Prefetch.unposted, Prefetch.uncounted, Prefetch.due, State.takenCount]
      at index posts ready bounded alive
    refine ⟨index, ?_, ?_, one, bounded, signals, alive⟩ <;>
      simp only [Prefetch.unposted, Prefetch.uncounted, State.takenCount]
    · rw [semPost_small (by omega)]
      omega
    · omega
  | close here _ =>
    simp only [here, Prefetch.unposted, Prefetch.uncounted, Prefetch.due] at posts ready bounded alive
    exact ⟨trivial, posts, ready, one, bounded, signals, alive⟩

theorem counts_getNext (positive : 1 ≤ it.nMinibatches) (counts : Counts it s)
    (stocked : s.consumer = .discarding → s.minibatchesList.contents ≠ []) (move : GetNextMove s t) : Counts it t := by
  obtain ⟨index, posts, ready, one, bounded, signals, alive⟩ := counts
  have fewer := s.prefetch.uncounted_le it.nMinibatches
  have once := s.prefetch.uncounted_add_due_le it.nMinibatches
  cases move with
  | erase here _ | call here _ | erased here =>
    simp only [here, Consumer.claimed, Consumer.uncounted, Consumer.limit, Consumer.held, State.takenCount]
      at posts ready bounded alive
    exact ⟨index, posts, ready, one, bounded, by simp, fun _ => alive trivial⟩
  | wait here posted =>
    simp only [here, Consumer.claimed, Consumer.uncounted, Consumer.limit, Consumer.held, State.takenCount]
      at posts ready bounded alive
    refine ⟨index, ?_, ready, one, bounded, by simp, fun _ => alive trivial⟩
    simp only [Consumer.claimed, Consumer.held, State.takenCount]
    omega
  | lock here free =>
    simp only [here, Consumer.claimed, Consumer.uncounted, Consumer.limit, Consumer.held, State.takenCount]
      at posts ready bounded alive
    exact ⟨index, posts, ready, one, bounded, by simp, fun _ => alive trivial⟩
  | discard here front => exact ⟨index, posts, ready, one, bounded, signals, alive⟩
  | take here front =>
    simp only [here, Consumer.claimed, Consumer.uncounted, Consumer.limit, Consumer.held, State.takenCount,
      List.length_nil] at posts ready bounded
    refine ⟨index, ?_, ?_, one, ?_, by simp, by simp [Consumer.Settled]⟩ <;>
      simp only [Consumer.claimed, Consumer.uncounted, Consumer.limit, Consumer.held, State.takenCount,
        List.length_singleton] <;> omega
  | throw here front => exact absurd front (stocked here)
  | count here =>
    simp only [here, Consumer.claimed, Consumer.uncounted, Consumer.limit, Consumer.held, State.takenCount,
      List.length_singleton] at posts ready bounded
    refine ⟨index, posts, ?_, one, ?_, by simp, by simp [Consumer.Settled]⟩ <;>
      simp only [Consumer.uncounted, Consumer.limit, Consumer.held, State.takenCount, List.length_singleton]
    · rw [toInt_pred (by omega)]
      omega
    · omega
  | unlock here =>
    simp only [here, Consumer.claimed, Consumer.uncounted, Consumer.limit, Consumer.held, State.takenCount]
      at posts ready bounded
    exact ⟨index, posts, ready, one, bounded, by simp, by simp [Consumer.Settled]⟩
  | mark here =>
    simp only [here, Consumer.claimed, Consumer.uncounted, Consumer.limit, Consumer.held, State.takenCount]
      at posts ready bounded
    exact ⟨index, posts, ready, one, bounded, by simp, by simp [Consumer.Settled]⟩
  | few here few =>
    simp only [here, Consumer.claimed, Consumer.uncounted, Consumer.limit, Consumer.held, State.takenCount,
      List.length_singleton] at posts ready bounded
    have few : s.numMinibatchesReady.toInt < 200 := Int32.lt_iff_toInt_lt.mp few
    have credit : it.nMinibatches * s.prefSem ≤ it.nMinibatches := by
      simpa using Nat.mul_le_mul_left it.nMinibatches one
    refine ⟨index, posts, ready, one, ?_, by simp, by simp [Consumer.Settled]⟩
    simp only [Consumer.uncounted, Consumer.limit, Consumer.held, State.takenCount, List.length_singleton]
    omega
  | enough here enough =>
    simp only [here, Consumer.claimed, Consumer.uncounted, Consumer.limit, Consumer.held, State.takenCount,
      List.length_singleton] at posts ready bounded
    have enough : ¬ s.numMinibatchesReady.toInt < 200 := fun few => enough (Int32.lt_iff_toInt_lt.mpr few)
    refine ⟨index, posts, ready, one, bounded, by simp, fun _ => ?_⟩
    simp only [Consumer.held, State.takenCount, List.length_singleton]
    omega
  | noCredit here none =>
    simp only [here, Consumer.claimed, Consumer.uncounted, Consumer.limit, Consumer.held, State.takenCount]
      at posts ready bounded
    have none : s.prefSem = 0 := Nat.lt_one_iff.mp none
    exact ⟨index, posts, ready, one, bounded, fun _ _ => none, by simp [Consumer.Settled]⟩
  | credit here some =>
    simp only [here, Consumer.claimed, Consumer.uncounted, Consumer.limit, Consumer.held, State.takenCount,
      List.length_singleton] at posts ready bounded
    simp only [readAhead] at some
    obtain credit : s.prefSem = 1 := by omega
    refine ⟨index, posts, ready, one, ?_, by simp, fun _ => ?_⟩ <;>
      simp only [Consumer.uncounted, Consumer.limit, Consumer.held, State.takenCount, List.length_singleton, credit]
      at bounded ⊢ <;> omega
  | signal here =>
    have none := signals _ here
    have posted : semPost s.prefSem = 1 := by rw [none, semPost_small (by decide)]
    simp only [here, Consumer.claimed, Consumer.uncounted, Consumer.limit, Consumer.held, State.takenCount,
      List.length_singleton, none] at posts ready bounded
    refine ⟨index, posts, ready, ?_, ?_, by simp, fun _ => ?_⟩ <;>
      simp only [Consumer.uncounted, Consumer.limit, Consumer.held, State.takenCount, List.length_singleton, posted]
    · omega
    · omega
    · omega
  | build here =>
    simp only [here, Consumer.claimed, Consumer.uncounted, Consumer.limit, Consumer.held, State.takenCount,
      List.length_singleton] at posts ready bounded alive
    refine ⟨index, ?_, ?_, one, ?_, by simp, fun _ => ?_⟩ <;>
      simp only [Consumer.claimed, Consumer.uncounted, Consumer.limit, Consumer.held, State.takenCount,
        List.length_append, List.length_singleton, List.length_nil]
    · omega
    · omega
    · omega
    · have := alive trivial
      omega

end S3SparseIterator

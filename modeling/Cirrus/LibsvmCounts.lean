import Cirrus.S3IteratorLibsvm

/-!
The counting of the minibatches of `S3IteratorLibsvm`, when every range that is
fetched contributes one: the threads do not wait for each other.
-/
namespace S3IteratorLibsvm
open Transition SparseLR
open S3SparseIterator (semPost readAhead toInt_succ toInt_pred semPost_small)
variable {F : Type}

def most : Nat := 10485761

namespace Prefetch

def unposted : Prefetch F → Nat
  | .unlocking left | .counting left | .posting left => left
  | _ => 0

def uncounted : Prefetch F → Nat
  | .unlocking left | .counting left => left
  | .posting left => left - 1
  | _ => 0

def due : Prefetch F → Nat
  | .fetching _ | .pushing _ | .locking _ | .adding _ => 1
  | _ => 0

def InRange : Prefetch F → Prop
  | .locking dataset | .adding dataset => 1 ≤ dataset.length ∧ dataset.length ≤ most
  | .unlocking left | .counting left => left ≤ most
  | .posting left => 1 ≤ left ∧ left ≤ most
  | _ => True

theorem uncounted_le (p : Prefetch F) : p.uncounted ≤ p.unposted := by
  unfold uncounted unposted
  split <;> omega

/-- A range is on its way, or in the ring and being counted, but never both. -/
theorem uncounted_add_due_le {p : Prefetch F} (inside : p.InRange) : p.uncounted + most * p.due ≤ most := by
  cases p with
  | posting left =>
    simp only [uncounted, due, InRange] at *
    omega
  | _ => simp_all [uncounted, due, InRange]

end Prefetch

namespace Consumer

/-- A wait on the semaphore is over and its minibatch not taken. -/
def claimed : Consumer F → Nat
  | .locking | .discarding | .failed => 1
  | _ => 0

def held : Consumer F → List (SparseDataset F)
  | .counting ret | .unlocking ret | .checkingReady ret | .checkingSem ret | .signalling ret => [ret]
  | _ => []

def uncounted : Consumer F → Nat
  | .counting _ => 1
  | _ => 0

/-- How many minibatches may be under way. A consumer that has seen few of them ready may add a range. -/
def limit : Consumer F → Nat
  | .checkingSem _ | .signalling _ => 199 + 2 * most
  | _ => 199 + 3 * most

def Settled : Consumer F → Prop
  | .idle | .waiting | .locking | .discarding | .failed => True
  | _ => False

end Consumer

def State.takenCount (s : State F) : Nat := s.returned.length + s.consumer.held.length

structure Counts (s : State F) : Prop where
  index : s.prefetch.InRange
  posts : s.semaphore + s.prefetch.unposted + s.consumer.claimed + s.takenCount = s.pushed.length
  ready : s.numMinibatchesReady.toInt + s.prefetch.uncounted + s.takenCount = s.pushed.length + s.consumer.uncounted
  one : s.prefSem ≤ 1
  bounded : most * s.prefSem + most * s.prefetch.due + s.pushed.length + s.consumer.uncounted ≤
    s.takenCount + s.consumer.limit
  signals : ∀ ret, s.consumer = .signalling ret → s.prefSem = 0
  alive : s.consumer.Settled → s.takenCount < s.pushed.length + s.prefSem + s.prefetch.due

variable {it : Iterator F} {s t : State F}

theorem counts_start (start : AtStart s) : Counts s := by
  obtain ⟨garbage, rfl⟩ := start
  refine ⟨trivial, rfl, rfl, Nat.le_refl _, ?_, by simp, fun _ => ?_⟩ <;>
    simp only [Prefetch.due, Consumer.uncounted, Consumer.limit, Consumer.held, State.takenCount, readAhead, most,
      List.length_nil] <;> omega

def Contributes (it : Iterator F) (s : State F) : Prop :=
  ∀ text dataset, s.prefetch = .pushing text → it.parseObjLibsvm text = .ok dataset →
    1 ≤ dataset.length ∧ dataset.length ≤ most

theorem counts_thread (counts : Counts s) (contributes : Contributes it s) (move : ThreadMove it s t) : Counts t := by
  obtain ⟨index, posts, ready, one, bounded, signals, alive⟩ := counts
  have limit : s.consumer.limit ≤ 199 + 3 * most := by
    unfold Consumer.limit
    split <;> omega
  cases move with
  | @wait sampled range curIndex here credit chosen =>
    obtain credit : s.prefSem = 1 := by omega
    simp only [here, credit, Prefetch.unposted, Prefetch.uncounted, Prefetch.due] at posts ready bounded alive
    refine ⟨trivial, posts, ready, ?_, ?_, ?_, ?_⟩
    · simp [credit]
    · simp only [credit, Prefetch.due, State.takenCount] at bounded ⊢
      omega
    · intro ret signalling
      have := signals ret signalling
      omega
    · intro settled
      have := alive settled
      simp only [credit, Prefetch.due, State.takenCount] at this ⊢
      omega
  | retry here => exact ⟨index, posts, ready, one, bounded, signals, alive⟩
  | fetch here got =>
    simp only [here, Prefetch.unposted, Prefetch.uncounted, Prefetch.due] at posts ready bounded alive
    exact ⟨trivial, posts, ready, one, bounded, signals, alive⟩
  | parse here parsed =>
    have sized := contributes _ _ here parsed
    simp only [here, Prefetch.unposted, Prefetch.uncounted, Prefetch.due] at posts ready bounded alive
    exact ⟨sized, posts, ready, one, bounded, signals, alive⟩
  | throw here failed => exact ⟨index, posts, ready, one, bounded, signals, alive⟩
  | lock here free =>
    simp only [here, Prefetch.InRange, Prefetch.unposted, Prefetch.uncounted, Prefetch.due] at index posts ready bounded alive
    exact ⟨index, posts, ready, one, bounded, signals, alive⟩
  | add here =>
    simp only [here, Prefetch.InRange, Prefetch.unposted, Prefetch.uncounted, Prefetch.due, State.takenCount]
      at index posts ready bounded alive
    refine ⟨index.2, ?_, ?_, one, ?_, signals, ?_⟩ <;>
      simp only [Prefetch.unposted, Prefetch.uncounted, Prefetch.due, State.takenCount, List.length_append]
    · omega
    · omega
    · omega
    · intro settled
      have := alive settled
      omega
  | unlock here =>
    simp only [here, Prefetch.InRange, Prefetch.unposted, Prefetch.uncounted, Prefetch.due] at index posts ready bounded alive
    exact ⟨index, posts, ready, one, bounded, signals, alive⟩
  | counted here =>
    simp only [here, Prefetch.unposted, Prefetch.uncounted, Prefetch.due] at posts ready bounded alive
    exact ⟨trivial, posts, ready, one, bounded, signals, alive⟩
  | @count left here =>
    simp only [here, Prefetch.InRange, Prefetch.unposted, Prefetch.uncounted, Prefetch.due, State.takenCount]
      at index posts ready bounded alive
    refine ⟨⟨Nat.succ_pos left, index⟩, posts, ?_, one, bounded, signals, alive⟩
    simp only [Prefetch.uncounted, State.takenCount]
    rw [toInt_succ (by unfold most at *; omega)]
    omega
  | @post left here =>
    simp only [here, Prefetch.InRange, Prefetch.unposted, Prefetch.uncounted, Prefetch.due, State.takenCount]
      at index posts ready bounded alive
    refine ⟨by simp only [Prefetch.InRange]; omega, ?_, ?_, one, bounded, signals, alive⟩ <;>
      simp only [Prefetch.unposted, Prefetch.uncounted, State.takenCount]
    · rw [semPost_small (by unfold most at *; omega)]
      omega
    · omega

theorem counts_getNext (counts : Counts s) (move : GetNextMove s t) : Counts t := by
  obtain ⟨index, posts, ready, one, bounded, signals, alive⟩ := counts
  have fewer := s.prefetch.uncounted_le
  have once := Prefetch.uncounted_add_due_le index
  cases move with
  | call here =>
    simp only [here, Consumer.claimed, Consumer.uncounted, Consumer.limit, Consumer.held, State.takenCount]
      at posts ready bounded alive
    exact ⟨index, posts, ready, one, bounded, by simp, fun _ => alive trivial⟩
  | wait here posted =>
    simp only [here, Consumer.claimed, Consumer.uncounted, Consumer.limit, Consumer.held, State.takenCount]
      at posts ready bounded alive
    refine ⟨index, ?_, ready, one, bounded, by simp, fun _ => alive trivial⟩
    simp only [Consumer.claimed, Consumer.held, State.takenCount]
    omega
  | lock here free =>
    simp only [here, Consumer.claimed, Consumer.uncounted, Consumer.limit, Consumer.held, State.takenCount]
      at posts ready bounded alive
    exact ⟨index, posts, ready, one, bounded, by simp, fun _ => alive trivial⟩
  | discard here => exact ⟨index, posts, ready, one, bounded, signals, alive⟩
  | take here =>
    simp only [here, Consumer.claimed, Consumer.uncounted, Consumer.limit, Consumer.held, State.takenCount,
      List.length_nil] at posts ready bounded
    refine ⟨index, ?_, ?_, one, ?_, by simp, by simp [Consumer.Settled]⟩ <;>
      simp only [Consumer.claimed, Consumer.uncounted, Consumer.limit, Consumer.held, State.takenCount,
        List.length_singleton] <;> omega
  | throw here =>
    simp only [here, Consumer.claimed, Consumer.uncounted, Consumer.limit, Consumer.held, State.takenCount]
      at posts ready bounded alive
    exact ⟨index, posts, ready, one, bounded, by simp, fun _ => alive trivial⟩
  | count here =>
    simp only [here, Consumer.claimed, Consumer.uncounted, Consumer.limit, Consumer.held, State.takenCount,
      List.length_singleton] at posts ready bounded
    refine ⟨index, posts, ?_, one, ?_, by simp, by simp [Consumer.Settled]⟩ <;>
      simp only [Consumer.uncounted, Consumer.limit, Consumer.held, State.takenCount, List.length_singleton]
    · rw [toInt_pred (by omega)]
      omega
    · omega
  | unlock here =>
    simp only [here, Consumer.claimed, Consumer.uncounted, Consumer.limit, Consumer.held, State.takenCount]
      at posts ready bounded
    exact ⟨index, posts, ready, one, bounded, by simp, by simp [Consumer.Settled]⟩
  | few here few =>
    simp only [here, Consumer.claimed, Consumer.uncounted, Consumer.limit, Consumer.held, State.takenCount,
      List.length_singleton] at posts ready bounded
    have few : s.numMinibatchesReady.toInt < 200 := Int32.lt_iff_toInt_lt.mp few
    have credit : most * s.prefSem ≤ most := by simpa using Nat.mul_le_mul_left most one
    refine ⟨index, posts, ready, one, ?_, by simp, by simp [Consumer.Settled]⟩
    simp only [Consumer.uncounted, Consumer.limit, Consumer.held, State.takenCount, List.length_singleton]
    omega
  | enough here enough =>
    simp only [here, Consumer.claimed, Consumer.uncounted, Consumer.limit, Consumer.held, State.takenCount,
      List.length_singleton] at posts ready bounded
    have enough : ¬ s.numMinibatchesReady.toInt < 200 := fun few => enough (Int32.lt_iff_toInt_lt.mpr few)
    refine ⟨index, ?_, ?_, one, ?_, by simp, fun _ => ?_⟩ <;>
      simp only [Consumer.claimed, Consumer.uncounted, Consumer.limit, Consumer.held, State.takenCount,
        List.length_append, List.length_singleton, List.length_nil] <;> omega
  | noCredit here none =>
    simp only [here, Consumer.claimed, Consumer.uncounted, Consumer.limit, Consumer.held, State.takenCount]
      at posts ready bounded
    have none : s.prefSem = 0 := Nat.lt_one_iff.mp none
    exact ⟨index, posts, ready, one, bounded, fun _ _ => none, by simp [Consumer.Settled]⟩
  | credit here some =>
    simp only [here, Consumer.claimed, Consumer.uncounted, Consumer.limit, Consumer.held, State.takenCount,
      List.length_singleton] at posts ready bounded
    simp only [readAhead] at some
    obtain credit : s.prefSem = 1 := by omega
    refine ⟨index, ?_, ?_, one, ?_, by simp, fun _ => ?_⟩ <;>
      simp only [Consumer.claimed, Consumer.uncounted, Consumer.limit, Consumer.held, State.takenCount,
        List.length_append, List.length_singleton, List.length_nil, credit] at bounded ⊢ <;> omega
  | signal here =>
    have none := signals _ here
    have posted : semPost s.prefSem = 1 := by rw [none, semPost_small (by decide)]
    simp only [here, Consumer.claimed, Consumer.uncounted, Consumer.limit, Consumer.held, State.takenCount,
      List.length_singleton, none] at posts ready bounded
    refine ⟨index, ?_, ?_, ?_, ?_, by simp, fun _ => ?_⟩ <;>
      simp only [Consumer.claimed, Consumer.uncounted, Consumer.limit, Consumer.held, State.takenCount,
        List.length_append, List.length_singleton, List.length_nil, posted] <;> omega

theorem Counts.not_deadlocked (counts : Counts s) : ¬ Deadlocked s := by
  intro deadlocked
  have posts := counts.posts
  have alive := counts.alive
  simp only [deadlocked.consumer, deadlocked.prefetch, deadlocked.semaphore, deadlocked.prefSem, Prefetch.unposted,
    Prefetch.due, Consumer.claimed] at posts alive
  have := alive trivial
  omega

end S3IteratorLibsvm

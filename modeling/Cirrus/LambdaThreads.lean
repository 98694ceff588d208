import Cirrus.LambdaData
import Cirrus.Lib.Codec
import Mathlib.Data.List.Basic

/-!
`launch_threads`, which starts a thread for each object and joins them, and the
loop in which a thread tries to invoke its Lambda. The threads share nothing, so
a thread is what its attempts come to.
-/
namespace LambdaThreads
open LambdaData (Text)

inductive Outcome
  | success
  | clientError (code : Option Text)
  | otherException
  deriving DecidableEq

def tooMany : Outcome := .clientError (some "TooManyRequestsException".toList)

/-- `handle_lambda_exception` raises the exception again, or gives nothing. -/
def handleLambdaException (exception : Outcome) : Option Outcome :=
  if exception = tooMany then some exception else none

/-- The outcomes of the attempts made, and the exception that leaves the loop. -/
structure Tried where
  attempts : List Outcome
  raised : Option Outcome

def Tried.after (first : Outcome) (rest : Tried) : Tried := { rest with attempts := first :: rest.attempts }

/-- The loop of `retry_loop` from attempt `curr_attempt`, with so many left. -/
def retryFrom (func : Nat → Outcome) (currAttempt : Nat) : Nat → Tried
  | 0 => ⟨[], none⟩
  | left + 1 =>
    match func currAttempt with
    | .success => ⟨[.success], none⟩
    | .clientError code =>
      match handleLambdaException (.clientError code) with
      | some exception => ⟨[.clientError code], some exception⟩
      | none => (retryFrom func (currAttempt + 1) left).after (.clientError code)
    | .otherException =>
      if left = 0 then ⟨[.otherException], some .otherException⟩
      else (retryFrom func (currAttempt + 1) left).after .otherException

def retryLoop (func : Nat → Outcome) (maxAttempts : Nat := 3) : Tried := retryFrom func 1 maxAttempts

structure Chunk where
  key : Text
  outcome : Nat → Outcome

/-- A thread that was started. The exception that leaves `run` goes no further than the thread. -/
structure LambdaThread where
  chunk : Chunk
  run : Tried

def start (chunk : Chunk) : LambdaThread := ⟨chunk, retryLoop chunk.outcome⟩

/-- `while len(threads) > max_lambdas`: the threads joined, and those left. -/
def joinSome (maxLambdas : Int) : List LambdaThread → Except Fault (List LambdaThread × List LambdaThread)
  | [] => if maxLambdas < 0 then .error (.exception "IndexError: pop from an empty deque") else .ok ([], [])
  | other :: threads =>
    if maxLambdas < (other :: threads).length then do
      let (joined, threads) ← joinSome maxLambdas threads
      .ok (other :: joined, threads)
    else .ok ([], other :: threads)

/-- The loop over the objects, and the joins after it. The result is the threads joined, all of them at the end. -/
def launchFrom (maxLambdas : Int) (joined threads : List LambdaThread) : List Chunk → Except Fault (List LambdaThread)
  | [] => .ok (joined ++ threads)
  | i :: objects => do
    let (more, threads) ← joinSome maxLambdas threads
    launchFrom maxLambdas (joined ++ more) (threads ++ [start i]) objects

def launchThreads (objects : List Chunk) (maxLambdas : Int) : Except Fault (List LambdaThread) :=
  launchFrom maxLambdas [] [] objects

section Attempts

theorem retryFrom_length (func : Nat → Outcome) (curr left : Nat) : (retryFrom func curr left).attempts.length ≤ left := by
  induction left generalizing curr with
  | zero => exact Nat.le_refl 0
  | succ left ih =>
    have rest := ih (curr + 1)
    unfold retryFrom
    split
    next => exact Nat.succ_le_succ (Nat.zero_le left)
    next =>
      split
      next => exact Nat.succ_le_succ (Nat.zero_le left)
      next => exact Nat.succ_le_succ rest
    next =>
      split
      next => exact Nat.succ_le_succ (Nat.zero_le left)
      next => exact Nat.succ_le_succ rest

/-- One of the attempts in the range is a success, and none before it says that there are too many requests. -/
def Succeeds (func : Nat → Outcome) (first stop : Nat) : Prop :=
  ∃ k, first ≤ k ∧ k < stop ∧ func k = .success ∧ ∀ j, first ≤ j → j < k → func j ≠ tooMany

theorem succeeds_next {func : Nat → Outcome} {curr stop : Nat} (failed : func curr ≠ .success) (goes_on : func curr ≠ tooMany) :
    Succeeds func curr stop ↔ Succeeds func (curr + 1) stop := by
  constructor
  · intro ⟨k, le, lt, success, before⟩
    have other : k ≠ curr := fun same => failed (same ▸ success)
    exact ⟨k, by omega, lt, success, fun j le' lt' => before j (by omega) lt'⟩
  · intro ⟨k, le, lt, success, before⟩
    refine ⟨k, by omega, lt, success, ?_⟩
    intro j le' lt'
    by_cases here : j = curr
    · rw [here]
      exact goes_on
    · exact before j (by omega) lt'

theorem retryFrom_success (func : Nat → Outcome) (curr left : Nat) :
    .success ∈ (retryFrom func curr left).attempts ↔ Succeeds func curr (curr + left) := by
  induction left generalizing curr with
  | zero =>
    constructor
    · intro member
      cases member
    · intro ⟨k, le, lt, _⟩
      omega
  | succ left ih =>
    have rest := ih (curr + 1)
    rw [Nat.add_assoc, Nat.add_comm 1] at rest
    unfold retryFrom
    split
    next here =>
      constructor
      · intro _
        exact ⟨curr, Nat.le_refl curr, by omega, here, fun j le lt => by omega⟩
      · intro _
        exact List.mem_singleton.mpr rfl
    next code here =>
      have failed : func curr ≠ .success := by rw [here]; nofun
      unfold handleLambdaException
      split
      next exception raised =>
        constructor
        · intro member
          cases List.mem_singleton.mp member
        · intro ⟨k, le, lt, success, before⟩
          have same : func curr = tooMany := by
            rw [here]
            by_contra other
            rw [if_neg other] at raised
            cases raised
          have other : k ≠ curr := fun same => failed (same ▸ success)
          exact absurd same (before curr (Nat.le_refl curr) (by omega))
      next continues =>
        have goes_on : func curr ≠ tooMany := by
          intro same
          rw [← here, if_pos same] at continues
          cases continues
        rw [succeeds_next failed goes_on, ← rest, Tried.after, List.mem_cons, or_iff_right nofun]
    next here =>
      have failed : func curr ≠ .success := by rw [here]; nofun
      have goes_on : func curr ≠ tooMany := by rw [here]; nofun
      rw [succeeds_next failed goes_on, ← rest]
      split
      next last =>
        rw [last]
        constructor
        · intro member
          cases List.mem_singleton.mp member
        · intro member
          cases member
      next => rw [Tried.after, List.mem_cons, or_iff_right nofun]

end Attempts

section Launching

theorem joinSome_nonneg {maxLambdas : Int} (nonneg : 0 ≤ maxLambdas) (threads : List LambdaThread) :
    ∃ joined left, joinSome maxLambdas threads = .ok (joined, left) ∧ joined ++ left = threads := by
  induction threads with
  | nil => exact ⟨[], [], if_neg (by omega), rfl⟩
  | cons other threads ih =>
    obtain ⟨joined, left, done, whole⟩ := ih
    unfold joinSome
    split
    next =>
      rw [done]
      exact ⟨other :: joined, left, rfl, by rw [List.cons_append, whole]⟩
    next => exact ⟨[], other :: threads, rfl, rfl⟩

theorem launchFrom_nonneg {maxLambdas : Int} (nonneg : 0 ≤ maxLambdas) (joined threads : List LambdaThread)
    (objects : List Chunk) : launchFrom maxLambdas joined threads objects = .ok (joined ++ threads ++ objects.map start) := by
  induction objects generalizing joined threads with
  | nil => simp [launchFrom]
  | cons i objects ih =>
    obtain ⟨more, left, done, whole⟩ := joinSome_nonneg nonneg threads
    unfold launchFrom
    rw [done]
    show launchFrom maxLambdas (joined ++ more) (left ++ [start i]) objects = _
    rw [ih, ← whole]
    simp

end Launching

/-- No object is tried more than three times, and a normal return means that each was tried with success. -/
def Processed (objects : List Chunk) (maxLambdas : Int) : Prop :=
  (∀ i ∈ objects, (start i).run.attempts.length ≤ 3) ∧
    ∀ threads, launchThreads objects maxLambdas = .ok threads →
      ∀ i ∈ objects, ∃ thread ∈ threads, thread.chunk = i ∧ .success ∈ thread.run.attempts

theorem launch_negative {objects : List Chunk} (some_object : objects ≠ []) {maxLambdas : Int} (negative : maxLambdas < 0) :
    launchThreads objects maxLambdas = .error (.exception "IndexError: pop from an empty deque") := by
  obtain ⟨i, rest, rfl⟩ := List.exists_cons_of_ne_nil some_object
  unfold launchThreads launchFrom joinSome
  rw [if_pos negative]
  rfl

theorem started_success (i : Chunk) : .success ∈ (start i).run.attempts ↔ Succeeds i.outcome 1 4 :=
  retryFrom_success i.outcome 1 3

/-- Nothing that goes wrong in a thread reaches the caller, so every object must succeed by itself, unless the
launching itself fails. -/
theorem chunks_processed_iff (objects : List Chunk) (maxLambdas : Int) :
    Processed objects maxLambdas ↔ maxLambdas < 0 ∨ ∀ i ∈ objects, Succeeds i.outcome 1 4 := by
  have few (i : Chunk) : (start i).run.attempts.length ≤ 3 := retryFrom_length i.outcome 1 3
  constructor
  · intro ⟨_, processed⟩
    rcases Int.lt_or_le maxLambdas 0 with negative | nonneg
    · exact .inl negative
    · right
      intro i member
      obtain ⟨thread, listed, same, success⟩ := processed _ (launchFrom_nonneg nonneg [] [] objects) i member
      obtain ⟨j, _, rfl⟩ := List.mem_map.mp listed
      obtain rfl : j = i := same
      exact (started_success j).mp success
  · intro holds
    refine ⟨fun i _ => few i, ?_⟩
    intro threads returned i member
    rcases holds with negative | each
    · rw [launch_negative (List.ne_nil_of_mem member) negative] at returned
      cases returned
    · rcases Int.lt_or_le maxLambdas 0 with negative | nonneg
      · rw [launch_negative (List.ne_nil_of_mem member) negative] at returned
        cases returned
      · unfold launchThreads at returned
        rw [launchFrom_nonneg nonneg] at returned
        obtain rfl := Except.ok.inj returned
        exact ⟨start i, List.mem_map_of_mem member, rfl, (started_success i).mpr (each i member)⟩

/-- An object whose Lambda always ends with a client error is left out in silence. -/
theorem failed_chunk_unseen : ¬ Processed [⟨[], fun _ => .clientError none⟩] 400 := by
  intro ⟨_, processed⟩
  obtain ⟨thread, listed, _, success⟩ := processed _ (launchFrom_nonneg (by decide) [] [] _) _ List.mem_cons_self
  obtain rfl := List.mem_singleton.mp listed
  exact absurd success (by decide)

end LambdaThreads

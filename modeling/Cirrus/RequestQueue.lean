import Cirrus.Lib.Transition
import Mathlib.Data.Fintype.Basic

/-
The hand-off of requests from poll threads to worker threads: `process` pushes
to `to_process` under `to_process_lock` and then posts `sem_new_req`;
`gradient_f` waits on the semaphore and then takes the front of the queue under
the same lock. A timed wait fails only while the semaphore is 0. A worker whose
wait is over may find `kill_signal` set and end. The semaphore is a natural
number: its value is at most the length of the queue.
-/
namespace RequestQueue
open Transition

inductive PollPc where
  | idle
  | pushed
  deriving DecidableEq, Repr

inductive WorkerPc where
  | waiting
  | passed
  | handling
  | ended
  deriving DecidableEq, Repr

/-- `pushed` and `popped` are histories: every push, and every pop with the worker that made it. -/
structure State (nPoll nWork : Nat) (R : Type) where
  poll : Fin nPoll → PollPc := fun _ => .idle
  worker : Fin nWork → WorkerPc := fun _ => .waiting
  toProcess : List R := []
  semNewReq : Nat := 0
  pushed : List R := []
  popped : List (Fin nWork × R) := []
  frontOfEmpty : Bool := false

inductive Label (nPoll nWork : Nat) (R : Type) where
  | push (p : Fin nPoll) (req : R)
  | post (p : Fin nPoll)
  | wait (w : Fin nWork)
  | timeout (w : Fin nWork)
  | pop (w : Fin nWork)
  | done (w : Fin nWork)
  | kill (w : Fin nWork)
  deriving DecidableEq

variable {nPoll nWork : Nat} {R : Type}

def Label.poller : Label nPoll nWork R → Option (Fin nPoll)
  | .push p _ | .post p => some p
  | _ => none

def Label.worker : Label nPoll nWork R → Option (Fin nWork)
  | .wait w | .timeout w | .pop w | .done w | .kill w => some w
  | _ => none

def State.setPoll (s : State nPoll nWork R) (p : Fin nPoll) (pc : PollPc) : State nPoll nWork R :=
  { s with poll := Function.update s.poll p pc }

def State.setWorker (s : State nPoll nWork R) (w : Fin nWork) (pc : WorkerPc) :
    State nPoll nWork R :=
  { s with worker := Function.update s.worker w pc }

/-- `front` of an empty queue is undefined; it is recorded, and nothing is taken. -/
def takeFront (s : State nPoll nWork R) (w : Fin nWork) : State nPoll nWork R :=
  match s.toProcess with
  | [] => { s with frontOfEmpty := true }
  | req :: rest => { s with toProcess := rest, popped := s.popped ++ [(w, req)] }

def step (s : State nPoll nWork R) : Label nPoll nWork R → Option (State nPoll nWork R)
  | .push p req =>
    if s.poll p = .idle then
      some { s.setPoll p .pushed with
        toProcess := s.toProcess ++ [req], pushed := s.pushed ++ [req] }
    else none
  | .post p =>
    if s.poll p = .pushed then
      some { s.setPoll p .idle with semNewReq := s.semNewReq + 1 }
    else none
  | .wait w =>
    if s.worker w = .waiting ∧ 0 < s.semNewReq then
      some { s.setWorker w .passed with semNewReq := s.semNewReq - 1 }
    else none
  | .timeout w => if s.worker w = .waiting ∧ s.semNewReq = 0 then some s else none
  | .pop w => if s.worker w = .passed then some (takeFront (s.setWorker w .handling) w) else none
  | .done w => if s.worker w = .handling then some (s.setWorker w .waiting) else none
  | .kill w => if s.worker w = .waiting then some (s.setWorker w .ended) else none

def atStart (s : State nPoll nWork R) : Prop := s = {}

/-- Workers between `sem_timedwait` and `pop`. -/
def owed (s : State nPoll nWork R) : Nat := population .passed s.worker

/-- Poll threads between `push` and `sem_post`. -/
def unposted (s : State nPoll nWork R) : Nat := population .pushed s.poll

structure Inv (s : State nPoll nWork R) : Prop where
  counted : s.toProcess.length = s.semNewReq + owed s + unposted s
  fifo : s.popped.map (·.2) ++ s.toProcess = s.pushed
  safe : s.frontOfEmpty = false

theorem inv_start : Inv ({} : State nPoll nWork R) := by
  refine ⟨?_, rfl, rfl⟩
  simp [owed, unposted, population_zero_of_forall_ne]

theorem owed_setWorker (s : State nPoll nWork R) (w : Fin nWork) (pc : WorkerPc) :
    population .passed (Function.update s.worker w pc) + (if s.worker w = .passed then 1 else 0) =
      owed s + (if pc = .passed then 1 else 0) := by
  unfold owed
  exact population_update .passed s.worker w pc

theorem unposted_setPoll (s : State nPoll nWork R) (p : Fin nPoll) (pc : PollPc) :
    population .pushed (Function.update s.poll p pc) + (if s.poll p = .pushed then 1 else 0) =
      unposted s + (if pc = .pushed then 1 else 0) := by
  unfold unposted
  exact population_update .pushed s.poll p pc

theorem step_cases {s t : State nPoll nWork R} {l : Label nPoll nWork R} (taken : step s l = some t) :
    match l with
    | .push p req => s.poll p = .idle ∧ t = { s.setPoll p .pushed with
        toProcess := s.toProcess ++ [req], pushed := s.pushed ++ [req] }
    | .post p => s.poll p = .pushed ∧ t = { s.setPoll p .idle with semNewReq := s.semNewReq + 1 }
    | .wait w => (s.worker w = .waiting ∧ 0 < s.semNewReq) ∧
        t = { s.setWorker w .passed with semNewReq := s.semNewReq - 1 }
    | .timeout w => (s.worker w = .waiting ∧ s.semNewReq = 0) ∧ t = s
    | .pop w => s.worker w = .passed ∧ t = takeFront (s.setWorker w .handling) w
    | .done w => s.worker w = .handling ∧ t = s.setWorker w .waiting
    | .kill w => s.worker w = .waiting ∧ t = s.setWorker w .ended := by
  cases l <;> simp only [step, Option.ite_none_right_eq_some, Option.some.injEq] at taken <;>
    exact ⟨taken.1, taken.2.symm⟩

/- The front is there to take: the worker that passed the semaphore is counted in the length. -/
theorem inv_pop {s : State nPoll nWork R} (inv : Inv s) {w : Fin nWork}
    (passed : s.worker w = .passed) :
    ∃ req rest, s.toProcess = req :: rest ∧
      Inv { s.setWorker w .handling with
        toProcess := rest, popped := s.popped ++ [(w, req)] } := by
  have fewer := owed_setWorker s w .handling
  simp only [passed, if_true, reduceCtorEq, if_false] at fewer
  have counted := inv.counted
  cases here : s.toProcess with
  | nil =>
    rw [here, List.length_nil] at counted
    omega
  | cons req rest =>
    rw [here, List.length_cons] at counted
    refine ⟨req, rest, rfl, ?_, ?_, inv.safe⟩
    · change rest.length =
        s.semNewReq + population .passed (Function.update s.worker w .handling) + unposted s
      omega
    · have order := inv.fifo
      rw [here] at order
      change (s.popped ++ [(w, req)]).map (·.2) ++ rest = s.pushed
      simpa using order

theorem inv_step (s : State nPoll nWork R) (l : Label nPoll nWork R) (t : State nPoll nWork R)
    (inv : Inv s) (taken : step s l = some t) : Inv t := by
  have effect := step_cases taken
  have counted := inv.counted
  cases l with
  | push p req =>
    obtain ⟨idle, rfl⟩ := effect
    have more := unposted_setPoll s p .pushed
    simp only [idle, if_true, reduceCtorEq, if_false] at more
    refine ⟨?_, ?_, inv.safe⟩
    · change (s.toProcess ++ [req]).length =
        s.semNewReq + owed s + population .pushed (Function.update s.poll p .pushed)
      rw [List.length_append, List.length_singleton]
      omega
    · change s.popped.map (·.2) ++ (s.toProcess ++ [req]) = s.pushed ++ [req]
      rw [← List.append_assoc, inv.fifo]
  | post p =>
    obtain ⟨pushed, rfl⟩ := effect
    have fewer := unposted_setPoll s p .idle
    simp only [pushed, if_true, reduceCtorEq, if_false] at fewer
    refine ⟨?_, inv.fifo, inv.safe⟩
    change s.toProcess.length =
      s.semNewReq + 1 + owed s + population .pushed (Function.update s.poll p .idle)
    omega
  | wait w =>
    obtain ⟨⟨waiting, positive⟩, rfl⟩ := effect
    have more := owed_setWorker s w .passed
    simp only [waiting, if_true, reduceCtorEq, if_false] at more
    refine ⟨?_, inv.fifo, inv.safe⟩
    change s.toProcess.length =
      s.semNewReq - 1 + population .passed (Function.update s.worker w .passed) + unposted s
    omega
  | timeout w =>
    obtain ⟨_, rfl⟩ := effect
    exact inv
  | pop w =>
    obtain ⟨passed, rfl⟩ := effect
    obtain ⟨req, rest, front, after⟩ := inv_pop inv passed
    simpa [takeFront, State.setWorker, front] using after
  | done w =>
    obtain ⟨handling, rfl⟩ := effect
    have same := owed_setWorker s w .waiting
    simp only [handling, reduceCtorEq, if_false] at same
    refine ⟨?_, inv.fifo, inv.safe⟩
    change s.toProcess.length =
      s.semNewReq + population .passed (Function.update s.worker w .waiting) + unposted s
    omega
  | kill w =>
    obtain ⟨waiting, rfl⟩ := effect
    have same := owed_setWorker s w .ended
    simp only [waiting, reduceCtorEq, if_false] at same
    refine ⟨?_, inv.fifo, inv.safe⟩
    change s.toProcess.length =
      s.semNewReq + population .passed (Function.update s.worker w .ended) + unposted s
    omega

theorem inv_of_reachable {s : State nPoll nWork R} (reached : Reachable step atStart anyStep s) :
    Inv s :=
  reached.invariant (fun _ start => start ▸ inv_start) fun s l t inv _ taken =>
    inv_step s l t inv taken

abbrev Run (nPoll nWork : Nat) (R : Type) :=
  Behaviour (step : State nPoll nWork R → Label nPoll nWork R → _) atStart

/-- Some worker runs for ever, and none stops for good between its wait and its pop. -/
structure WorkersRun (run : Run nPoll nWork R) : Prop where
  one_runs : ∃ w, ∀ n, ∃ m, n ≤ m ∧ (run.label m).worker = some w
  passed_pop : ∀ w n, (run.state n).worker w = .passed → ∃ m, n ≤ m ∧ (run.label m).worker = some w

/-- No poll thread stops for good between its push and its post. -/
def PollThreadsRun (run : Run nPoll nWork R) : Prop :=
  ∀ p n, (run.state n).poll p = .pushed → ∃ m, n ≤ m ∧ (run.label m).poller = some p

def posted (s : State nPoll nWork R) : Nat := s.pushed.length - unposted s

theorem popped_step {s t : State nPoll nWork R} {l : Label nPoll nWork R}
    (taken : step s l = some t) : s.popped.length ≤ t.popped.length := by
  have effect := step_cases taken
  cases l with
  | pop w =>
    obtain ⟨_, rfl⟩ := effect
    unfold takeFront
    split
    · exact Nat.le_refl _
    · change s.popped.length ≤ (s.popped ++ _).length
      simp
  | push p req => exact effect.2 ▸ Nat.le_refl _
  | post p => exact effect.2 ▸ Nat.le_refl _
  | wait w => exact effect.2 ▸ Nat.le_refl _
  | timeout w => exact effect.2 ▸ Nat.le_refl _
  | done w => exact effect.2 ▸ Nat.le_refl _
  | kill w => exact effect.2 ▸ Nat.le_refl _

theorem pop_grows {s t : State nPoll nWork R} (inv : Inv s) {w : Fin nWork}
    (taken : step s (.pop w) = some t) : t.popped.length = s.popped.length + 1 := by
  obtain ⟨passed, rfl⟩ := step_cases taken
  obtain ⟨req, rest, front, _⟩ := inv_pop inv passed
  simp [takeFront, State.setWorker, front]

theorem worker_frame {s t : State nPoll nWork R} {l : Label nPoll nWork R}
    (taken : step s l = some t) {w : Fin nWork} (other : l.worker ≠ some w) :
    t.worker w = s.worker w := by
  have away : ∀ v, some v ≠ some w → ∀ pc, (s.setWorker v pc).worker w = s.worker w := by
    intro v ne pc
    exact Function.update_of_ne (fun same => ne (congrArg some same.symm)) _ _
  have effect := step_cases taken
  cases l with
  | push p req => exact effect.2 ▸ rfl
  | post p => exact effect.2 ▸ rfl
  | timeout v => exact effect.2 ▸ rfl
  | wait v => exact effect.2 ▸ away v other _
  | done v => exact effect.2 ▸ away v other _
  | kill v => exact effect.2 ▸ away v other _
  | pop v =>
    obtain ⟨_, rfl⟩ := effect
    unfold takeFront
    split <;> exact away v other _

theorem poll_frame {s t : State nPoll nWork R} {l : Label nPoll nWork R}
    (taken : step s l = some t) {p : Fin nPoll} (other : l.poller ≠ some p) :
    t.poll p = s.poll p := by
  have away : ∀ q, some q ≠ some p → ∀ pc, (s.setPoll q pc).poll p = s.poll p := by
    intro q ne pc
    exact Function.update_of_ne (fun same => ne (congrArg some same.symm)) _ _
  have effect := step_cases taken
  cases l with
  | push q req => exact effect.2 ▸ away q other _
  | post q => exact effect.2 ▸ away q other _
  | wait w => exact effect.2 ▸ rfl
  | timeout w => exact effect.2 ▸ rfl
  | done w => exact effect.2 ▸ rfl
  | kill w => exact effect.2 ▸ rfl
  | pop w =>
    obtain ⟨_, rfl⟩ := effect
    unfold takeFront
    split <;> rfl

theorem pushed_grows {s t : State nPoll nWork R} {l : Label nPoll nWork R}
    (taken : step s l = some t) : s.pushed.length ≤ t.pushed.length := by
  have effect := step_cases taken
  cases l with
  | push p req =>
    obtain ⟨_, rfl⟩ := effect
    change s.pushed.length ≤ (s.pushed ++ [req]).length
    simp
  | post p => exact effect.2 ▸ Nat.le_refl _
  | wait w => exact effect.2 ▸ Nat.le_refl _
  | timeout w => exact effect.2 ▸ Nat.le_refl _
  | done w => exact effect.2 ▸ Nat.le_refl _
  | kill w => exact effect.2 ▸ Nat.le_refl _
  | pop w =>
    obtain ⟨_, rfl⟩ := effect
    unfold takeFront
    split <;> exact Nat.le_refl _

theorem posted_step {s t : State nPoll nWork R} {l : Label nPoll nWork R}
    (taken : step s l = some t) : posted s ≤ posted t := by
  have effect := step_cases taken
  cases l with
  | push p req =>
    obtain ⟨idle, rfl⟩ := effect
    have more := unposted_setPoll s p .pushed
    simp only [idle, if_true, reduceCtorEq, if_false] at more
    change s.pushed.length - unposted s ≤
      (s.pushed ++ [req]).length - population .pushed (Function.update s.poll p .pushed)
    rw [List.length_append, List.length_singleton]
    omega
  | post p =>
    obtain ⟨pushed, rfl⟩ := effect
    have fewer := unposted_setPoll s p .idle
    simp only [pushed, if_true, reduceCtorEq, if_false] at fewer
    change s.pushed.length - unposted s ≤
      s.pushed.length - population .pushed (Function.update s.poll p .idle)
    omega
  | wait w => exact effect.2 ▸ Nat.le_refl _
  | timeout w => exact effect.2 ▸ Nat.le_refl _
  | done w => exact effect.2 ▸ Nat.le_refl _
  | kill w => exact effect.2 ▸ Nat.le_refl _
  | pop w =>
    obtain ⟨_, rfl⟩ := effect
    unfold takeFront
    split <;> exact Nat.le_refl _

section Progress
variable {run : Run nPoll nWork R}

theorem pushed_mono {n m : Nat} (le : n ≤ m) :
    (run.state n).pushed.length ≤ (run.state m).pushed.length :=
  run.mono (fun s => s.pushed.length) (fun _ _ _ => pushed_grows) le

theorem posted_mono {n m : Nat} (le : n ≤ m) : posted (run.state n) ≤ posted (run.state m) :=
  run.mono posted (fun _ _ _ => posted_step) le

theorem popped_mono {n m : Nat} (le : n ≤ m) :
    (run.state n).popped.length ≤ (run.state m).popped.length :=
  run.mono (fun s => s.popped.length) (fun _ _ _ => popped_step) le

theorem run_inv (run : Run nPoll nWork R) (n : Nat) : Inv (run.state n) :=
  inv_of_reachable (run.reachable n)

theorem own_step {s t : State nPoll nWork R} {l : Label nPoll nWork R}
    (taken : step s l = some t) {w : Fin nWork} (mine : l.worker = some w) :
    (s.worker w = .waiting ∧ 0 < s.semNewReq ∧ t.worker w = .passed) ∨
      (s.worker w = .waiting ∧ s.semNewReq = 0 ∧ t = s) ∨
      (s.worker w = .passed ∧ l = .pop w) ∨
      (s.worker w = .handling ∧ t = s.setWorker w .waiting) ∨
      (s.worker w = .waiting ∧ t.worker w = .ended) := by
  have effect := step_cases taken
  cases l with
  | push p req => simp [Label.worker] at mine
  | post p => simp [Label.worker] at mine
  | wait v =>
    obtain rfl : v = w := by simpa [Label.worker] using mine
    obtain ⟨⟨waiting, positive⟩, rfl⟩ := effect
    exact Or.inl ⟨waiting, positive, Function.update_self _ _ _⟩
  | timeout v =>
    obtain rfl : v = w := by simpa [Label.worker] using mine
    exact Or.inr (Or.inl ⟨effect.1.1, effect.1.2, effect.2⟩)
  | pop v =>
    obtain rfl : v = w := by simpa [Label.worker] using mine
    exact Or.inr (Or.inr (Or.inl ⟨effect.1, rfl⟩))
  | done v =>
    obtain rfl : v = w := by simpa [Label.worker] using mine
    exact Or.inr (Or.inr (Or.inr (Or.inl effect)))
  | kill v =>
    obtain rfl : v = w := by simpa [Label.worker] using mine
    obtain ⟨waiting, rfl⟩ := effect
    exact Or.inr (Or.inr (Or.inr (Or.inr ⟨waiting, Function.update_self _ _ _⟩)))

theorem passed_step {s t : State nPoll nWork R} (inv : Inv s) {l : Label nPoll nWork R}
    (taken : step s l = some t) {w : Fin nWork} (passed : s.worker w = .passed)
    (mine : l.worker = some w) : t.popped.length = s.popped.length + 1 := by
  rcases own_step taken mine with ⟨other, _⟩ | ⟨other, _⟩ | ⟨_, rfl⟩ | ⟨other, _⟩ | ⟨other, _⟩
  · simp [passed] at other
  · simp [passed] at other
  · exact pop_grows inv taken
  · simp [passed] at other
  · simp [passed] at other

theorem passed_leads_to_pop (workers : WorkersRun run) {w : Fin nWork} {n c : Nat}
    (passed : (run.state n).worker w = .passed) (count : c ≤ (run.state n).popped.length) :
    ∃ k, n ≤ k ∧ c < (run.state k).popped.length := by
  apply run.leads_to (fun s => s.worker w = .passed ∧ c ≤ s.popped.length)
    (fun s => c < s.popped.length) (fun l => l.worker = some w) _ _
    (workers.passed_pop w n passed) ⟨passed, count⟩
  · intro k ⟨here, enough⟩ other
    have still := worker_frame (run.follows k) other
    exact Or.inl ⟨still.trans here, Nat.le_trans enough (popped_step (run.follows k))⟩
  · intro k ⟨here, enough⟩ mine
    have grown := passed_step (run_inv run k) (run.follows k) here mine
    omega

theorem ended_stays {w : Fin nWork} {n m : Nat} (le : n ≤ m)
    (ended : (run.state n).worker w = .ended) :
    (run.state m).worker w = .ended ∧ (run.label m).worker ≠ some w := by
  have silent : ∀ k, (run.state k).worker w = .ended → (run.label k).worker ≠ some w := by
    intro k here mine
    rcases own_step (run.follows k) mine with ⟨other, _⟩ | ⟨other, _⟩ | ⟨other, _⟩ | ⟨other, _⟩ | ⟨other, _⟩ <;>
      simp [here] at other
  induction le with
  | refl => exact ⟨ended, silent n ended⟩
  | step le ih =>
    have still := (worker_frame (run.follows _) ih.2).trans ih.1
    exact ⟨still, silent _ still⟩

theorem semaphore_step {s t : State nPoll nWork R} {l : Label nPoll nWork R}
    (taken : step s l = some t) (positive : 0 < s.semNewReq) :
    0 < t.semNewReq ∨ ∃ w, t.worker w = .passed := by
  have effect := step_cases taken
  cases l with
  | push p req => exact Or.inl (effect.2 ▸ positive)
  | post p => exact Or.inl (effect.2 ▸ Nat.succ_pos _)
  | wait w =>
    obtain ⟨_, rfl⟩ := effect
    exact Or.inr ⟨w, Function.update_self _ _ _⟩
  | timeout w => exact Or.inl (effect.2 ▸ positive)
  | done w => exact Or.inl (effect.2 ▸ positive)
  | kill w => exact Or.inl (effect.2 ▸ positive)
  | pop w =>
    obtain ⟨_, rfl⟩ := effect
    unfold takeFront
    split <;> exact Or.inl positive

/-- With the semaphore positive, a waiting worker that runs for ever passes it unless another does. -/
theorem waiting_leads_to_passed {w : Fin nWork} (alive : ∀ m, (run.state m).worker w ≠ .ended)
    {n : Nat} (comes : ∃ m, n ≤ m ∧ (run.label m).worker = some w)
    (waiting : (run.state n).worker w = .waiting) (positive : 0 < (run.state n).semNewReq) :
    ∃ k, n ≤ k ∧ ∃ v, (run.state k).worker v = .passed := by
  apply run.leads_to (fun s => s.worker w = .waiting ∧ 0 < s.semNewReq)
    (fun s => ∃ v, s.worker v = .passed) (fun l => l.worker = some w) _ _ comes
    ⟨waiting, positive⟩
  · intro k ⟨here, sem⟩ other
    have frame := worker_frame (run.follows k) other
    exact (semaphore_step (run.follows k) sem).imp (fun still => ⟨frame.trans here, still⟩) id
  · intro k ⟨here, sem⟩ mine
    rcases own_step (run.follows k) mine with
      ⟨_, _, passed⟩ | ⟨_, zero, _⟩ | ⟨other, _⟩ | ⟨other, _⟩ | ⟨_, ended⟩
    · exact ⟨w, passed⟩
    · omega
    · simp [here] at other
    · simp [here] at other
    · exact absurd ended (alive (k + 1))

theorem handling_leads_to_waiting {w : Fin nWork} {n : Nat}
    (comes : ∃ m, n ≤ m ∧ (run.label m).worker = some w)
    (handling : (run.state n).worker w = .handling) (positive : 0 < (run.state n).semNewReq) :
    ∃ k, n ≤ k ∧ ((run.state k).worker w = .waiting ∧ 0 < (run.state k).semNewReq ∨
      ∃ v, (run.state k).worker v = .passed) := by
  apply run.leads_to (fun s => s.worker w = .handling ∧ 0 < s.semNewReq)
    (fun s => s.worker w = .waiting ∧ 0 < s.semNewReq ∨ ∃ v, s.worker v = .passed)
    (fun l => l.worker = some w) _ _ comes ⟨handling, positive⟩
  · intro k ⟨busy, sem⟩ other
    have frame := worker_frame (run.follows k) other
    exact (semaphore_step (run.follows k) sem).imp (fun still => ⟨frame.trans busy, still⟩) Or.inr
  · intro k ⟨busy, sem⟩ mine
    rcases own_step (run.follows k) mine with
      ⟨other, _⟩ | ⟨other, _⟩ | ⟨other, _⟩ | ⟨_, free⟩ | ⟨other, _⟩
    · simp [busy] at other
    · simp [busy] at other
    · simp [busy] at other
    · rw [free]
      exact Or.inl ⟨Function.update_self _ _ _, sem⟩
    · simp [busy] at other

/-- A positive semaphore lets some worker through: the one that runs for ever, or one before it. -/
theorem semaphore_leads_to_pop (workers : WorkersRun run) {n c : Nat}
    (positive : 0 < (run.state n).semNewReq) (count : c ≤ (run.state n).popped.length) :
    ∃ k, n ≤ k ∧ c < (run.state k).popped.length := by
  obtain ⟨w, forever⟩ := workers.one_runs
  have alive : ∀ m, (run.state m).worker w ≠ .ended := by
    intro m ended
    obtain ⟨k, le, mine⟩ := forever m
    exact (ended_stays le ended).2 mine
  have passes : ∃ m, n ≤ m ∧ ∃ v, (run.state m).worker v = .passed := by
    cases here : (run.state n).worker w with
    | waiting => exact waiting_leads_to_passed alive (forever n) here positive
    | passed => exact ⟨n, Nat.le_refl n, w, here⟩
    | ended => exact absurd here (alive n)
    | handling =>
      obtain ⟨k, later, ⟨waiting, still⟩ | passed⟩ :=
        handling_leads_to_waiting (forever n) here positive
      · obtain ⟨m, last, passed⟩ := waiting_leads_to_passed alive (forever k) waiting still
        exact ⟨m, Nat.le_trans later last, passed⟩
      · exact ⟨k, later, passed⟩
  obtain ⟨m, le, v, passed⟩ := passes
  obtain ⟨k, later, more⟩ :=
    passed_leads_to_pop workers passed (Nat.le_trans count (popped_mono le))
  exact ⟨k, Nat.le_trans le later, more⟩

theorem pushed_step {s t : State nPoll nWork R} {l : Label nPoll nWork R}
    (taken : step s l = some t) {p : Fin nPoll} (pushed : s.poll p = .pushed)
    (mine : l.poller = some p) : 0 < t.semNewReq := by
  have effect := step_cases taken
  cases l with
  | push q req =>
    obtain rfl : q = p := by simpa [Label.poller] using mine
    simp [pushed] at effect
  | post q => exact effect.2 ▸ Nat.succ_pos _
  | wait w => simp [Label.poller] at mine
  | timeout w => simp [Label.poller] at mine
  | pop w => simp [Label.poller] at mine
  | done w => simp [Label.poller] at mine
  | kill w => simp [Label.poller] at mine

theorem pushed_leads_to_semaphore (pollers : PollThreadsRun run) {p : Fin nPoll} {n c : Nat}
    (pushed : (run.state n).poll p = .pushed) (count : c ≤ (run.state n).popped.length) :
    ∃ k, n ≤ k ∧ 0 < (run.state k).semNewReq ∧ c ≤ (run.state k).popped.length := by
  apply run.leads_to (fun s => s.poll p = .pushed ∧ c ≤ s.popped.length)
    (fun s => 0 < s.semNewReq ∧ c ≤ s.popped.length) (fun l => l.poller = some p) _ _
    (pollers p n pushed) ⟨pushed, count⟩
  · intro k ⟨here, enough⟩ other
    have still := poll_frame (run.follows k) other
    exact Or.inl ⟨still.trans here, Nat.le_trans enough (popped_step (run.follows k))⟩
  · intro k ⟨here, enough⟩ mine
    exact ⟨pushed_step (run.follows k) here mine, Nat.le_trans enough (popped_step (run.follows k))⟩

theorem posted_leads_to_pop (workers : WorkersRun run) {n : Nat}
    (waiting : (run.state n).popped.length < posted (run.state n)) :
    ∃ k, n ≤ k ∧ (run.state n).popped.length < (run.state k).popped.length := by
  have inv := run_inv run n
  have logged := congrArg List.length inv.fifo
  rw [List.length_append, List.length_map, inv.counted] at logged
  unfold posted at waiting
  rcases Nat.eq_zero_or_pos (run.state n).semNewReq with zero | positive
  · have passed : 0 < owed (run.state n) := by omega
    obtain ⟨w, here⟩ := population_pos passed
    exact passed_leads_to_pop workers here (Nat.le_refl _)
  · exact semaphore_leads_to_pop workers positive (Nat.le_refl _)

theorem queued_leads_to_pop (workers : WorkersRun run) (pollers : PollThreadsRun run) {n : Nat}
    (waiting : (run.state n).popped.length < (run.state n).pushed.length) :
    ∃ k, n ≤ k ∧ (run.state n).popped.length < (run.state k).popped.length := by
  rcases Nat.eq_zero_or_pos (unposted (run.state n)) with zero | positive
  · exact posted_leads_to_pop workers (by unfold posted; omega)
  · obtain ⟨p, here⟩ := population_pos positive
    obtain ⟨m, le, sem, count⟩ := pushed_leads_to_semaphore pollers here (Nat.le_refl _)
    obtain ⟨k, later, more⟩ := semaphore_leads_to_pop workers sem count
    exact ⟨k, Nat.le_trans le later, more⟩

end Progress

/-- The queue is never found empty, what is taken is what was pushed, in that order and once each,
and the queue holds what the semaphore counts and what threads are about to take or to announce.
Everything posted is taken while workers run, hence everything pushed if every push is followed
by its post. -/
theorem requests_handed_off :
    (∀ s : State nPoll nWork R, Reachable step atStart anyStep s →
      s.frontOfEmpty = false ∧ s.popped.map (·.2) ++ s.toProcess = s.pushed ∧
        s.toProcess.length = s.semNewReq + owed s + unposted s) ∧
    (∀ run : Run nPoll nWork R, WorkersRun run → ∀ n,
      (∃ m, n ≤ m ∧ posted (run.state n) ≤ (run.state m).popped.length) ∧
      (PollThreadsRun run →
        ∃ m, n ≤ m ∧ (run.state n).pushed.length ≤ (run.state m).popped.length)) := by
  constructor
  · intro s reached
    have inv := inv_of_reachable reached
    exact ⟨inv.safe, inv.fifo, inv.counted⟩
  · intro run workers n
    constructor
    · apply run.reaches (fun s => s.popped.length)
      intro m le missing
      exact posted_leads_to_pop workers (Nat.lt_of_lt_of_le missing (posted_mono le))
    · intro pollers
      apply run.reaches (fun s => s.popped.length)
      intro m le missing
      exact queued_leads_to_pop workers pollers (Nat.lt_of_lt_of_le missing (pushed_mono le))

/- One request handed from one poll thread to one worker, which then times out for ever. -/
def servedLabel : Nat → Label 1 1 Unit
  | 0 => .push 0 ()
  | 1 => .post 0
  | 2 => .wait 0
  | 3 => .pop 0
  | 4 => .done 0
  | _ => .timeout 0

def servedState : Nat → State 1 1 Unit
  | 0 => {}
  | n + 1 => (step (servedState n) (servedLabel n)).getD (servedState n)

theorem served_idle (n : Nat) : servedState (n + 5) = servedState 5 := by
  induction n with
  | zero => rfl
  | succ n ih =>
    have quiet : step (servedState 5) (.timeout 0) = some (servedState 5) := rfl
    change (step (servedState (n + 5)) (.timeout 0)).getD (servedState (n + 5)) = _
    rw [ih, quiet, Option.getD_some]

theorem served_follows (n : Nat) :
    step (servedState n) (servedLabel n) = some (servedState (n + 1)) := by
  match n with
  | 0 | 1 | 2 | 3 | 4 => rfl
  | k + 5 =>
    rw [served_idle k, served_idle (k + 1)]
    rfl

def servedRun : Run 1 1 Unit := ⟨servedState, servedLabel, rfl, served_follows⟩

theorem servedRun_workersRun : WorkersRun servedRun := by
  have later : ∀ n, ∃ m, n ≤ m ∧ (servedRun.label m).worker = some 0 :=
    fun n => ⟨n + 5, Nat.le_add_right n 5, rfl⟩
  exact ⟨⟨0, later⟩, fun w n _ => Subsingleton.elim 0 w ▸ later n⟩

theorem servedRun_pollThreadsRun : PollThreadsRun servedRun := by
  intro p n pushed
  obtain rfl : p = 0 := Subsingleton.elim p 0
  match n with
  | 0 => exact ⟨0, Nat.le_refl 0, rfl⟩
  | 1 => exact ⟨1, Nat.le_refl 1, rfl⟩
  | 2 | 3 | 4 => cases pushed
  | k + 5 =>
    change (servedState (k + 5)).poll 0 = .pushed at pushed
    rw [served_idle] at pushed
    cases pushed

theorem served_request_popped : ∃ m, 1 ≤ m ∧ 1 ≤ (servedState m).popped.length :=
  (requests_handed_off.2 servedRun servedRun_workersRun 1).2 servedRun_pollThreadsRun

end RequestQueue

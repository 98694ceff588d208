import Cirrus.Lib.Machine
import Mathlib.Data.List.AList
import Mathlib.Data.Finset.Card

/-!
The tables of PSSparseServerTask that record worker tasks, and the three
operations on them: `process_register_task`, `process_deregister_task` and
`check_tasks_lifetime`. Each operation runs under `register_lock`, so one
operation is one step. The containers hold the ids as `uint64_t`; the ids
come from 4-byte fields and stay `UInt32` here. Times are nanoseconds of the
steady clock, unbounded. `check_tasks_lifetime` erases from the map it walks;
here it walks the keys the map had when the walk began.
-/
namespace TaskRegistry

abbrev TaskMap (V : Type) := AList fun _ : UInt32 => V

structure Registry where
  registeredTasks : Finset UInt32 := ∅
  taskToRemainingTime : TaskMap Int := ∅
  taskToStarttime : TaskMap Int := ∅
  numTasks : UInt32 := 0

def timeoutThresholdSec : Int := 3

/- `duration_cast<seconds>` truncates towards zero. -/
def elapsedSec (now start : Int) : Int := (now - start).tdiv 1000000000

/- The handler after its 8 bytes are read. `replySent` is whether `send_all` succeeds:
   the counter is incremented after the reply, for first and repeated registrations alike. -/
def processRegisterTask (s : Registry) (taskId remainingTime : UInt32) (now : Int)
    (replySent : Bool) : Registry × UInt32 :=
  let taskReg : UInt32 := if taskId ∈ s.registeredTasks then 1 else 0
  let s := if taskReg = 0 then
      { s with
        registeredTasks := insert taskId s.registeredTasks
        taskToRemainingTime := s.taskToRemainingTime.insert taskId remainingTime.toNat
        taskToStarttime := s.taskToStarttime.insert taskId now }
    else s
  (if replySent then { s with numTasks := s.numTasks + 1 } else s, taskReg)

def declareTaskDead (s : Registry) (taskId : UInt32) : Registry × UInt32 :=
  if taskId ∈ s.taskToStarttime then
    ({ s with
       taskToRemainingTime := s.taskToRemainingTime.insert taskId (-1)
       taskToStarttime := s.taskToStarttime.erase taskId
       numTasks := s.numTasks - 1 }, 0)
  else (s, 1)

def processDeregisterTask (s : Registry) (taskId : UInt32) : Registry × UInt32 :=
  if taskId ∈ s.registeredTasks then declareTaskDead s taskId else (s, 2)

/- The test of the sweep for one entry; `task_to_remaining_time[task_id]` yields 0 for a missing key. -/
def overdue (s : Registry) (now : Int) (taskId : UInt32) : Bool :=
  match s.taskToStarttime.lookup taskId with
  | some start =>
    (s.taskToRemainingTime.lookup taskId).getD 0 + timeoutThresholdSec < elapsedSec now start
  | none => false

/- One turn of the loop of a sweep that may declare dead the tasks in `picks` only. -/
def sweepOne (now : Int) (picks : UInt32 → Bool) (s : Registry) (taskId : UInt32) : Registry :=
  if picks taskId && overdue s now taskId then (declareTaskDead s taskId).1 else s

/- The loop over the entries that are there when it starts. Where the code's loop advances an iterator to an
erased entry, which is undefined, this one goes on; a loop that ends has done the same (`iterate_refines`). -/
def sweep (s : Registry) (now : Int) (picks : UInt32 → Bool) : Registry :=
  s.taskToStarttime.keys.foldl (sweepOne now picks) s

def checkTasksLifetime (s : Registry) (now : Int) : Registry := sweep s now fun _ => true

inductive Op where
  | register (taskId remainingTime : UInt32) (now : Int) (replySent : Bool)
  | deregister (taskId : UInt32)
  | lifetime (now : Int) (picks : UInt32 → Bool)

def step (s : Registry) : Op → Registry × Option UInt32
  | .register taskId remainingTime now replySent =>
    let r := processRegisterTask s taskId remainingTime now replySent
    (r.1, some r.2)
  | .deregister taskId => let r := processDeregisterTask s taskId; (r.1, some r.2)
  | .lifetime now picks => (sweep s now picks, none)

def stateAfter (ops : List Op) : Registry := Machine.exec step {} ops

/- The reply to the operation at position `k` of a run from server start. -/
def replyAt (ops : List Op) (k : Nat) : Option UInt32 := (Machine.reply step {} ops k).join

/- What one id has gone through: never registered, running, or ended by a deregistration or a timeout. -/
inductive Life where
  | unseen
  | running (remaining start : Int)
  | ended
  deriving DecidableEq, Repr

def life (s : Registry) (id : UInt32) : Life :=
  if id ∈ s.registeredTasks then
    match s.taskToStarttime.lookup id with
    | some start => .running ((s.taskToRemainingTime.lookup id).getD 0) start
    | none => .ended
  else .unseen

def Life.timedOut (now : Int) : Life → Bool
  | .running remaining start => remaining + timeoutThresholdSec < elapsedSec now start
  | _ => false

@[simp] theorem Life.unseen_in_time (now : Int) : Life.unseen.timedOut now = false := rfl

@[simp] theorem Life.ended_in_time (now : Int) : Life.ended.timedOut now = false := rfl

/- The registry as one id sees it: a machine of its own, which other ids cannot disturb. -/
def Life.step (id : UInt32) (l : Life) : Op → Life × Option UInt32
  | .register taskId remainingTime now _ =>
    if taskId = id then
      match l with
      | .unseen => (.running remainingTime.toNat now, some 0)
      | l => (l, some 1)
    else (l, none)
  | .deregister taskId =>
    if taskId = id then
      match l with
      | .unseen => (.unseen, some 2)
      | .running _ _ => (.ended, some 0)
      | .ended => (.ended, some 1)
    else (l, none)
  | .lifetime now picks => (if picks id && l.timedOut now then .ended else l, none)

def Op.registers (id : UInt32) : Op → Bool
  | .register taskId _ _ _ => taskId = id
  | _ => false

def Op.deregisters (id : UInt32) : Op → Bool
  | .deregister taskId => taskId = id
  | _ => false

def Op.asks (id : UInt32) (op : Op) : Bool := op.registers id || op.deregisters id

theorem life_unseen_iff (s : Registry) (id : UInt32) :
    life s id = .unseen ↔ id ∉ s.registeredTasks := by
  unfold life
  split
  · rename_i known
    cases s.taskToStarttime.lookup id <;> simp [known]
  · rename_i unknown
    simp [unknown]

theorem life_of_register (s : Registry) (taskId remaining : UInt32) (now : Int) (sent : Bool)
    (id : UInt32) :
    life (processRegisterTask s taskId remaining now sent).1 id =
      (Life.step id (life s id) (.register taskId remaining now sent)).1 := by
  have counter_unseen : life (processRegisterTask s taskId remaining now sent).1 id =
      life (processRegisterTask s taskId remaining now false).1 id := by
    cases sent <;> rfl
  rw [counter_unseen]
  by_cases known : taskId ∈ s.registeredTasks
  · by_cases same : taskId = id
    · subst same
      have seen : life s taskId ≠ .unseen := by simpa [life_unseen_iff] using known
      simp only [processRegisterTask, known, Life.step, if_true]
      cases l : life s taskId with
      | unseen => exact absurd l seen
      | running r t => simpa using l
      | ended => simpa using l
    · simp [processRegisterTask, known, Life.step, same]
  · by_cases same : taskId = id
    · subst same
      simp [processRegisterTask, known, life, Life.step]
    · have other : id ≠ taskId := Ne.symm same
      simp [processRegisterTask, known, life, Life.step, same, other,
        AList.lookup_insert_ne other]

theorem life_of_declared (s : Registry) (taskId id : UInt32) :
    life (declareTaskDead s taskId).1 id =
      if taskId = id ∧ life s id ≠ .unseen then .ended else life s id := by
  by_cases active : taskId ∈ s.taskToStarttime
  · by_cases same : taskId = id
    · subst same
      by_cases known : taskId ∈ s.registeredTasks
      · have seen : life s taskId ≠ .unseen := by simpa [life_unseen_iff] using known
        simp only [declareTaskDead, active, if_true, seen, ne_eq, not_false_eq_true, and_self]
        simp [life, known]
      · simp [declareTaskDead, active, life, known]
    · have other : id ≠ taskId := Ne.symm same
      simp [declareTaskDead, active, life, same, AList.lookup_insert_ne other,
        AList.lookup_erase_ne other]
  · have gone : s.taskToStarttime.lookup taskId = none := AList.lookup_eq_none.mpr active
    by_cases same : taskId = id
    · subst same
      by_cases known : taskId ∈ s.registeredTasks <;>
        simp [declareTaskDead, active, life, known, gone]
    · simp [declareTaskDead, active, same]

theorem life_running_iff (s : Registry) (id : UInt32) :
    (∃ r t, life s id = .running r t) ↔ id ∈ s.registeredTasks ∧ id ∈ s.taskToStarttime := by
  unfold life
  rw [← AList.lookup_isSome]
  by_cases known : id ∈ s.registeredTasks <;>
    cases s.taskToStarttime.lookup id <;> simp [known]

theorem overdue_eq_timedOut (s : Registry) (now : Int) (id : UInt32) (known : id ∈ s.registeredTasks) :
    overdue s now id = (life s id).timedOut now := by
  unfold overdue life
  cases s.taskToStarttime.lookup id <;> simp [known, Life.timedOut]

theorem declared_frame (s : Registry) (taskId : UInt32) :
    (declareTaskDead s taskId).1.registeredTasks = s.registeredTasks := by
  unfold declareTaskDead
  split <;> rfl

theorem sweepOne_registered (now : Int) (picks : UInt32 → Bool) (s : Registry) (taskId : UInt32) :
    (sweepOne now picks s taskId).registeredTasks = s.registeredTasks := by
  unfold sweepOne
  split
  · exact declared_frame s taskId
  · rfl

theorem life_of_sweepOne (now : Int) (picks : UInt32 → Bool) (s : Registry) (taskId id : UInt32) :
    life (sweepOne now picks s taskId) id =
      if taskId = id ∧ picks id ∧ (life s id).timedOut now then .ended else life s id := by
  by_cases same : taskId = id
  · subst same
    by_cases known : taskId ∈ s.registeredTasks
    · have seen : life s taskId ≠ .unseen := by simpa [life_unseen_iff] using known
      rw [sweepOne, overdue_eq_timedOut s now taskId known]
      cases picks taskId <;> cases t : (life s taskId).timedOut now <;>
        simp [life_of_declared, seen]
    · have unseen := (life_unseen_iff s taskId).mpr known
      have still : taskId ∉ (sweepOne now picks s taskId).registeredTasks := by
        rwa [sweepOne_registered]
      rw [(life_unseen_iff _ _).mpr still, unseen]
      simp
  · simp only [same, false_and, if_false, sweepOne]
    split
    · simp [life_of_declared, same]
    · rfl

/- The walk visits every key at most once, so each id is tested against its own entry. -/
theorem life_of_walk (now : Int) (picks : UInt32 → Bool) (keys : List UInt32) (s : Registry)
    (id : UInt32) :
    life (keys.foldl (sweepOne now picks) s) id =
      if id ∈ keys ∧ picks id ∧ (life s id).timedOut now then .ended else life s id := by
  induction keys generalizing s with
  | nil => simp
  | cons taskId rest ih =>
    rw [List.foldl_cons, ih, life_of_sweepOne]
    by_cases same : taskId = id
    · subst same
      by_cases out : picks taskId ∧ (life s taskId).timedOut now
      · simp [out.1, out.2]
      · have stays : ¬ (picks taskId = true ∧ (life s taskId).timedOut now = true) := out
        simp [stays]
    · have other : ¬ id = taskId := fun e => same e.symm
      simp [same, other]

theorem life_of_sweep (s : Registry) (now : Int) (picks : UInt32 → Bool) (id : UInt32) :
    life (sweep s now picks) id = (Life.step id (life s id) (.lifetime now picks)).1 := by
  have walked := life_of_walk now picks s.taskToStarttime.keys s id
  change life (sweep s now picks) id = _ at walked
  rw [walked]
  by_cases out : (life s id).timedOut now = true
  · have running : ∃ r t, life s id = .running r t := by
      cases l : life s id <;> simp_all [Life.timedOut]
    have present := AList.mem_keys.mp ((life_running_iff s id).mp running).2
    by_cases picked : picks id = true <;> simp [Life.step, out, present, picked]
  · simp [Life.step, out]

theorem step_life (s : Registry) (op : Op) (id : UInt32) :
    life (step s op).1 id = (Life.step id (life s id) op).1 := by
  cases op with
  | register taskId remaining now sent => exact life_of_register s taskId remaining now sent id
  | lifetime now picks => exact life_of_sweep s now picks id
  | deregister taskId =>
    simp only [step, processDeregisterTask]
    split
    · rename_i known
      rw [life_of_declared]
      by_cases same : taskId = id
      · subst same
        have seen : life s taskId ≠ .unseen := by simpa [life_unseen_iff] using known
        cases l : life s taskId <;> simp_all [Life.step]
      · simp [Life.step, same]
    · rename_i unknown
      by_cases same : taskId = id
      · subst same
        simp [Life.step, (life_unseen_iff s taskId).mpr unknown]
      · simp [Life.step, same]

theorem step_reply (s : Registry) (op : Op) (id : UInt32) (asks : op.asks id) :
    (step s op).2 = (Life.step id (life s id) op).2 := by
  cases op with
  | lifetime now picks => simp [Op.asks, Op.registers, Op.deregisters] at asks
  | register taskId remaining now sent =>
    obtain rfl : taskId = id := by simpa [Op.asks, Op.registers, Op.deregisters] using asks
    by_cases known : taskId ∈ s.registeredTasks
    · have seen : life s taskId ≠ .unseen := by simpa [life_unseen_iff] using known
      cases l : life s taskId with
      | unseen => exact absurd l seen
      | running r t => simp [step, processRegisterTask, known, Life.step]
      | ended => simp [step, processRegisterTask, known, Life.step]
    · simp [step, processRegisterTask, known, Life.step, (life_unseen_iff s taskId).mpr known]
  | deregister taskId =>
    obtain rfl : taskId = id := by simpa [Op.asks, Op.registers, Op.deregisters] using asks
    by_cases known : taskId ∈ s.registeredTasks
    · by_cases active : taskId ∈ s.taskToStarttime
      · obtain ⟨r, t, l⟩ := (life_running_iff s taskId).mpr ⟨known, active⟩
        simp [step, processDeregisterTask, declareTaskDead, known, active, Life.step, l]
      · have gone : s.taskToStarttime.lookup taskId = none := AList.lookup_eq_none.mpr active
        have l : life s taskId = .ended := by simp [life, known, gone]
        simp [step, processDeregisterTask, declareTaskDead, known, active, Life.step, l]
    · have l := (life_unseen_iff s taskId).mpr known
      simp [step, processDeregisterTask, known, Life.step, l]

theorem register_reply (s : Registry) (id remaining : UInt32) (now : Int) (sent : Bool) :
    (processRegisterTask s id remaining now sent).2 = if life s id = .unseen then 0 else 1 := by
  have reply := step_reply s (.register id remaining now sent) id (by simp [Op.asks, Op.registers])
  simp only [step, Life.step, if_true] at reply
  cases before : life s id <;> simp_all

theorem life_registered (s : Registry) (id remaining : UInt32) (now : Int) (sent : Bool) :
    life (processRegisterTask s id remaining now sent).1 id =
      if life s id = .unseen then .running remaining.toNat now else life s id := by
  have after := step_life s (.register id remaining now sent) id
  simp only [step, Life.step, if_true] at after
  cases before : life s id <;> simp_all

theorem life_deregistered (s : Registry) (id : UInt32) :
    life (processDeregisterTask s id).1 id = if life s id = .unseen then .unseen else .ended := by
  have after := step_life s (.deregister id) id
  simp only [step, Life.step, if_true] at after
  cases before : life s id <;> simp_all

theorem life_after (ops : List Op) (id : UInt32) :
    life (stateAfter ops) id = ops.foldl (fun l op => (Life.step id l op).1) .unseen :=
  Machine.exec_view step (fun s => life s id) (fun s op => step_life s op id) {} ops

theorem replyAt_of_op {ops : List Op} {k : Nat} {op : Op} (here : ops[k]? = some op) :
    replyAt ops k = (step (stateAfter (ops.take k)) op).2 := by
  rw [replyAt, Machine.reply_of_input step {} here]
  rfl

theorem stateAfter_take_succ {ops : List Op} {k : Nat} {op : Op} (here : ops[k]? = some op) :
    stateAfter (ops.take (k + 1)) = (step (stateAfter (ops.take k)) op).1 :=
  Machine.exec_take_succ step {} here

theorem reply_from_life {ops : List Op} {k : Nat} {op : Op} (here : ops[k]? = some op)
    (id : UInt32) (asks : op.asks id) :
    replyAt ops k = (Life.step id (life (stateAfter (ops.take k)) id) op).2 := by
  rw [replyAt_of_op here, step_reply _ _ id asks]

def RegistersAt (ops : List Op) (k : Nat) (id : UInt32) : Prop :=
  ∃ op, ops[k]? = some op ∧ op.registers id = true

def DeregistersAt (ops : List Op) (k : Nat) (id : UInt32) : Prop :=
  ∃ op, ops[k]? = some op ∧ op.deregisters id = true

/- The operation at `k` is a sweep that finds the id active and overdue and declares it dead. -/
def DeclaredDeadAt (ops : List Op) (k : Nat) (id : UInt32) : Prop :=
  ∃ now picks, ops[k]? = some (.lifetime now picks) ∧ picks id = true ∧
    id ∈ (stateAfter (ops.take k)).taskToStarttime ∧ overdue (stateAfter (ops.take k)) now id = true

/- Before position `k` the id was registered, and neither deregistered nor declared dead since. -/
def LiveAt (ops : List Op) (k : Nat) (id : UInt32) : Prop :=
  ∃ j < k, RegistersAt ops j id ∧ replyAt ops j = some 0 ∧
    ∀ i, j < i → i < k → ¬ DeregistersAt ops i id ∧ ¬ DeclaredDeadAt ops i id

def Life.rank : Life → Nat
  | .unseen => 0
  | .running _ _ => 1
  | .ended => 2

theorem Life.rank_zero_step (id : UInt32) (l : Life) (op : Op) :
    (Life.step id l op).1.rank = 0 ↔ l.rank = 0 ∧ op.registers id = false := by
  cases op with
  | register taskId remaining now sent =>
    by_cases same : taskId = id <;> cases l <;> simp [Life.step, Life.rank, Op.registers, same]
  | deregister taskId =>
    by_cases same : taskId = id <;> cases l <;> simp [Life.step, Life.rank, Op.registers, same]
  | lifetime now picks =>
    simp only [Life.step, Op.registers]
    split
    · rename_i out
      cases l <;> simp_all [Life.rank]
    · simp

def Life.endedBy (id : UInt32) (l : Life) : Op → Bool
  | .register _ _ _ _ => false
  | .deregister taskId => taskId = id
  | .lifetime now picks => picks id && l.timedOut now

theorem Life.rank_one_step (id : UInt32) (l : Life) (op : Op) :
    (Life.step id l op).1.rank = 1 ↔
      l.rank = 0 ∧ op.registers id = true ∨ l.rank = 1 ∧ l.endedBy id op = false := by
  cases op with
  | register taskId remaining now sent =>
    by_cases same : taskId = id <;> cases l <;>
      simp [Life.step, Life.rank, Op.registers, Life.endedBy, same]
  | deregister taskId =>
    by_cases same : taskId = id <;> cases l <;>
      simp [Life.step, Life.rank, Op.registers, Life.endedBy, same]
  | lifetime now picks =>
    simp only [Life.step, Op.registers, Life.endedBy]
    split
    · rename_i out
      cases l <;> simp_all [Life.rank]
    · rename_i out
      cases l <;> simp_all [Life.rank]

theorem Life.rank_mono (id : UInt32) (l : Life) (op : Op) : l.rank ≤ (Life.step id l op).1.rank := by
  cases op <;> cases l <;> simp only [Life.step] <;> split <;> simp [Life.rank]

def rankAt (ops : List Op) (k : Nat) (id : UInt32) : Nat := (life (stateAfter (ops.take k)) id).rank

theorem rankAt_step {ops : List Op} {k : Nat} {op : Op} (here : ops[k]? = some op) (id : UInt32) :
    rankAt ops (k + 1) id = (Life.step id (life (stateAfter (ops.take k)) id) op).1.rank := by
  rw [rankAt, stateAfter_take_succ here, step_life]

theorem rankAt_mono (ops : List Op) (id : UInt32) {j k : Nat} (le : j ≤ k) :
    rankAt ops j id ≤ rankAt ops k id := by
  induction le with
  | refl => exact Nat.le_refl _
  | @step k _ ih =>
    cases here : ops[k]? with
    | none =>
      have all := List.getElem?_eq_none_iff.mp here
      have same : ops.take (k + 1) = ops.take k := by
        rw [List.take_of_length_le all, List.take_of_length_le (by omega)]
      have still : rankAt ops (k + 1) id = rankAt ops k id := by rw [rankAt, same, rankAt]
      exact still ▸ ih
    | some op =>
      rw [Nat.succ_eq_add_one, rankAt_step here]
      exact Nat.le_trans ih (Life.rank_mono _ _ _)

theorem rank_rises_once {ops : List Op} {id : UInt32} {r j k : Nat}
    (atj : rankAt ops j id = r ∧ rankAt ops (j + 1) id = r + 1)
    (atk : rankAt ops k id = r ∧ rankAt ops (k + 1) id = r + 1) : j = k := by
  rcases Nat.lt_trichotomy j k with lt | eq | gt
  · have le : rankAt ops (j + 1) id ≤ rankAt ops k id := rankAt_mono ops id lt
    omega
  · exact eq
  · have le : rankAt ops (k + 1) id ≤ rankAt ops j id := rankAt_mono ops id gt
    omega

/- What the replies to one id say about its life before and after the operation. -/
theorem register_reply_ranks {ops : List Op} {k : Nat} {id : UInt32} (reg : RegistersAt ops k id) :
    replyAt ops k = some 0 ∧ rankAt ops k id = 0 ∧ rankAt ops (k + 1) id = 1 ∨
      replyAt ops k = some 1 ∧ 1 ≤ rankAt ops k id := by
  obtain ⟨op, here, registers⟩ := reg
  rw [rankAt_step here, reply_from_life here id (by simp [Op.asks, registers]), rankAt]
  cases op with
  | register taskId remaining now sent =>
    obtain rfl : taskId = id := by simpa [Op.registers] using registers
    cases life (stateAfter (ops.take k)) taskId <;> simp [Life.step, Life.rank]
  | deregister taskId => simp [Op.registers] at registers
  | lifetime now picks => simp [Op.registers] at registers

theorem deregister_reply_ranks {ops : List Op} {k : Nat} {id : UInt32} (dereg : DeregistersAt ops k id) :
    replyAt ops k = some 2 ∧ rankAt ops k id = 0 ∨
      replyAt ops k = some 0 ∧ rankAt ops k id = 1 ∧ rankAt ops (k + 1) id = 2 ∨
      replyAt ops k = some 1 ∧ rankAt ops k id = 2 := by
  obtain ⟨op, here, deregisters⟩ := dereg
  rw [rankAt_step here, reply_from_life here id (by simp [Op.asks, deregisters]), rankAt]
  cases op with
  | register taskId remaining now sent => simp [Op.deregisters] at deregisters
  | deregister taskId =>
    obtain rfl : taskId = id := by simpa [Op.deregisters] using deregisters
    cases life (stateAfter (ops.take k)) taskId <;> simp [Life.step, Life.rank]
  | lifetime now picks => simp [Op.deregisters] at deregisters

theorem rankAt_zero_iff (ops : List Op) (id : UInt32) (k : Nat) (inside : k ≤ ops.length) :
    rankAt ops k id = 0 ↔ ¬ ∃ j < k, RegistersAt ops j id := by
  induction k with
  | zero => simp [rankAt, stateAfter, life, Life.rank]
  | succ k ih =>
    have here : ops[k]? = some ops[k] := List.getElem?_eq_getElem (by omega)
    have last : RegistersAt ops k id ↔ ops[k].registers id = true := by simp [RegistersAt, here]
    rw [rankAt_step here, Life.rank_zero_step]
    change rankAt ops k id = 0 ∧ _ ↔ _
    rw [ih (by omega)]
    constructor
    · rintro ⟨before, quiet⟩ ⟨j, lt, reg⟩
      by_cases now : j = k
      · subst now
        simp [last.mp reg] at quiet
      · exact before ⟨j, by omega, reg⟩
    · intro none
      refine ⟨fun ⟨j, lt, reg⟩ => none ⟨j, by omega, reg⟩, ?_⟩
      by_contra reg
      exact none ⟨k, by omega, last.mpr (by simpa using reg)⟩

/- An id that is running is ended exactly by its deregistration and by a sweep that declares it dead. -/
theorem endedBy_iff {ops : List Op} {k : Nat} {op : Op} {id : UInt32} (here : ops[k]? = some op)
    (running : rankAt ops k id = 1) :
    (life (stateAfter (ops.take k)) id).endedBy id op = true ↔
      DeregistersAt ops k id ∨ DeclaredDeadAt ops k id := by
  have known : ∃ r t, life (stateAfter (ops.take k)) id = .running r t := by
    rw [rankAt] at running
    cases l : life (stateAfter (ops.take k)) id <;> simp_all [Life.rank]
  obtain ⟨registered, active⟩ := (life_running_iff _ id).mp known
  have test := fun now => overdue_eq_timedOut (stateAfter (ops.take k)) now id registered
  cases op with
  | register taskId remaining now sent =>
    simp [Life.endedBy, DeregistersAt, DeclaredDeadAt, here, Op.deregisters]
  | deregister taskId =>
    simp [Life.endedBy, DeregistersAt, DeclaredDeadAt, here, Op.deregisters]
  | lifetime now picks =>
    simp only [Life.endedBy, DeregistersAt, DeclaredDeadAt, here, Op.deregisters, ← test,
      Bool.and_eq_true]
    constructor
    · rintro ⟨picked, out⟩
      exact Or.inr ⟨now, picks, rfl, picked, active, out⟩
    · rintro (⟨_, same, wrong⟩ | ⟨_, _, same, picked, _, out⟩)
      · cases same
        simp at wrong
      · cases same
        exact ⟨picked, out⟩

theorem liveAt_succ (ops : List Op) (k : Nat) (id : UInt32) :
    LiveAt ops (k + 1) id ↔
      RegistersAt ops k id ∧ replyAt ops k = some 0 ∨
        LiveAt ops k id ∧ ¬ DeregistersAt ops k id ∧ ¬ DeclaredDeadAt ops k id := by
  constructor
  · rintro ⟨j, lt, reg, zero, quiet⟩
    by_cases now : j = k
    · subst now
      exact Or.inl ⟨reg, zero⟩
    · exact Or.inr ⟨⟨j, by omega, reg, zero, fun i a b => quiet i a (by omega)⟩,
        quiet k (by omega) (by omega)⟩
  · rintro (⟨reg, zero⟩ | ⟨⟨j, lt, reg, zero, quiet⟩, last⟩)
    · exact ⟨k, by omega, reg, zero, fun i a b => by omega⟩
    · refine ⟨j, by omega, reg, zero, fun i a b => ?_⟩
      by_cases now : i = k
      · exact now ▸ last
      · exact quiet i a (by omega)

theorem rankAt_one_iff (ops : List Op) (id : UInt32) (k : Nat) (inside : k ≤ ops.length) :
    rankAt ops k id = 1 ↔ LiveAt ops k id := by
  induction k with
  | zero => simp [rankAt, stateAfter, life, Life.rank, LiveAt]
  | succ k ih =>
    have here : ops[k]? = some ops[k] := List.getElem?_eq_getElem (by omega)
    have last : RegistersAt ops k id ↔ ops[k].registers id = true := by simp [RegistersAt, here]
    have first : RegistersAt ops k id ∧ replyAt ops k = some 0 ↔
        rankAt ops k id = 0 ∧ ops[k].registers id = true := by
      rw [← last]
      constructor
      · rintro ⟨reg, zero⟩
        rcases register_reply_ranks reg with ⟨_, fresh, _⟩ | ⟨one, _⟩
        · exact ⟨fresh, reg⟩
        · simp [zero] at one
      · rintro ⟨fresh, reg⟩
        rcases register_reply_ranks reg with ⟨zero, _, _⟩ | ⟨_, old⟩
        · exact ⟨reg, zero⟩
        · omega
    rw [rankAt_step here, Life.rank_one_step, liveAt_succ, first, ← ih (by omega), ← not_or]
    change rankAt ops k id = 0 ∧ _ ∨ rankAt ops k id = 1 ∧ _ ↔ _
    refine or_congr_right (and_congr_right fun running => ?_)
    rw [← endedBy_iff here running, Bool.not_eq_true]

/- The part of an operation that concerns one id: a sweep is cut down to that id. -/
def Op.restrict (id : UInt32) : Op → Option Op
  | .register taskId remaining now sent =>
    if taskId = id then some (.register taskId remaining now sent) else none
  | .deregister taskId => if taskId = id then some (.deregister taskId) else none
  | .lifetime now picks => some (.lifetime now fun i => picks i && i == id)

/- The replies given for one id, in order. -/
def repliesFor (id : UInt32) (s : Registry) (ops : List Op) : List (Option UInt32) :=
  ((Machine.replies step s ops).filter (·.1.asks id)).map (·.2)

theorem repliesFor_cons (id : UInt32) (s : Registry) (op : Op) (ops : List Op) :
    repliesFor id s (op :: ops) =
      (if op.asks id then [(Life.step id (life s id) op).2] else []) ++
        repliesFor id (step s op).1 ops := by
  by_cases asks : op.asks id = true
  · simp [repliesFor, Machine.replies, asks, step_reply s op id asks]
  · simp [repliesFor, Machine.replies, asks]

theorem Life.step_restricted (id : UInt32) (l : Life) (now : Int) (picks : UInt32 → Bool) :
    Life.step id l (.lifetime now fun i => picks i && i == id) = Life.step id l (.lifetime now picks) := by
  simp [Life.step]

theorem repliesFor_restrict (id : UInt32) (s t : Registry) (same : life s id = life t id)
    (ops : List Op) : repliesFor id s ops = repliesFor id t (ops.filterMap (Op.restrict id)) := by
  induction ops generalizing s t with
  | nil => rfl
  | cons op rest ih =>
    have advance : ∀ op', Life.step id (life s id) op = Life.step id (life t id) op' →
        life (step s op).1 id = life (step t op').1 id := by
      intro op' agree
      rw [step_life, step_life, agree]
    have skip : Op.restrict id op = none → op.asks id = false ∧
        (Life.step id (life s id) op).1 = life s id := by
      cases op with
      | lifetime now picks => simp [Op.restrict]
      | register taskId remaining now sent =>
        simp +contextual [Op.restrict, Op.asks, Op.registers, Op.deregisters, Life.step]
      | deregister taskId =>
        simp +contextual [Op.restrict, Op.asks, Op.registers, Op.deregisters, Life.step]
    have keep : ∀ op', Op.restrict id op = some op' → op'.asks id = op.asks id ∧
        Life.step id (life s id) op = Life.step id (life t id) op' := by
      intro op' kept
      rw [same]
      cases op with
      | lifetime now picks =>
        cases kept
        exact ⟨rfl, (Life.step_restricted id _ now picks).symm⟩
      | register taskId remaining now sent =>
        simp only [Op.restrict, Option.ite_none_right_eq_some, Option.some.injEq] at kept
        simp [kept.2]
      | deregister taskId =>
        simp only [Op.restrict, Option.ite_none_right_eq_some, Option.some.injEq] at kept
        simp [kept.2]
    rw [repliesFor_cons, List.filterMap_cons]
    cases cut : Op.restrict id op with
    | none =>
      obtain ⟨silent, still⟩ := skip cut
      have unmoved : life (step s op).1 id = life t id := by rw [step_life, still, same]
      simpa [silent] using ih _ _ unmoved
    | some op' =>
      obtain ⟨asks, agree⟩ := keep op' cut
      rw [repliesFor_cons, ← agree, asks, ih _ _ (advance op' agree)]

/- At most one registration and one deregistration of an id succeed in any run, every reply is
   determined by the history of its own id, and the operations on other ids have no part in it. -/
theorem registry_at_most_once (ops : List Op) (id : UInt32) :
    (∀ k, RegistersAt ops k id → replyAt ops k = some 0 ∨ replyAt ops k = some 1) ∧
    (∀ j k, RegistersAt ops j id → RegistersAt ops k id →
      replyAt ops j = some 0 → replyAt ops k = some 0 → j = k) ∧
    (∀ k, DeregistersAt ops k id →
      (replyAt ops k = some 2 ↔ ¬ ∃ j < k, RegistersAt ops j id) ∧
      (replyAt ops k = some 0 ↔ LiveAt ops k id) ∧
      (replyAt ops k = some 1 ↔ (∃ j < k, RegistersAt ops j id) ∧ ¬ LiveAt ops k id)) ∧
    (∀ j k, DeregistersAt ops j id → DeregistersAt ops k id →
      replyAt ops j = some 0 → replyAt ops k = some 0 → j = k) ∧
    repliesFor id {} ops = repliesFor id {} (ops.filterMap (Op.restrict id)) := by
  refine ⟨?_, ?_, ?_, ?_, repliesFor_restrict id {} {} rfl ops⟩
  · intro k reg
    rcases register_reply_ranks reg with ⟨zero, _, _⟩ | ⟨one, _⟩
    · exact Or.inl zero
    · exact Or.inr one
  · intro j k regj regk zeroj zerok
    have fresh : ∀ i, RegistersAt ops i id → replyAt ops i = some 0 →
        rankAt ops i id = 0 ∧ rankAt ops (i + 1) id = 1 := by
      intro i reg zero
      rcases register_reply_ranks reg with ⟨_, before, after⟩ | ⟨one, _⟩
      · exact ⟨before, after⟩
      · simp [zero] at one
    exact rank_rises_once (fresh j regj zeroj) (fresh k regk zerok)
  · intro k dereg
    have inside : k < ops.length := by
      obtain ⟨op, here, _⟩ := dereg
      exact (List.getElem?_eq_some_iff.mp here).1
    rw [← rankAt_zero_iff ops id k (by omega), ← rankAt_one_iff ops id k (by omega)]
    have never : (∃ j < k, RegistersAt ops j id) ↔ rankAt ops k id ≠ 0 := by
      rw [Ne, rankAt_zero_iff ops id k (by omega), not_not]
    rw [never]
    rcases deregister_reply_ranks dereg with ⟨r, h⟩ | ⟨r, h, _⟩ | ⟨r, h⟩ <;> simp [r, h]
  · intro j k deregj deregk zeroj zerok
    have ending : ∀ i, DeregistersAt ops i id → replyAt ops i = some 0 →
        rankAt ops i id = 1 ∧ rankAt ops (i + 1) id = 2 := by
      intro i dereg zero
      rcases deregister_reply_ranks dereg with ⟨two, _⟩ | ⟨_, before, after⟩ | ⟨one, _⟩
      · simp [zero] at two
      · exact ⟨before, after⟩
      · simp [zero] at one
    exact rank_rises_once (ending j deregj zeroj) (ending k deregk zerok)

end TaskRegistry

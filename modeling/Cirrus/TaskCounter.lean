import Cirrus.TaskRegistry
import Mathlib.Data.UInt

/-!
The counter `num_tasks` ("num of currently reg. tasks") against the table it
counts. The counter is incremented after every reply that is sent, and the
table grows at every first registration, so the two part ways at a repeated
registration and at a first registration whose reply is lost.
-/
namespace TaskRegistry

/- The number of ids in `task_to_starttime`. -/
def activeCount (s : Registry) : Nat := s.taskToStarttime.keys.length

def CounterExact (s : Registry) : Prop := s.numTasks.toNat = activeCount s

instance (s : Registry) : Decidable (CounterExact s) :=
  inferInstanceAs (Decidable (s.numTasks.toNat = activeCount s))

def WellKept (s : Registry) : Prop :=
  ∀ id ∈ s.taskToStarttime,
    id ∈ s.registeredTasks ∧ ∃ r, s.taskToRemainingTime.lookup id = some r ∧ 0 ≤ r

/- By how much the counter is ahead of the table, in the counter's own arithmetic. -/
def excess (s : Registry) : UInt32 := s.numTasks - UInt32.ofNat (activeCount s)

def drift (s : Registry) : Op → UInt32
  | .register taskId _ _ replySent =>
    if taskId ∈ s.registeredTasks then (if replySent then 1 else 0) else (if replySent then 0 else -1)
  | _ => 0

theorem counterExact_iff (s : Registry) :
    CounterExact s ↔ excess s = 0 ∧ activeCount s < 2 ^ 32 := by
  unfold CounterExact excess
  constructor
  · intro exact
    have bound : activeCount s < 2 ^ 32 := exact ▸ s.numTasks.toNat_lt
    refine ⟨?_, bound⟩
    rw [← exact, UInt32.ofNat_toNat, sub_self]
  · rintro ⟨none, bound⟩
    rw [sub_eq_zero.mp none, UInt32.toNat_ofNat_of_lt' bound]

theorem activeCount_erase {s : Registry} {taskId : UInt32} (active : taskId ∈ s.taskToStarttime) :
    (s.taskToStarttime.erase taskId).keys.length + 1 = activeCount s := by
  have member := AList.mem_keys.mp active
  rw [AList.keys_erase, List.length_erase_of_mem member, activeCount]
  have := List.length_pos_of_mem member
  omega

theorem activeCount_insert {s : Registry} {taskId : UInt32} (absent : taskId ∉ s.taskToStarttime)
    (now : Int) : (s.taskToStarttime.insert taskId now).keys.length = activeCount s + 1 := by
  rw [AList.keys_insert, List.length_cons, List.erase_of_not_mem (by rwa [← AList.mem_keys]),
    activeCount]

theorem excess_declared (s : Registry) (taskId : UInt32) :
    excess (declareTaskDead s taskId).1 = excess s := by
  by_cases active : taskId ∈ s.taskToStarttime
  · have less := activeCount_erase active
    simp only [declareTaskDead, active, if_true, excess]
    rw [← less, activeCount, UInt32.ofNat_add]
    grind
  · simp [declareTaskDead, active]

theorem excess_sweep (s : Registry) (now : Int) (picks : UInt32 → Bool) :
    excess (sweep s now picks) = excess s := by
  have walk : ∀ (keys : List UInt32) (s : Registry),
      excess (keys.foldl (sweepOne now picks) s) = excess s := by
    intro keys
    induction keys with
    | nil => intro s; rfl
    | cons taskId rest ih =>
      intro s
      rw [List.foldl_cons, ih]
      unfold sweepOne
      split
      · exact excess_declared s taskId
      · rfl
  exact walk _ s

theorem excess_register (s : Registry) (kept : WellKept s) (taskId remaining : UInt32) (now : Int)
    (sent : Bool) :
    excess (processRegisterTask s taskId remaining now sent).1 =
      excess s + drift s (.register taskId remaining now sent) := by
  by_cases known : taskId ∈ s.registeredTasks
  · cases sent
    · simp [processRegisterTask, known, drift, excess, activeCount]
    · simp only [processRegisterTask, known, drift, excess, activeCount, if_true]
      grind
  · have absent : taskId ∉ s.taskToStarttime := fun active => known (kept taskId active).1
    have more := activeCount_insert absent now
    cases sent
    · have same : excess (processRegisterTask s taskId remaining now false).1 =
          s.numTasks - UInt32.ofNat (s.taskToStarttime.insert taskId now).keys.length := by
        simp [processRegisterTask, known, excess, activeCount]
      rw [same, more, UInt32.ofNat_add]
      simp [drift, known, excess]
      grind
    · have same : excess (processRegisterTask s taskId remaining now true).1 =
          s.numTasks + 1 - UInt32.ofNat (s.taskToStarttime.insert taskId now).keys.length := by
        simp [processRegisterTask, known, excess, activeCount]
      rw [same, more, UInt32.ofNat_add]
      simp [drift, known, excess]

theorem excess_step (s : Registry) (kept : WellKept s) (op : Op) :
    excess (step s op).1 = excess s + drift s op := by
  cases op with
  | register taskId remaining now sent => exact excess_register s kept taskId remaining now sent
  | lifetime now picks => simpa [step, drift] using excess_sweep s now picks
  | deregister taskId =>
    have still : excess (processDeregisterTask s taskId).1 = excess s := by
      unfold processDeregisterTask
      split
      · exact excess_declared s taskId
      · rfl
    simpa [step, drift] using still

/- Every running id has been registered and has the remaining time it registered with. -/
theorem wellKept_declared {s : Registry} (kept : WellKept s) (taskId : UInt32) :
    WellKept (declareTaskDead s taskId).1 := by
  by_cases active : taskId ∈ s.taskToStarttime
  · intro id running
    simp only [declareTaskDead, active, if_true, AList.mem_erase] at running
    obtain ⟨known, r, time, natural⟩ := kept id running.2
    refine ⟨by simpa [declareTaskDead, active] using known, r, ?_, natural⟩
    simpa [declareTaskDead, active, AList.lookup_insert_ne running.1] using time
  · simpa [declareTaskDead, active] using kept

theorem wellKept_register {s : Registry} (kept : WellKept s) (taskId remaining : UInt32) (now : Int)
    (sent : Bool) : WellKept (processRegisterTask s taskId remaining now sent).1 := by
  have counter_unused : WellKept (processRegisterTask s taskId remaining now false).1 →
      WellKept (processRegisterTask s taskId remaining now sent).1 := by
    cases sent <;> exact id
  apply counter_unused
  by_cases known : taskId ∈ s.registeredTasks
  · simpa [processRegisterTask, known] using kept
  · intro id running
    simp only [processRegisterTask, known, if_false, if_true] at running ⊢
    by_cases same : id = taskId
    · subst same
      exact ⟨by simp, remaining.toNat, by simp, by omega⟩
    · obtain ⟨old, r, time, natural⟩ := kept id (by simpa [same] using running)
      exact ⟨by simp [old], r, by simpa [AList.lookup_insert_ne same] using time, natural⟩

theorem wellKept_step {s : Registry} (kept : WellKept s) (op : Op) : WellKept (step s op).1 := by
  cases op with
  | register taskId remaining now sent => exact wellKept_register kept taskId remaining now sent
  | deregister taskId =>
    simp only [step, processDeregisterTask]
    split
    · exact wellKept_declared kept taskId
    · exact kept
  | lifetime now picks =>
    have walk : ∀ (keys : List UInt32) (s : Registry), WellKept s →
        WellKept (keys.foldl (sweepOne now picks) s) := by
      intro keys
      induction keys with
      | nil => intro s kept; exact kept
      | cons taskId rest ih =>
        intro s kept
        apply ih
        unfold sweepOne
        split
        · exact wellKept_declared kept taskId
        · exact kept
    exact walk _ s kept

theorem wellKept_start : WellKept {} := by
  intro id running
  simp at running

/- A registration whose reply is sent exactly when the id is new, with room left in the counter. -/
def RegistersCleanly (s : Registry) : Op → Prop
  | .register taskId _ _ replySent =>
    (replySent = true ↔ taskId ∉ s.registeredTasks) ∧
      (taskId ∉ s.registeredTasks → activeCount s + 1 < 2 ^ 32)
  | _ => True

instance (s : Registry) (op : Op) : Decidable (RegistersCleanly s op) := by
  cases op <;> unfold RegistersCleanly <;> infer_instance

theorem drift_of_clean {s : Registry} {op : Op} (clean : RegistersCleanly s op) : drift s op = 0 := by
  cases op with
  | register taskId remaining now sent =>
    by_cases known : taskId ∈ s.registeredTasks <;> cases sent <;>
      simp_all [RegistersCleanly, drift]
  | deregister taskId => rfl
  | lifetime now picks => rfl

theorem activeCount_declared (s : Registry) (taskId : UInt32) :
    activeCount (declareTaskDead s taskId).1 ≤ activeCount s := by
  by_cases active : taskId ∈ s.taskToStarttime
  · have less := activeCount_erase active
    simp only [declareTaskDead, active, if_true, activeCount] at less ⊢
    omega
  · simp [declareTaskDead, active]

theorem activeCount_of_clean {s : Registry} (bound : activeCount s < 2 ^ 32) {op : Op}
    (clean : RegistersCleanly s op) : activeCount (step s op).1 < 2 ^ 32 := by
  cases op with
  | register taskId remaining now sent =>
    by_cases known : taskId ∈ s.registeredTasks
    · cases sent <;> simpa [step, processRegisterTask, known, activeCount] using bound
    · have room := clean.2 known
      have grown : activeCount (step s (.register taskId remaining now sent)).1 =
          (s.taskToStarttime.insert taskId now).keys.length := by
        cases sent <;> simp [step, processRegisterTask, known, activeCount]
      have erased : (s.taskToStarttime.keys.erase taskId).length ≤ activeCount s :=
        List.length_erase_le
      rw [grown, AList.keys_insert, List.length_cons]
      omega
  | deregister taskId =>
    simp only [step, processDeregisterTask]
    split
    · exact Nat.lt_of_le_of_lt (activeCount_declared s taskId) bound
    · exact bound
  | lifetime now picks =>
    have walk : ∀ (keys : List UInt32) (s : Registry),
        activeCount (keys.foldl (sweepOne now picks) s) ≤ activeCount s := by
      intro keys
      induction keys with
      | nil => intro s; exact Nat.le_refl _
      | cons taskId rest ih =>
        intro s
        refine Nat.le_trans (ih _) ?_
        unfold sweepOne
        split
        · exact activeCount_declared s taskId
        · exact Nat.le_refl _
    exact Nat.lt_of_le_of_lt (walk _ s) bound

end TaskRegistry

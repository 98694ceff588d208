import Cirrus.PythonClients
import Cirrus.Lib.Transition

/-!
The task IDs that the workers of a grid search register under. An ID is made of
the numbers of the experiment, of the worker and of the generation, each with a
bound of its own or none, and is packed into 32 bits by the worker's handler.
-/
namespace TaskIds
open PythonClients Transition ServerTask Gradients SparseLR

def maxLambdaGenerations : Nat := 10000
def maxWorkersPerExperiment : Nat := 1000

def maintainWorkers (n experimentId : Nat) : Except Fault (List Nat) :=
  if n ≤ maxWorkersPerExperiment then .ok (List.range' (experimentId * maxWorkersPerExperiment) n)
  else .error (.assertion "n <= MAX_WORKERS_PER_EXPERIMENT")

def maintainOne (workerId generation : Nat) : Except Fault Nat :=
  if generation < maxLambdaGenerations then .ok (workerId * maxLambdaGenerations + generation)
  else .error (.assertion "generation < MAX_LAMBDA_GENERATIONS")

/-- `struct.pack` of an "I", which refuses what 32 bits do not hold. -/
def pack (number : Nat) : Except Fault UInt32 :=
  if number < UInt32.size then .ok (UInt32.ofNat number)
  else .error (.exception "struct.error: 'I' format requires 0 <= number <= 4294967295")

def register (taskId timeLeftSecs : Nat) : Except Fault Request := do
  .ok (.register (← pack taskId) (← pack timeLeftSecs))

def deregister (taskId : Nat) : Except Fault Request := do
  .ok (.deregister (← pack taskId))

structure Launch where
  experimentId : Nat
  workerId : Nat
  generation : Nat
  taskId : Nat

/-- The generation each worker's thread has reached, by experiment and worker, and what was launched so far. -/
structure Fleets where
  generation : Nat × Nat → Nat := fun _ => 0
  launched : List Launch := []

/-- A turn of a worker's thread. The experiments of a grid search are numbered from 0, and each has its number of workers. -/
def turn (experiments : List Nat) (s : Fleets) (thread : Nat × Nat) : Option Fleets := do
  let (experimentId, workerId) := thread
  let n ← experiments[experimentId]?
  let workers ← (maintainWorkers n experimentId).toOption
  guard (workerId ∈ workers)
  let taskId ← (maintainOne workerId (s.generation thread)).toOption
  return {
    generation := Function.update s.generation thread (s.generation thread + 1)
    launched := s.launched ++ [{ experimentId, workerId, generation := s.generation thread, taskId }] }

/-- The states that the threads can reach, whichever takes the next turn. -/
def Runs (experiments : List Nat) (s : Fleets) : Prop := Reachable (turn experiments) (· = {}) anyStep s

structure Made (experiments : List Nat) (s : Fleets) (l : Launch) : Prop where
  chosen : ∃ n, experiments[l.experimentId]? = some n ∧ n ≤ maxWorkersPerExperiment ∧
    l.workerId < l.experimentId * maxWorkersPerExperiment + n
  base : l.experimentId * maxWorkersPerExperiment ≤ l.workerId
  bound : l.generation < maxLambdaGenerations
  passed : l.generation < s.generation (l.experimentId, l.workerId)
  taskId : l.taskId = l.workerId * maxLambdaGenerations + l.generation

theorem turn_spec {experiments : List Nat} {s t : Fleets} {thread : Nat × Nat} (taken : turn experiments s thread = some t) :
    ∃ l : Launch, thread = (l.experimentId, l.workerId) ∧ l.generation = s.generation thread ∧ Made experiments t l ∧
      t = { generation := Function.update s.generation thread (s.generation thread + 1), launched := s.launched ++ [l] } := by
  obtain ⟨experimentId, workerId⟩ := thread
  obtain ⟨n, chosen, taken⟩ := Option.bind_eq_some_iff.mp taken
  obtain ⟨workers, started, taken⟩ := Option.bind_eq_some_iff.mp taken
  obtain ⟨_, one, taken⟩ := Option.bind_eq_some_iff.mp taken
  obtain ⟨taskId, made, taken⟩ := Option.bind_eq_some_iff.mp taken
  obtain rfl := Option.some.inj taken
  have member : workerId ∈ workers := by
    by_contra absent
    rw [guard, if_neg absent] at one
    cases one
  unfold maintainWorkers at started
  split at started
  next few =>
    obtain rfl := Option.some.inj started
    obtain ⟨base, above⟩ := List.mem_range'_1.mp member
    unfold maintainOne at made
    split at made
    next bound =>
      obtain rfl := Option.some.inj made
      let l : Launch := {
        experimentId, workerId, generation := s.generation (experimentId, workerId)
        taskId := workerId * maxLambdaGenerations + s.generation (experimentId, workerId) }
      have passed : l.generation < Function.update s.generation (experimentId, workerId) (l.generation + 1)
          (experimentId, workerId) := by
        rw [Function.update_self]
        exact Nat.lt_succ_self _
      exact ⟨l, rfl, rfl, ⟨⟨n, chosen, few, above⟩, base, bound, passed, rfl⟩, rfl⟩
    next => cases made
  next => cases started

theorem turn_taken {experiments : List Nat} {experimentId n workerId : Nat} (chosen : experiments[experimentId]? = some n)
    (few : n ≤ maxWorkersPerExperiment)
    (one : workerId ∈ List.range' (experimentId * maxWorkersPerExperiment) n) {s : Fleets}
    (bound : s.generation (experimentId, workerId) < maxLambdaGenerations) :
    turn experiments s (experimentId, workerId) = some {
      generation := Function.update s.generation (experimentId, workerId) (s.generation (experimentId, workerId) + 1)
      launched := s.launched ++ [{
        experimentId, workerId, generation := s.generation (experimentId, workerId)
        taskId := workerId * maxLambdaGenerations + s.generation (experimentId, workerId) }] } := by
  have started : maintainWorkers n experimentId = .ok (List.range' (experimentId * maxWorkersPerExperiment) n) := if_pos few
  have made : maintainOne workerId (s.generation (experimentId, workerId)) =
      .ok (workerId * maxLambdaGenerations + s.generation (experimentId, workerId)) := if_pos bound
  simp only [turn, chosen, started, made, Except.toOption, guard, if_pos one, Option.bind_eq_bind, Option.bind_some,
    Option.pure_def]

theorem generation_reached {experiments : List Nat} {experimentId n workerId : Nat} (chosen : experiments[experimentId]? = some n)
    (few : n ≤ maxWorkersPerExperiment) (one : workerId ∈ List.range' (experimentId * maxWorkersPerExperiment) n)
    (generation : Nat) (bound : generation ≤ maxLambdaGenerations) :
    ∃ s, Runs experiments s ∧ s.generation (experimentId, workerId) = generation := by
  induction generation with
  | zero => exact ⟨{}, .start rfl, rfl⟩
  | succ generation ih =>
    obtain ⟨s, reached, same⟩ := ih (by omega)
    refine ⟨_, reached.step trivial (turn_taken chosen few one (by omega)), ?_⟩
    rw [← same]
    exact Function.update_self ..

theorem launch_reached {experiments : List Nat} {experimentId n workerId : Nat} (chosen : experiments[experimentId]? = some n)
    (few : n ≤ maxWorkersPerExperiment) (one : workerId ∈ List.range' (experimentId * maxWorkersPerExperiment) n)
    {generation : Nat} (bound : generation < maxLambdaGenerations) :
    ∃ s, Runs experiments s ∧ ∃ l ∈ s.launched, l.taskId = workerId * maxLambdaGenerations + generation := by
  obtain ⟨s, reached, rfl⟩ := generation_reached chosen few one generation bound.le
  exact ⟨_, reached.step trivial (turn_taken chosen few one bound), _, List.mem_append_right _ List.mem_cons_self, rfl⟩

section Unique

/-- The three parts of an ID can be read off it again. -/
theorem made_unique {experiments : List Nat} {s t : Fleets} {a b : Launch} (first : Made experiments s a)
    (second : Made experiments t b) (same : a.taskId = b.taskId) :
    a.experimentId = b.experimentId ∧ a.workerId = b.workerId ∧ a.generation = b.generation := by
  obtain ⟨m, _, few, above⟩ := first.chosen
  obtain ⟨n, _, few', above'⟩ := second.chosen
  have bound := first.bound
  have bound' := second.bound
  have base := first.base
  have base' := second.base
  rw [first.taskId, second.taskId] at same
  unfold maxLambdaGenerations at same bound bound'
  unfold maxWorkersPerExperiment at few few' above above' base base'
  omega

theorem Made.kept {experiments : List Nat} {s t : Fleets} {l : Launch} (made : Made experiments s l)
    (grows : ∀ thread, s.generation thread ≤ t.generation thread) : Made experiments t l :=
  { made with passed := Nat.lt_of_lt_of_le made.passed (grows _) }

structure Distinct (experiments : List Nat) (s : Fleets) : Prop where
  made : ∀ l ∈ s.launched, Made experiments s l
  unique : (s.launched.map Launch.taskId).Nodup

theorem Distinct.step {experiments : List Nat} {s t : Fleets} (distinct : Distinct experiments s) {thread : Nat × Nat}
    (taken : turn experiments s thread = some t) : Distinct experiments t := by
  obtain ⟨l, rfl, current, made, rfl⟩ := turn_spec taken
  have grows (thread : Nat × Nat) : s.generation thread ≤
      Function.update s.generation (l.experimentId, l.workerId) (s.generation (l.experimentId, l.workerId) + 1) thread := by
    by_cases here : thread = (l.experimentId, l.workerId)
    · rw [here, Function.update_self]
      exact Nat.le_succ _
    · rw [Function.update_of_ne here]
  constructor
  · intro other member
    rcases List.mem_append.mp member with earlier | last
    · exact (distinct.made other earlier).kept grows
    · obtain rfl := List.mem_singleton.mp last
      exact made
  · -- an equal ID would be one of an earlier generation of the same worker
    have fresh : l.taskId ∉ s.launched.map Launch.taskId := by
      intro member
      obtain ⟨other, earlier, same⟩ := List.mem_map.mp member
      have before := distinct.made other earlier
      obtain ⟨experiment, worker, generation⟩ := made_unique before made same
      have passed := before.passed
      rw [experiment, worker, generation, current] at passed
      exact Nat.lt_irrefl _ passed
    rw [List.map_append, List.map_singleton, ← List.concat_eq_append]
    exact List.Nodup.concat fresh distinct.unique

theorem Distinct.of_runs {experiments : List Nat} {s : Fleets} (runs : Runs experiments s) : Distinct experiments s := by
  refine Reachable.invariant ?_ ?_ runs
  · intro s initial
    subst initial
    exact { made := nofun, unique := List.nodup_nil }
  · intro s thread t distinct _ taken
    exact distinct.step taken

end Unique

section Wire
variable {F : Type} [Zero F] [One F] [Add F] [Sub F] [Mul F] [Div F] [FloatOps F]

/-- A task's ID reaches the server as it is, in the request that registers the task and in the one that ends it. -/
def Survives (feature : Codec UInt8 F 4) (worker : Worker UInt8) (sys : System F) (taskId : Nat) : Prop :=
  ∃ id : UInt32, id.toNat = taskId ∧
    (∀ timeLeftSecs < UInt32.size, ∃ secs : UInt32, secs.toNat = timeLeftSecs ∧
      register taskId timeLeftSecs = .ok (.register id secs) ∧ Understood feature worker sys (.register id secs)) ∧
    deregister taskId = .ok (.deregister id) ∧ Understood feature worker sys (.deregister id)

theorem pack_ok {number : Nat} (small : number < UInt32.size) : pack number = .ok (UInt32.ofNat number) := if_pos small

theorem survives_iff (feature : Codec UInt8 F 4) (worker : Worker UInt8) (sys : System F) (taskId : Nat) :
    Survives feature worker sys taskId ↔ taskId < UInt32.size := by
  constructor
  · intro ⟨id, same, _⟩
    rw [← same]
    exact id.toNat_lt
  · intro small
    refine ⟨UInt32.ofNat taskId, UInt32.toNat_ofNat_of_lt small, ?_, ?_, understood_deregister _⟩
    · intro timeLeftSecs short
      refine ⟨UInt32.ofNat timeLeftSecs, UInt32.toNat_ofNat_of_lt short, ?_, understood_register _ _⟩
      rw [register, pack_ok small, pack_ok short]
      rfl
    · rw [deregister, pack_ok small]
      rfl

/-- In every run of the experiments, no two tasks have an ID in common, and each ID survives the wire. -/
def IdsServe (feature : Codec UInt8 F 4) (worker : Worker UInt8) (sys : System F) (experiments : List Nat) : Prop :=
  ∀ s, Runs experiments s → (s.launched.map Launch.taskId).Nodup ∧ ∀ l ∈ s.launched, Survives feature worker sys l.taskId

/-- The numbers of the experiments have no bound, and those from 430 on leave too little of the 32 bits for workers. -/
theorem task_ids_iff (feature : Codec UInt8 F 4) (worker : Worker UInt8) (sys : System F) (experiments : List Nat) :
    IdsServe feature worker sys experiments ↔
      ∀ experimentId n, experiments[experimentId]? = some n → 0 < n → n ≤ maxWorkersPerExperiment →
        (experimentId * maxWorkersPerExperiment + n) * maxLambdaGenerations ≤ UInt32.size := by
  constructor
  · intro serve experimentId n chosen some_worker few
    have one : experimentId * maxWorkersPerExperiment + (n - 1) ∈ List.range' (experimentId * maxWorkersPerExperiment) n :=
      List.mem_range'_1.mpr ⟨by omega, by omega⟩
    have bound : maxLambdaGenerations - 1 < maxLambdaGenerations := by decide
    obtain ⟨s, runs, l, launched, same⟩ := launch_reached chosen few one bound
    have small := (survives_iff feature worker sys l.taskId).mp ((serve s runs).2 l launched)
    rw [same] at small
    unfold maxLambdaGenerations UInt32.size at *
    omega
  · intro fits s runs
    have distinct := Distinct.of_runs runs
    refine ⟨distinct.unique, ?_⟩
    intro l launched
    have made := distinct.made l launched
    obtain ⟨n, chosen, few, above⟩ := made.chosen
    have fit := fits l.experimentId n chosen (by have := made.base; omega) few
    have bound := made.bound
    rw [survives_iff, made.taskId]
    unfold maxLambdaGenerations UInt32.size at *
    omega

end Wire

/-- The last worker of the 430th experiment has no task that can register. -/
theorem task_id_too_large : ¬ IdsServe Wire.littleEndian.feature (Worker.fresh Wire.littleEndian) startedSystem
    (List.replicate 430 1000) := by
  intro serve
  have chosen : (List.replicate 430 1000)[429]? = some 1000 := List.getElem?_replicate_of_lt (by decide)
  have one : 429999 ∈ List.range' (429 * maxWorkersPerExperiment) 1000 :=
    List.mem_range'_1.mpr ⟨by decide, by decide⟩
  have first : 0 < maxLambdaGenerations := by decide
  obtain ⟨s, runs, l, launched, same⟩ := launch_reached chosen (by decide) one first
  obtain ⟨id, number, _⟩ := (serve s runs).2 l launched
  have small := id.toNat_lt
  rw [number, same] at small
  exact absurd small (by decide)

end TaskIds

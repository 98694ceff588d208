import Mathlib.Data.List.Basic
import Mathlib.Tactic.Linarith

/-!
The way of a worker's identity: the fleet's task ids, the event a Lambda is
invoked with, the command line the Lambda builds from it, and the worker index
the process derives from that.
-/
namespace WorkerIndex

def maxLambdaGenerations : Nat := 10000

def maxWorkersPerExperiment : Nat := 1000

structure Event where
  config : String
  numWorkers : Nat
  psIp : String
  psPort : UInt16
  taskId : Nat

structure Experiment where
  id : Nat
  config : String
  psIp : String
  psPort : UInt16

def launchWorker (e : Experiment) (taskId n : Nat) : Event :=
  { config := e.config, numWorkers := n, psIp := e.psIp, psPort := e.psPort, taskId }

def maintainOne (e : Experiment) (n workerId generation : Nat) : Event :=
  launchWorker e (workerId * maxLambdaGenerations + generation) n

/-- The Lambda that serves as the `w`-th worker of the fleet. -/
def maintainWorkers (e : Experiment) (n w generation : Nat) : Event :=
  maintainOne e n (e.id * maxWorkersPerExperiment + w) generation

def configPath : String := "/tmp/config.cfg"

def executableName : String := "parameter_server"

def pathJoin (root name : String) : String :=
  if root.isEmpty || root.endsWith "/" then root ++ name else root ++ "/" ++ name

def command (root : String) (event : Event) : List String :=
  [pathJoin root executableName,
   "--config", configPath,
   "--nworkers", toString event.numWorkers,
   "--rank", toString 3,
   "--ps_ip", event.psIp,
   "--ps_port", toString event.psPort.toNat]

structure Flags where
  nworkers : Int := -1
  rank : Int := -1
  config : String := ""
  psIp : String := "172.31.0.197"
  psPort : Int := 1337

inductive ModelType
  | logisticRegression
  | softmax
  | collaborativeFiltering
  deriving DecidableEq

inductive Task
  | server
  | logisticSparse (worker : Int)
  | netflix (worker : Int)
  | error
  | loading
  deriving DecidableEq

def psSparseServerTaskRank : Int := 1

def errorSparseTaskRank : Int := 2

def loadingSparseTaskRank : Int := 0

def workersBase : Int := 3

def runTasks (rank nworkers : Int32) (model : ModelType) : Except String Task :=
  if rank.toInt = psSparseServerTaskRank then .ok .server
  else if workersBase ≤ rank.toInt ∧ rank.toInt < workersBase + nworkers.toInt then
    match model with
    | .logisticRegression => .ok (.logisticSparse (rank.toInt - workersBase))
    | .collaborativeFiltering => .ok (.netflix (rank.toInt - workersBase))
    | .softmax => .error "exit(-1)"
  else if rank.toInt = errorSparseTaskRank then .ok .error
  else if rank.toInt = loadingSparseTaskRank then
    match model with
    | .softmax => .error "exit(-1)"
    | _ => .ok .loading
  else .error ("Wrong task rank: " ++ toString rank.toInt)

def main (parse : List String → Flags) (model : ModelType) (argv : List String) : Except String Task :=
  let flags := parse argv
  if flags.nworkers = -1 ∨ flags.rank = -1 ∨ flags.config = "" then .error "Some flags not specified"
  else runTasks (Int32.ofInt flags.rank) (Int32.ofInt flags.nworkers) model

def Task.workerIndex : Task → Option Int
  | .logisticSparse worker => some worker
  | .netflix worker => some worker
  | _ => none

/- The parser of the flags is a library's. What is used of it: a flag's name and
   its value, in two words, set the flag. -/
inductive Assignment
  | config (value : String)
  | nworkers (value : Nat)
  | rank (value : Nat)
  | psIp (value : String)
  | psPort (value : Nat)

def Assignment.words : Assignment → List String
  | .config value => ["--config", value]
  | .nworkers value => ["--nworkers", toString value]
  | .rank value => ["--rank", toString value]
  | .psIp value => ["--ps_ip", value]
  | .psPort value => ["--ps_port", toString value]

def Assignment.Fits : Assignment → Prop
  | .nworkers value => value < 2 ^ 63
  | .rank value => value < 2 ^ 63
  | .psPort value => value < 2 ^ 63
  | _ => True

def Flags.set (flags : Flags) : Assignment → Flags
  | .config value => { flags with config := value }
  | .nworkers value => { flags with nworkers := value }
  | .rank value => { flags with rank := value }
  | .psIp value => { flags with psIp := value }
  | .psPort value => { flags with psPort := value }

def ReadsFlags (parse : List String → Flags) : Prop :=
  ∀ (program : String) (assignments : List Assignment), (∀ a ∈ assignments, a.Fits) →
    parse (program :: assignments.flatMap Assignment.words) = assignments.foldl Flags.set {}

section Derivation
variable {parse : List String → Flags} {model : ModelType} {n : Nat}

def workerIndex (parse : List String → Flags) (model : ModelType) (root : String) (e : Experiment)
    (n w generation : Nat) : Option Int :=
  match main parse model (command root (maintainWorkers e n w generation)) with
  | .ok task => task.workerIndex
  | .error _ => none

/-- The workers of a fleet can be told apart, whatever their generations. -/
structure DistinctIndices (index : Nat → Nat → Option Int) (n : Nat) : Prop where
  inside : ∀ w < n, ∀ generation < maxLambdaGenerations,
    ∃ i, index w generation = some i ∧ 0 ≤ i ∧ i < n
  different : ∀ v < n, ∀ w < n, v ≠ w → ∀ generation < maxLambdaGenerations,
    ∀ other < maxLambdaGenerations, index v generation ≠ index w other

/-- The command names the fleet's size and the rank 3, but not the worker. -/
theorem flags_of_command (reads : ReadsFlags parse) (root : String) (event : Event)
    (small : event.numWorkers < 2 ^ 63) :
    parse (command root event) =
      { nworkers := event.numWorkers, rank := 3, config := configPath, psIp := event.psIp
        psPort := event.psPort.toNat } := by
  have port := event.psPort.toNat_lt
  have fits : ∀ a ∈ [Assignment.config configPath, .nworkers event.numWorkers, .rank 3, .psIp event.psIp,
      .psPort event.psPort.toNat], a.Fits := by
    simp only [List.forall_mem_cons, Assignment.Fits]
    refine ⟨trivial, small, by omega, trivial, by omega, ?_⟩
    simp
  exact reads (pathJoin root executableName) _ fits

theorem main_command (reads : ReadsFlags parse) (root : String) (event : Event)
    (small : event.numWorkers < 2 ^ 31) :
    main parse model (command root event) = runTasks 3 (Int32.ofInt event.numWorkers) model := by
  have natural : ¬ ((event.numWorkers : Int) = -1) := by omega
  unfold main
  rw [flags_of_command reads root event (by omega)]
  simp [natural, configPath]

theorem runTasks_first (positive : 1 ≤ n) (small : n < 2 ^ 31) (model : ModelType) :
    runTasks 3 (Int32.ofInt n) model = match model with
      | .logisticRegression => .ok (.logisticSparse 0)
      | .collaborativeFiltering => .ok (.netflix 0)
      | .softmax => .error "exit(-1)" := by
  have workers : (Int32.ofInt n).toInt = n := Int32.toInt_ofInt_of_le (by omega) (by omega)
  have rank : (3 : Int32).toInt = 3 := by decide
  have range : workersBase ≤ 3 ∧ 3 < workersBase + (n : Int) := by
    unfold workersBase
    omega
  unfold runTasks
  rw [rank, workers, if_neg (by decide), if_pos range]
  cases model <;> rfl

theorem workerIndex_first (model : ModelType) (reads : ReadsFlags parse) (root : String) (e : Experiment) (positive : 1 ≤ n)
    (few : n ≤ maxWorkersPerExperiment) (w generation : Nat) :
    workerIndex parse model root e n w generation = if model = .softmax then none else some 0 := by
  have small : n < 2 ^ 31 := by
    unfold maxWorkersPerExperiment at few
    omega
  unfold workerIndex
  rw [main_command reads root (maintainWorkers e n w generation) small]
  rw [show (maintainWorkers e n w generation).numWorkers = n from rfl, runTasks_first positive small model]
  cases model <;> rfl

/-- The rank on the command line is the same for all workers, so only a fleet of
one has an index of its own for every worker. -/
theorem workers_distinct_iff (reads : ReadsFlags parse) (root : String) (e : Experiment) (positive : 1 ≤ n)
    (few : n ≤ maxWorkersPerExperiment) :
    DistinctIndices (workerIndex parse model root e n) n ↔ n = 1 ∧ model ≠ .softmax := by
  have index := workerIndex_first model reads root e positive few
  have launched : 0 < maxLambdaGenerations := by decide
  constructor
  · rintro ⟨inside, different⟩
    constructor
    · apply Nat.le_antisymm _ positive
      apply Nat.le_of_not_lt
      intro several
      apply different 0 (by omega) 1 (by omega) (by omega) 0 launched 0 launched
      rw [index, index]
    · rintro rfl
      obtain ⟨i, given, _⟩ := inside 0 positive 0 launched
      rw [index] at given
      cases given
  · rintro ⟨rfl, trained⟩
    constructor
    · intro w only generation _
      exact ⟨0, by rw [index, if_neg trained], by omega⟩
    · intro v one w only other
      omega

end Derivation

section Concrete

def number (digits : String) : Nat := Nat.ofDigitChars 10 digits.toList 0

def readAssignments : List String → Flags → Flags
  | "--config" :: value :: rest, flags => readAssignments rest (flags.set (.config value))
  | "--nworkers" :: value :: rest, flags => readAssignments rest (flags.set (.nworkers (number value)))
  | "--rank" :: value :: rest, flags => readAssignments rest (flags.set (.rank (number value)))
  | "--ps_ip" :: value :: rest, flags => readAssignments rest (flags.set (.psIp value))
  | "--ps_port" :: value :: rest, flags => readAssignments rest (flags.set (.psPort (number value)))
  | _, flags => flags

def readFlags (argv : List String) : Flags := readAssignments (argv.drop 1) {}

theorem number_repr (n : Nat) : number n.repr = n := by
  unfold number
  rw [Nat.toList_repr, Nat.ofDigitChars_ten_toDigits]

theorem readAssignments_words (assignments : List Assignment) (flags : Flags) :
    readAssignments (assignments.flatMap Assignment.words) flags = assignments.foldl Flags.set flags := by
  induction assignments generalizing flags with
  | nil => rfl
  | cons a rest ih => cases a <;> simp [Assignment.words, readAssignments, number_repr, ih]

theorem readFlags_reads : ReadsFlags readFlags := by
  intro program assignments _
  exact readAssignments_words assignments {}

def firstExperiment : Experiment where
  id := 0
  config := "model_type: LogisticRegression"
  psIp := "127.0.0.1"
  psPort := 1337

theorem workers_distinct_single :
    DistinctIndices (workerIndex readFlags .logisticRegression "/var/task" firstExperiment 1) 1 :=
  (workers_distinct_iff readFlags_reads "/var/task" firstExperiment (by decide) (by decide)).mpr
    ⟨rfl, by decide⟩

/-- Two workers of one fleet are both worker zero. -/
theorem two_workers_same_index :
    workerIndex readFlags .logisticRegression "/var/task" firstExperiment 2 0 0 = some 0 ∧
      workerIndex readFlags .logisticRegression "/var/task" firstExperiment 2 1 0 = some 0 ∧
      ¬ DistinctIndices (workerIndex readFlags .logisticRegression "/var/task" firstExperiment 2) 2 := by
  have index := workerIndex_first (n := 2) .logisticRegression readFlags_reads "/var/task"
    firstExperiment (by decide) (by decide)
  refine ⟨index 0 0, index 1 0, ?_⟩
  rintro ⟨_, different⟩
  apply different 0 (by decide) 1 (by decide) (by decide) 0 (by decide) 0 (by decide)
  rw [index, index]

end Concrete

end WorkerIndex

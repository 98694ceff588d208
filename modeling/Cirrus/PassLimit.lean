import Cirrus.PrefetchRing

/-!
The limit on the number of passes. The thread compares the passes it has made
with the limit before it pushes an object, and counts no object.
-/
namespace S3SparseIterator
open Transition
variable {O P : Type}

/-- The iterator with the variable `count` of the thread; `exit` ends both threads. -/
structure Process (O P : Type) where
  state : State O P
  count : UInt64 := 0
  exited : Bool := false

namespace Process

def numPasses (it : Iterator O P) (count : UInt64) : UInt64 := count / (it.rightId - it.leftId)

def advance (it : Iterator O P) (p : Process O P) (l : Label O) : Option (Process O P) :=
  (it.step p.state l).map fun state => { p with state }

def step (limitNumberPasses : UInt64) (it : Iterator O P) (p : Process O P) (l : Label O) : Option (Process O P) :=
  if p.exited then none
  else match p.state.prefetch, l with
    | .pushing _ _, .prefetch .go =>
      if 0 < limitNumberPasses ∧ numPasses it p.count = limitNumberPasses then some { p with exited := true }
      else p.advance it l
    | _, _ => p.advance it l

def AtStart (it : Iterator O P) (p : Process O P) : Prop :=
  it.AtStart p.state ∧ p.count = 0 ∧ p.exited = false

def signal (p : Process O P) : Label O → Nat
  | .prefetch _ => 0
  | .consumer =>
    match p.state.consumer with
    | .signalling _ => 1
    | _ => 0

def signals (limitNumberPasses : UInt64) (it : Iterator O P) : Process O P → List (Label O) → Nat
  | _, [] => 0
  | p, l :: rest =>
    p.signal l + match step limitNumberPasses it p l with
      | some q => signals limitNumberPasses it q rest
      | none => 0

end Process

def State.objectsPushed (s : State O P) : Nat :=
  match s.prefetch with
  | .locking _ | .adding _ => s.fetched.length - 1
  | _ => s.fetched.length

def State.permits (s : State O P) : Nat :=
  s.prefSem + s.fetched.length +
    match s.prefetch with
    | .fetching _ | .pushing _ _ | .inserting _ _ | .inserted _ | .finding _ => 1
    | _ => 0

variable {it : Iterator O P} {s t : State O P}

theorem objectsPushed_le (s : State O P) : s.objectsPushed ≤ s.permits := by
  unfold State.objectsPushed State.permits
  split <;> split <;> omega

theorem permits_thread (move : ThreadMove it s t) : t.permits = s.permits := by
  cases move <;> simp_all [State.permits]
  case wait credit _ => omega
  case cut => omega

theorem permits_getNext (move : GetNextMove s t) :
    t.permits ≤ s.permits + match s.consumer with
      | .signalling _ => 1
      | _ => 0 := by
  have posted : semPost s.prefSem ≤ s.prefSem + 1 := by
    unfold semPost
    split <;> omega
  cases move <;> simp_all [State.permits]
  case signal => omega

namespace Process
variable {limitNumberPasses : UInt64} {p q : Process O P}

theorem step_advances (counted : p.count = 0) (running : p.exited = false) (l : Label O) :
    step limitNumberPasses it p l = p.advance it l := by
  have never : ¬ (0 < limitNumberPasses ∧ numPasses it p.count = limitNumberPasses) := by
    rintro ⟨positive, reached⟩
    rw [counted, numPasses, UInt64.zero_div] at reached
    exact absurd positive (reached ▸ UInt64.lt_irrefl _)
  unfold step
  rw [if_neg (by simp [running])]
  split
  · exact if_neg never
  · rfl

theorem permits_step {l : Label O} (counted : p.count = 0) (running : p.exited = false)
    (taken : step limitNumberPasses it p l = some q) :
    q.count = 0 ∧ q.exited = false ∧ q.state.permits ≤ p.state.permits + p.signal l := by
  rw [step_advances counted running] at taken
  obtain ⟨state, moved, rfl⟩ := Option.map_eq_some_iff.mp taken
  refine ⟨counted, running, ?_⟩
  rcases act_of_step moved with acted | ⟨_, rfl⟩
  · cases l with
    | prefetch choice => exact Nat.le_of_eq (permits_thread (threadFunction_moves acted))
    | consumer => exact permits_getNext (getNext_moves acted)
  · exact Nat.le_add_right _ _

/-- In a run as many permits are given as the constructor and `getNext` signal. -/
theorem permits_run (counted : p.count = 0) (running : p.exited = false) {schedule : List (Label O)}
    (taken : follow (step limitNumberPasses it) p schedule = some q) :
    q.exited = false ∧ q.state.permits ≤ p.state.permits + signals limitNumberPasses it p schedule := by
  induction schedule generalizing p with
  | nil =>
    obtain rfl : p = q := by simpa using taken
    exact ⟨running, Nat.le_add_right _ _⟩
  | cons l rest ih =>
    obtain ⟨mid, first, taken⟩ := Option.bind_eq_some_iff.mp taken
    obtain ⟨counted, running, one⟩ := permits_step counted running first
    obtain ⟨running, later⟩ := ih counted running taken
    refine ⟨running, ?_⟩
    simp only [signals, first]
    omega

/-- The limit is kept in the runs in which `getNext` asks for no more. -/
theorem passes_limited (limitNumberPasses : UInt64) (it : Iterator O P) {p q : Process O P} (start : AtStart it p)
    {schedule : List (Label O)} (taken : follow (step limitNumberPasses it) p schedule = some q)
    (few : readAhead + signals limitNumberPasses it p schedule ≤
      limitNumberPasses.toNat * (it.rightId.toNat - it.leftId.toNat)) :
    q.state.objectsPushed ≤ limitNumberPasses.toNat * (it.rightId.toNat - it.leftId.toNat) := by
  obtain ⟨⟨garbage, initial⟩, counted, running⟩ := start
  have given := (permits_run counted running taken).2
  have first : p.state.permits = readAhead := by simp [initial, State.permits]
  have pushed := objectsPushed_le q.state
  omega

def pass : List (Label Unit) := [.prefetch (.sample 0), .prefetch (.object ())] ++ List.replicate 11 (.prefetch .go)

def empty : State Unit Unit := { minibatchesList := .ofCapacity 100000 CircularBuffer.hundredThousand_pos fun _ => [], current := 0 }

theorem empty_atStart : AtStart (rowByRow 1) { state := empty } := ⟨⟨fun _ => [], rfl⟩, rfl, rfl⟩

theorem one_pass_limited : ∃ q, follow (step 3 (rowByRow 1)) { state := empty } pass = some q ∧
    q.state.objectsPushed ≤ (3 : UInt64).toNat * ((rowByRow 1).rightId.toNat - (rowByRow 1).leftId.toNat) := by
  have taken : (follow (step 3 (rowByRow 1)) { state := empty } pass).isSome := by decide
  obtain ⟨q, taken⟩ := Option.isSome_iff_exists.mp taken
  exact ⟨q, taken, passes_limited 3 (rowByRow 1) empty_atStart taken (by decide)⟩

/-- Four objects are pushed where there are three passes to be made over one. -/
theorem fourth_pass : ∃ (schedule : List (Label Unit)) (q : Process Unit Unit),
    follow (step 3 (rowByRow 1)) { state := empty } schedule = some q ∧ AtStart (rowByRow 1) { state := empty } ∧
      3 * ((rowByRow 1).rightId.toNat - (rowByRow 1).leftId.toNat) < q.state.objectsPushed := by
  let call (n : Nat) : List (Label Unit) := List.replicate n .consumer
  have pushed : (follow (step 3 (rowByRow 1)) { state := empty }
      (pass ++ call 11 ++ pass ++ call 13 ++ pass ++ call 13 ++ pass)).map (fun q => q.state.objectsPushed) =
        some 4 := by decide
  obtain ⟨q, taken, four⟩ := Option.map_eq_some_iff.mp pushed
  exact ⟨_, q, taken, empty_atStart, by rw [four]; decide⟩

end Process

end S3SparseIterator

import Cirrus.Training

/-!
Runs of the workers and the server together. Every one of them is a run of the
abstract system, in which a worker reads the weights when its request is served.
-/
namespace Training
open Gradients SparseLR GradientsAgree ServerTask ServerInterface Stream Stream.Prog Loops Transition
variable {I B F : Type}

section Simulation
variable [Zero F] [One F] [Add F] [Sub F] [Mul F] [Div F] [OfNat F 2] [FloatOps F]

abbrev Abstract (I F : Type) :=
  Asynchronous.State I (OptimizationMethod F × SparseLRModel F) (List F) (LRSparseGradient F)

structure Ready (x : Setup I B F) (round : Nat) (task : Task F) : Prop where
  fit : Fit x.config task.model
  place : task.place = .getDatasetMinibatch
  taken : task.taken = round
  version : task.version = UInt64.ofNat (round + 1)

structure Asked (x : Setup I B F) (i : I) (round : Nat) (task : Task F) : Prop where
  fit : Fit x.config task.model
  place : task.place = .getNewModelInplace (x.getNext i round).dataset
  taken : task.taken = round + 1
  version : task.version = UInt64.ofNat (round + 1)

/-- The server that has applied gradients: besides its model only what its main loop resets has changed. -/
structure Updated (x : Setup I B F) (first : Server B F) (m : OptimizationMethod F × SparseLRModel F) (server : Server B F) :
    Prop where
  model : m = (server.optMethod, server.lrModel)
  sized : OptimizationMethod.HasSize server.lrModel (2 ^ x.config.modelBits + 1)
  others :
    { server with
      optMethod := first.optMethod
      lrModel := first.lrModel
      gradientUpdatesCount := first.gradientUpdatesCount
      numUpdates := first.numUpdates
      tasks := first.tasks } = first

/-- Only a gradient without entries ends the server. -/
def Setup.protocol (x : Setup I B F) (first : Server B F) : Rounds.Protocol I B (Server B F) (Task F) Fault
    (OptimizationMethod F × SparseLRModel F) (List F) (LRSparseGradient F) where
  Ready _ := Ready x
  Asked := Asked x
  Exited task := task.place = .exited
  Holds := Updated x first
  Told weights := 2 ^ x.config.modelBits ≤ weights.length
  Fits := Applicable x.config
  message i round := getMessage x.wire (x.getNext i round).dataset
  reply i round := getReply x.wire (x.getNext i round).dataset
  bytes := lrMessage x.wire
  Ends g fault := g.weights = [] ∧ fault = noWeights

variable {x : Setup I B F} {i : I} {round : Nat} {task : Task F} {weights : List F} {model : SparseLRModel F} {fault : Fault}

omit [One F] [Div F] [OfNat F 2] [Add F] [Sub F] [Mul F] in
theorem ask_ready (ready : Ready x round task) :
    ∃ task', x.ask i task = some (task', getMessage x.wire (x.getNext i round).dataset) ∧ Asked x i round task' := by
  have sent := (x.getNext i round).asks (w := x.wire) x.modelBits ready.fit.reserved
  refine ⟨{ task with place := .getNewModelInplace (x.getNext i round).dataset, taken := round + 1 }, ?_, ?_⟩
  · rw [Setup.ask, ready.place]
    dsimp only
    rw [ready.taken, sent]
  · exact ⟨ready.fit, rfl, rfl, ready.version⟩

omit [One F] [Div F] in
theorem push_elsewhere (place : ∀ dataset, task.place ≠ .getNewModelInplace dataset) (down : List B) :
    x.push task down = none := by
  unfold Setup.push
  split
  next dataset here => exact absurd here (place dataset)
  next => rfl

omit [One F] [Add F] [Sub F] [Mul F] [Div F] [OfNat F 2] [FloatOps F] in
theorem ask_elsewhere (place : task.place ≠ .getDatasetMinibatch) : x.ask i task = none := by
  unfold Setup.ask
  split
  next here => exact absurd here place
  next => rfl

omit [One F] [Div F] in
theorem push_waits (asked : Asked x i round task) : x.push task [] = none := by
  have waits := (x.getNext i round).waits (w := x.wire) x.modelBits asked.fit.reserved
  rw [Setup.push, asked.place]
  dsimp only
  generalize run (getLrSparseModelInplace x.wire (x.getNext i round).dataset task.model x.config) [] = progress at waits
  obtain ⟨result, unread, sent⟩ := progress
  dsimp only at waits
  rw [waits]

omit [One F] [Add F] [Sub F] [Mul F] [Div F] [OfNat F 2] in
theorem asked_hears (asked : Asked x i round task) (weights : List F) :
    run (getLrSparseModelInplace x.wire (x.getNext i round).dataset task.model x.config)
        (getReply x.wire (x.getNext i round).dataset weights) =
      { result := some (.ok (fetched task.model x.config (x.getNext i round).dataset weights)), unread := [],
        sent := getMessage x.wire (x.getNext i round).dataset } := by
  have heard := (x.getNext i round).hears (w := x.wire) x.modelBits asked.fit.reserved weights []
  rwa [List.append_nil] at heard

omit [One F] [Div F] in
theorem push_heard (asked : Asked x i round task) {gradient : LRSparseGradient F}
    (computes : x.computeGradient task (x.getNext i round).dataset
      (fetched task.model x.config (x.getNext i round).dataset weights) = .ok (model, gradient)) :
    x.push task (getReply x.wire (x.getNext i round).dataset weights) =
      some ((x.pushGradient task model gradient).1, [], (x.pushGradient task model gradient).2) := by
  rw [Setup.push, asked.place]
  dsimp only
  rw [asked_hears asked]
  dsimp only
  rw [computes]

omit [One F] [Div F] in
theorem push_heard_fails (asked : Asked x i round task)
    (computes : x.computeGradient task (x.getNext i round).dataset
      (fetched task.model x.config (x.getNext i round).dataset weights) = .error fault) :
    x.push task (getReply x.wire (x.getNext i round).dataset weights) = some (task.exit, [], []) := by
  rw [Setup.push, asked.place]
  dsimp only
  rw [asked_hears asked]
  dsimp only
  rw [computes]

theorem push_stops (laws : ScratchVectors.ZeroLaws F) (asked : Asked x i round task)
    (long : 2 ^ x.config.modelBits ≤ weights.length) (nothing : x.scheme.update i round weights = none) :
    x.push task (getReply x.wire (x.getNext i round).dataset weights) = some (task.exit, [], []) := by
  have computed := fetched_gradient laws (x.getNext i round) asked.fit long
  cases done : (fetched task.model x.config (x.getNext i round).dataset weights).minibatchGradSparse
      (x.getNext i round).dataset x.config with
  | error fault =>
    have computes : x.computeGradient task (x.getNext i round).dataset
        (fetched task.model x.config (x.getNext i round).dataset weights) = .error fault := by
      rw [Setup.computeGradient, done]
      rfl
    exact push_heard_fails asked computes
  | ok result =>
    rw [done] at computed
    have made : x.scheme.update i round weights = some { result.2 with version := UInt64.ofNat (round + 1) } := by
      change (gradientAt x.config (x.getNext i round).dataset weights).toOption.map _ = _
      rw [← computed]
      rfl
    cases nothing.symm.trans made

theorem push_sends (laws : ScratchVectors.ZeroLaws F) (asked : Asked x i round task)
    (long : 2 ^ x.config.modelBits ≤ weights.length) {gradient : LRSparseGradient F}
    (made : x.scheme.update i round weights = some gradient) :
    ∃ task', x.push task (getReply x.wire (x.getNext i round).dataset weights) = some (task', [], lrMessage x.wire gradient) ∧
      (Ready x (round + 1) task' ∨ task'.place = .exited) ∧ Applicable x.config gradient := by
  have computed := fetched_gradient laws (x.getNext i round) asked.fit long
  have same : x.scheme.update i round weights = (gradientAt x.config (x.getNext i round).dataset weights).toOption.map
      fun gradient => { gradient with version := UInt64.ofNat (round + 1) } := rfl
  rw [same, ← computed] at made
  cases done : (fetched task.model x.config (x.getNext i round).dataset weights).minibatchGradSparse
      (x.getNext i round).dataset x.config with
  | error fault =>
    rw [done] at made
    cases made
  | ok result =>
    obtain ⟨model, g⟩ := result
    rw [done] at made
    obtain rfl := Option.some.inj made
    obtain ⟨fit, applies⟩ := round_fit laws (x.getNext i round) asked.fit done
    have computes : x.computeGradient task (x.getNext i round).dataset
        (fetched task.model x.config (x.getNext i round).dataset weights) =
          .ok (model, { g with version := UInt64.ofNat (round + 1) }) := by
      rw [Setup.computeGradient, done, ← asked.version]
      rfl
    have applicable : Applicable x.config { g with version := UInt64.ofNat (round + 1) } := ⟨applies.inside, applies.few⟩
    have sent := sendLrGradient_asks x.wire { g with version := UInt64.ofNat (round + 1) }
      (by have := applicable.few; rw [LRSparseGradient.getSerializedSize]; omega) []
    rw [List.append_nil] at sent
    have pushes : x.pushGradient task model { g with version := UInt64.ofNat (round + 1) } =
        (task.pushed x.testIters model, lrMessage x.wire { g with version := UInt64.ofNat (round + 1) }) := by
      rw [Setup.pushGradient, sent]
    refine ⟨task.pushed x.testIters model, ?_, ?_, applicable⟩
    · rw [push_heard asked computes, pushes]
    · by_cases last : 0 < x.testIters ∧ x.testIters < task.count + 1
      · exact .inr (if_pos last)
      · refine .inl ⟨fit, if_neg last, asked.taken, ?_⟩
        rw [Task.pushed, asked.version]
        exact (UInt64.ofNat_add _ 1).symm

variable [DecidableEq B] {first server : Server B F} {m : OptimizationMethod F × SparseLRModel F} {worker : Worker B}

theorem serve_request (updated : Updated x first m server) (i : I) (round : Nat) :
    serve x.wire worker server (getMessage x.wire (x.getNext i round).dataset) =
      some (.ok (server, [], getReply x.wire (x.getNext i round).dataset (x.scheme.read m))) := by
  have served := (x.getNext i round).served (w := x.wire) worker updated.sized []
  rw [List.append_nil] at served
  rw [serve, served, updated.model]
  rfl

theorem serve_gradient (updated : Updated x first m server) {gradient : LRSparseGradient F}
    (applicable : Applicable x.config gradient) :
    (∃ server', Updated x first (x.scheme.apply m gradient) server' ∧
      ∀ rest, serve x.wire worker server (lrMessage x.wire gradient ++ rest) = some (.ok (server', rest, []))) ∨
    ∃ fault, (gradient.weights = [] ∧ fault = noWeights) ∧
      ∀ rest, serve x.wire worker server (lrMessage x.wire gradient ++ rest) = some (.error fault) := by
  by_cases empty : gradient.weights = []
  · refine .inr ⟨noWeights, ⟨empty, rfl⟩, fun rest => ?_⟩
    have ends : (run (gradientF x.wire worker server) (lrMessage x.wire gradient ++ rest)).result = some (.error noWeights) :=
      gradientF_ends worker empty rest
    unfold serve
    generalize run (gradientF x.wire worker server) (lrMessage x.wire gradient ++ rest) = progress at ends
    obtain ⟨result, unread, sent⟩ := progress
    dsimp only at ends
    rw [ends]
  · left
    obtain ⟨⟨method, model⟩, applied, sized⟩ := server.optMethod.sgdUpdate_gives updated.sized applicable.inside
    have served := GradientAccepted.processSendLrGradient_talks (w := x.wire) worker (List.length_pos_iff.mpr empty)
      applicable.few applied
    refine ⟨{ server with
      optMethod := method
      lrModel := model
      gradientUpdatesCount := server.gradientUpdatesCount + 1 }, ⟨?_, sized, updated.others⟩, fun rest => ?_⟩
    · rw [updated.model]
      change (server.optMethod.sgdUpdate server.lrModel gradient).toOption.getD _ = (method, model)
      rw [applied]
      rfl
    · rw [serve, served rest]

omit [Zero F] [One F] [Add F] [Sub F] [Mul F] [Div F] [OfNat F 2] [FloatOps F] [DecidableEq B] in
theorem runLoop_updated (turn : Turn) (updated : Updated x first m server) : Updated x first m (runLoop turn server) := by
  obtain ⟨model, sized, others⟩ := updated
  unfold runLoop
  split
  next => exact ⟨model, sized, others⟩
  next => exact ⟨model, sized, others⟩

theorem carries (laws : ScratchVectors.ZeroLaws F) (x : Setup I B F) (first : Server B F) :
    Rounds.Carries x.system x.scheme (x.protocol first) where
  asks ready := ask_ready ready
  readyWaits ready := push_elsewhere (fun _ here => by cases ready.place.symm.trans here) _
  askedOnce asked := ask_elsewhere fun here => by cases asked.place.symm.trans here
  askedWaits asked := push_waits asked
  exited _ place :=
    ⟨ask_elsewhere fun here => (by cases place.symm.trans here), push_elsewhere (fun _ here => by cases place.symm.trans here) _⟩
  pushes asked long made := push_sends laws asked long made
  stops asked long nothing := ⟨_, push_stops laws asked long nothing, rfl⟩
  idle := rfl
  reads _ _ _ updated := by
    refine ⟨serve_request updated _ _, ?_⟩
    change _ ≤ (List.map _ _).length
    rw [updated.model, List.length_map, updated.sized.weights]
    exact Nat.le_succ _
  takes _ updated applicable := serve_gradient updated applicable
  others turn updated := runLoop_updated turn updated

omit [One F] [Div F] [OfNat F 2] [Add F] [Sub F] [Mul F] [DecidableEq B] in
theorem ready_start (x : Setup I B F) (i : I) : (x.protocol first).Ready i 0
    ({ model := SparseLRModel.ofSize (2 ^ x.config.modelBits) } : Task F) :=
  ⟨⟨(ScratchVectors.ofSize_unused _).clean, .inl rfl⟩, rfl, rfl, rfl⟩

omit [One F] [Div F] [OfNat F 2] [Add F] [Sub F] [Mul F] [DecidableEq B] in
theorem updated_start (sized : OptimizationMethod.HasSize first.lrModel (2 ^ x.config.modelBits + 1)) :
    (x.protocol first).Holds (first.optMethod, first.lrModel) first := ⟨rfl, sized, rfl⟩

section Runs
variable [DecidableEq I]

theorem training_follow (laws : ScratchVectors.ZeroLaws F)
    (sized : OptimizationMethod.HasSize first.lrModel (2 ^ x.config.modelBits + 1)) {labels : List (Label I B)}
    {s : State I B F} (taken : follow x.system.step (x.start first) labels = some s) :
    ∃ a, follow x.scheme.step { model := (first.optMethod, first.lrModel) } (labels.filterMap Rounds.Label.seen) = some a ∧
      ((∃ server, Rounds.Together (x.protocol first) s a server) ∨ Rounds.Ended (x.protocol first) s a) :=
  Rounds.follow_carried (carries laws x first) (updated_start sized) (ready_start x) taken

/-- However the steps of the workers and the server interleave, the bytes on the connections carry out a
run of the abstract system: each gradient is that of its worker's next minibatch at the weights that the server
had when it served the request, and is applied once and in its turn. Only a gradient without entries ends it. -/
theorem training_refines (laws : ScratchVectors.ZeroLaws F) (x : Setup I B F) (first : Server B F)
    (sized : OptimizationMethod.HasSize first.lrModel (2 ^ x.config.modelBits + 1)) (labels : List (Label I B))
    (s : State I B F) (taken : follow x.system.step (x.start first) labels = some s) :
    ∃ a, follow x.scheme.step { model := (first.optMethod, first.lrModel) } (labels.filterMap Rounds.Label.seen) = some a ∧
      Asynchronous.Consistent x.scheme (first.optMethod, first.lrModel) a ∧
      ((∃ server, Rounds.Running x.system (x.protocol first) s a server) ∨ Rounds.Ended (x.protocol first) s a) := by
  obtain ⟨a, follows, related⟩ := training_follow laws sized taken
  refine ⟨a, follows, Asynchronous.consistent_follow (Asynchronous.consistent_start _ _) follows, ?_⟩
  exact related.imp_left fun ⟨server, together⟩ => ⟨server, together.running (carries laws x first)⟩

theorem round_goes (laws : ScratchVectors.ZeroLaws F) (x : Setup I B F) (first : Server B F)
    (sized : OptimizationMethod.HasSize first.lrModel (2 ^ x.config.modelBits + 1)) (i : I) (worker : Worker B)
    {gradient : LRSparseGradient F}
    (computed : gradientAt x.config (x.getNext i 0).dataset (first.lrModel.weights.map first.optMethod.editWeight) =
      .ok gradient) :
    ∃ s, follow x.system.step (x.start first)
      [.ask i, .serve (.requests i) worker, .push i, .serve (.updates i) worker] = some s := by
  have made : x.scheme.update i 0 (x.scheme.read (first.optMethod, first.lrModel)) =
      some { gradient with version := UInt64.ofNat (0 + 1) } := by
    change (gradientAt x.config (x.getNext i 0).dataset
      (first.lrModel.weights.map first.optMethod.editWeight)).toOption.map _ = _
    rw [computed]
    rfl
  exact Rounds.round_goes (carries laws x first) (updated_start sized) (ready_start x) i made worker

end Runs
end Simulation

section Example
open Exact GradientAccepted

theorem oneSample_inside : ∀ index ∈ indices oneSample, 0 ≤ index.toInt ∧ index.toInt < 2 ^ (settings false).modelBits :=
  List.forall_mem_singleton.mpr ⟨Int.le_refl 0, Int.zero_lt_one⟩

def oneWorker : Setup Unit ℚ ℚ where
  wire := wire
  config := settings false
  modelBits := Nat.succ_pos 30
  testIters := 0
  getNext _ _ :=
    { dataset := oneSample
      few := Nat.le_refl 1
      labels := rfl
      inside := oneSample_inside
      someEntry := List.cons_ne_nil _ _
      listed := Nat.succ_le_succ (Nat.zero_le _) }

def oneRound : List (Label Unit ℚ) :=
  [.ask (), .serve (.requests ()) (.fresh wire), .push (), .serve (.updates ()) (.fresh wire)]

theorem oneGradient : gradientAt (settings false) oneSample [0, 0] = .ok { weights := [(0, 1 / 2)] } := by
  decide +kernel

theorem training_refines_round : ∃ s a, follow oneWorker.system.step (oneWorker.start server) oneRound = some s ∧
    follow oneWorker.scheme.step { model := (server.optMethod, server.lrModel) } [.read (), .send (), .apply ()] = some a ∧
    Asynchronous.Consistent oneWorker.scheme (server.optMethod, server.lrModel) a ∧
    ((∃ now, Rounds.Running oneWorker.system (oneWorker.protocol server) s a now) ∨
      Rounds.Ended (oneWorker.protocol server) s a) := by
  obtain ⟨s, taken⟩ := round_goes ScratchVectors.exactZeros oneWorker server server_sized () (.fresh wire) oneGradient
  obtain ⟨a, follows, consistent, related⟩ :=
    training_refines ScratchVectors.exactZeros oneWorker server server_sized oneRound s taken
  exact ⟨s, a, taken, follows, consistent, related⟩

end Example
end Training

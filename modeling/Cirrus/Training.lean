import Cirrus.GradientAccepted
import Cirrus.LRFetch
import Cirrus.Lib.Rounds
import Cirrus.ScratchVectors

/-!
Training a logistic regression: any number of `LogisticSparseTaskS3` workers,
each with a connection for the model and one for its gradients, and the server.
What the bytes on the connections come to is a model that is updated
asynchronously. A request is handled in one step: no two threads of the server
are taken to handle requests at the same time. What a reply can see of updates
that overlap it is said in `ModelReads`.
-/
namespace Training
open Gradients SparseLR GradientsAgree ServerTask ServerInterface Stream Stream.Prog Loops Transition
variable {I B F : Type}

section Gradient
variable [Zero F] [Add F] [Sub F] [Mul F] [OfNat F 2] [FloatOps F] {ds : SparseDataset F} {v v' : List F}

omit [Sub F] [OfNat F 2] [FloatOps F] in
theorem sparseDot_congr {row : Row F} (same : ∀ feat ∈ row, v[cell feat.1]? = v'[cell feat.1]?) :
    SparseLRModel.sparseDot v row = SparseLRModel.sparseDot v' row := by
  apply foldlM_congr
  intro feat here part1
  rw [at', at', same feat here]

omit [Zero F] [Sub F] [OfNat F 2] [FloatOps F] in
theorem collect_listed {part2 start : List F} {s : List Int32 × List F}
    (done : ds.data.zipIdx.foldlM (SparseLRModel.collect part2) ([], start) = .ok s) : ∀ index ∈ s.1, index ∈ indices ds := by
  apply foldlM_ends (P := fun _ s => ∀ index ∈ s.1, index ∈ indices ds) ?_ (fun _ none => absurd none List.not_mem_nil) done
  intro seen sample here s t before one
  have row : sample.1 ∈ ds.data := List.fst_mem_of_mem_zipIdx (mem_of_here here)
  apply foldlM_ends (P := fun _ s => ∀ index ∈ s.1, index ∈ indices ds) ?_ before one
  intro feats feat there s t before one
  obtain ⟨residual, _, one⟩ := ok_of_bind one
  obtain ⟨part3, _, one⟩ := ok_of_bind one
  cases one
  intro index listed
  rcases List.mem_append.mp listed with earlier | now
  · exact before index earlier
  · rw [List.mem_singleton.mp now]
    exact mem_indices row (mem_of_here there)

theorem minibatchGradSparse_congr (m : SparseLRModel F) (config : Configuration F)
    (same : ∀ index ∈ indices ds, v[cell index]? = v'[cell index]?) :
    (({ m with weightsSparse := v } : SparseLRModel F).minibatchGradSparse ds config).map (·.2) =
      (({ m with weightsSparse := v' } : SparseLRModel F).minibatchGradSparse ds config).map (·.2) := by
  refine Alike.eq_of_map (R := fun s s' : SparseLRModel F × LRSparseGradient F => s.2 = s'.2) ?_ fun _ _ same => same
  have ensured : Alike (fun a a' : SparseLRModel F => a.weightsSparse = v ∧ a'.weightsSparse = v' ∧
      a.uniqueIndices = [] ∧ a'.uniqueIndices = [] ∧ a.part2 = a'.part2 ∧ a.part3 = a'.part3)
      (({ m with weightsSparse := v } : SparseLRModel F).ensurePreallocatedVectors config)
      (({ m with weightsSparse := v' } : SparseLRModel F).ensurePreallocatedVectors config) :=
    .bind_same fun part3 => .bind_same fun part2 => .ok ⟨rfl, rfl, rfl, rfl, rfl, rfl⟩
  refine ensured.bind fun a a' ⟨weights, weights', listed, listed', scratch, start⟩ => ?_
  rw [weights, weights', listed, listed', scratch, start]
  have first : residuals (SparseLRModel.sparseDot v) ds a'.part2 = residuals (SparseLRModel.sparseDot v') ds a'.part2 := by
    apply foldlM_congr
    intro sample here part2
    rw [sparseDot_congr fun feat there => same _ (mem_indices (List.fst_mem_of_mem_zipIdx here) there)]
  rw [first]
  refine .bind_same fun part2 => ?_
  cases gathered : ds.data.zipIdx.foldlM (SparseLRModel.collect part2) ([], a'.part3) with
  | error fault => exact .error fault
  | ok s =>
    have last : s.1.foldlM (SparseLRModel.emit config v) (s.2, []) = s.1.foldlM (SparseLRModel.emit config v') (s.2, []) := by
      apply foldlM_congr
      intro index listed t
      rw [SparseLRModel.emit, SparseLRModel.emit, at', at', at', same index (collect_listed gathered index listed)]
    change Alike _ (s.1.foldlM (SparseLRModel.emit config v) (s.2, []) >>= _)
      (s.1.foldlM (SparseLRModel.emit config v') (s.2, []) >>= _)
    rw [last]
    exact .bind_same fun t => .ok rfl

end Gradient

structure Minibatch (config : Configuration F) where
  dataset : SparseDataset F
  few : dataset.data.length ≤ config.minibatchSize
  labels : dataset.labels.length = dataset.data.length
  inside : ∀ index ∈ indices dataset, 0 ≤ index.toInt ∧ index.toInt < 2 ^ config.modelBits
  someEntry : features dataset ≠ []
  listed : (features dataset).length ≤ 262143

structure Setup (I B F : Type) where
  wire : Wire B F
  config : Configuration F
  modelBits : config.modelBits < 31
  testIters : Int
  getNext : I → Nat → Minibatch config

inductive Place (F : Type)
  | getDatasetMinibatch
  | getNewModelInplace (dataset : SparseDataset F)
  | exited

structure Task (F : Type) where
  model : SparseLRModel F
  place : Place F := .getDatasetMinibatch
  taken : Nat := 0
  version : UInt64 := 1
  count : Nat := 0

/-- A turn of the server's main loop, with the time when it is a second after the last. -/
structure Turn where
  numUpdates : UInt32
  now : Option Int

/-- What a turn of the main loop changes. -/
def runLoop (turn : Turn) (s : Server B F) : Server B F :=
  let s := { s with numUpdates := turn.numUpdates }
  match turn.now with
  | none => s
  | some now => { s with gradientUpdatesCount := 0, tasks := TaskRegistry.checkTasksLifetime s.tasks now }

/-- A thread of the server handles the first request of a connection, once all of it is there and while no other
thread handles one. -/
def serve [DecidableEq B] [Zero F] [One F] [Add F] [Sub F] [Mul F] [Div F] [FloatOps F] (w : Wire B F) (worker : Worker B)
    (server : Server B F) (up : List B) : Option (Except Fault (Server B F × List B × List B)) :=
  match run (gradientF w worker server) up with
  | { result := none, unread := _, sent := _ } => none
  | { result := some (.error fault), unread := _, sent := _ } => some (.error fault)
  | { result := some (.ok served), unread := unread, sent := sent } => some (.ok (served.server, unread, sent))

/-- The requests of a worker go over the connection of its `sparse_model_get`, and the updates over that of `psint`. -/
abbrev State (I B F : Type) := Rounds.State I B (Server B F) (Task F) Fault

abbrev Label (I B : Type) := Rounds.Label I (Worker B) Turn

def Task.exit (task : Task F) : Task F := { task with place := .exited }

/-- The end of a round: the next one begins, unless `test_iters` of them have been done before. -/
def Task.pushed (task : Task F) (testIters : Int) (model : SparseLRModel F) : Task F where
  model := model
  place := if 0 < testIters ∧ testIters < task.count + 1 then .exited else .getDatasetMinibatch
  taken := task.taken
  version := task.version + 1
  count := task.count + 1

namespace Setup
variable [Zero F] [Add F] [Sub F] [Mul F] [OfNat F 2] [FloatOps F]

/-- A worker takes a minibatch and asks for the weights of its features: it sends all it has to send before it reads. -/
def ask (x : Setup I B F) (i : I) (task : Task F) : Option (Task F × List B) :=
  match task.place with
  | .getDatasetMinibatch =>
    let dataset := (x.getNext i task.taken).dataset
    let sent := (run (getLrSparseModelInplace x.wire dataset task.model x.config) []).sent
    some ({ task with place := .getNewModelInplace dataset, taken := task.taken + 1 }, sent)
  | _ => none

/-- The gradient of the minibatch, with its version, and the model that computed it. An exception ends the worker. -/
def computeGradient (x : Setup I B F) (task : Task F) (dataset : SparseDataset F) (model : SparseLRModel F) :
    Except Fault (SparseLRModel F × LRSparseGradient F) := do
  let (model, gradient) ← model.minibatchGradSparse dataset x.config
  pure (model, { gradient with version := task.version })

def pushGradient (x : Setup I B F) (task : Task F) (model : SparseLRModel F) (gradient : LRSparseGradient F) :
    Task F × List B :=
  match run (sendLrGradient x.wire gradient) [] with
  | { result := some (.ok ()), unread := _, sent := sent } => (task.pushed x.testIters model, sent)
  | { result := _, unread := _, sent := sent } => (task.exit, sent)

def push (x : Setup I B F) (task : Task F) (down : List B) : Option (Task F × List B × List B) :=
  match task.place with
  | .getNewModelInplace dataset =>
    match run (getLrSparseModelInplace x.wire dataset task.model x.config) down with
    | { result := none, unread := _, sent := _ } => none
    | { result := some (.error _), unread := unread, sent := _ } => some (task.exit, unread, [])
    | { result := some (.ok model), unread := unread, sent := _ } =>
      match x.computeGradient task dataset model with
      | .error _ => some (task.exit, unread, [])
      | .ok (model, gradient) =>
        let (task, sent) := x.pushGradient task model gradient
        some (task, unread, sent)
  | _ => none

variable [One F] [Div F] [DecidableEq B]

def system (x : Setup I B F) : Rounds.System I B (Server B F) (Task F) (Worker B) Turn Fault where
  ask := x.ask
  push _ := x.push
  serve := serve x.wire
  other := runLoop

omit [Add F] [Sub F] [Mul F] [OfNat F 2] [FloatOps F] [One F] [Div F] [DecidableEq B] in
def start (x : Setup I B F) (server : Server B F) : State I B F :=
  Rounds.start server fun _ => { model := SparseLRModel.ofSize (2 ^ x.config.modelBits) }

end Setup

def gradientAt [Zero F] [Add F] [Sub F] [Mul F] [OfNat F 2] [FloatOps F] (config : Configuration F) (ds : SparseDataset F)
    (weights : List F) : Except Fault (LRSparseGradient F) :=
  (({ SparseLRModel.ofSize 0 with weightsSparse := weights } : SparseLRModel F).minibatchGradSparse ds config).map (·.2)

/-- What the workers and the server are for: a worker reads the weights as the method edits them, its updates
are gradients at these, and the method applies them. -/
def Setup.scheme [Zero F] [One F] [Add F] [Sub F] [Mul F] [Div F] [OfNat F 2] [FloatOps F] (x : Setup I B F) :
    Asynchronous.Scheme I (OptimizationMethod F × SparseLRModel F) (List F) (LRSparseGradient F) where
  read m := m.2.weights.map m.1.editWeight
  update i round weights := (gradientAt x.config (x.getNext i round).dataset weights).toOption.map fun gradient =>
    { gradient with version := UInt64.ofNat (round + 1) }
  apply m gradient := (m.1.sgdUpdate m.2 gradient).toOption.getD m

section Fetching
variable {w : Wire B F} {ds : SparseDataset F} {config : Configuration F}

theorem stored_length (value : UInt32 → F) (indices : List UInt32) (cells : List F) :
    (LRFetch.stored value indices cells).length = cells.length := by
  induction indices generalizing cells with
  | nil => rfl
  | cons i rest ih => exact (ih _).trans List.length_set

namespace Minibatch
variable (b : Minibatch config)

theorem small {i : UInt32} (member : i ∈ features b.dataset) : i.toNat < 2 ^ config.modelBits := by
  obtain ⟨row, listed, e, there, rfl⟩ := mem_features.mp member
  obtain ⟨natural, bound⟩ := b.inside e.1 (mem_indices listed there)
  rw [Words.toNat_toUInt32 natural]
  exact Words.toNat_lt_two_pow natural bound

theorem cell_small {index : Int32} (member : index ∈ indices b.dataset) : cell index < 2 ^ config.modelBits := by
  obtain ⟨natural, bound⟩ := b.inside index member
  exact cell_lt natural bound

theorem feature_of {index : Int32} (member : index ∈ indices b.dataset) :
    index.toUInt32 ∈ features b.dataset ∧ index.toUInt32.toNat = cell index := by
  obtain ⟨natural, _⟩ := b.inside index member
  obtain ⟨e, there, rfl⟩ := List.mem_map.mp member
  exact ⟨List.mem_map_of_mem there, (Words.toNat_toUInt32 natural).trans (cell_of_natural natural).symm⟩

end Minibatch

variable [Zero F]

def getMessage (w : Wire B F) (ds : SparseDataset F) : List B :=
  w.u32.put PsOp.getLrSparseModel.code ++
    (w.u32.put (UInt32.ofNat (LRFetch.request w (features ds)).length) ++ LRFetch.request w (features ds))

def valueOf (weights : List F) (i : UInt32) : F := weights.getD i.toNat 0

def getReply (w : Wire B F) (ds : SparseDataset F) (weights : List F) : List B :=
  ((features ds).map (valueOf weights)).flatMap w.feature.put

theorem getLrSparseModelInplace_speaksFirst (m : SparseLRModel F) : SpeaksFirst (getLrSparseModelInplace w ds m config) := by
  unfold getLrSparseModelInplace
  dsimp only
  split
  next => trivial
  next =>
    rw [speaksFirst_say, speaksFirst_say, speaksFirst_say, speaksFirst_read]
    intro cells
    cases SparseLRModel.loadSerializedSparse w m (cells.getD []) _ _ config <;> trivial

def fetched (m : SparseLRModel F) (config : Configuration F) (ds : SparseDataset F) (weights : List F) : SparseLRModel F :=
  let reserved := m.reserveSparse (2 ^ config.modelBits)
  { reserved with
    isSparse := true
    weightsSparse := LRFetch.stored (valueOf weights) (features ds) reserved.weightsSparse }

def Reserved (config : Configuration F) (m : SparseLRModel F) : Prop :=
  m.weightsSparse = [] ∨ m.weightsSparse.length = 2 ^ config.modelBits

theorem Reserved.block {m : SparseLRModel F} (reserved : Reserved config m) :
    (m.reserveSparse (2 ^ config.modelBits)).weightsSparse.length = 2 ^ config.modelBits := by
  rw [SparseLRModel.reserveSparse]
  split
  next => exact List.length_replicate
  next enough =>
    rcases reserved with empty | sized
    · rw [empty] at enough
      exact absurd (Nat.two_pow_pos _) enough
    · exact sized

theorem Reserved.fetched {m : SparseLRModel F} (reserved : Reserved config m) (ds : SparseDataset F) (weights : List F) :
    (Training.fetched m config ds weights).weightsSparse.length = 2 ^ config.modelBits :=
  (stored_length _ _ _).trans reserved.block

namespace Minibatch
variable (b : Minibatch config)

theorem hears (modelBits : config.modelBits < 31) {m : SparseLRModel F} (reserved : Reserved config m) (weights : List F) :
    Talks (getLrSparseModelInplace w b.dataset m config) (getReply w b.dataset weights) (getMessage w b.dataset)
      (fetched m config b.dataset weights) := by
  have block : SparseLRModel.sparseBlock config = .ok (2 ^ config.modelBits) := if_pos modelBits
  have few : (features b.dataset).length < 10000000 := Nat.lt_of_le_of_lt b.listed (by decide)
  have inside : ∀ i ∈ features b.dataset, i.toNat < (m.reserveSparse (2 ^ config.modelBits)).weightsSparse.length := by
    intro i member
    rw [reserved.block]
    exact b.small member
  exact LRFetch.getLrSparseModelInplace_asks b.someEntry b.listed (List.length_map _)
    (LRFetch.loadSerializedSparse_stores m block b.someEntry few inside (valueOf weights))

theorem asks (modelBits : config.modelBits < 31) {m : SparseLRModel F} (reserved : Reserved config m) :
    (run (getLrSparseModelInplace w b.dataset m config) []).sent = getMessage w b.dataset := by
  rw [← speaksFirst_sent (getLrSparseModelInplace_speaksFirst m) (getReply w b.dataset [] ++ []),
    b.hears modelBits reserved [] []]

theorem waits (modelBits : config.modelBits < 31) {m : SparseLRModel F} (reserved : Reserved config m) :
    (run (getLrSparseModelInplace w b.dataset m config) []).result = none := by
  apply (b.hears modelBits reserved []).waits
  intro none
  have length := congrArg List.length none
  have some_entry := List.length_pos_iff.mpr b.someEntry
  rw [getReply, w.feature.flatMap_put_length, List.length_map, List.length_nil] at length
  omega

variable [One F] [Add F] [Sub F] [Mul F] [Div F] [FloatOps F] [DecidableEq B]

theorem served (worker : Worker B) {server : Server B F}
    (sized : OptimizationMethod.HasSize server.lrModel (2 ^ config.modelBits + 1)) :
    Talks (gradientF w worker server) (getMessage w b.dataset)
      (getReply w b.dataset (server.lrModel.weights.map server.optMethod.editWeight)) { server := server } := by
  have known : ∀ i ∈ features b.dataset, server.lrModel.weights[i.toNat]? = some (server.lrModel.weights.getD i.toNat 0) := by
    intro i member
    have small := b.small member
    rw [List.getD_eq_getElem?_getD, List.getElem?_eq_getElem (by rw [sized.weights]; omega), Option.getD_some]
  have few := b.listed
  have decodes := LRFetch.sparseWeights_decodes (w := w) (s := server) known (by omega)
  have same : (features b.dataset).map (valueOf (server.lrModel.weights.map server.optMethod.editWeight)) =
      (features b.dataset).map fun i => server.optMethod.editWeight (server.lrModel.weights.getD i.toNat 0) := by
    apply List.map_congr_left
    intro i member
    rw [valueOf, List.getD_eq_getElem?_getD, List.getElem?_map, known i member]
    rfl
  rw [getReply, same]
  apply gradientF_read worker server rfl
  apply bodyRequest_talks
  · rw [LRFetch.request_length]
    omega
  · rw [LRFetch.request_length, threadBufferSize]
    omega
  · exact decodes _
  · exact .say_last _ (.pure _)

end Minibatch
end Fetching

section Computing
variable [Zero F] [Add F] [Sub F] [Mul F] [OfNat F 2] [FloatOps F] {config : Configuration F} {m m' : SparseLRModel F}
  {weights : List F} {g : LRSparseGradient F}

structure Fit (config : Configuration F) (m : SparseLRModel F) : Prop where
  clean : ScratchVectors.Clean config.modelBits config.minibatchSize m
  reserved : Reserved config m

omit [Add F] [Sub F] [Mul F] [OfNat F 2] in
theorem fetched_clean (clean : ScratchVectors.Clean config.modelBits config.minibatchSize m) (ds : SparseDataset F) :
    ScratchVectors.Clean config.modelBits config.minibatchSize (fetched m config ds weights) := by
  unfold fetched SparseLRModel.reserveSparse
  split
  next => exact ⟨clean.part2, clean.part3, clean.zero⟩
  next => exact ⟨clean.part2, clean.part3, clean.zero⟩

/-- Whatever the worker's model has been used for, it computes the gradient at the weights that it was sent. -/
theorem fetched_gradient (laws : ScratchVectors.ZeroLaws F) (b : Minibatch config) (fit : Fit config m)
    (long : 2 ^ config.modelBits ≤ weights.length) :
    ((fetched m config b.dataset weights).minibatchGradSparse b.dataset config).map (·.2) =
      gradientAt config b.dataset weights := by
  let c : ScratchVectors.Call F := ⟨(fetched m config b.dataset weights).weightsSparse, b.dataset, config⟩
  have fresh : ScratchVectors.Clean config.modelBits config.minibatchSize (SparseLRModel.ofSize 0 : SparseLRModel F) :=
    (ScratchVectors.ofSize_unused 0).clean
  have own : (c.on (fetched m config b.dataset weights)).map (·.2) = (c.on (SparseLRModel.ofSize 0)).map (·.2) :=
    (ScratchVectors.on_alike laws (fetched_clean fit.clean b.dataset) fresh rfl rfl).eq_of_map fun _ _ same => same
  refine Eq.trans own (minibatchGradSparse_congr (SparseLRModel.ofSize 0) config ?_)
  intro index listed
  obtain ⟨member, same⟩ := b.feature_of listed
  have inside : index.toUInt32.toNat < (m.reserveSparse (2 ^ config.modelBits)).weightsSparse.length := by
    rw [fit.reserved.block]
    exact b.small member
  have small := b.small member
  rw [← same]
  refine (LRFetch.stored_at member inside).trans ?_
  rw [valueOf, List.getD_eq_getElem?_getD, List.getElem?_eq_getElem (by omega), Option.getD_some]

theorem minibatchGradSparse_keeps {ds : SparseDataset F} (done : m.minibatchGradSparse ds config = .ok (m', g)) :
    m'.weightsSparse = m.weightsSparse := by
  obtain ⟨prepared, ensured, done⟩ := ok_of_bind done
  obtain ⟨start, _, ensured⟩ := ok_of_bind ensured
  obtain ⟨scratch, _, ensured⟩ := ok_of_bind ensured
  cases ensured
  obtain ⟨part2, _, done⟩ := ok_of_bind done
  obtain ⟨s, _, done⟩ := ok_of_bind done
  obtain ⟨t, _, done⟩ := ok_of_bind done
  cases done
  rfl

structure Applicable (config : Configuration F) (g : LRSparseGradient F) : Prop where
  inside : ∀ e ∈ g.weights, cell e.1 < 2 ^ config.modelBits + 1
  few : g.weights.length < 10000000

theorem round_fit (laws : ScratchVectors.ZeroLaws F) (b : Minibatch config) (fit : Fit config m)
    (done : (fetched m config b.dataset weights).minibatchGradSparse b.dataset config = .ok (m', g)) :
    Fit config m' ∧ Applicable config g := by
  obtain ⟨start, computed⟩ := minibatchGradSparse_ends laws.zero done
  let c : ScratchVectors.Call F := ⟨(fetched m config b.dataset weights).weightsSparse, b.dataset, config⟩
  have called : c.on (fetched m config b.dataset weights) = .ok (m', g) := done
  refine ⟨⟨ScratchVectors.on_clean laws (fetched_clean fit.clean b.dataset) rfl rfl called, .inr ?_⟩, ⟨?_, ?_⟩⟩
  · rw [minibatchGradSparse_keeps done]
    exact fit.reserved.fetched b.dataset weights
  · intro e member
    exact Nat.lt_succ_of_lt (b.cell_small ((computed.emitted.mem e).mp member).1)
  · have listed : g.weights.map (·.1) ⊆ indices b.dataset := by
      intro index member
      obtain ⟨e, there, rfl⟩ := List.mem_map.mp member
      exact ((computed.emitted.mem e).mp there).1
    have length := (computed.emitted.nodup.subperm listed).length_le
    have bound := b.listed
    rw [List.length_map, indices, List.length_map] at length
    rw [features, List.length_map] at bound
    omega

end Computing

section Serving
variable [Zero F] [One F] [Add F] [Sub F] [Mul F] [Div F] [FloatOps F] [DecidableEq B] {w : Wire B F}
  {server : Server B F} {g : LRSparseGradient F}

def noWeights : Fault := .assertion "num_weights > 0 && num_weights < 10000000"

theorem gradientF_ends (worker : Worker B) (empty : g.weights = []) (rest : List B) :
    (run (gradientF w worker server) (lrMessage w g ++ rest)).result = some (.error noWeights) := by
  have length := g.serialize_length w
  rw [LRSparseGradient.getSerializedSize, empty, List.length_nil] at length
  have size : g.getSerializedSize = (g.serialize w).length := (g.serialize_length w).symm
  have known : (UInt32.ofNat (g.serialize w).length).toNat = (g.serialize w).length :=
    UInt32.toNat_ofNat_of_lt' (by rw [length]; decide)
  rw [lrMessage, size, List.append_assoc, List.append_assoc, gradientF_run worker server rfl, processSendLrGradient,
    bodyRequest, run_read (w.u32.put_length _) (by decide)]
  dsimp only
  rw [w.u32.get_put, known, worker.sizes.1, if_neg (by rw [length, threadBufferSize]; omega),
    run_read rfl (by omega)]
  dsimp only
  rw [overwrite, GradientAccepted.loadSerialized_refuses (by rw [empty, List.length_nil]; decide) (by rw [empty, List.length_nil]; decide)]
  rfl

end Serving

end Training

import Cirrus.GradientsAgree
import Cirrus.LRFetch
import Cirrus.Lib.Reserved
import Cirrus.Lib.Traced

/-!
The accesses by `v[i]` in a round of a worker: it fetches the weights of a
minibatch into `weights_sparse_` and computes the gradient with them. `part2`
and `part3` are resized before they are used. `weights_sparse_` is only ever
reserved, so that it has the room that the accesses need, and no elements.
-/
namespace VectorAccesses
open Gradients SparseLR GradientsAgree Traces Reserving
open ServerInterface (features maxMsgSize)
variable {B F : Type}

inductive VectorName
  | weightsSparse
  | part2
  | part3
  | labels
  deriving DecidableEq

inductive Kind
  | read
  | write
  deriving DecidableEq

/-- An access by `v[i]`, with the `size()` of the vector at that moment. -/
structure Access (F : Type) where
  vector : VectorName
  kind : Kind
  index : Nat
  size : Nat
  /-- What is written, or what is read from the vector's block. Outside of the block there is nothing. -/
  value : Option F
  deriving DecidableEq

abbrev Touching (F : Type) := Traced (Access F) Fault

def readAt (vector : VectorName) (v : Reserved F) (i : Nat) : Touching F F := do
  record { vector := vector, kind := .read, index := i, size := v.size, value := v.cells[i]? }
  compute (at' v.cells i)

def writeAt (vector : VectorName) (v : Reserved F) (i : Nat) (x : F) : Touching F (Reserved F) := do
  record { vector := vector, kind := .write, index := i, size := v.size, value := some x }
  if i < v.capacity then pure (v.set i x) else fail .undefined

structure WorkerModel (F : Type) where
  weights : List F
  weightsHist : List F
  isSparse : Bool := false
  weightsSparse : Reserved F := .empty
  part2 : Reserved F := .empty
  part3 : Reserved F := .empty
  uniqueIndices : List Int32 := []

def WorkerModel.blocks (m : WorkerModel F) : SparseLRModel F :=
  { weights := m.weights, weightsHist := m.weightsHist, isSparse := m.isSparse, weightsSparse := m.weightsSparse.cells,
    part2 := m.part2.cells, part3 := m.part3.cells, uniqueIndices := m.uniqueIndices }

/-- A minibatch, and what `buffer` holds when the reply has been read. Without a reply, the request
could not be sent. -/
structure Round (F : Type) where
  ds : SparseDataset F
  reply : Option (Nat → F)

namespace WorkerModel

/-- What the constructors leave: they size the weights only. -/
def fresh (weights weightsHist : List F) : WorkerModel F := { weights := weights, weightsHist := weightsHist }

section Loading
variable [Zero F]

def storeSparse (weights : Nat → F) (m : WorkerModel F) (e : UInt32 × Nat) : Touching F (WorkerModel F) := do
  pure { m with weightsSparse := ← writeAt .weightsSparse m.weightsSparse e.1.toNat (weights e.2) }

/-- The buffers of weights and indices are given value by value. -/
def loadSerializedSparse (m : WorkerModel F) (weights : Nat → F) (weightIndices : List UInt32) (config : Configuration F) :
    Touching F (WorkerModel F) := do
  if ¬ (0 < weightIndices.length ∧ weightIndices.length < 10000000) then
    fail (.assertion "num_weights > 0 && num_weights < 10000000")
  else
    let block ← compute (SparseLRModel.sparseBlock config)
    weightIndices.zipIdx.foldlM (storeSparse weights)
      { m with isSparse := true, weightsSparse := m.weightsSparse.reserve 0 block }

def getLrSparseModelInplace (m : WorkerModel F) (r : Round F) (config : Configuration F) :
    Touching F (WorkerModel F) := do
  if maxMsgSize < 4 + 4 * (features r.ds).length then fail .undefined else
  match r.reply with
  | none => fail (.exception "Error getting sparse lr model")
  | some buffer => m.loadSerializedSparse buffer (features r.ds) config

end Loading

section Gradient
variable [Zero F]

def allocate (v : Reserved F) (n : Except Fault Nat) : Except Fault (Reserved F) :=
  if v.capacity = 0 then n.map (v.resize 0) else .ok v

def ensurePreallocatedVectors (m : WorkerModel F) (config : Configuration F) : Except Fault (WorkerModel F) := do
  let part3 ← allocate m.part3 (SparseLRModel.sparseBlock config)
  let part2 ← allocate m.part2 (.ok config.minibatchSize)
  pure { m with uniqueIndices := [], part3 := part3, part2 := part2 }

variable [Add F] [Sub F] [Mul F] [OfNat F 2] [FloatOps F]

def sparseDot (weightsSparse : Reserved F) (row : Row F) : Touching F F :=
  row.foldlM (fun part1 feat => do pure (part1 + feat.2 * (← readAt .weightsSparse weightsSparse (cell feat.1)))) 0

def residuals (weightsSparse : Reserved F) (ds : SparseDataset F) (part2 : Reserved F) : Touching F (Reserved F) :=
  ds.data.zipIdx.foldlM
    (fun part2 sample => do
      let part1 ← sparseDot weightsSparse sample.1
      let label ← readAt .labels (.ofList ds.labels) sample.2
      let sigmoid ← compute (s1 part1)
      writeAt .part2 part2 sample.2 (label - sigmoid))
    part2

def collect (part2 : Reserved F) (s : List Int32 × Reserved F) (sample : Row F × Nat) :
    Touching F (List Int32 × Reserved F) :=
  sample.1.foldlM
    (fun s feat => do
      let residual ← readAt .part2 part2 sample.2
      let sum ← readAt .part3 s.2 (cell feat.1)
      let part3 ← writeAt .part3 s.2 (cell feat.1) (sum + feat.2 * residual)
      pure (s.1 ++ [feat.1], part3))
    s

def emit (config : Configuration F) (weightsSparse : Reserved F) (s : Reserved F × Row F) (index : Int32) :
    Touching F (Reserved F × Row F) := do
  let value ← readAt .part3 s.1 (cell index)
  if FloatOps.isZero value then pure s else
  let part3 ← writeAt .part3 s.1 (cell index) 0
  let weight ← readAt .weightsSparse weightsSparse (cell index)
  let finalGrad := value + weight * 2 * config.epsilon
  if ¬ config.useGradThreshold ∨ (config.useGradThreshold ∧ FloatOps.absGreater finalGrad config.gradThreshold) then
    pure (part3, s.2 ++ [(index, finalGrad)])
  else
    pure (part3, s.2)

def minibatchGradSparse (m : WorkerModel F) (ds : SparseDataset F) (config : Configuration F) :
    Touching F (WorkerModel F × LRSparseGradient F) := do
  let m ← compute (m.ensurePreallocatedVectors config)
  let part2 ← residuals m.weightsSparse ds m.part2
  let (uniqueIndices, part3) ← ds.data.zipIdx.foldlM (collect part2) (m.uniqueIndices, m.part3)
  let (part3, res) ← uniqueIndices.foldlM (emit config m.weightsSparse) (part3, [])
  pure ({ m with uniqueIndices := uniqueIndices, part3 := part3, part2 := part2 }, { weights := res })

def round (config : Configuration F) (m : WorkerModel F) (r : Round F) : Touching F (WorkerModel F) := do
  let m ← m.getLrSparseModelInplace r config
  let (m, _) ← m.minibatchGradSparse r.ds config
  pure m

/-- The rounds of a worker, which ends with the first of them that fails. -/
def run (config : Configuration F) (m : WorkerModel F) (rounds : List (Round F)) : Touching F (WorkerModel F) :=
  rounds.foldlM (round config) m

end Gradient
end WorkerModel

section Blocks
open Loops

theorem writeAt_result (vector : VectorName) (v : Reserved F) (i : Nat) (x : F) :
    Alike (fun v' l => v'.cells = l) (writeAt vector v i x).result (setAt v.cells i x) := by
  rw [writeAt, result_bind, setAt]
  change Alike _ (if i < v.cells.length then _ else _ : Touching F (Reserved F)).result _
  split
  next => exact .ok rfl
  next => exact .error _

variable [Zero F]

theorem allocate_blocks (v : Reserved F) (n : Except Fault Nat) :
    Alike (fun v' l => v'.cells = l) (WorkerModel.allocate v n) (SparseLRModel.allocate v.cells n) := by
  rw [WorkerModel.allocate, SparseLRModel.allocate]
  split
  next unused =>
    rw [Reserved.capacity_eq_zero.mp unused]
    cases n with
    | ok n => exact .ok (Reserved.resize_cells unused)
    | error fault => exact .error fault
  next used =>
    rw [if_neg fun none => used (Reserved.capacity_eq_zero.mpr (List.isEmpty_iff.mp none))]
    exact .ok rfl

theorem ensurePreallocatedVectors_blocks (m : WorkerModel F) (config : Configuration F) :
    Alike (fun m' a => m'.blocks = a) (m.ensurePreallocatedVectors config) (m.blocks.ensurePreallocatedVectors config) := by
  refine (allocate_blocks m.part3 _).bind fun part3 l same3 => ?_
  refine (allocate_blocks m.part2 _).bind fun part2 l' same2 => .ok ?_
  rw [← same3, ← same2]
  rfl

theorem loadSerializedSparse_blocks (w : Wire B F) (m : WorkerModel F) (none : m.weightsSparse.size = 0) (weights : Nat → F)
    (weightIndices : List UInt32) (config : Configuration F) :
    Alike (fun m' a => m'.blocks = a) (m.loadSerializedSparse weights weightIndices config).result
      (m.blocks.loadSerializedSparse w ((weightIndices.zipIdx.map fun e => weights e.2).flatMap w.feature.put)
        (weightIndices.flatMap w.u32.put) weightIndices.length config) := by
  have readIndices := Decoder.Decodes.rounds 0 weightIndices (fun _ i _ _ => Decoder.Decodes.load w.u32 i) []
  have readValues := Decoder.Decodes.rounds 0 (weightIndices.zipIdx.map fun e => weights e.2)
    (fun _ x _ _ => Decoder.Decodes.load w.feature x) []
  rw [List.append_nil] at readIndices readValues
  rw [List.length_map, List.length_zipIdx] at readValues
  have entries : weightIndices.zip (weightIndices.zipIdx.map fun e => weights e.2) =
      weightIndices.zipIdx.map fun e => (e.1, weights e.2) := by
    rw [← List.zip_map', List.zipIdx_map_fst]
  unfold WorkerModel.loadSerializedSparse SparseLRModel.loadSerializedSparse
  rw [readIndices]
  split
  next => exact .error _
  next =>
    rw [result_bind]
    refine .bind_same fun block => ?_
    rw [readValues, result_foldlM]
    change Alike _ _ (List.foldlM _ _ (weightIndices.zip _))
    rw [entries, List.foldlM_map]
    refine foldlM_alike (R := fun _ (m' : WorkerModel F) a => m'.blocks = a) ?_ ?_
    · rintro _ e _ m _ rfl
      rw [WorkerModel.storeSparse, result_bind]
      exact (writeAt_result _ _ _ _).bind fun v l same => .ok (same ▸ rfl)
    · change _ = SparseLRModel.reserveSparse { m.blocks with isSparse := true } block
      rw [SparseLRModel.reserveSparse]
      split
      next small =>
        rw [WorkerModel.blocks, Reserved.reserve_cells small none]
        rfl
      next enough =>
        rw [Reserved.reserve_of_le (Nat.not_lt.mp enough)]
        rfl

theorem getLrSparseModelInplace_talks (w : Wire B F) {m m' : WorkerModel F} (none : m.weightsSparse.size = 0) {r : Round F}
    {buffer : Nat → F} (replied : r.reply = some buffer) {config : Configuration F}
    (fetched : (m.getLrSparseModelInplace r config).result = .ok m') :
    Stream.Prog.Talks (ServerInterface.getLrSparseModelInplace w r.ds m.blocks config)
      (((features r.ds).zipIdx.map fun e => buffer e.2).flatMap w.feature.put)
      (w.u32.put ServerTask.PsOp.getLrSparseModel.code ++
        (w.u32.put (UInt32.ofNat (LRFetch.request w (features r.ds)).length) ++ LRFetch.request w (features r.ds)))
      m'.blocks := by
  unfold WorkerModel.getLrSparseModelInplace at fetched
  split at fetched
  next => cases fetched
  next room =>
    rw [maxMsgSize] at room
    rw [replied] at fetched
    dsimp only at fetched
    have loads := loadSerializedSparse_blocks w m none buffer (features r.ds) config
    rw [fetched] at loads
    have some_entry : features r.ds ≠ [] := by
      intro nothing
      rw [nothing] at fetched
      cases fetched
    have length : ((features r.ds).zipIdx.map fun e => buffer e.2).length = (features r.ds).length := by
      rw [List.length_map, List.length_zipIdx]
    generalize loaded : m.blocks.loadSerializedSparse w _ _ _ config = after at loads
    cases loads with
    | ok same => exact same ▸ LRFetch.getLrSparseModelInplace_asks some_entry (by omega) length (same ▸ loaded)

variable [Add F] [Sub F] [Mul F] [OfNat F 2] [FloatOps F]

omit [Sub F] [OfNat F 2] [FloatOps F] in
theorem sparseDot_result (weights : Reserved F) (row : Row F) :
    (WorkerModel.sparseDot weights row).result = SparseLRModel.sparseDot weights.cells row := by
  rw [WorkerModel.sparseDot, result_foldlM]
  congr
  funext part1 feat
  exact result_bind _ _

omit [OfNat F 2] in
theorem residuals_blocks (weights : Reserved F) (ds : SparseDataset F) (part2 : Reserved F) :
    Alike (fun v l => v.cells = l) (WorkerModel.residuals weights ds part2).result
      (residuals (SparseLRModel.sparseDot weights.cells) ds part2.cells) := by
  rw [WorkerModel.residuals, result_foldlM]
  refine foldlM_alike (R := fun _ (v : Reserved F) l => v.cells = l) ?_ rfl
  rintro _ sample _ v _ rfl
  rw [result_bind, sparseDot_result]
  refine .bind_same fun part1 => ?_
  rw [result_bind]
  refine .bind_same fun label => ?_
  rw [result_bind]
  exact .bind_same fun y => writeAt_result _ _ _ _

omit [Zero F] [Sub F] [OfNat F 2] [FloatOps F] in
theorem collect_blocks (part2 : Reserved F) (ds : SparseDataset F) (s : List Int32 × Reserved F) :
    Alike (fun s t => s.1 = t.1 ∧ s.2.cells = t.2) (ds.data.zipIdx.foldlM (WorkerModel.collect part2) s).result
      (ds.data.zipIdx.foldlM (SparseLRModel.collect part2.cells) (s.1, s.2.cells)) := by
  rw [result_foldlM]
  have start : s.1 = (s.1, s.2.cells).1 ∧ s.2.cells = (s.1, s.2.cells).2 := ⟨rfl, rfl⟩
  refine foldlM_alike (R := fun _ (s : List Int32 × Reserved F) (t : List Int32 × List F) => s.1 = t.1 ∧ s.2.cells = t.2)
    ?_ start
  intro _ sample _ s t same
  rw [WorkerModel.collect, result_foldlM]
  refine foldlM_alike (R := fun _ (s : List Int32 × Reserved F) (t : List Int32 × List F) => s.1 = t.1 ∧ s.2.cells = t.2)
    ?_ same
  rintro _ feat _ ⟨listed, v⟩ ⟨_, _⟩ ⟨rfl, rfl⟩
  rw [result_bind]
  refine .bind_same fun residual => ?_
  rw [result_bind, addAt, bind_assoc]
  refine .bind_same fun sum => ?_
  rw [result_bind]
  exact (writeAt_result _ _ _ _).bind fun v' l same => .ok ⟨rfl, same⟩

omit [Sub F] in
theorem emit_blocks (config : Configuration F) (weights : Reserved F) (uniqueIndices : List Int32) (s : Reserved F × Row F) :
    Alike (fun s t => s.1.cells = t.1 ∧ s.2 = t.2) (uniqueIndices.foldlM (WorkerModel.emit config weights) s).result
      (uniqueIndices.foldlM (SparseLRModel.emit config weights.cells) (s.1.cells, s.2)) := by
  rw [result_foldlM]
  have start : s.1.cells = (s.1.cells, s.2).1 ∧ s.2 = (s.1.cells, s.2).2 := ⟨rfl, rfl⟩
  refine foldlM_alike (R := fun _ (s : Reserved F × Row F) (t : List F × Row F) => s.1.cells = t.1 ∧ s.2 = t.2) ?_ start
  rintro _ index _ ⟨v, res⟩ ⟨_, _⟩ ⟨rfl, rfl⟩
  rw [WorkerModel.emit, result_bind]
  refine .bind_same fun value => ?_
  dsimp only
  split
  next => exact .ok ⟨rfl, rfl⟩
  next =>
    rw [result_bind]
    refine (writeAt_result _ _ _ _).bind fun v' l same => ?_
    rw [result_bind]
    refine .bind_same fun weight => ?_
    split
    next => exact .ok ⟨same, rfl⟩
    next => exact .ok ⟨same, rfl⟩

theorem minibatchGradSparse_blocks (m : WorkerModel F) (ds : SparseDataset F) (config : Configuration F) :
    Alike (fun s t => (s.1.blocks, s.2) = t) (m.minibatchGradSparse ds config).result
      (m.blocks.minibatchGradSparse ds config) := by
  rw [WorkerModel.minibatchGradSparse, result_bind]
  refine (ensurePreallocatedVectors_blocks m config).bind ?_
  rintro m' _ rfl
  rw [result_bind]
  refine (residuals_blocks m'.weightsSparse ds m'.part2).bind ?_
  rintro part2 _ rfl
  rw [result_bind]
  refine (collect_blocks part2 ds (m'.uniqueIndices, m'.part3)).bind ?_
  rintro ⟨uniqueIndices, part3⟩ ⟨_, _⟩ ⟨rfl, rfl⟩
  dsimp only
  rw [result_bind]
  refine (emit_blocks config m'.weightsSparse uniqueIndices (part3, [])).bind ?_
  rintro ⟨part3', res⟩ ⟨_, _⟩ ⟨rfl, rfl⟩
  exact .ok rfl

end Blocks

def lastStored (log : List (Access F)) (i : Nat) : Option F :=
  log.foldl (fun last a => if a.vector = .weightsSparse ∧ a.kind = .write ∧ a.index = i then a.value else last) none

def ReadsLoaded (before : List (Access F)) (a : Access F) : Prop :=
  a.vector = .weightsSparse → a.kind = .read → ∃ x, a.value = some x ∧ lastStored before a.index = some x

structure Sound (before : List (Access F)) (a : Access F) : Prop where
  element : a.index < a.size
  loaded : ReadsLoaded before a

/-- The access is to an element, unless it is to `weights_sparse_`, which has none. -/
structure Tolerated (before : List (Access F)) (a : Access F) : Prop where
  element : a.vector ≠ .weightsSparse → a.index < a.size
  no_element : a.vector = .weightsSparse → a.size = 0
  loaded : ReadsLoaded before a

theorem Tolerated.unsound {before : List (Access F)} {a : Access F} (tolerated : Tolerated before a)
    (weights : a.vector = .weightsSparse) : ¬ Sound before a := by
  intro sound
  have element := sound.element
  rw [tolerated.no_element weights] at element
  exact Nat.not_lt_zero _ element

structure Round.Fits (config : Configuration F) (r : Round F) : Prop where
  few : r.ds.data.length ≤ config.minibatchSize
  labels : r.ds.labels.length = r.ds.data.length
  inside : ∀ index ∈ indices r.ds, 0 ≤ index.toInt ∧ index.toInt < 2 ^ config.modelBits

/-- The fetch comes to the loop that stores the weights, and the loop has something to store. -/
structure Round.Stores (config : Configuration F) (r : Round F) : Prop where
  replied : r.reply.isSome
  some_entry : features r.ds ≠ []
  room : 4 + 4 * (features r.ds).length ≤ maxMsgSize
  bits : config.modelBits < 31

/-- The fetch ends before its loop, with nothing undefined done: the request has room in the buffer, and it is not sent,
or there is nothing to ask for, or `weights_sparse_.reserve` throws. -/
structure Round.EndsEarly (config : Configuration F) (r : Round F) : Prop where
  room : 4 + 4 * (features r.ds).length ≤ maxMsgSize
  ends : r.reply = none ∨ features r.ds = [] ∨ config.modelBits = 31

section Log
variable {log : List (Access F)} {a : Access F} {i : Nat}

theorem lastStored_concat (log : List (Access F)) (a : Access F) (i : Nat) :
    lastStored (log ++ [a]) i =
      if a.vector = .weightsSparse ∧ a.kind = .write ∧ a.index = i then a.value else lastStored log i := by
  rw [lastStored, List.foldl_append]
  rfl

theorem lastStored_read (read : a.kind = .read) : lastStored (log ++ [a]) = lastStored log := by
  funext i
  rw [lastStored_concat, if_neg]
  rintro ⟨_, write, _⟩
  rw [read] at write
  cases write

theorem lastStored_other (other : a.vector ≠ .weightsSparse) : lastStored (log ++ [a]) = lastStored log := by
  funext i
  rw [lastStored_concat, if_neg fun stored => other stored.1]

end Log

section Accesses
variable {P : List (Access F) → Access F → Prop} {now : List (Access F)} {vector : VectorName} {v : Reserved F} {i : Nat}

theorem readAt_follows {Q : List (Access F) → F → Prop}
    (entry : P now { vector := vector, kind := .read, index := i, size := v.size, value := v.cells[i]? })
    (found : ∀ x, v.cells[i]? = some x →
      Q (now ++ [{ vector := vector, kind := .read, index := i, size := v.size, value := v.cells[i]? }]) x) :
    Follows P Q now (readAt vector v i) := by
  refine .bind (.record (Q := fun later _ => later = now ++ [_]) entry rfl) ?_
  rintro _ _ rfl
  exact .compute fun x here => found x (at'_ok.mp here)

theorem writeAt_follows {Q : List (Access F) → Reserved F → Prop} {x : F}
    (entry : P now { vector := vector, kind := .write, index := i, size := v.size, value := some x })
    (stored : i < v.capacity →
      Q (now ++ [{ vector := vector, kind := .write, index := i, size := v.size, value := some x }]) (v.set i x)) :
    Follows P Q now (writeAt vector v i x) := by
  refine .bind (.record (Q := fun later _ => later = now ++ [_]) entry rfl) ?_
  rintro _ _ rfl
  split
  next inside => exact .pure (stored inside)
  next => exact .fail _

end Accesses

/-- A vector without elements, in whose block every cell has the value that was last stored there. -/
structure Holds (stored : Nat → Option F) (v : Reserved F) : Prop where
  none : v.size = 0
  cells : ∀ i x, stored i = some x → v.cells[i]? = some x

section Gradient
variable {stored : Nat → Option F} {now : List (Access F)} {weights : Reserved F}

theorem readWeight_follows {i : Nat} {x : F} (log : lastStored now = stored) (holds : Holds stored weights)
    (known : stored i = some x) :
    Follows Tolerated (fun later _ => lastStored later = stored) now (readAt .weightsSparse weights i) := by
  apply readAt_follows
  · refine ⟨fun other => absurd rfl other, fun _ => holds.none, fun _ _ => ⟨x, holds.cells i x known, ?_⟩⟩
    rw [log]
    exact known
  · intro _ _
    rw [lastStored_read rfl]
    exact log

theorem readElement_follows {vector : VectorName} {v : Reserved F} {i : Nat} (log : lastStored now = stored)
    (other : vector ≠ .weightsSparse) (inside : i < v.size) :
    Follows Tolerated (fun later _ => lastStored later = stored) now (readAt vector v i) := by
  apply readAt_follows
  · exact ⟨fun _ => inside, fun same => absurd same other, fun same => absurd same other⟩
  · intro _ _
    rw [lastStored_read rfl]
    exact log

theorem writeElement_follows {vector : VectorName} {v : Reserved F} {i : Nat} {x : F} (log : lastStored now = stored)
    (other : vector ≠ .weightsSparse) (inside : i < v.size) :
    Follows Tolerated (fun later v' => lastStored later = stored ∧ v'.size = v.size) now (writeAt vector v i x) := by
  apply writeAt_follows
  · exact ⟨fun _ => inside, fun same => absurd same other, fun same => absurd same other⟩
  · intro _
    rw [lastStored_other other]
    exact ⟨log, rfl⟩

variable [Zero F] [Add F] [Sub F] [Mul F] [OfNat F 2] [FloatOps F] {ds : SparseDataset F} {config : Configuration F}

omit [Sub F] [OfNat F 2] [FloatOps F] in
theorem sparseDot_follows {row : Row F} (log : lastStored now = stored) (holds : Holds stored weights)
    (known : ∀ feat ∈ row, ∃ x, stored (cell feat.1) = some x) :
    Follows Tolerated (fun later _ => lastStored later = stored) now (WorkerModel.sparseDot weights row) := by
  refine .foldlM (I := fun _ later _ => lastStored later = stored) ?_ log
  intro seen feat here now part1 log
  obtain ⟨x, loaded⟩ := known feat (Loops.mem_of_here here)
  exact (readWeight_follows log holds loaded).bind fun _ _ log => .pure log

omit [OfNat F 2] in
theorem residuals_follows {part2 : Reserved F} (log : lastStored now = stored) (holds : Holds stored weights)
    (known : ∀ index ∈ indices ds, ∃ x, stored (cell index) = some x) (labels : ds.labels.length = ds.data.length)
    (few : ds.data.length ≤ part2.size) :
    Follows Tolerated (fun later part2' => lastStored later = stored ∧ part2'.size = part2.size) now
      (WorkerModel.residuals weights ds part2) := by
  have start : lastStored now = stored ∧ part2.size = part2.size := ⟨log, rfl⟩
  refine .foldlM (I := fun _ later (part2' : Reserved F) => lastStored later = stored ∧ part2'.size = part2.size) ?_ start
  intro seen sample here now part2' ⟨log, size⟩
  obtain ⟨position, row⟩ := Loops.getElem?_of_prefix_zipIdx here
  have below : sample.2 < ds.data.length := position ▸ (List.getElem?_eq_some_iff.mp row).1
  refine (sparseDot_follows log holds fun feat member => ?_).bind fun now part1 log => ?_
  · exact known feat.1 (mem_indices (List.mem_of_getElem? row) member)
  refine (readElement_follows log (by decide) (Nat.lt_of_lt_of_eq below labels.symm)).bind fun now label log => ?_
  refine (Follows.compute (Q := fun later _ => lastStored later = stored) fun _ _ => log).bind fun now sigmoid log => ?_
  rw [← size] at few ⊢
  exact writeElement_follows log (by decide) (Nat.lt_of_lt_of_le below few)

omit [Zero F] [Sub F] [OfNat F 2] [FloatOps F] in
theorem collect_follows {part2 part3 : Reserved F} (log : lastStored now = stored) (few : ds.data.length ≤ part2.size)
    (inside : ∀ index ∈ indices ds, cell index < part3.size) :
    Follows Tolerated
      (fun later s => lastStored later = stored ∧ s.2.size = part3.size ∧ ∀ index ∈ s.1, index ∈ indices ds) now
      (ds.data.zipIdx.foldlM (WorkerModel.collect part2) ([], part3)) := by
  have start : lastStored now = stored ∧ part3.size = part3.size ∧ ∀ index ∈ ([] : List Int32), index ∈ indices ds :=
    ⟨log, rfl, nofun⟩
  refine .foldlM (I := fun _ later (s : List Int32 × Reserved F) =>
    lastStored later = stored ∧ s.2.size = part3.size ∧ ∀ index ∈ s.1, index ∈ indices ds) ?_ start
  intro seen sample here now s state
  obtain ⟨position, row⟩ := Loops.getElem?_of_prefix_zipIdx here
  have below : sample.2 < ds.data.length := position ▸ (List.getElem?_eq_some_iff.mp row).1
  refine .foldlM (I := fun _ later (s : List Int32 × Reserved F) =>
    lastStored later = stored ∧ s.2.size = part3.size ∧ ∀ index ∈ s.1, index ∈ indices ds) ?_ state
  intro feats feat there now s ⟨log, size, listed⟩
  have member := mem_indices (List.mem_of_getElem? row) (Loops.mem_of_here there)
  have bound : cell feat.1 < s.2.size := size ▸ inside feat.1 member
  refine (readElement_follows log (by decide) (Nat.lt_of_lt_of_le below few)).bind fun now residual log => ?_
  refine (readElement_follows log (by decide) bound).bind fun now sum log => ?_
  refine (writeElement_follows log (by decide) bound).bind fun now part3' ⟨log, size'⟩ => ?_
  refine .pure ⟨log, size'.trans size, fun index new => ?_⟩
  rcases List.mem_append.mp new with before | this
  · exact listed index before
  · exact List.mem_singleton.mp this ▸ member

omit [Sub F] in
theorem emit_follows {uniqueIndices : List Int32} {part3 : Reserved F} (log : lastStored now = stored)
    (holds : Holds stored weights) (known : ∀ index ∈ uniqueIndices, ∃ x, stored (cell index) = some x)
    (inside : ∀ index ∈ uniqueIndices, cell index < part3.size) :
    Follows Tolerated (fun later s => lastStored later = stored ∧ s.1.size = part3.size) now
      (uniqueIndices.foldlM (WorkerModel.emit config weights) (part3, [])) := by
  have start : lastStored now = stored ∧ part3.size = part3.size := ⟨log, rfl⟩
  refine .foldlM (I := fun _ later (s : Reserved F × Row F) => lastStored later = stored ∧ s.1.size = part3.size) ?_ start
  intro seen index here now s ⟨log, size⟩
  have member : index ∈ uniqueIndices := Loops.mem_of_here here
  have bound : cell index < s.1.size := size ▸ inside index member
  refine (readElement_follows log (by decide) bound).bind fun now value log => ?_
  split
  next => exact .pure ⟨log, size⟩
  next =>
    obtain ⟨x, loaded⟩ := known index member
    refine (writeElement_follows log (by decide) bound).bind fun now part3' ⟨log, size'⟩ => ?_
    refine (readWeight_follows log holds loaded).bind fun now weight log => ?_
    dsimp only
    split
    next => exact .pure ⟨log, size'.trans size⟩
    next => exact .pure ⟨log, size'.trans size⟩

end Gradient

structure Ready (config : Configuration F) (now : List (Access F)) (m : WorkerModel F) : Prop where
  part2 : m.part2.capacity = 0 ∨ m.part2.size = config.minibatchSize
  part3 : m.part3.capacity = 0 ∨ m.part3.size = 2 ^ config.modelBits
  weights : Holds (lastStored now) m.weightsSparse
  block : m.weightsSparse.capacity = 0 ∨ 2 ^ config.modelBits ≤ m.weightsSparse.capacity

theorem fresh_ready (config : Configuration F) (weights weightsHist : List F) :
    Ready config [] (WorkerModel.fresh weights weightsHist) where
  part2 := .inl rfl
  part3 := .inl rfl
  weights := ⟨rfl, nofun⟩
  block := .inl rfl

section Fetch
variable {config : Configuration F} {now : List (Access F)} {m : WorkerModel F}

theorem Holds.reserve {stored : Nat → Option F} {v : Reserved F} (holds : Holds stored v) (fill : F) {n : Nat}
    (block : v.capacity = 0 ∨ n ≤ v.capacity) : Holds stored (v.reserve fill n) := by
  -- the first block has room for every index, so that it is not replaced once it is used
  rcases block with unused | enough
  · refine ⟨Reserved.reserve_size.trans holds.none, fun i x loaded => ?_⟩
    have nowhere := holds.cells i x loaded
    rw [Reserved.capacity_eq_zero.mp unused] at nowhere
    cases nowhere
  · rw [Reserved.reserve_of_le enough]
    exact holds

theorem Ready.store (ready : Ready config now m) {i : Nat} {x : F} (inside : i < m.weightsSparse.capacity) :
    Ready config
      (now ++ [{ vector := .weightsSparse, kind := .write, index := i, size := m.weightsSparse.size, value := some x }])
      { m with weightsSparse := m.weightsSparse.set i x } where
  part2 := ready.part2
  part3 := ready.part3
  weights := by
    refine ⟨ready.weights.none, fun j y loaded => ?_⟩
    rw [lastStored_concat] at loaded
    change (m.weightsSparse.cells.set i x)[j]? = _
    split at loaded
    next here =>
      obtain ⟨_, _, rfl⟩ := here
      cases loaded
      exact List.getElem?_set_self inside
    next apart =>
      rw [List.getElem?_set_ne fun same => apart ⟨rfl, rfl, same⟩]
      exact ready.weights.cells j y loaded
  block := by
    have capacity : (m.weightsSparse.set i x).capacity = m.weightsSparse.capacity := List.length_set
    rw [capacity]
    exact ready.block

theorem storeSparse_follows (ready : Ready config now m) (weights : Nat → F) (e : UInt32 × Nat) :
    Follows Tolerated
      (fun later m' => Ready config later m' ∧
        ∀ i : UInt32, i = e.1 ∨ (∃ x, lastStored now i.toNat = some x) → ∃ x, lastStored later i.toNat = some x)
      now (m.storeSparse weights e) := by
  refine Follows.bind (Q := fun later v => Ready config later { m with weightsSparse := v } ∧
      ∀ i : UInt32, i = e.1 ∨ (∃ x, lastStored now i.toNat = some x) → ∃ x, lastStored later i.toNat = some x)
    ?_ fun _ _ state => .pure state
  apply writeAt_follows
  · exact ⟨fun other => absurd rfl other, fun _ => ready.weights.none, fun _ => nofun⟩
  · refine fun inside => ⟨ready.store inside, fun i known => ?_⟩
    rw [lastStored_concat]
    split
    next => exact ⟨_, rfl⟩
    next apart =>
      rcases known with rfl | before
      · exact absurd ⟨rfl, rfl, rfl⟩ apart
      · exact before

variable [Zero F]

theorem loadSerializedSparse_follows (ready : Ready config now m) (weights : Nat → F) (weightIndices : List UInt32) :
    Follows Tolerated
      (fun later m' => Ready config later m' ∧ ∀ i ∈ weightIndices, ∃ x, lastStored later i.toNat = some x)
      now (m.loadSerializedSparse weights weightIndices config) := by
  unfold WorkerModel.loadSerializedSparse
  split
  next => exact .fail _
  next =>
    refine Follows.bind (Q := fun later block => later = now ∧ block = 2 ^ config.modelBits)
      (.compute fun _ block => ⟨rfl, (SparseLRModel.sparseBlock_ok block).2⟩) ?_
    rintro now _ ⟨rfl, rfl⟩
    have start : Ready config now
        { m with isSparse := true, weightsSparse := m.weightsSparse.reserve 0 (2 ^ config.modelBits) } :=
      ⟨ready.part2, ready.part3, ready.weights.reserve 0 ready.block, .inr Reserved.reserve_capacity⟩
    refine (Follows.foldlM (I := fun (seen : List (UInt32 × Nat)) later (m' : WorkerModel F) =>
        Ready config later m' ∧ ∀ e ∈ seen, ∃ x, lastStored later e.1.toNat = some x)
      ?_ ⟨start, nofun⟩).mono ?_
    · intro seen e _ now m ⟨ready, loaded⟩
      refine (storeSparse_follows ready weights e).mono fun later m' ⟨ready, kept⟩ => ⟨ready, fun e' listed => ?_⟩
      rcases List.mem_append.mp listed with before | this
      · exact kept _ (.inr (loaded e' before))
      · exact kept _ (.inl (by rw [List.mem_singleton.mp this]))
    · intro later m' ⟨ready, loaded⟩
      refine ⟨ready, fun i member => ?_⟩
      obtain ⟨position, found⟩ := List.mem_iff_getElem?.mp member
      have listed : (i, position) ∈ weightIndices.zipIdx := by
        rw [List.mem_zipIdx_iff_getElem?]
        exact found
      exact loaded (i, position) listed

theorem getLrSparseModelInplace_follows (ready : Ready config now m) (r : Round F) :
    Follows Tolerated
      (fun later m' => Ready config later m' ∧ ∀ i ∈ features r.ds, ∃ x, lastStored later i.toNat = some x)
      now (m.getLrSparseModelInplace r config) := by
  unfold WorkerModel.getLrSparseModelInplace
  split
  next => exact .fail _
  next =>
    split
    next => exact .fail _
    next => exact loadSerializedSparse_follows ready _ _

end Fetch

section Rounds
variable [Zero F] {config : Configuration F} {now : List (Access F)} {m : WorkerModel F}

theorem allocate_size {v v' : Reserved F} {n : Except Fault Nat} {k : Nat} (sized : v.capacity = 0 ∨ v.size = k)
    (wanted : ∀ n', n = .ok n' → n' = k) (allocated : WorkerModel.allocate v n = .ok v') : v'.size = k := by
  rw [WorkerModel.allocate] at allocated
  split at allocated
  next =>
    cases n with
    | ok n =>
      cases allocated
      exact wanted n rfl
    | error fault => cases allocated
  next used =>
    cases allocated
    exact sized.resolve_left used

theorem ensurePreallocatedVectors_sizes (ready : Ready config now m) {m' : WorkerModel F}
    (ensured : m.ensurePreallocatedVectors config = .ok m') :
    m'.part2.size = config.minibatchSize ∧ m'.part3.size = 2 ^ config.modelBits ∧ m'.uniqueIndices = [] ∧
      m'.weightsSparse = m.weightsSparse := by
  obtain ⟨part3, third, ensured⟩ := Loops.ok_of_bind ensured
  obtain ⟨part2, second, ensured⟩ := Loops.ok_of_bind ensured
  cases ensured
  refine ⟨?_, ?_, rfl, rfl⟩
  · exact allocate_size ready.part2 (fun _ same => (Except.ok.inj same).symm) second
  · exact allocate_size ready.part3 (fun _ sized => (SparseLRModel.sparseBlock_ok sized).2) third

variable [Add F] [Sub F] [Mul F] [OfNat F 2] [FloatOps F]

theorem minibatchGradSparse_follows (ready : Ready config now m) {r : Round F} (fits : r.Fits config)
    (loaded : ∀ i ∈ features r.ds, ∃ x, lastStored now i.toNat = some x) :
    Follows Tolerated (fun later s => Ready config later s.1) now (m.minibatchGradSparse r.ds config) := by
  have known : ∀ index ∈ indices r.ds, ∃ x, lastStored now (cell index) = some x := by
    intro index listed
    have feature : index.toUInt32 ∈ features r.ds := by
      obtain ⟨e, there, rfl⟩ := List.mem_map.mp listed
      exact List.mem_map_of_mem there
    have natural := (fits.inside index listed).1
    rw [cell_of_natural natural, ← Words.toNat_toUInt32 natural]
    exact loaded _ feature
  have inside : ∀ index ∈ indices r.ds, cell index < 2 ^ config.modelBits := by
    intro index listed
    obtain ⟨natural, bound⟩ := fits.inside index listed
    exact cell_lt natural bound
  refine Follows.bind (Q := fun later m' => later = now ∧ m.ensurePreallocatedVectors config = .ok m')
    (.compute fun _ ensured => ⟨rfl, ensured⟩) ?_
  rintro _ m' ⟨rfl, ensured⟩
  obtain ⟨size2, size3, listed, weights⟩ := ensurePreallocatedVectors_sizes ready ensured
  rw [listed, weights]
  -- from here on nothing is loaded, and the three loops keep `lastStored`
  have few : r.ds.data.length ≤ m'.part2.size := size2 ▸ fits.few
  refine (residuals_follows rfl ready.weights known fits.labels few).bind fun now' part2 ⟨log, same2⟩ => ?_
  rw [← same2] at few size2
  refine (collect_follows log few (size3 ▸ inside)).bind fun now' ⟨uniqueIndices, part3⟩ ⟨log, same3, members⟩ => ?_
  dsimp only at same3 members ⊢
  refine (emit_follows log ready.weights (fun index member => known index (members index member)) fun index member =>
    (same3.trans size3) ▸ inside index (members index member)).bind fun now' ⟨part3', res⟩ ⟨log, same3'⟩ => ?_
  refine .pure ⟨.inr size2, .inr (same3'.trans (same3.trans size3)), ?_, ready.block⟩
  rw [log]
  exact ready.weights

theorem round_follows (ready : Ready config now m) {r : Round F} (fits : r.Fits config) :
    Follows Tolerated (fun later m' => Ready config later m') now (m.round config r) := by
  refine (getLrSparseModelInplace_follows ready r).bind fun now m ⟨ready, loaded⟩ => ?_
  exact (minibatchGradSparse_follows ready fits loaded).bind fun now s ready => .pure ready

theorem run_follows (ready : Ready config now m) {rounds : List (Round F)} (fits : ∀ r ∈ rounds, r.Fits config) :
    Follows Tolerated (fun later m' => Ready config later m') now (m.run config rounds) := by
  refine .foldlM (I := fun _ later m' => Ready config later m') ?_ ready
  intro seen r here now m ready
  exact round_follows ready (fits r (Loops.mem_of_here here))

end Rounds

section First
variable [Zero F] {config : Configuration F} {r : Round F}

theorem getLrSparseModelInplace_ends (early : r.EndsEarly config) (m : WorkerModel F) :
    ∃ fault, fault ≠ .undefined ∧ m.getLrSparseModelInplace r config = fail fault := by
  unfold WorkerModel.getLrSparseModelInplace
  rw [if_neg (Nat.not_lt.mpr early.room)]
  cases replied : r.reply with
  | none => exact ⟨_, Fault.noConfusion, rfl⟩
  | some buffer =>
    dsimp only
    unfold WorkerModel.loadSerializedSparse
    split
    next => exact ⟨_, Fault.noConfusion, rfl⟩
    next counted =>
      have listed : features r.ds ≠ [] := by
        intro none
        rw [none] at counted
        exact absurd (Decidable.not_not.mp counted).1 (Nat.lt_irrefl 0)
      rcases early.ends with none | none | bits
      · cases replied.symm.trans none
      · exact absurd none listed
      · rw [SparseLRModel.sparseBlock, if_neg (by omega), if_pos bits]
        exact ⟨_, Fault.noConfusion, rfl⟩

theorem getLrSparseModelInplace_goes (goes : ¬ r.EndsEarly config) (m : WorkerModel F) :
    m.getLrSparseModelInplace r config = fail .undefined ∨ r.Stores config := by
  unfold WorkerModel.getLrSparseModelInplace
  split
  next => exact .inl rfl
  next small =>
    have room := Nat.not_lt.mp small
    have stays : ¬ (r.reply = none ∨ features r.ds = [] ∨ config.modelBits = 31) := fun ends => goes ⟨room, ends⟩
    rw [not_or, not_or] at stays
    obtain ⟨replied, some_entry, bits⟩ := stays
    obtain ⟨buffer, here⟩ := Option.ne_none_iff_exists'.mp replied
    rcases Nat.lt_or_ge config.modelBits 31 with few | many
    · exact .inr ⟨by rw [here]; rfl, some_entry, room, few⟩
    · left
      have positive := List.length_pos_iff.mpr some_entry
      have counted : 0 < (features r.ds).length ∧ (features r.ds).length < 10000000 := by
        rw [maxMsgSize] at room
        omega
      rw [here]
      dsimp only
      unfold WorkerModel.loadSerializedSparse
      rw [if_neg (not_not_intro counted), SparseLRModel.sparseBlock, if_neg (Nat.not_lt.mpr many), if_neg bits]
      rfl

theorem getLrSparseModelInplace_touches (stores : r.Stores config) (m : WorkerModel F) :
    ∃ a : Access F, a.vector = .weightsSparse ∧ [a] <+: (m.getLrSparseModelInplace r config).trace := by
  obtain ⟨buffer, replied⟩ := Option.isSome_iff_exists.mp stores.replied
  have room := stores.room
  have positive := List.length_pos_iff.mpr stores.some_entry
  have counted : 0 < (features r.ds).length ∧ (features r.ds).length < 10000000 := by
    rw [maxMsgSize] at room
    omega
  unfold WorkerModel.getLrSparseModelInplace
  rw [if_neg (Nat.not_lt.mpr room), replied]
  dsimp only
  unfold WorkerModel.loadSerializedSparse
  rw [if_neg (not_not_intro counted), SparseLRModel.sparseBlock, if_pos stores.bits]
  cases listed : features r.ds with
  | nil => exact absurd listed stores.some_entry
  | cons i rest =>
    rw [List.zipIdx_cons]
    change ∃ a : Access F, a.vector = .weightsSparse ∧ [a] <+: (List.foldlM _ _ _ : Touching F _).trace
    rw [List.foldlM_cons]
    let a : Access F :=
      { vector := .weightsSparse, kind := .write, index := i.toNat,
        size := (m.weightsSparse.reserve 0 (2 ^ config.modelBits)).size, value := some (buffer 0) }
    exact ⟨a, rfl, (trace_bind (record a) _).trans ((trace_bind _ _).trans (trace_bind _ _))⟩

variable [Add F] [Sub F] [Mul F] [OfNat F 2] [FloatOps F]

theorem run_touches (stores : r.Stores config) (m : WorkerModel F) (rest : List (Round F)) :
    ∃ a ∈ (m.run config (r :: rest)).trace, a.vector = .weightsSparse := by
  obtain ⟨a, weights, first⟩ := getLrSparseModelInplace_touches stores m
  rw [WorkerModel.run, List.foldlM_cons]
  exact ⟨a, (first.trans ((trace_bind _ _).trans (trace_bind _ _))).subset List.mem_cons_self, weights⟩

theorem run_fails {fault : Fault} {m : WorkerModel F} (fails : m.getLrSparseModelInplace r config = fail fault)
    (rest : List (Round F)) : m.run config (r :: rest) = fail fault := by
  rw [WorkerModel.run, List.foldlM_cons, WorkerModel.round, fails]
  rfl

theorem run_silent {rounds : List (Round F)} (early : ∀ r ∈ rounds.head?, r.EndsEarly config) (m : WorkerModel F) :
    (m.run config rounds).trace = [] ∧ (m.run config rounds).result ≠ .error .undefined := by
  cases rounds with
  | nil => exact ⟨rfl, nofun⟩
  | cons r rest =>
    obtain ⟨fault, defined, fails⟩ := getLrSparseModelInplace_ends (early r rfl) m
    rw [run_fails fails]
    exact ⟨rfl, fun same => defined (Except.error.inj same)⟩

end First

section Worker
variable [Zero F] [Add F] [Sub F] [Mul F] [OfNat F 2] [FloatOps F]

/-- Nothing undefined is done, every access is to an element, and every read of a weight gets what was loaded last. -/
structure KeepsElements (d : Touching F (WorkerModel F)) : Prop where
  defined : d.result ≠ .error .undefined
  sound : ∀ before a after, d.trace = before ++ a :: after → Sound before a

/-- A worker keeps to the elements of its vectors if its first fetch ends before it touches a weight. Of the other vectors
it only touches elements, and no weight is read before it is loaded. -/
theorem accesses_sound_iff (config : Configuration F) (weights weightsHist : List F) (rounds : List (Round F))
    (fits : ∀ r ∈ rounds, r.Fits config) :
    (KeepsElements ((WorkerModel.fresh weights weightsHist).run config rounds) ↔
        ∀ r ∈ rounds.head?, r.EndsEarly config) ∧
      ∀ before a after, ((WorkerModel.fresh weights weightsHist).run config rounds).trace = before ++ a :: after →
        (a.vector ≠ .weightsSparse → a.index < a.size) ∧ ReadsLoaded before a := by
  have tolerated : ∀ before a after,
      ((WorkerModel.fresh weights weightsHist).run config rounds).trace = before ++ a :: after → Tolerated before a := by
    intro before a after whole
    have all := (run_follows (fresh_ready config weights weightsHist) fits).entries
    rw [whole] at all
    exact all.entry
  refine ⟨⟨?_, ?_⟩, ?_⟩
  · intro keeps r first
    obtain ⟨rest, rfl⟩ := List.head?_eq_some_iff.mp first
    by_contra goes
    rcases getLrSparseModelInplace_goes goes (WorkerModel.fresh weights weightsHist) with fails | stores
    · have defined := keeps.defined
      rw [run_fails fails] at defined
      exact defined rfl
    · obtain ⟨a, member, touched⟩ := run_touches stores (WorkerModel.fresh weights weightsHist) rest
      obtain ⟨before, after, whole⟩ := List.append_of_mem member
      -- the first access is a store of a weight, where `weights_sparse_` has no element
      exact (tolerated before a after whole).unsound touched (keeps.sound before a after whole)
  · intro early
    obtain ⟨silent, defined⟩ := run_silent early (WorkerModel.fresh weights weightsHist)
    refine ⟨defined, fun before a after whole => ?_⟩
    rw [silent] at whole
    exact absurd whole.symm (List.append_ne_nil_of_right_ne_nil _ (List.cons_ne_nil _ _))
  · intro before a after whole
    exact ⟨(tolerated before a after whole).element, (tolerated before a after whole).loaded⟩

end Worker

def sampled : Round UInt32 := { ds := { data := [[(1, 2)]], labels := [1] }, reply := some fun _ => 5 }

def oneBit : Configuration UInt32 :=
  { learningRate := 0, modelBits := 1, minibatchSize := 1, epsilon := 0, gradThreshold := 0 }

theorem sampled_fits : sampled.Fits oneBit := ⟨by decide, by decide, List.forall_mem_singleton.mpr (by decide)⟩

theorem first_weight_past_the_end :
    (∀ r ∈ [sampled], r.Fits oneBit) ∧ ¬ KeepsElements ((WorkerModel.fresh [0, 0] [0, 0]).run oneBit [sampled]) := by
  refine ⟨List.forall_mem_singleton.mpr sampled_fits, fun keeps => ?_⟩
  have first := keeps.sound []
    { vector := .weightsSparse, kind := .write, index := 1, size := 0, value := some 5 }
    ((WorkerModel.fresh [0, 0] [0, 0]).run oneBit [sampled]).trace.tail rfl
  exact absurd first.element (Nat.not_lt_zero 1)

theorem two_rounds_past_the_end :
    ¬ KeepsElements ((WorkerModel.fresh [0, 0] [0, 0]).run oneBit [sampled, sampled]) ∧
      ∀ before a after,
        ((WorkerModel.fresh [0, 0] [0, 0]).run oneBit [sampled, sampled]).trace = before ++ a :: after →
        (a.vector ≠ .weightsSparse → a.index < a.size) ∧ ReadsLoaded before a := by
  have fits : ∀ r ∈ [sampled, sampled], r.Fits oneBit :=
    List.forall_mem_cons.mpr ⟨sampled_fits, List.forall_mem_singleton.mpr sampled_fits⟩
  obtain ⟨sound_iff, others⟩ := accesses_sound_iff oneBit [0, 0] [0, 0] [sampled, sampled] fits
  refine ⟨fun keeps => ?_, others⟩
  rcases (sound_iff.mp keeps sampled rfl).ends with none | none | bits
  · cases none
  · cases none
  · exact absurd bits (by decide)

end VectorAccesses

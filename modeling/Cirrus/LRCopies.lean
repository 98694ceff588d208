import Cirrus.Lib.Copying
import Cirrus.MFDenseCodec
import Cirrus.MinibatchGradient
import Cirrus.SoftmaxCodec
import Cirrus.SoftmaxGradient

/-!
The dense and the sparse logistic-regression model as objects that are constructed,
loaded, updated and copied. Both are copied by the constructor that takes an array
of weights, so what a model keeps besides these is not in its copy.
-/
namespace LR
open Gradients SparseLR Softmax Decoder Copying
variable {B F : Type}

structure Dataset (F : Type) where
  cols : Nat
  samples : List (List F)
  labels : List F
  wide : ∀ row ∈ samples, row.length = cols

/-- What the losses take of the floating-point library, and of Eigen, which adds in an order of its own. -/
structure LossOps (F : Type) extends ExpOps F, MF.MFModel.LossOps F where
  dot : List F → List F → F
  sum : List F → F
  equal : F → F → Bool
  isInteger : F → Bool
  ofNat : Nat → F
  toIndex : F → Option Nat

/-- `std::copy` to the front of a vector. -/
def copyTo (source target : List F) : Except Fault (List F) :=
  if source.length ≤ target.length then .ok (source ++ target.drop source.length) else .error .undefined

def weightsFrom [Zero F] (w : List F) (d : UInt64) : Except Fault (List F) := do
  let weights ← resize maxSize 0 [] d.toNat
  if w.length < d.toNat then throw .undefined
  copyTo (w.take d.toNat) weights

theorem copyTo_ok {source target v : List F} :
    copyTo source target = .ok v ↔ source.length ≤ target.length ∧ v = source ++ target.drop source.length := by
  rw [copyTo]
  split
  · rename_i fits
    rw [Except.ok.injEq, eq_comm]
    exact ⟨fun same => ⟨fits, same⟩, And.right⟩
  · rename_i large
    exact ⟨nofun, fun h => (large h.1).elim⟩

theorem weightsFrom_ok [Zero F] {w v : List F} {d : UInt64} :
    weightsFrom w d = .ok v ↔ d.toNat ≤ maxSize ∧ d.toNat ≤ w.length ∧ v = w.take d.toNat := by
  have whole : (List.replicate d.toNat (0 : F)).drop (w.take d.toNat).length = [] ↔ d.toNat ≤ w.length := by
    rw [List.drop_eq_nil_iff, List.length_replicate, List.length_take]
    omega
  constructor
  · intro built
    obtain ⟨weights, resized, built⟩ := Loops.ok_of_bind built
    obtain ⟨small, rfl⟩ := resize_nil_ok.mp resized
    by_cases short : w.length < d.toNat
    · rw [if_pos short] at built
      cases built
    · rw [if_neg short] at built
      have enough := Nat.le_of_not_lt short
      obtain ⟨_, rfl⟩ := copyTo_ok.mp built
      refine ⟨small, enough, ?_⟩
      rw [whole.mpr enough, List.append_nil]
  · rintro ⟨small, enough, rfl⟩
    rw [weightsFrom, Loops.bind_of_ok (resize_nil_ok.mpr ⟨small, rfl⟩), if_neg (Nat.not_lt.mpr enough)]
    refine copyTo_ok.mpr ⟨?_, ?_⟩
    · rw [List.length_take, List.length_replicate]
      exact Nat.min_le_left _ _
    · rw [whole.mpr enough, List.append_nil]

theorem addAt_length [Add F] {v v' : List F} {i : Nat} {x : F} (done : addAt v i x = .ok v') : v'.length = v.length := by
  obtain ⟨y, _, rfl⟩ := addAt_ok.mp done
  exact List.length_set

theorem weightsFrom_all [Zero F] {w : List F} (small : w.length ≤ maxSize) :
    weightsFrom w (UInt64.ofNat w.length) = .ok w := by
  have size : (UInt64.ofNat w.length).toNat = w.length :=
    UInt64.toNat_ofNat_of_lt' (Nat.lt_of_le_of_lt small (by decide))
  rw [weightsFrom_ok, size, List.take_length]
  exact ⟨small, Nat.le_refl _, rfl⟩

theorem weightsFrom_small [Zero F] {w v : List F} {d : UInt64} (built : weightsFrom w d = .ok v) : v.length ≤ maxSize := by
  obtain ⟨small, _, rfl⟩ := weightsFrom_ok.mp built
  rw [List.length_take]
  exact Nat.le_trans (Nat.min_le_left _ _) small

section Loss
variable [Zero F] [One F] [Neg F] [Add F] [Sub F] [Mul F] [Div F] [OfScientific F] (ops : LossOps F)

def logAux (v : F) : Except Fault F :=
  let res := ops.log v
  if ops.equal v 0 then .ok (-10e-50)
  else if ops.isNan res || ops.isInf res then .error (.exception ("log_aux generated nan/inf v: " ++ ops.toString v))
  else .ok res

def crossEntropy (classI prob : F) : Except Fault F := do
  let v1 ← logAux ops (1 - prob)
  let v2 ← logAux ops prob
  pure (classI * v2 + (1 - classI) * v1)

def predictedClass (prob : F) : F := if ops.less 0.5 prob then 1 else 0

def addSample (classI prob value : F) (s : F × Nat) : Except Fault (F × Nat) :=
  if ops.less 0 value then .error (.exception "Error: logistic loss is > 0")
  else .ok (s.1 - value, if ops.equal (predictedClass ops prob) classI then s.2 else s.2 + 1)

def lossOf (samples : Nat) (s : F × Nat) : Except Fault (F × F) :=
  if ops.less s.1 0 then .error (.exception "total_loss < 0")
  else if ops.isNan s.1 || ops.isInf s.1 then .error (.exception "calc_log_loss generated nan/inf")
  else .ok (s.1, 1 - 1 * ops.ofNat s.2 / ops.ofNat samples)

end Loss

structure LRModel (F : Type) where
  weights : List F
  deriving DecidableEq

namespace LRModel

def size (m : LRModel F) : Nat := m.weights.length

def ofSize [Zero F] (d : UInt64) : Except Fault (LRModel F) := do
  pure { weights := ← resize maxSize 0 [] d.toNat }

def ofWeights [Zero F] (w : List F) (d : UInt64) : Except Fault (LRModel F) := do
  pure { weights := ← weightsFrom w d }

def copy [Zero F] (m : LRModel F) : Except Fault (LRModel F) := ofWeights m.weights (UInt64.ofNat m.size)

def loadSerialized (w : Wire B F) (m : LRModel F) : Decoder B (LRModel F) := do
  pure { m with weights := ← rounds (fun _ => w.feature.load) 0 m.size }

/-- `rand` gives what `get_rand_between_0_1` returns for each weight. -/
def randomize [Add F] [OfScientific F] (rand : Nat → F) (m : LRModel F) : LRModel F :=
  { m with weights := m.weights.mapIdx fun i _ => 0.001 + rand i }

def sgdUpdate [Add F] [Mul F] (learningRate : F) (gradient : List F) (m : LRModel F) : Except Fault (LRModel F) := do
  let weights ← (List.range m.size).foldlM
    (fun weights i => do addAt weights i (learningRate * (← at' gradient i))) m.weights
  pure { m with weights := weights }

section Loss
variable [Zero F] [One F] [Neg F] [Add F] [Sub F] [Mul F] [Div F] [OfScientific F] [FloatOps F] (ops : LossOps F)

/-- The probability of class 1. Eigen has no product of vectors of different sizes. -/
def probability (m : LRModel F) (row : List F) : Except Fault F := do
  if row.length ≠ m.size then throw .undefined
  s1 (ops.dot row m.weights)

def addLoss (m : LRModel F) (labels : List F) (s : F × Nat) (sample : List F × Nat) : Except Fault (F × Nat) := do
  let classI ← at' labels sample.2
  if !ops.isInteger classI then throw (.assertion "is_integer(class_i)")
  let prob ← m.probability ops sample.1
  let value ← crossEntropy ops classI prob
  addSample ops classI prob (if ops.less 0 value && ops.less value 1e-6 then 0 else value) s

def calcLoss (m : LRModel F) (dataset : Dataset F) : Except Fault (F × F) := do
  lossOf ops dataset.samples.length (← dataset.samples.zipIdx.foldlM (m.addLoss ops dataset.labels) (0, 0))

end Loss

inductive Update (B F : Type)
  | randomize (rand : Nat → F)
  | loadSerialized (memory : List B)
  | sgdUpdate (learningRate : F) (gradient : List F)

def update [Add F] [Mul F] [OfScientific F] (w : Wire B F) (m : LRModel F) : Update B F → Option (LRModel F)
  | .randomize rand => some (m.randomize rand)
  | .loadSerialized memory => ((m.loadSerialized w memory).map Prod.fst).toOption
  | .sgdUpdate learningRate gradient => (m.sgdUpdate learningRate gradient).toOption

inductive Constructed [Zero F] : LRModel F → Prop
  | ofSize {d : UInt64} {m : LRModel F} (built : ofSize d = .ok m) : Constructed m
  | ofWeights {w : List F} {d : UInt64} {m : LRModel F} (built : ofWeights w d = .ok m) : Constructed m

section Copy
variable {w : Wire B F} {ops : LossOps F} {m m' : LRModel F}

theorem copy_ok [Zero F] (small : m.size ≤ maxSize) : m.copy = .ok m := by
  rw [copy, ofWeights, size, Loops.bind_of_ok (weightsFrom_all small)]
  rfl

theorem constructed_small [Zero F] (constructed : Constructed m) : m.size ≤ maxSize := by
  cases constructed with
  | ofSize built =>
    obtain ⟨weights, resized, same⟩ := Loops.ok_of_bind built
    obtain ⟨small, rfl⟩ := resize_nil_ok.mp resized
    cases same
    rw [size, List.length_replicate]
    exact small
  | ofWeights built =>
    obtain ⟨weights, taken, same⟩ := Loops.ok_of_bind built
    cases same
    exact weightsFrom_small taken

theorem sgdUpdate_size [Add F] [Mul F] {learningRate : F} {gradient : List F}
    (done : m.sgdUpdate learningRate gradient = .ok m') : m'.size = m.size := by
  obtain ⟨weights, added, same⟩ := Loops.ok_of_bind done
  cases same
  refine Loops.foldlM_ends (P := fun _ v => v.length = m.size) ?_ rfl added
  intro seen i _ v v' length one
  obtain ⟨g, _, one⟩ := Loops.ok_of_bind one
  rw [addAt_length one, length]

theorem update_size [Add F] [Mul F] [OfScientific F] {u : Update B F} (updated : m.update w u = some m') : m'.size = m.size := by
  cases u with
  | randomize rand =>
    obtain rfl := Option.some.inj updated
    exact List.length_mapIdx
  | loadSerialized memory =>
    obtain ⟨_, loaded⟩ := ObjectClass.ok_of_map_toOption updated
    obtain ⟨values, _, read, same⟩ := Decoder.ok_of_bind loaded
    cases same
    exact (rounds_ok (P := fun _ => True) (fun _ _ _ _ _ => trivial) read).1
  | sgdUpdate learningRate gradient => exact sgdUpdate_size (ObjectClass.ok_of_toOption updated)

variable [Zero F] [One F] [Neg F] [Add F] [Sub F] [Mul F] [Div F] [OfScientific F] [FloatOps F]

def objectClass (w : Wire B F) (ops : LossOps F) : ObjectClass Fault (LRModel F) (Update B F) (List F)
    ((List F → Except Fault F) × (Dataset F → Except Fault (F × F))) where
  constructed := Constructed
  update := update w
  copy := copy
  parameters := weights
  behaviour m := (m.probability ops, m.calcLoss ops)

theorem reached_small (reached : (objectClass w ops).Reached m) : m.size ≤ maxSize :=
  reached.keeps (I := fun m => m.size ≤ maxSize) (fun _ constructed => constructed_small constructed)
    fun _ _ _ small updated => Nat.le_trans (Nat.le_of_eq (update_size updated)) small

theorem determined : (objectClass w ops).Determined := by
  intro m m' same
  obtain rfl : m = m' := congrArg LRModel.mk same
  rfl

theorem copy_faithful (reached : (objectClass w ops).Reached m) : (objectClass w ops).Faithful m :=
  determined.faithful (copy_ok (reached_small reached)) rfl

end Copy
end LRModel
end LR

namespace SparseLR
open Gradients Softmax Decoder Copying LR
variable {B F : Type}

namespace SparseLRModel

def ofWeights [Zero F] (w : List F) (d : UInt64) : Except Fault (SparseLRModel F) := do
  let weights ← weightsFrom w d
  let weightsHist ← resize maxSize 0 [] d.toNat
  pure { weights := weights, weightsHist := weightsHist }

def copy [Zero F] (m : SparseLRModel F) : Except Fault (SparseLRModel F) := ofWeights m.weights (UInt64.ofNat m.size)

def randomize [Zero F] (m : SparseLRModel F) : SparseLRModel F := { m with weights := m.weights.map fun _ => 0 }

section Loss
variable [Zero F] [One F] [Neg F] [Add F] [Sub F] [Mul F] [Div F] [OfScientific F] [FloatOps F] (ops : LossOps F)

def probability (m : SparseLRModel F) (sample : Row F) : Except Fault F := do
  let r1 ← sample.foldlM (fun r1 feat => do pure (r1 + (← at' m.weights (cell feat.1)) * feat.2)) 0
  s1 r1

def addLoss (m : SparseLRModel F) (labels : List F) (s : F × Nat) (sample : Row F × Nat) : Except Fault (F × Nat) := do
  let classI ← at' labels sample.2
  let prob ← m.probability sample.1
  let value ← crossEntropy ops classI prob
  addSample ops classI prob value s

def calcLoss (m : SparseLRModel F) (dataset : SparseDataset F) : Except Fault (F × F) := do
  lossOf ops dataset.data.length (← dataset.data.zipIdx.foldlM (m.addLoss ops dataset.labels) (0, 0))

end Loss

/-- The model's own `sgd_update`, `sgd_update_adagrad` and `sgd_update_momentum` do what the methods do. -/
inductive Update (B F : Type)
  | randomize
  | loadSerialized (memory : List B)
  | loadSerializedSparse (weights weightIndices : List B) (numWeights : Nat) (config : Configuration F)
  | sgdUpdate (method : OptimizationMethod F) (gradient : LRSparseGradient F)
  | updateWeights (weights : List F) (small : weights.length ≤ maxSize)
  | updateWeightHistory (weightHist : List F)

def update [Zero F] [One F] [Add F] [Sub F] [Mul F] [Div F] [FloatOps F] (w : Wire B F) (m : SparseLRModel F) :
    Update B F → Option (SparseLRModel F)
  | .randomize => some m.randomize
  | .loadSerialized memory => ((m.loadSerialized w memory).map Prod.fst).toOption
  | .loadSerializedSparse weights weightIndices numWeights config =>
    (m.loadSerializedSparse w weights weightIndices numWeights config).toOption
  | .sgdUpdate method gradient => ((method.sgdUpdate m gradient).map Prod.snd).toOption
  | .updateWeights weights _ => some { m with weights := weights }
  | .updateWeightHistory weightHist => some { m with weightsHist := weightHist }

inductive Constructed [Zero F] : SparseLRModel F → Prop
  | ofSize {d : Nat} (small : d ≤ maxSize) : Constructed (ofSize d)
  | ofWeights {w : List F} {d : UInt64} {m : SparseLRModel F} (built : ofWeights w d = .ok m) : Constructed m

/-- The model has its weights in the block exactly if its flag says so. -/
structure Kept (m : SparseLRModel F) : Prop where
  small : m.size ≤ maxSize
  block : m.isSparse = true ↔ m.weightsSparse ≠ []

section Copy
variable {w : Wire B F} {ops : LossOps F} {m m' : SparseLRModel F}

theorem constructed_kept [Zero F] (constructed : Constructed m) : m.Kept := by
  cases constructed with
  | ofSize small =>
    refine ⟨?_, fun sparse => (Bool.false_ne_true sparse).elim, fun some_cell => (some_cell rfl).elim⟩
    rw [size, SparseLRModel.ofSize, List.length_replicate]
    exact small
  | ofWeights built =>
    obtain ⟨weights, taken, built⟩ := Loops.ok_of_bind built
    obtain ⟨weightsHist, _, same⟩ := Loops.ok_of_bind built
    cases same
    exact ⟨weightsFrom_small taken, fun sparse => (Bool.false_ne_true sparse).elim, fun some_cell => (some_cell rfl).elim⟩

theorem Kept.replaced (kept : m.Kept) {weights weightsHist : List F} (small : weights.length ≤ maxSize) :
    Kept { m with weights := weights, weightsHist := weightsHist } :=
  ⟨small, kept.block⟩

theorem sgdUpdate_kept [One F] [Add F] [Sub F] [Mul F] [Div F] [FloatOps F] {method : OptimizationMethod F}
    {gradient : LRSparseGradient F} {t : OptimizationMethod F × SparseLRModel F} (kept : m.Kept)
    (done : method.sgdUpdate m gradient = .ok t) : t.2.Kept := by
  refine Loops.foldlM_ends (P := fun _ s => s.2.Kept) ?_ kept done
  rintro seen e _ ⟨method, m⟩ t kept one
  have small : ∀ {i x v}, addAt m.weights i x = .ok v → v.length ≤ maxSize := by
    intro i x v added
    rw [addAt_length added]
    exact kept.small
  cases method with
  | sgd learningRate =>
    obtain ⟨v, added, same⟩ := Loops.ok_of_bind one
    cases same
    exact kept.replaced (small added)
  | momentum learningRate momentumBeta momentumAvg =>
    obtain ⟨v, added, same⟩ := Loops.ok_of_bind one
    cases same
    exact kept.replaced (small added)
  | nesterov learningRate momentumBeta momentumAvg =>
    obtain ⟨v, added, same⟩ := Loops.ok_of_bind one
    cases same
    exact kept.replaced (small added)
  | adaGrad learningRate adagradEpsilon =>
    obtain ⟨hist, _, one⟩ := Loops.ok_of_bind one
    obtain ⟨x, _, one⟩ := Loops.ok_of_bind one
    obtain ⟨v, added, same⟩ := Loops.ok_of_bind one
    cases same
    exact kept.replaced (small added)

theorem reserveSparse_block [Zero F] {n : Nat} (some_cell : 0 < n) : (m.reserveSparse n).weightsSparse ≠ [] := by
  rw [reserveSparse]
  split
  · rw [Ne, List.replicate_eq_nil_iff]
    exact Nat.ne_of_gt some_cell
  · rename_i large
    exact List.ne_nil_of_length_pos (by omega)

theorem reserveSparse_rest [Zero F] (n : Nat) :
    (m.reserveSparse n).weights = m.weights ∧ (m.reserveSparse n).isSparse = m.isSparse := by
  rw [reserveSparse]
  split
  · exact ⟨rfl, rfl⟩
  · exact ⟨rfl, rfl⟩

theorem loadSerializedSparse_kept [Zero F] {weights weightIndices : List B} {numWeights : Nat} {config : Configuration F}
    (kept : m.Kept) (done : m.loadSerializedSparse w weights weightIndices numWeights config = .ok m') : m'.Kept := by
  rw [loadSerializedSparse] at done
  split at done
  · cases done
  · obtain ⟨block, sized, done⟩ := Loops.ok_of_bind done
    obtain ⟨indices, _, done⟩ := Loops.ok_of_bind done
    obtain ⟨values, _, done⟩ := Loops.ok_of_bind done
    have some_cell : 0 < block := by
      rw [(sparseBlock_ok sized).2]
      exact Nat.two_pow_pos _
    obtain ⟨same, flag⟩ := reserveSparse_rest (m := { m with isSparse := true }) block
    obtain ⟨weights, cells, flag⟩ := Loops.foldlM_ends
      (P := fun _ (s : SparseLRModel F) => s.weights = m.weights ∧ s.weightsSparse ≠ [] ∧ s.isSparse = true)
      (by
        rintro seen e _ s t ⟨weights, cells, flag⟩ one
        obtain ⟨v, set, same⟩ := Loops.ok_of_bind one
        cases same
        obtain ⟨_, rfl⟩ := setAt_ok.mp set
        exact ⟨weights, fun empty => cells ((List.set_eq_nil_iff _ _).mp empty), flag⟩)
      ⟨same, reserveSparse_block some_cell, flag⟩ done
    refine ⟨?_, fun _ => cells, fun _ => flag⟩
    rw [size, weights]
    exact kept.small

theorem loadSerialized_kept {memory rest : List B} (kept : m.Kept) (done : m.loadSerialized w memory = .ok (m', rest)) :
    m'.Kept := by
  obtain ⟨numWeights, _, _, done⟩ := Decoder.ok_of_bind done
  obtain ⟨_, _, asserted, done⟩ := Decoder.ok_of_bind done
  obtain ⟨values, _, read, same⟩ := Decoder.ok_of_bind done
  cases same
  have few := (ok_of_check asserted).2
  have length := (rounds_ok (P := fun _ => True) (fun _ _ _ _ _ => trivial) read).1
  refine ⟨?_, kept.block⟩
  rw [size, length, maxSize]
  omega

theorem update_kept [Zero F] [One F] [Add F] [Sub F] [Mul F] [Div F] [FloatOps F] {u : Update B F} (kept : m.Kept)
    (updated : m.update w u = some m') : m'.Kept := by
  cases u with
  | randomize =>
    obtain rfl := Option.some.inj updated
    refine ⟨?_, kept.block⟩
    rw [size, randomize, List.length_map]
    exact kept.small
  | loadSerialized memory =>
    obtain ⟨_, loaded⟩ := ObjectClass.ok_of_map_toOption updated
    exact loadSerialized_kept kept loaded
  | loadSerializedSparse weights weightIndices numWeights config =>
    exact loadSerializedSparse_kept kept (ObjectClass.ok_of_toOption updated)
  | sgdUpdate method gradient =>
    cases done : method.sgdUpdate m gradient with
    | error fault =>
      rw [update, done] at updated
      cases updated
    | ok t =>
      rw [update, done] at updated
      obtain rfl := Option.some.inj updated
      exact sgdUpdate_kept kept done
  | updateWeights weights small =>
    obtain rfl := Option.some.inj updated
    exact kept.replaced small
  | updateWeightHistory weightHist =>
    obtain rfl := Option.some.inj updated
    exact kept.replaced kept.small

theorem copy_ok [Zero F] (small : m.size ≤ maxSize) :
    m.copy = .ok { weights := m.weights, weightsHist := List.replicate m.size 0 } := by
  have size : (UInt64.ofNat m.size).toNat = m.size := UInt64.toNat_ofNat_of_lt' (Nat.lt_of_le_of_lt small (by decide))
  rw [copy, ofWeights, SparseLRModel.size, Loops.bind_of_ok (weightsFrom_all small), ← SparseLRModel.size, size,
    Loops.bind_of_ok (resize_nil_ok.mpr ⟨small, rfl⟩)]
  rfl

variable [Zero F] [One F] [Neg F] [Add F] [Sub F] [Mul F] [Div F] [OfScientific F] [FloatOps F]

/-- The parameters are the weights, those in the block too, and both give predictions. -/
def objectClass (w : Wire B F) (ops : LossOps F) : ObjectClass Fault (SparseLRModel F) (Update B F) (List F × List F)
    ((Row F → Except Fault F) × (Row F → Except Fault F) × (SparseDataset F → Except Fault (F × F))) where
  constructed := Constructed
  update := update w
  copy := copy
  parameters m := (m.weights, m.weightsSparse)
  behaviour m := (m.probability, fun row => sparseDot m.weightsSparse row >>= s1, m.calcLoss ops)

theorem reached_kept (reached : (objectClass w ops).Reached m) : m.Kept :=
  reached.keeps (fun _ constructed => constructed_kept constructed) fun _ _ _ kept updated => update_kept kept updated

theorem determined : (objectClass w ops).Determined := by
  intro m m' same
  obtain ⟨weights, block⟩ := Prod.mk.inj same
  have probability : m.probability = m'.probability := by
    unfold SparseLRModel.probability
    rw [weights]
  have calcLoss : m.calcLoss ops = m'.calcLoss ops := by
    unfold SparseLRModel.calcLoss addLoss
    rw [probability]
  change (_, _, _) = (_, _, _)
  rw [probability, block, calcLoss]

theorem copy_faithful_iff (reached : (objectClass w ops).Reached m) :
    (objectClass w ops).Faithful m ↔ m.isSparse = false := by
  have kept := reached_kept reached
  rw [determined.faithful_iff (copy_ok kept.small), ← Bool.not_eq_true, kept.block, not_not]
  constructor
  · intro same
    exact (Prod.mk.inj same).2.symm
  · intro none
    exact Prod.ext rfl none.symm

end Copy
end SparseLRModel
end SparseLR

import Cirrus.Gradients
import Cirrus.Lib.Loops
import Cirrus.Lib.Words

/-!
`SparseLRModel` as the server and the workers use it, and the four optimization
methods that apply a gradient to it. `float` and `double` are one type `F`, and
nothing is assumed of its arithmetic. `weights_sparse_` is only ever reserved:
here it is the block of cells that the reservation provides.
-/
namespace SparseLR
open Gradients Decoder

class FloatOps (F : Type) where
  sqrt : F → F
  /-- 1 / (1 + exp(-x)), or nothing where that is a nan or infinite. -/
  sigmoid : F → Option F
  isZero : F → Bool
  absGreater : F → F → Bool

/-- Bits of floats. Runs that only move floats, and compute nothing from them, use these. -/
instance floatBits : FloatOps UInt32 where
  sqrt x := x
  sigmoid x := some x
  isZero x := x = 0
  absGreater x y := y < x

structure Configuration (F : Type) where
  learningRate : F
  modelBits : Nat := 20
  minibatchSize : Nat
  epsilon : F
  useGradThreshold : Bool := false
  gradThreshold : F

structure SparseDataset (F : Type) where
  data : List (List (Int32 × F))
  labels : List F

structure SparseLRModel (F : Type) where
  weights : List F
  weightsHist : List F
  isSparse : Bool := false
  weightsSparse : List F := []
  part2 : List F := []
  part3 : List F := []
  uniqueIndices : List Int32 := []
  deriving DecidableEq

/-- The element of a vector that an `int` used as an index refers to. -/
def cell (index : Int32) : Nat := index.toInt64.toUInt64.toNat

variable {B F : Type}

/-- `v[i]`, which is undefined past the end of the vector. -/
def at' (v : List F) (i : Nat) : Except Fault F :=
  match v[i]? with
  | some x => .ok x
  | none => .error .undefined

/-- `v[i] = x`. -/
def setAt (v : List F) (i : Nat) (x : F) : Except Fault (List F) :=
  if i < v.length then .ok (v.set i x) else .error .undefined

def addAt [Add F] (v : List F) (i : Nat) (x : F) : Except Fault (List F) := do
  setAt v i ((← at' v i) + x)

theorem at'_ok {v : List F} {i : Nat} {x : F} : at' v i = .ok x ↔ v[i]? = some x := by
  rw [at']
  split <;> simp_all

theorem setAt_ok {v v' : List F} {i : Nat} {x : F} :
    setAt v i x = .ok v' ↔ i < v.length ∧ v' = v.set i x := by
  rw [setAt]
  split
  · rename_i inside
    rw [Except.ok.injEq]
    exact ⟨fun same => ⟨inside, same.symm⟩, fun h => h.2.symm⟩
  · rename_i outside
    exact ⟨nofun, fun h => (outside h.1).elim⟩

theorem addAt_ok [Add F] {v v' : List F} {i : Nat} {x : F} :
    addAt v i x = .ok v' ↔ ∃ y, v[i]? = some y ∧ v' = v.set i (y + x) := by
  rw [addAt]
  cases found : v[i]? with
  | none =>
    rw [at', found]
    exact ⟨nofun, nofun⟩
  | some y =>
    have inside := (List.getElem?_eq_some_iff.mp found).1
    rw [at', found]
    change setAt v i (y + x) = .ok v' ↔ _
    rw [setAt_ok]
    constructor
    · intro h
      exact ⟨y, rfl, h.2⟩
    · intro ⟨z, same, h⟩
      cases same
      exact ⟨inside, h⟩

theorem at'_of_lt {v : List F} {i : Nat} (inside : i < v.length) : at' v i = .ok v[i] :=
  at'_ok.mpr (List.getElem?_eq_getElem inside)

theorem setAt_of_lt {v : List F} {i : Nat} (inside : i < v.length) (x : F) :
    setAt v i x = .ok (v.set i x) := if_pos inside

theorem addAt_of_lt [Add F] {v : List F} {i : Nat} (inside : i < v.length) (x : F) :
    addAt v i x = .ok (v.set i (v[i] + x)) :=
  addAt_ok.mpr ⟨_, List.getElem?_eq_getElem inside, rfl⟩

theorem cell_of_natural {index : Int32} (natural : 0 ≤ index.toInt) : cell index = index.toInt.toNat := by
  have wide : 0 ≤ index.toInt64 := by
    rw [Int64.le_iff_toInt_le, Int32.toInt_toInt64]
    exact natural
  rw [cell, Int64.toNat_toUInt64_of_le wide, ← Int64.toNat_toInt, Int32.toInt_toInt64]

theorem cell_lt {index : Int32} {bits : Nat} (natural : 0 ≤ index.toInt) (small : index.toInt < 2 ^ bits) :
    cell index < 2 ^ bits := by
  rw [cell_of_natural natural]
  exact Words.toNat_lt_two_pow natural small

theorem cell_of_negative {index : Int32} (negative : index.toInt < 0) : 2 ^ 63 ≤ cell index := by
  have wide : index.toInt64.toInt = index.toInt := Int32.toInt_toInt64 index
  have value : index.toInt64.toInt = (index.toInt64.toUInt64.toNat : Int).bmod (2 ^ 64) :=
    BitVec.toInt_eq_toNat_bmod _
  have small := UInt64.toNat_lt index.toInt64.toUInt64
  rw [cell]
  rw [Int.bmod] at value
  split at value <;> omega

theorem cell_of_negative_large {index : Int32} (negative : index.toInt < 0) : 2 ^ 64 ≤ cell index + 2 ^ 31 := by
  have wide : index.toInt64.toInt = index.toInt := Int32.toInt_toInt64 index
  have value : index.toInt64.toInt = (index.toInt64.toUInt64.toNat : Int).bmod (2 ^ 64) :=
    BitVec.toInt_eq_toNat_bmod _
  have least := Int32.le_toInt index
  rw [cell]
  rw [Int.bmod] at value
  split at value <;> omega

theorem cell_small {index : Int32} (bound : cell index < 2 ^ 63) : cell index < 2 ^ 31 := by
  rcases Int.lt_or_le index.toInt 0 with negative | natural
  · have := cell_of_negative negative
    omega
  · have := Int32.toInt_lt index
    rw [cell_of_natural natural]
    omega

theorem cell_injective : Function.Injective cell := by
  intro a b same
  have words : a.toInt64.toUInt64 = b.toInt64.toUInt64 := UInt64.toNat_inj.mp same
  have back := congrArg (fun word => word.toInt64.toInt32) words
  simpa using back

namespace SparseLRModel

def ofSize [Zero F] (d : Nat) : SparseLRModel F :=
  { weights := List.replicate d 0, weightsHist := List.replicate d 0 }

def size (m : SparseLRModel F) : Nat := m.weights.length

def getSerializedSize (m : SparseLRModel F) : Nat := m.size * 4 + 4

/-- Format: number of weights, then the weights. -/
def serializeTo (w : Wire B F) (m : SparseLRModel F) : List B :=
  w.int.put (toInt m.weights.length) ++ m.weights.flatMap w.feature.put

def loadSerialized (w : Wire B F) (m : SparseLRModel F) : Decoder B (SparseLRModel F) := do
  let numWeights ← w.int.load
  check (0 < numWeights.toInt ∧ numWeights.toInt < 10000000)
    (.assertion "num_weights > 0 && num_weights < 10000000")
  let weights ← rounds (fun _ => w.feature.load) 0 numWeights.toInt.toNat
  pure { m with weights := weights }

def getNthWeight (m : SparseLRModel F) (n : Nat) : Except Fault F := at' m.weights n

/-- A larger block replaces a smaller one; its cells have no values yet. -/
def reserveSparse [Zero F] (m : SparseLRModel F) (n : Nat) : SparseLRModel F :=
  if m.weightsSparse.length < n then { m with weightsSparse := List.replicate n 0 } else m

/-- A vector of `1 << config.get_model_bits()`, which is an `int`: with 31 bits it is negative, and more than a vector
can have. -/
def sparseBlock (config : Configuration F) : Except Fault Nat :=
  if config.modelBits < 31 then .ok (2 ^ config.modelBits)
  else if config.modelBits = 31 then .error (.exception "std::length_error") else .error .undefined

theorem sparseBlock_small {config : Configuration F} (small : config.modelBits < 31) :
    sparseBlock config = .ok (2 ^ config.modelBits) := if_pos small

theorem sparseBlock_ok {config : Configuration F} {n : Nat} (block : sparseBlock config = .ok n) :
    config.modelBits < 31 ∧ n = 2 ^ config.modelBits := by
  unfold sparseBlock at block
  split at block
  next small =>
    cases block
    exact ⟨small, rfl⟩
  next =>
    split at block <;> cases block

def storeSparse (m : SparseLRModel F) (e : UInt32 × F) : Except Fault (SparseLRModel F) := do
  pure { m with weightsSparse := ← setAt m.weightsSparse e.1.toNat e.2 }

def loadSerializedSparse [Zero F] (w : Wire B F) (m : SparseLRModel F) (weights weightIndices : List B)
    (numWeights : Nat) (config : Configuration F) : Except Fault (SparseLRModel F) := do
  if ¬ (0 < numWeights ∧ numWeights < 10000000) then
    throw (.assertion "num_weights > 0 && num_weights < 10000000")
  let block ← sparseBlock config
  let (indices, _) ← rounds (fun _ => w.u32.load) 0 numWeights weightIndices
  let (values, _) ← rounds (fun _ => w.feature.load) 0 numWeights weights
  (indices.zip values).foldlM storeSparse ({ m with isSparse := true }.reserveSparse block)

theorem serializeTo_length (w : Wire B F) (m : SparseLRModel F) :
    (m.serializeTo w).length = m.getSerializedSize := by
  rw [serializeTo, List.length_append, w.int.put_length, w.feature.flatMap_put_length,
    getSerializedSize, size]
  omega

theorem loadSerialized_serializeTo (w : Wire B F) (m own : SparseLRModel F)
    (some_weight : 0 < m.size) (few : m.size < 10000000) :
    Decodes (loadSerialized w own) (m.serializeTo w) { own with weights := m.weights } := by
  have count : (toInt m.weights.length).toInt = m.weights.length :=
    LRSparseGradient.toInt_toInt (Nat.lt_trans few (by decide))
  have all : (toInt m.weights.length).toInt.toNat = m.weights.length := by
    rw [count]
    exact Int.toNat_natCast _
  rw [size] at some_weight few
  apply Decodes.bind (.load w.int _)
  apply Decodes.skip (.check ?_ _)
  · rw [all]
    exact (Decodes.rounds 0 m.weights fun _ x _ _ => Decodes.load w.feature x).last
  · rw [count]
    omega

end SparseLRModel

/-- The subclasses of `OptimizationMethod`, with what they keep between gradients. -/
inductive OptimizationMethod (F : Type) where
  | sgd (learningRate : F)
  | momentum (learningRate momentumBeta momentumAvg : F)
  | nesterov (learningRate momentumBeta momentumAvg : F)
  | adaGrad (learningRate adagradEpsilon : F)

namespace OptimizationMethod
variable [One F] [Add F] [Sub F] [Mul F] [Div F] [FloatOps F]

def editWeight : OptimizationMethod F → F → F
  | .nesterov _ momentumBeta momentumAvg, weight => weight + momentumBeta * momentumAvg
  | _, weight => weight

/-- The running average of Momentum and Nesterov, which a first value replaces. -/
def average (learningRate momentumBeta momentumAvg value : F) : F :=
  if FloatOps.isZero momentumAvg then value
  else momentumBeta * momentumAvg + (1 - momentumBeta) * learningRate * value

/-- One turn of the loop of `sgd_update`. -/
def applyWeight (s : OptimizationMethod F × SparseLRModel F) (e : Int32 × F) :
    Except Fault (OptimizationMethod F × SparseLRModel F) :=
  let (method, m) := s
  let (index, value) := (cell e.1, e.2)
  match method with
  | .sgd learningRate => do
    pure (method, { m with weights := ← addAt m.weights index (learningRate * value) })
  | .momentum learningRate momentumBeta momentumAvg => do
    let avg := average learningRate momentumBeta momentumAvg value
    pure (.momentum learningRate momentumBeta avg, { m with weights := ← addAt m.weights index avg })
  | .nesterov learningRate momentumBeta momentumAvg => do
    let avg := average learningRate momentumBeta momentumAvg value
    pure (.nesterov learningRate momentumBeta avg, { m with weights := ← addAt m.weights index avg })
  | .adaGrad learningRate adagradEpsilon => do
    let weightsHist ← addAt m.weightsHist index (value * value)
    let hist ← at' weightsHist index
    let weights ← addAt m.weights index (learningRate * value / (adagradEpsilon + FloatOps.sqrt hist))
    pure (method, { m with weightsHist := weightsHist, weights := weights })

def sgdUpdate (method : OptimizationMethod F) (m : SparseLRModel F) (gradient : LRSparseGradient F) :
    Except Fault (OptimizationMethod F × SparseLRModel F) :=
  gradient.weights.foldlM applyWeight (method, m)

structure HasSize (m : SparseLRModel F) (n : Nat) : Prop where
  weights : m.weights.length = n
  history : m.weightsHist.length = n

theorem applyWeight_gives {method : OptimizationMethod F} {m : SparseLRModel F} {n : Nat}
    (sized : HasSize m n) {e : Int32 × F} (inside : cell e.1 < n) :
    ∃ t, applyWeight (method, m) e = .ok t ∧ HasSize t.2 n := by
  have adds : ∀ (v : List F) x, v.length = n → ∃ v', addAt v (cell e.1) x = .ok v' ∧ v'.length = n := by
    intro v x size
    rw [← size] at inside
    exact ⟨_, addAt_of_lt inside x, by rw [List.length_set, size]⟩
  cases method with
  | sgd learningRate =>
    obtain ⟨v, added, size⟩ := adds m.weights (learningRate * e.2) sized.weights
    simp only [applyWeight, added]
    exact ⟨_, rfl, size, sized.history⟩
  | momentum learningRate momentumBeta momentumAvg =>
    obtain ⟨v, added, size⟩ :=
      adds m.weights (average learningRate momentumBeta momentumAvg e.2) sized.weights
    simp only [applyWeight, added]
    exact ⟨_, rfl, size, sized.history⟩
  | nesterov learningRate momentumBeta momentumAvg =>
    obtain ⟨v, added, size⟩ :=
      adds m.weights (average learningRate momentumBeta momentumAvg e.2) sized.weights
    simp only [applyWeight, added]
    exact ⟨_, rfl, size, sized.history⟩
  | adaGrad learningRate adagradEpsilon =>
    obtain ⟨hist, squared, size⟩ := adds m.weightsHist (e.2 * e.2) sized.history
    obtain ⟨x, found⟩ : ∃ x, at' hist (cell e.1) = .ok x := by
      rw [← size] at inside
      exact ⟨_, at'_of_lt inside⟩
    obtain ⟨v, added, size'⟩ := adds m.weights
      (learningRate * e.2 / (adagradEpsilon + FloatOps.sqrt x)) sized.weights
    refine ⟨(.adaGrad learningRate adagradEpsilon, { m with weightsHist := hist, weights := v }),
      ?_, size', size⟩
    simp only [applyWeight, squared, found, added, bind, Except.bind]
    rfl

theorem sgdUpdate_gives (method : OptimizationMethod F) {m : SparseLRModel F} {n : Nat}
    (sized : HasSize m n) {g : LRSparseGradient F} (inside : ∀ e ∈ g.weights, cell e.1 < n) :
    ∃ t, method.sgdUpdate m g = .ok t ∧ HasSize t.2 n := by
  apply Loops.foldlM_gives (P := fun _ (s : OptimizationMethod F × SparseLRModel F) => HasSize s.2 n)
    ?_ sized
  intro seen e here s sized
  exact applyWeight_gives sized (inside e (Loops.mem_of_here here))

end OptimizationMethod
end SparseLR

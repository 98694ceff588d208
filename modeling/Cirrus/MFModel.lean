import Cirrus.SparseLRModel
import Mathlib.Logic.Function.Basic

/-!
The matrix-factorization models: `MFModel`, which the server keeps, and
`SparseMFModel`, the part of it that a worker fetches. Indices are `uint64_t`
and wrap; `.at()` throws past the end of a vector and `[]` is undefined there.
-/
namespace MF
open Gradients SparseLR Decoder
variable {B F : Type}

structure MFModel (F : Type) where
  nusers : UInt64
  nitems : UInt64
  nfactors : UInt64
  userWeights : List F
  itemWeights : List F
  userBias : List F
  itemBias : List F
  globalBias : F

def rangeError : Fault := .exception "vector::_M_range_check"

namespace MFModel

def userCell (m : MFModel F) (userId factor : UInt64) : Nat := (userId * m.nfactors + factor).toNat

def itemCell (m : MFModel F) (itemId factor : UInt64) : Nat := (itemId * m.nfactors + factor).toNat

/-- `v.at(i)`. -/
def checkedAt (v : List F) (i : Nat) : Except Fault F :=
  match v[i]? with
  | some x => .ok x
  | none => .error rangeError

def getUserWeights (m : MFModel F) (userId factor : UInt64) : Except Fault F :=
  checkedAt m.userWeights (m.userCell userId factor)

def getItemWeights (m : MFModel F) (itemId factor : UInt64) : Except Fault F :=
  checkedAt m.itemWeights (m.itemCell itemId factor)

def getUserBias (m : MFModel F) (userId : UInt64) : Except Fault F :=
  if m.userBias.length ≤ userId.toNat then .error (.exception "User bias index too large")
  else checkedAt m.userBias userId.toNat

def getItemBias (m : MFModel F) (itemId : UInt64) : Except Fault F :=
  if m.itemBias.length ≤ itemId.toNat then .error (.exception "Item bias index too large")
  else checkedAt m.itemBias itemId.toNat

def getSerializedSize (m : MFModel F) : Nat :=
  8 * 3 + m.userBias.length * 4 + m.itemBias.length * 4 + m.userWeights.length * 4 +
    m.itemWeights.length * 4

def serializeTo (w : Wire B F) (m : MFModel F) : List B :=
  w.u64.put m.nusers ++ (w.u64.put m.nitems ++ (w.u64.put m.nfactors ++
    (m.userBias.flatMap w.feature.put ++ (m.itemBias.flatMap w.feature.put ++
    (m.userWeights.flatMap w.feature.put ++ m.itemWeights.flatMap w.feature.put)))))

def initialGlobalBias [OfScientific F] : F := 3.604

/-- The vectors are resized to the sizes read and then filled in order, each weight at
`userId * nfactors + factor`, which visits the cells in order. -/
def loadSerialized [OfScientific F] (w : Wire B F) : Decoder B (MFModel F) := do
  let nusers ← w.u64.load
  let nitems ← w.u64.load
  let nfactors ← w.u64.load
  let userBias ← rounds (fun _ => w.feature.load) 0 nusers.toNat
  let itemBias ← rounds (fun _ => w.feature.load) 0 nitems.toNat
  let userWeights ← rounds (fun _ => rounds (fun _ => w.feature.load) 0 nfactors.toNat) 0 nusers.toNat
  let itemWeights ← rounds (fun _ => rounds (fun _ => w.feature.load) 0 nfactors.toNat) 0 nitems.toNat
  pure
    { nusers := nusers
      nitems := nitems
      nfactors := nfactors
      userWeights := userWeights.flatten
      itemWeights := itemWeights.flatten
      userBias := userBias
      itemBias := itemBias
      globalBias := initialGlobalBias }

section Update
variable [Add F]

/-- `bias[v.first] += v.second` for each pair of a map. -/
def addBiases (bias : List F) (gradient : List (Int32 × F)) : Except Fault (List F) :=
  gradient.foldlM (fun bias e => addAt bias (cell e.1) e.2) bias

def addCheckedAt (v : List F) (i : Nat) (x : F) : Except Fault (List F) := do
  pure (v.set i ((← checkedAt v i) + x))

/-- `weights(v.first, i) += v.second[i]` for each factor, after the assertion on their number. -/
def addVector (nfactors : UInt64) (weights : List F) (e : Int32 × List F) : Except Fault (List F) := do
  if e.2.length ≠ numFactors then throw (.assertion "v.second.size() == NUM_FACTORS")
  (e.2.zipIdx).foldlM
    (fun weights x =>
      addCheckedAt weights (e.1.toInt64.toUInt64 * nfactors + UInt64.ofNat x.2).toNat x.1)
    weights

def sgdUpdate (m : MFModel F) (g : MFSparseGradient F) : Except Fault (MFModel F) := do
  let userBias ← addBiases m.userBias (MFSparseGradient.pairs g.usersBiasGrad)
  let itemBias ← addBiases m.itemBias (MFSparseGradient.pairs g.itemsBiasGrad)
  let userWeights ← g.usersWeightsGrad.foldlM (addVector m.nfactors) m.userWeights
  let itemWeights ← g.itemsWeightsGrad.foldlM (addVector m.nfactors) m.itemWeights
  pure { m with userBias := userBias, itemBias := itemBias, userWeights := userWeights, itemWeights := itemWeights }

end Update
end MFModel

/-- The length of the arrays of `SparseMFModel` and of the client that are indexed by item. -/
def itemSlots : Nat := 17770

structure SparseMFModel (F : Type) where
  /-- For each user its id, its bias and its weights. -/
  userModels : List (Int32 × F × List F) := []
  itemModels : Fin itemSlots → F × List F
  nfactors : UInt64
  userBiasReg : F
  itemBiasReg : F
  itemFactReg : F
  userFactReg : F
  globalBias : F

namespace SparseMFModel

/-- The constructor without data. -/
def ofSize [Zero F] [OfScientific F] (nfactors : UInt64) : SparseMFModel F :=
  { itemModels := fun _ => (0, [])
    nfactors := nfactors
    userBiasReg := 0.05
    itemBiasReg := 0.05
    itemFactReg := 0.05
    userFactReg := 0.05
    globalBias := 3.604 }

/-- What is stored for a user or an item: its id, its bias and NUM_FACTORS weights. -/
def putModel (w : Wire B F) (e : UInt32 × F × List F) : List B :=
  w.u32.put e.1 ++ (w.feature.put e.2.1 ++ e.2.2.flatMap w.feature.put)

def loadModel (w : Wire B F) : Decoder B (UInt32 × F × List F) := do
  let id ← w.u32.load
  let bias ← w.feature.load
  let weights ← rounds (fun _ => w.feature.load) 0 numFactors
  pure (id, bias, weights)

/-- `item_models[item_id] = item_model`. -/
def setItem (items : Fin itemSlots → F × List F) (e : UInt32 × F × List F) :
    Except Fault (Fin itemSlots → F × List F) :=
  if inside : e.1.toNat < itemSlots then .ok (Function.update items ⟨e.1.toNat, inside⟩ e.2)
  else .error .undefined

def loadSerialized [OfScientific F] (w : Wire B F) (m : SparseMFModel F) (minibatchSize numItemIds : Nat) :
    Decoder B (SparseMFModel F) := do
  let users ← rounds (fun _ => loadModel w) 0 minibatchSize
  let items ← rounds (fun _ => loadModel w) 0 numItemIds
  let itemModels ← lift (items.foldlM setItem m.itemModels)
  pure
    { m with
      nfactors := UInt64.ofNat numFactors
      userModels := m.userModels ++ users.map fun e => (e.1.toInt32, e.2)
      globalBias := 3.604
      itemModels := itemModels }

def denseUser (m : MFModel F) (i : UInt32) : Except Fault (UInt32 × F × List F) := do
  let bias ← m.getUserBias i.toUInt64
  let weights ← (List.range numFactors).mapM fun j => m.getUserWeights i.toUInt64 (UInt64.ofNat j)
  pure (i, bias, weights)

def denseItem (m : MFModel F) (itemId : UInt32) : Except Fault (UInt32 × F × List F) := do
  let bias ← m.getItemBias itemId.toUInt64
  let weights ← (List.range numFactors).mapM fun j => m.getItemWeights itemId.toUInt64 (UInt64.ofNat j)
  pure (itemId, bias, weights)

/-- The users of the loop `for (uint32_t i = base; i < base + minibatch; ++i)`. -/
def userRange (baseUserId minibatchSize : UInt32) : List UInt32 :=
  (List.range ((baseUserId + minibatchSize).toNat - baseUserId.toNat)).map fun k =>
    baseUserId + UInt32.ofNat k

def serializeFromDense (w : Wire B F) (m : MFModel F) (baseUserId minibatchSize kItems : UInt32)
    (itemData : List B) : Except Fault (List B) := do
  let users ← (userRange baseUserId minibatchSize).mapM (denseUser m)
  let (itemIds, _) ← rounds (fun _ => w.u32.load) 0 kItems.toNat itemData
  let items ← itemIds.mapM (denseItem m)
  pure (users.flatMap (putModel w) ++ items.flatMap (putModel w))

end SparseMFModel
end MF

import Cirrus.Lib.Factorization
import Cirrus.Lib.Loops
import Cirrus.MFModel

/-!
The two ways in which a minibatch of ratings moves a matrix-factorization model:
`SparseMFModel::minibatch_grad`, which moves the worker's part of the model and
collects what it adds, and `MFModel::sgd_update` of a dataset.
-/
namespace MF
open Gradients SparseLR Factorization
variable {F : Type}

def wide (id : Int32) : UInt64 := id.toInt64.toUInt64

/-- `m[k] += x`. -/
def addToMap [Zero F] [Add F] (m : IdMap F) (k : Int32) (x : F) : IdMap F :=
  m.insert k ((m.lookup k).getD 0 + x)

/-- A call of `minibatch_grad` under way. -/
structure Minibatch (F : Type) where
  model : SparseMFModel F
  gradient : MFSparseGradient F := {}
  userWeightsGrad : List F := []
  itemWeightsGradMap : Fin itemSlots → List F := fun _ => []
  itemWeightsLst : List (Fin itemSlots) := []

/-- The element of an array of 17770 that an id refers to. -/
def itemSlot (itemId : UInt64) : Except Fault (Fin itemSlots) :=
  if inside : itemId.toNat < itemSlots then .ok ⟨itemId.toNat, inside⟩ else .error .undefined

namespace SparseMFModel

def reg (m : SparseMFModel F) : Regularization F where
  itemFactors := m.itemFactReg
  userFactors := m.userFactReg
  userBias := m.userBiasReg
  itemBias := m.itemBiasReg

def userModel (m : SparseMFModel F) (userId : Nat) : Except Fault (Int32 × F × List F) :=
  match m.userModels[userId]? with
  | some user => .ok user
  | none => .error .undefined

section Descent
variable [Add F] [Sub F] [Mul F]

def predict (m : SparseMFModel F) (userId itemId : UInt32) : Except Fault F := do
  let (_, userBias, userWeights) ← m.userModel userId.toNat
  let slot ← itemSlot itemId.toUInt64
  let (itemBias, itemWeights) := m.itemModels slot
  (List.range m.nfactors.toNat).foldlM
    (fun res i => do pure (res + (← at' userWeights i) * (← at' itemWeights i)))
    (m.globalBias + userBias + itemBias)

/-- The loop over a user's factors, with what is collected for them and the factors themselves. -/
def moveUser (nfactors : Nat) (rate error reg : F) (itemWeights : List F) (s : List F × List F) :
    Except Fault (List F × List F) :=
  (List.range nfactors).foldlM
    (fun s k => do
      let deltaUserW := factorDelta rate error reg (← at' itemWeights k) (← at' s.2 k)
      pure (← addAt s.1 k deltaUserW, ← addAt s.2 k deltaUserW))
    s

/-- What the loop over an item's factors changes: what is collected for the item, which has no
elements before its first turn, the list of items with some, and the factors. -/
structure ItemMove (F : Type) where
  grad : List F
  listed : List (Fin itemSlots)
  weights : List F

def moveItem [Zero F] (nfactors : Nat) (rate error reg : F) (userWeights : List F) (slot : Fin itemSlots)
    (s : ItemMove F) : Except Fault (ItemMove F) :=
  (List.range nfactors).foldlM
    (fun s k => do
      let deltaItemW := factorDelta rate error reg (← at' userWeights k) (← at' s.weights k)
      let weights ← addAt s.weights k deltaItemW
      let (grad, listed) :=
        if s.grad.isEmpty then (List.replicate numFactors 0, s.listed ++ [slot]) else (s.grad, s.listed)
      pure { grad := ← addAt grad k deltaItemW, listed := listed, weights := weights })
    s

variable [Zero F]

/-- One rating of the user at `userFrom0`. -/
def rate (learningRate : F) (realUserId : UInt64) (userFrom0 : Nat) (s : Minibatch F) (e : Int32 × F) :
    Except Fault (Minibatch F) := do
  let itemId := wide e.1
  let pred ← s.model.predict (UInt32.ofNat userFrom0) itemId.toUInt32
  let error := e.2 - pred
  let (id, userBias, userWeights) ← s.model.userModel userFrom0
  let deltaUser := biasDelta learningRate error s.model.userBiasReg userBias
  let usersBiasGrad := addToMap s.gradient.usersBiasGrad (toInt realUserId.toNat) deltaUser
  let slot ← itemSlot itemId
  let (itemBias, itemWeights) := s.model.itemModels slot
  let deltaItem := biasDelta learningRate error s.model.itemBiasReg itemBias
  let itemsBiasGrad := addToMap s.gradient.itemsBiasGrad (toInt itemId.toNat) deltaItem
  let (userWeightsGrad, userWeights) ← moveUser s.model.nfactors.toNat learningRate error
    s.model.userFactReg itemWeights (s.userWeightsGrad, userWeights)
  let item ← moveItem s.model.nfactors.toNat learningRate error s.model.itemFactReg userWeights slot
    { grad := s.itemWeightsGradMap slot, listed := s.itemWeightsLst, weights := itemWeights }
  pure
    { model := { s.model with
        userModels := s.model.userModels.set userFrom0 (id, userBias + deltaUser, userWeights)
        itemModels := Function.update s.model.itemModels slot (itemBias + deltaItem, item.weights) }
      gradient := { s.gradient with usersBiasGrad := usersBiasGrad, itemsBiasGrad := itemsBiasGrad }
      userWeightsGrad := userWeightsGrad
      itemWeightsGradMap := Function.update s.itemWeightsGradMap slot item.grad
      itemWeightsLst := item.listed }

/-- All ratings of one user. Its bias gradient is there also if it has none. -/
def rateUser (learningRate : F) (baseUser : UInt64) (s : Minibatch F) (sample : List (Int32 × F) × Nat) :
    Except Fault (Minibatch F) := do
  let realUserId := baseUser + UInt64.ofNat sample.2
  let started := { s with
    gradient := { s.gradient with
      usersBiasGrad := s.gradient.usersBiasGrad.insert (toInt realUserId.toNat) 0 }
    userWeightsGrad := List.replicate numFactors 0 }
  let s ← sample.1.foldlM (rate learningRate realUserId sample.2) started
  pure { s with gradient := { s.gradient with
    usersWeightsGrad := s.gradient.usersWeightsGrad ++ [(toInt realUserId.toNat, s.userWeightsGrad)] } }

/-- The model after the call, and the gradient. -/
def minibatchGrad (m : SparseMFModel F) (ds : SparseDataset F) (config : Configuration F)
    (baseUser : UInt64) : Except Fault (SparseMFModel F × MFSparseGradient F) := do
  let s ← ds.data.zipIdx.foldlM (rateUser config.learningRate baseUser) { model := m }
  pure (s.model, { s.gradient with
    itemsWeightsGrad := s.itemWeightsLst.map fun slot => (toInt slot.val, s.itemWeightsGradMap slot) })

end Descent
end SparseMFModel

namespace MFModel

def initializeRegParams [OfScientific F] : Regularization F where
  itemFactors := 0.01
  userFactors := 0.01
  userBias := 0.01
  itemBias := 0.01

variable [Add F] [Sub F] [Mul F]

def predict (m : MFModel F) (userId itemId : UInt32) : Except Fault F := do
  let userBias ← at' m.userBias userId.toNat
  let itemBias ← at' m.itemBias itemId.toNat
  (List.range m.nfactors.toNat).foldlM
    (fun res i => do
      pure (res + (← m.getUserWeights userId.toUInt64 (UInt64.ofNat i)) *
        (← m.getItemWeights itemId.toUInt64 (UInt64.ofNat i))))
    (m.globalBias + userBias + itemBias)

/-- The loop over a user's factors. -/
def moveUser (rate error reg : F) (user itemId : UInt64) (m : MFModel F) : Except Fault (MFModel F) :=
  (List.range m.nfactors.toNat).foldlM
    (fun m k => do
      let deltaUserW := factorDelta rate error reg
        (← m.getItemWeights itemId (UInt64.ofNat k)) (← m.getUserWeights user (UInt64.ofNat k))
      pure { m with userWeights := ← addCheckedAt m.userWeights (m.userCell user (UInt64.ofNat k)) deltaUserW })
    m

/-- The loop over an item's factors. -/
def moveItem (rate error reg : F) (user itemId : UInt64) (m : MFModel F) : Except Fault (MFModel F) :=
  (List.range m.nfactors.toNat).foldlM
    (fun m k => do
      let deltaItemW := factorDelta rate error reg
        (← m.getUserWeights user (UInt64.ofNat k)) (← m.getItemWeights itemId (UInt64.ofNat k))
      pure { m with itemWeights := ← addCheckedAt m.itemWeights (m.itemCell itemId (UInt64.ofNat k)) deltaItemW })
    m

def rate (reg : Regularization F) (learningRate : F) (user : UInt64) (m : MFModel F) (e : Int32 × F) :
    Except Fault (MFModel F) := do
  let itemId := wide e.1
  let pred ← m.predict user.toUInt32 itemId.toUInt32
  let error := e.2 - pred
  if m.nitems ≤ itemId ∨ m.nusers ≤ user then throw (.exception "Wrong value here")
  let userBias ← addAt m.userBias user.toNat
    (biasDelta learningRate error reg.userBias (← at' m.userBias user.toNat))
  let itemBias ← addAt m.itemBias itemId.toNat
    (biasDelta learningRate error reg.itemBias (← at' m.itemBias itemId.toNat))
  let m ← moveUser learningRate error reg.userFactors user itemId
    { m with userBias := userBias, itemBias := itemBias }
  moveItem learningRate error reg.itemFactors user itemId m

def sgdUpdateDataset (reg : Regularization F) (m : MFModel F) (learningRate : F) (baseUser : UInt64)
    (ds : SparseDataset F) : Except Fault (MFModel F) :=
  ds.data.zipIdx.foldlM
    (fun m sample => sample.1.foldlM (rate reg learningRate (baseUser + UInt64.ofNat sample.2)) m) m

end MFModel
end MF

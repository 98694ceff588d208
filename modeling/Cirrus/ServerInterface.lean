import Cirrus.ServerTask

/-!
`PSSparseServerInterface`, the client's side of the protocol: each call sends
one request and, where it expects one, takes the reply. The operation and the
size of a gradient are sent with a single `send`; as they are a few bytes on a
blocking socket, it is taken to accept all of them.
-/
namespace ServerInterface
open Gradients SparseLR MF ServerTask Stream Stream.Prog Decoder
variable {B F : Type} (w : Wire B F)

def maxMsgSize : Nat := 1024 * 1024

/-- The array `char data[size]` is taken to fit on the stack. -/
def sendLrGradient (gradient : LRSparseGradient F) : Prog B Unit := do
  sendAll (w.u32.put PsOp.sendLrGradient.code)
  let size : UInt32 := UInt32.ofNat gradient.getSerializedSize
  sendAll (w.u32.put size)
  let data := gradient.serialize w
  if size.toNat < data.length then fail .undefined else
  sendAll data
  if size = 0 then fail (.exception "Error sending grad") else
  pure ()

def lrMessage (gradient : LRSparseGradient F) : List B :=
  w.u32.put PsOp.sendLrGradient.code ++
    (w.u32.put (UInt32.ofNat gradient.getSerializedSize) ++ gradient.serialize w)

theorem sendLrGradient_asks (gradient : LRSparseGradient F)
    (small : gradient.getSerializedSize < 2 ^ 32) :
    Talks (sendLrGradient w gradient) [] (lrMessage w gradient) () := by
  have size : (UInt32.ofNat gradient.getSerializedSize).toNat = gradient.getSerializedSize :=
    UInt32.toNat_ofNat_of_lt' small
  have nonzero : UInt32.ofNat gradient.getSerializedSize ≠ 0 := by
    intro zero
    rw [zero, LRSparseGradient.getSerializedSize] at size
    exact absurd size (by simp)
  apply Talks.say
  apply Talks.say
  dsimp only
  rw [size, LRSparseGradient.serialize_length, if_neg (Nat.lt_irrefl _)]
  apply Talks.say_last
  rw [if_neg nonzero]
  exact .pure ()

/-- A gradient whose size does not fit in 32 bits is written past the end of its buffer. -/
theorem sendLrGradient_overflows (gradient : LRSparseGradient F)
    (large : 2 ^ 32 ≤ gradient.getSerializedSize) {takes sends : List B} :
    ¬ Talks (sendLrGradient w gradient) takes sends () := by
  intro talks
  have wraps := UInt32.toNat_lt (UInt32.ofNat gradient.getSerializedSize)
  obtain ⟨_, _, talks⟩ := talks.of_send
  obtain ⟨_, _, talks⟩ := talks.of_send
  change Talks (if _ then _ else _) _ _ _ at talks
  rw [LRSparseGradient.serialize_length, if_pos (by omega)] at talks
  exact talks.not_fail

def sendMfGradient (gradient : MFSparseGradient F) : Prog B Unit := do
  sendAll (w.u32.put PsOp.sendMfGradient.code)
  let size : UInt32 := UInt32.ofNat gradient.getSerializedSize
  sendAll (w.u32.put size)
  let data ← compute (gradient.serialize w)
  if size.toNat < data.length then fail .undefined else
  sendAll data
  if size = 0 then fail (.exception "Error sending grad") else
  pure ()

def mfMessage (gradient : MFSparseGradient F) : List B :=
  w.u32.put PsOp.sendMfGradient.code ++
    (w.u32.put (UInt32.ofNat gradient.getSerializedSize) ++ gradient.layout w)

theorem sendMfGradient_asks {gradient : MFSparseGradient F} (shaped : MFSparseGradient.Shaped gradient)
    (small : gradient.getSerializedSize < 2 ^ 32) :
    Talks (sendMfGradient w gradient) [] (mfMessage w gradient) () := by
  have size : (UInt32.ofNat gradient.getSerializedSize).toNat = gradient.getSerializedSize :=
    UInt32.toNat_ofNat_of_lt' small
  have nonzero : UInt32.ofNat gradient.getSerializedSize ≠ 0 := by
    intro zero
    rw [zero, MFSparseGradient.getSerializedSize, UInt32.toNat_zero] at size
    omega
  apply Talks.say
  apply Talks.say
  apply Talks.work (MFSparseGradient.serialize_shaped w shaped)
  rw [size, MFSparseGradient.layout_length w shaped, if_neg (Nat.lt_irrefl _)]
  apply Talks.say_last
  rw [if_neg nonzero]
  exact .pure ()

def features (ds : SparseDataset F) : List UInt32 := ds.data.flatten.map fun e => e.1.toUInt32

theorem mem_features {ds : SparseDataset F} {i : UInt32} :
    i ∈ features ds ↔ ∃ row ∈ ds.data, ∃ e ∈ row, i = e.1.toUInt32 := by
  rw [features, List.mem_map]
  constructor
  · intro ⟨e, there, same⟩
    obtain ⟨row, listed, there⟩ := List.mem_flatten.mp there
    exact ⟨row, listed, e, there, same.symm⟩
  · intro ⟨row, listed, e, there, same⟩
    exact ⟨e, List.mem_flatten.mpr ⟨row, listed, there⟩, same.symm⟩

def getLrSparseModelInplace [Zero F] (ds : SparseDataset F) (model : SparseLRModel F)
    (config : Configuration F) : Prog B (SparseLRModel F) := do
  let numWeights : UInt32 := UInt32.ofNat (features ds).length
  let indices := (features ds).flatMap w.u32.put
  if maxMsgSize < 4 + indices.length then fail .undefined else
  sendAll (w.u32.put PsOp.getLrSparseModel.code)
  let msgSize : UInt32 := 4 + 4 * numWeights
  sendAll (w.u32.put msgSize)
  sendAll (w.u32.put numWeights ++ indices)
  let toReceiveSize : UInt32 := 4 * numWeights
  let buffer := (← readAll toReceiveSize.toNat).getD []
  compute (model.loadSerializedSparse w buffer indices numWeights.toNat config)

/-- The ids seen are marked in an array. -/
def listItem (ids : List UInt32) (movieId : UInt32) : Except Fault (List UInt32) :=
  if movieId.toNat < itemSlots then .ok (if movieId ∈ ids then ids else ids ++ [movieId])
  else .error .undefined

def itemIds (ds : SparseDataset F) : Except Fault (List UInt32) := (features ds).foldlM listItem []

def getSparseMfModel [Zero F] [OfScientific F] (ds : SparseDataset F) (userBase minibatchSize : UInt32) :
    Prog B (SparseMFModel F) := do
  let ids ← compute (itemIds ds)
  let itemIdsCount : UInt32 := UInt32.ofNat ids.length
  let msg := w.u32.put itemIdsCount ++ (w.u32.put userBase ++ (w.u32.put minibatchSize ++
    (w.u32.put magicNumber ++ ids.flatMap w.u32.put)))
  if maxMsgSize < msg.length then fail .undefined else
  sendAll (w.u32.put PsOp.getMfSparseModel.code)
  let msgSize : UInt32 := 4 * 4 + 4 * itemIdsCount
  sendAll (w.u32.put msgSize)
  sendAll msg
  let some size ← readAll 4 | fail .undefined
  let some buffer ← readAll (w.u32.get size).toNat | fail (.exception "")
  let (model, _) ← compute
    (SparseMFModel.loadSerialized w (SparseMFModel.ofSize 0) minibatchSize.toNat itemIdsCount.toNat buffer)
  pure model

def getFullModel [Zero F] [OfScientific F] (isCollaborative : Bool) :
    Prog B (MFModel F ⊕ SparseLRModel F) :=
  if isCollaborative then do
    sendAll (w.u32.put PsOp.getMfFullModel.code)
    let some size ← readAll 4 | fail .undefined
    let buffer := (← readAll (w.u32.get size).toNat).getD []
    let (model, _) ← compute (MFModel.loadSerialized w buffer)
    pure (.inl model)
  else do
    sendAll (w.u32.put PsOp.getLrFullModel.code)
    let some size ← readAll 4 | fail (.exception "Error talking to PS")
    let modelSize := w.int.get size
    if modelSize.toInt < 0 then fail (.exception "std::bad_alloc") else
    let some weights ← readAll (modelSize.toInt.toNat * 4) | fail (.exception "Error talking to PS")
    let (model, _) ← compute (SparseLRModel.loadSerialized w (SparseLRModel.ofSize 0)
      (w.int.put modelSize ++ weights))
    pure (.inr model)

def registerTask (id remainingTimeSec : UInt32) : Prog B UInt32 := do
  sendAll (w.u32.put PsOp.registerTask.code ++ (w.u32.put id ++ w.u32.put remainingTimeSec))
  let some status ← readAll 4 | fail (.exception "Error getting task register return")
  pure (w.u32.get status)

def deregisterTask (id : UInt32) : Prog B UInt32 := do
  sendAll (w.u32.put PsOp.deregisterTask.code ++ w.u32.put id)
  let some status ← readAll 4 | fail (.exception "Error getting task register return")
  pure (w.u32.get status)

def setStatus (id status : UInt32) : Prog B Unit := do
  sendAll (w.u32.put PsOp.setTaskStatus.code ++ (w.u32.put id ++ w.u32.put status))

def getStatus (id : UInt32) : Prog B UInt32 := do
  sendAll (w.u32.put PsOp.getTaskStatus.code ++ w.u32.put id)
  let some status ← readAll 4 | fail (.exception "Error getting task status")
  pure (w.u32.get status)

theorem word_asks (message : List B) (fault : Fault) (status : UInt32) :
    Talks (do
      sendAll message
      let some status ← readAll 4 | fail fault
      pure (w.u32.get status)) (w.u32.put status) message status := by
  apply Talks.say_last
  apply Talks.read_last (w.u32.put_length _) (by decide)
  dsimp only
  rw [w.u32.get_put]
  exact .pure _

def keyChars (key : List B) : List B := key ++ List.replicate (keySize - key.length) w.nul

def setValue (key data : List B) : Prog B Unit := do
  if ¬ key.length ≤ keySize then fail (.assertion "key.size() <= KEY_SIZE") else
  sendAll (w.u32.put PsOp.setValue.code)
  sendAll (keyChars w key)
  sendAll (w.u32.put (UInt32.ofNat data.length))
  sendAll data

/-- The value, or nothing where the client returns a null pointer. -/
def getValue (key : List B) : Prog B (Option (List B)) := do
  if ¬ key.length ≤ keySize then fail .undefined else
  sendAll (w.u32.put PsOp.getValue.code)
  sendAll (keyChars w key)
  let some size ← readAll 4 | fail (.exception "Error reading key value")
  let size := w.u32.get size
  if size = 0 then pure none else
  let some value ← readAll size.toNat | fail (.exception "Error receiving value data")
  pure (some value)

end ServerInterface

import Cirrus.Lib.Stream
import Cirrus.MFModel
import Cirrus.TaskRegistry

/-!
The request handlers of `PSSparseServerTask` and the turn of a worker thread,
`gradient_f`, that reads an operation and calls its handler. One request is
handled as one program over the client's connection. `send` never fails here:
the client keeps its end open.
-/
namespace ServerTask
open Gradients SparseLR MF Stream Stream.Prog Decoder
variable {B F : Type}

def threadBufferSize : Nat := 120 * 1024 * 1024

def threadMsgBufferSize : Nat := 1000000

def keySize : Nat := 10

inductive PsOp where
  | sendLrGradient | sendMfGradient | getLrFullModel | getMfFullModel | getLrSparseModel
  | getMfSparseModel | setTaskStatus | getTaskStatus | registerTask | getNumConns | getNumUpdates
  | getLastTimeError | killSignal | getValue | setValue | deregisterTask
  deriving DecidableEq, Repr

def PsOp.all : List PsOp :=
  [.sendLrGradient, .sendMfGradient, .getLrFullModel, .getMfFullModel, .getLrSparseModel,
    .getMfSparseModel, .setTaskStatus, .getTaskStatus, .registerTask, .getNumConns, .getNumUpdates,
    .getLastTimeError, .killSignal, .getValue, .setValue, .deregisterTask]

def PsOp.code (op : PsOp) : UInt32 := UInt32.ofNat (all.idxOf op)

/-- A worker thread as a request finds it: what earlier requests left in its two buffers, and the time. -/
structure Worker (B : Type) where
  threadBuffer : List B
  threadMsgBuffer : List B
  now : Int
  sizes : threadBuffer.length = threadBufferSize ∧ threadMsgBuffer.length = threadMsgBufferSize

structure Server (B F : Type) where
  lrModel : SparseLRModel F
  mfModel : MFModel F
  optMethod : OptimizationMethod F
  tasks : TaskRegistry.Registry := {}
  taskToStatus : AList (fun _ : Int32 => Bool) := ∅
  /-- A size and a block of memory for each key. -/
  keyValueMap : AList (fun _ : List B => UInt32 × List B) := ∅
  gradientUpdatesCount : UInt64 := 0
  numConnections : UInt32 := 0
  numUpdates : UInt32 := 0

/-- A worker thread when it starts. The second buffer is not filled; it holds anything. -/
def Worker.fresh (w : Wire B F) : Worker B where
  threadBuffer := List.replicate threadBufferSize w.nul
  threadMsgBuffer := List.replicate threadMsgBufferSize w.nul
  now := 0
  sizes := ⟨List.length_replicate, List.length_replicate⟩

/-- A server when it starts, with zeros for the random weights of its second model. -/
def Server.start [Zero F] (modelSize users items : Nat) (optMethod : OptimizationMethod F)
    (globalBias : F) : Server B F where
  lrModel := SparseLRModel.ofSize modelSize
  mfModel :=
    { nusers := UInt64.ofNat users
      nitems := UInt64.ofNat items
      nfactors := UInt64.ofNat numFactors
      userWeights := List.replicate (users * numFactors) 0
      itemWeights := List.replicate (items * numFactors) 0
      userBias := List.replicate users 0
      itemBias := List.replicate items 0
      globalBias := globalBias }
  optMethod := optMethod

/-- The server after a request, and whether the request's connection is still open. -/
structure Served (B F : Type) where
  server : Server B F
  connected : Bool := true

abbrev Handler (B F : Type) := Worker B → Server B F → Prog B (Served B F)

def handleFailedRead (s : Server B F) : Prog B (Served B F) :=
  pure { server := { s with numConnections := s.numConnections - 1 }, connected := false }

def returns (s : Server B F) : Prog B (Served B F) := pure { server := s }

/-- `read_all` of one value, whose failure is not looked at: the variable keeps its first value. -/
def readOr {α : Type} {size : Nat} (c : Codec B α size) (first : α) : Prog B α := do
  pure ((← readAll size).elim first c.get)

/-- What the buffer holds once the body of a request is read to its start. -/
def overwrite (buffer body : List B) : List B := body ++ buffer.drop body.length

section Handlers
variable (w : Wire B F)

/-- The requests whose body is read into the thread's buffer and decoded from there: its size is
checked against the buffer's, and a body of no bytes is taken for the end of the stream. -/
def bodyRequest {X : Type} (decode : Server B F → Decoder B X)
    (apply : Server B F → X → Prog B (Served B F)) : Handler B F := fun worker s => do
  let some size ← readAll 4 | handleFailedRead s
  let incomingSize := (w.u32.get size).toNat
  if worker.threadBuffer.length < incomingSize then fail (.exception "Not enough buffer") else
  let some body ← readAll incomingSize | returns s
  let (decoded, _) ← compute (decode s (overwrite worker.threadBuffer body))
  apply s decoded

section Body
variable {w} {X : Type} {decode : Server B F → Decoder B X} {apply : Server B F → X → Prog B (Served B F)}
  {worker : Worker B} {s : Server B F} {body rest : List B} {x : X}

theorem bodyRequest_run (positive : 0 < body.length) (fits : body.length ≤ threadBufferSize)
    (decoded : decode s (overwrite worker.threadBuffer body) = .ok (x, rest)) (more : List B) :
    run (bodyRequest w decode apply worker s) (w.u32.put (UInt32.ofNat body.length) ++ (body ++ more)) =
      run (apply s x) more := by
  have small : body.length < 2 ^ 32 := Nat.lt_of_le_of_lt fits (by decide)
  have size : (UInt32.ofNat body.length).toNat = body.length := UInt32.toNat_ofNat_of_lt' small
  rw [bodyRequest, run_read (w.u32.put_length _) (by decide)]
  dsimp only
  rw [w.u32.get_put, size, worker.sizes.1, if_neg (by omega), run_read rfl positive]
  dsimp only
  rw [decoded]
  rfl

theorem bodyRequest_talks {sends : List B} {served : Served B F} (positive : 0 < body.length)
    (fits : body.length ≤ threadBufferSize)
    (decoded : decode s (overwrite worker.threadBuffer body) = .ok (x, rest))
    (next : Talks (apply s x) [] sends served) :
    Talks (bodyRequest w decode apply worker s)
      (w.u32.put (UInt32.ofNat body.length) ++ body) sends served := by
  intro more
  rw [List.append_assoc, bodyRequest_run positive fits decoded]
  exact next more

end Body

def processSendMfGradient [Add F] : Handler B F :=
  bodyRequest w (fun _ => MFSparseGradient.loadSerialized w {}) fun s gradient => do
    let mfModel ← compute (s.mfModel.sgdUpdate gradient)
    returns { s with mfModel := mfModel, gradientUpdatesCount := s.gradientUpdatesCount + 1 }

def processSendLrGradient [Zero F] [One F] [Add F] [Sub F] [Mul F] [Div F] [FloatOps F] :
    Handler B F :=
  bodyRequest w (fun _ => LRSparseGradient.loadSerialized w) fun s gradient => do
    let (optMethod, lrModel) ← compute (s.optMethod.sgdUpdate s.lrModel gradient)
    returns { s with
      optMethod := optMethod
      lrModel := lrModel
      gradientUpdatesCount := s.gradientUpdatesCount + 1 }

def processGetMfSparseModel : Handler B F := fun worker s => do
  let some _ ← readAll 4 | handleFailedRead s
  let kItems ← readOr w.u32 0
  let baseUserId ← readOr w.u32 0
  let minibatchSize ← readOr w.u32 0
  let magicValue ← readOr w.u32 0
  if ¬ 0 < kItems then fail (.assertion "k_items > 0") else
  if ¬ 0 < minibatchSize then fail (.assertion "minibatch_size > 0") else
  if magicValue ≠ magicNumber then fail (.exception "Wrong message") else
  if worker.threadBuffer.length < kItems.toNat * 4 then fail .undefined else
  let itemIds := (← readAll (kItems.toNat * 4)).getD []
  let toSendSize : UInt32 := UInt32.ofNat
    (minibatchSize.toNat * (4 + (numFactors + 1) * 4) + kItems.toNat * (4 + (numFactors + 1) * 4))
  let model ← compute (SparseMFModel.serializeFromDense w s.mfModel baseUserId minibatchSize kItems
    (overwrite worker.threadBuffer itemIds))
  if worker.threadMsgBuffer.length < model.length ∨ worker.threadMsgBuffer.length < toSendSize.toNat then
    fail .undefined
  else
  sendAll (w.u32.put toSendSize)
  sendAll ((overwrite worker.threadMsgBuffer model).take toSendSize.toNat)
  returns s

def dataToSendSize : Nat := 1024 * 1024

/-- One turn of the loop: turn `i` stores its weight at cell `i` of `data_to_send`. -/
def loadEntry [Add F] [Mul F] (s : Server B F) (i : Nat) : Decoder B F := do
  let entryIndex ← w.u32.load
  let weight ← lift (s.lrModel.getNthWeight entryIndex.toNat)
  check ((i + 1) * 4 ≤ dataToSendSize) .undefined
  pure (s.optMethod.editWeight weight)

def sparseWeights [Add F] [Mul F] (s : Server B F) : Decoder B (List F) := do
  let numEntries ← w.u32.load
  let toSendSize : UInt32 := UInt32.ofNat (numEntries.toNat * 4)
  check (toSendSize.toNat < 1024 * 1024) (.assertion "to_send_size < 1024 * 1024")
  rounds (loadEntry w s) 0 numEntries.toNat

def processGetLrSparseModel [Add F] [Mul F] : Handler B F :=
  bodyRequest w (fun s => sparseWeights w s) fun s weights => do
    sendAll (weights.flatMap w.feature.put)
    returns s

def processGetMfFullModel : Handler B F := fun worker s => do
  let modelSize : UInt32 := UInt32.ofNat s.mfModel.getSerializedSize
  if worker.threadBuffer.length < modelSize.toNat then fail (.exception "Thread buffer too small") else
  let model := s.mfModel.serializeTo w
  if worker.threadBuffer.length < model.length then fail .undefined else
  sendAll (w.u32.put modelSize)
  sendAll ((overwrite worker.threadBuffer model).take modelSize.toNat)
  returns s

def processGetLrFullModel : Handler B F := fun worker s => do
  let modelSize : UInt32 := UInt32.ofNat s.lrModel.getSerializedSize
  if worker.threadBuffer.length < modelSize.toNat then
    fail (.exception
      ("buffer with size " ++ toString worker.threadBuffer.length ++ "too small: " ++ toString modelSize))
  else
  let model := s.lrModel.serializeTo w
  if worker.threadBuffer.length < model.length then fail .undefined else
  sendAll ((overwrite worker.threadBuffer model).take modelSize.toNat)
  returns s

def twoWords (data : List B) : UInt32 × UInt32 := (w.u32.get (data.take 4), w.u32.get (data.drop 4))

theorem twoWords_put (first second : UInt32) :
    twoWords w (w.u32.put first ++ w.u32.put second) = (first, second) := by
  unfold twoWords
  rw [List.take_left' (w.u32.put_length first), List.drop_left' (w.u32.put_length first),
    w.u32.get_put, w.u32.get_put]

def processSetTaskStatus : Handler B F := fun _ s => do
  let some data ← readAll (4 * 2) | handleFailedRead s
  let (id, status) := twoWords w data
  returns { s with taskToStatus := s.taskToStatus.insert id.toInt32 (status ≠ 0) }

def processGetTaskStatus : Handler B F := fun _ s => do
  let some data ← readAll 4 | returns s
  let taskId := w.u32.get data
  if ¬ taskId.toNat < 10000 then fail (.assertion "task_id < 10000") else
  let status : UInt32 := if s.taskToStatus.lookup taskId.toInt32 = some true then 1 else 0
  sendAll (w.u32.put status)
  returns s

theorem processSetTaskStatus_talks (worker : Worker B) (s : Server B F) (id status : UInt32) :
    Talks (processSetTaskStatus w worker s) (w.u32.put id ++ w.u32.put status) []
      { server := { s with taskToStatus := s.taskToStatus.insert id.toInt32 (status ≠ 0) } } := by
  apply Talks.read_last (by simp) (by decide)
  dsimp only
  rw [twoWords_put]
  exact .pure _

theorem processGetTaskStatus_talks (worker : Worker B) (s : Server B F) {taskId : UInt32}
    (small : taskId.toNat < 10000) :
    Talks (processGetTaskStatus w worker s) (w.u32.put taskId)
      (w.u32.put (if s.taskToStatus.lookup taskId.toInt32 = some true then 1 else 0)) { server := s } := by
  apply Talks.read_last (w.u32.put_length _) (by decide)
  dsimp only
  rw [w.u32.get_put, if_neg (not_not_intro small)]
  exact .say_last _ (.pure _)

def processGetNumUpdates : Handler B F := fun _ s => do
  sendAll (w.u32.put s.numUpdates)
  returns s

def processGetNumConns : Handler B F := fun _ s => do
  sendAll (w.u32.put s.numConnections)
  returns s

def processRegisterTask : Handler B F := fun worker s => do
  let some data ← readAll (4 * 2) | handleFailedRead s
  let (taskId, remainingTime) := twoWords w data
  let (tasks, taskReg) := TaskRegistry.processRegisterTask s.tasks taskId remainingTime worker.now true
  sendAll (w.u32.put taskReg)
  returns { s with tasks := tasks }

theorem processRegisterTask_talks (worker : Worker B) (s : Server B F) (taskId remainingTime : UInt32) :
    Talks (processRegisterTask w worker s) (w.u32.put taskId ++ w.u32.put remainingTime)
      (w.u32.put (TaskRegistry.processRegisterTask s.tasks taskId remainingTime worker.now true).2)
      { server := { s with
          tasks := (TaskRegistry.processRegisterTask s.tasks taskId remainingTime worker.now true).1 } } := by
  apply Talks.read_last (by simp) (by decide)
  dsimp only
  rw [twoWords_put]
  exact Talks.say_last _ (.pure _)

def processDeregisterTask : Handler B F := fun _ s => do
  let some data ← readAll 4 | handleFailedRead s
  let (tasks, ret) := TaskRegistry.processDeregisterTask s.tasks (w.u32.get data)
  sendAll (w.u32.put ret)
  returns { s with tasks := tasks }

theorem processDeregisterTask_talks (worker : Worker B) (s : Server B F) (taskId : UInt32) :
    Talks (processDeregisterTask w worker s) (w.u32.put taskId)
      (w.u32.put (TaskRegistry.processDeregisterTask s.tasks taskId).2)
      { server := { s with tasks := (TaskRegistry.processDeregisterTask s.tasks taskId).1 } } := by
  apply Talks.read_last (w.u32.put_length _) (by decide)
  dsimp only
  rw [w.u32.get_put]
  exact Talks.say_last _ (.pure _)

section Values
variable [DecidableEq B]

/-- `std::string` of a C string: the bytes before the first 0. -/
def cString (bytes : List B) : List B := bytes.takeWhile (· ≠ w.nul)

def processGetValue : Handler B F := fun _ s => do
  let some key ← readAll keySize | handleFailedRead s
  -- the array is one byte longer than a key
  match s.keyValueMap.lookup (cString w (key ++ [w.nul])) with
  | none =>
    sendAll ((w.u32.put 0).take 1)
    returns s
  | some (valueSize, value) =>
    sendAll (w.u32.put valueSize)
    sendAll value
    returns s

def processSetValue : Handler B F := fun _ s => do
  let some key ← readAll keySize | handleFailedRead s
  let some size ← readAll 4 | handleFailedRead s
  let valueSize := w.u32.get size
  let some value ← readAll valueSize.toNat | handleFailedRead s
  -- two bytes of padding, which are 0, lie between the key and the size
  let name := cString w (key ++ [w.nul, w.nul])
  returns { s with keyValueMap := s.keyValueMap.insert name (valueSize, value) }

end Values

variable [Zero F] [One F] [Add F] [Sub F] [Mul F] [Div F] [FloatOps F] [DecidableEq B]

def operationToF : PsOp → Option (Handler B F)
  | .sendLrGradient => some (processSendLrGradient w)
  | .sendMfGradient => some (processSendMfGradient w)
  | .getLrSparseModel => some (processGetLrSparseModel w)
  | .getMfSparseModel => some (processGetMfSparseModel w)
  | .getMfFullModel => some (processGetMfFullModel w)
  | .getLrFullModel => some (processGetLrFullModel w)
  | .setTaskStatus => some (processSetTaskStatus w)
  | .getTaskStatus => some (processGetTaskStatus w)
  | .getNumConns => some (processGetNumConns w)
  | .getNumUpdates => some (processGetNumUpdates w)
  | .registerTask => some (processRegisterTask w)
  | .deregisterTask => some (processDeregisterTask w)
  | .setValue => some (processSetValue w)
  | .getValue => some (processGetValue w)
  | .getLastTimeError => none
  | .killSignal => none

/-- The handler that is looked up for an operation as it was read. -/
def handlerOf (operation : UInt32) : Option (Handler B F) :=
  (PsOp.all.find? fun op => op.code = operation).bind (operationToF w)

/-- One turn of the loop of a worker thread, from the operation on. No handler is registered for
`KILL_SIGNAL`, so the branch that compares the operation with it is never reached. -/
def gradientF : Handler B F := fun worker s => do
  let some operation ← readAll 4 | handleFailedRead s
  match handlerOf w (w.u32.get operation) with
  | none => fail (.exception "Unknown operation")
  | some handler => handler worker s

theorem handlerOf_code (op : PsOp) : handlerOf w op.code = operationToF w op := by
  have found : PsOp.all.find? (fun other => other.code = op.code) = some op := by
    cases op <;> decide
  rw [handlerOf, found]
  rfl

variable {w}

theorem gradientF_run (worker : Worker B) (s : Server B F) {op : PsOp} {handler : Handler B F}
    (here : operationToF w op = some handler) (rest : List B) :
    run (gradientF w worker s) (w.u32.put op.code ++ rest) = run (handler worker s) rest := by
  rw [gradientF, run_read (w.u32.put_length _) (by decide)]
  dsimp only
  rw [w.u32.get_put, handlerOf_code, here]

theorem gradientF_read (worker : Worker B) (s : Server B F) {op : PsOp} {handler : Handler B F}
    {takes sends : List B} {served : Served B F} (here : operationToF w op = some handler)
    (talks : Talks (handler worker s) takes sends served) :
    Talks (gradientF w worker s) (w.u32.put op.code ++ takes) sends served := by
  intro rest
  rw [List.append_assoc, gradientF_run worker s here]
  exact talks rest

end Handlers
end ServerTask

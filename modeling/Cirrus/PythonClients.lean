import Cirrus.ServerTask

/-!
The requests the Python frontend sends, to a parameter server and to the error
port of an error task, and the replies it unpacks. The Python side is written
in its own terms: the bytes of its constants, and the formats of `struct`.
-/
namespace PythonClients
open Gradients SparseLR MF Stream Stream.Prog ServerTask TaskRegistry
variable {F : Type}

section Python

/-- `"I"` and `"d"` of `struct`, in native size. A double is its bits. -/
inductive Format
  | I
  | d

inductive Value
  | uint (value : UInt32)
  | double (bits : UInt64)
  deriving DecidableEq

def Format.size : Format → Nat
  | .I => 4
  | .d => 8

def Format.unpack : Format → List UInt8 → Value
  | .I, data => .uint (UInt32.ofNat (Codec.ofDigits data))
  | .d, data => .double (UInt64.ofNat (Codec.ofDigits data))

def unpackFields : List Format → List UInt8 → List Value
  | [], _ => []
  | f :: rest, data => f.unpack (data.take f.size) :: unpackFields rest (data.drop f.size)

/-- `struct.unpack`, which refuses data of another length than the format's. -/
def unpack (formats : List Format) (data : List UInt8) : Option (List Value) :=
  if data.length = (formats.map Format.size).sum then some (unpackFields formats data) else none

def packI (value : UInt32) : List UInt8 := Codec.digits 4 value.toNat

inductive Request
  | register (taskId timeLeftSecs : UInt32)
  | deregister (taskId : UInt32)
  | getNumLambdas
  | getNumUpdates
  | getLastTimeError
  | sendKillSignal
  deriving DecidableEq

def message : Request → List UInt8
  | .register taskId timeLeftSecs => [8, 0, 0, 0] ++ (packI taskId ++ packI timeLeftSecs)
  | .deregister taskId => [15, 0, 0, 0] ++ packI taskId
  | .getNumLambdas => [9, 0, 0, 0]
  | .getNumUpdates => [10, 0, 0, 0]
  | .getLastTimeError => [11, 0, 0, 0]
  | .sendKillSignal => [12, 0, 0, 0]

/-- What the client unpacks of the reply. It waits for no reply to a kill signal. -/
def unpackReply : Request → List UInt8 → Option (List Value)
  | .getLastTimeError, reply => unpack [.d, .d, .d, .d] reply
  | .sendKillSignal, _ => some []
  | _, reply => unpack [.I] reply

end Python

section Receivers
variable (feature : Codec UInt8 F 4)

def wire : Wire UInt8 F where
  u32 := Wire.littleEndian.u32
  u64 := Wire.littleEndian.u64
  feature := feature
  nul := 0

structure ErrorTask where
  lastTime : UInt64
  lastError : UInt64
  currError : UInt64

structure System (F : Type) where
  server : Server UInt8 F
  killSignal : Bool := false
  errorTask : ErrorTask

/-- One turn of `error_response`: the datagram overwrites the front of `operation`. -/
def errorResponse (task : ErrorTask) (operation : UInt32) (datagram : List UInt8) :
    UInt32 × Option (List UInt8) :=
  let operation := (wire feature).u32.get
    (datagram.take 4 ++ ((wire feature).u32.put operation).drop datagram.length)
  if operation = PsOp.getLastTimeError.code then
    (operation, some ([task.lastTime, task.lastError, task.currError].flatMap (wire feature).u64.put))
  else (operation, none)

section Reply
variable {feature}

theorem unpack_word (value : UInt32) : unpack [.I] ((wire feature).u32.put value) = some [.uint value] := by
  have size : ((wire feature).u32.put value).length = 4 := (wire feature).u32.put_length value
  have back : UInt32.ofNat (Codec.ofDigits ((wire feature).u32.put value)) = value := (wire feature).u32.get_put value
  unfold unpack unpackFields
  rw [if_pos (by simp [Format.size]), Format.size, List.take_of_length_le (by omega), Format.unpack, back]
  rfl

theorem errorResponse_length {task : ErrorTask} {operation last : UInt32} {datagram reply : List UInt8}
    (answers : errorResponse feature task last datagram = (operation, some reply)) : reply.length = 24 := by
  unfold errorResponse at answers
  dsimp only at answers
  split at answers
  · rw [← Option.some.inj (congrArg Prod.snd answers)]
    simp
  · cases congrArg Prod.snd answers

end Reply

inductive Turn (F : Type)
  | served (served : Served UInt8 F)
  | killed

variable [Zero F] [One F] [Add F] [Sub F] [Mul F] [Div F] [FloatOps F]

/-- A turn of `gradient_f` with both of its tests of the operation. -/
def turn (worker : Worker UInt8) (s : Server UInt8 F) : Prog UInt8 (Turn F) := do
  let some operation ← readAll 4 | (do return .served (← handleFailedRead s))
  match handlerOf (wire feature) ((wire feature).u32.get operation) with
  | none => fail (.exception "Unknown operation")
  | some handler =>
    if (wire feature).u32.get operation = PsOp.killSignal.code then pure .killed
    else return .served (← handler worker s)

/-- No handler is registered for `KILL_SIGNAL`, so the test that compares the operation with it never succeeds. -/
theorem turn_eq_gradientF (worker : Worker UInt8) (s : Server UInt8 F) :
    turn feature worker s = (do return .served (← gradientF (wire feature) worker s)) := by
  refine congrArg (Prog.recv 4) (funext ?_)
  intro cells
  cases cells with
  | none => rfl
  | some operation =>
    simp only [Prog.bind]
    cases known : handlerOf (wire feature) ((wire feature).u32.get operation) with
    | none => rfl
    | some handler =>
      have other : (wire feature).u32.get operation ≠ PsOp.killSignal.code := by
        intro kill
        rw [kill, handlerOf_code] at known
        cases known
      simp only [if_neg other]
      rfl

section Talk
variable {feature}

theorem turn_talks {worker : Worker UInt8} {s : Server UInt8 F} {op : PsOp} {handler : Handler UInt8 F}
    (known : operationToF (wire feature) op = some handler) {takes sends : List UInt8} {served : Served UInt8 F}
    (talks : Talks (handler worker s) takes sends served) :
    Talks (turn feature worker s) ((wire feature).u32.put op.code ++ takes) sends (.served served) := by
  rw [turn_eq_gradientF]
  have whole := (gradientF_read worker s known talks).bind
    (f := fun served => pure (Turn.served served)) (Talks.pure (Turn.served served))
  rwa [List.append_nil, List.append_nil] at whole

theorem turn_refuses {worker : Worker UInt8} {s : Server UInt8 F} {op : PsOp}
    (unknown : operationToF (wire feature) op = none) {sends : List UInt8} {ended : Turn F} :
    ¬ Talks (turn feature worker s) ((wire feature).u32.put op.code) sends ended := by
  intro talks
  have ran := talks []
  rw [turn, run_read ((wire feature).u32.put_length _) (by decide)] at ran
  dsimp only at ran
  rw [(wire feature).u32.get_put, handlerOf_code, unknown] at ran
  cases congrArg Progress.result ran

end Talk

/-- How a receiver takes a request: what the system is afterwards, and the reply it has sent. -/
inductive Receives (worker : Worker UInt8) (sys : System F) : Request → System F → List UInt8 → Prop where
  | server {request : Request} {served : Served UInt8 F} {reply : List UInt8} (tcp : request ≠ .getLastTimeError)
      (talks : Talks (turn feature worker sys.server) (message request) reply (.served served)) :
      Receives worker sys request { sys with server := served.server } reply
  | killed {request : Request} {reply : List UInt8} (tcp : request ≠ .getLastTimeError)
      (talks : Talks (turn feature worker sys.server) (message request) reply .killed) :
      Receives worker sys request { sys with killSignal := true } reply
  | errorPort {operation last : UInt32} {reply : List UInt8}
      (answers : errorResponse feature sys.errorTask last (message .getLastTimeError) = (operation, some reply)) :
      Receives worker sys .getLastTimeError sys reply

/-- What a request's name announces: the values the client is to get, and what the request does. -/
def Announced (now : Int) (sys : System F) : Request → List Value → System F → Prop
  | .register taskId timeLeftSecs, values, after =>
    values = [.uint (if life sys.server.tasks taskId = .unseen then 0 else 1)] ∧
      life after.server.tasks taskId =
        if life sys.server.tasks taskId = .unseen then .running timeLeftSecs.toNat now
        else life sys.server.tasks taskId
  | .deregister taskId, values, after =>
    values = [.uint (match life sys.server.tasks taskId with
      | .running _ _ => 0
      | .ended => 1
      | .unseen => 2)] ∧ ∀ remaining start, life after.server.tasks taskId ≠ .running remaining start
  | .getNumLambdas, values, after => values = [.uint sys.server.numConnections] ∧ after = sys
  | .getNumUpdates, values, after => values = [.uint sys.server.numUpdates] ∧ after = sys
  | .getLastTimeError, values, after =>
    values = [.double sys.errorTask.lastTime, .double sys.errorTask.lastError, .double sys.errorTask.currError] ∧
      after = sys
  | .sendKillSignal, _, after => after.killSignal = true

def Understood (worker : Worker UInt8) (sys : System F) (request : Request) : Prop :=
  ∃ after reply values, Receives feature worker sys request after reply ∧
    unpackReply request reply = some values ∧ Announced worker.now sys request values after

section Understanding
variable {feature} {worker : Worker UInt8} {sys : System F}

theorem understood_word {request : Request} (op : PsOp) {handler : Handler UInt8 F} (takes : List UInt8)
    {value : UInt32} {served : Served UInt8 F} (tcp : request ≠ .getLastTimeError)
    (reads : unpackReply request = unpack [.I])
    (asks : message request = (wire feature).u32.put op.code ++ takes)
    (known : operationToF (wire feature) op = some handler)
    (talks : Talks (handler worker sys.server) takes ((wire feature).u32.put value) served)
    (announced : Announced worker.now sys request [.uint value] { sys with server := served.server }) :
    Understood feature worker sys request := by
  have whole := turn_talks known talks
  rw [← asks] at whole
  exact ⟨_, _, _, .server tcp whole, reads ▸ unpack_word value, announced⟩

theorem understood_getNumLambdas : Understood feature worker sys .getNumLambdas :=
  understood_word .getNumConns [] (by decide) rfl rfl rfl
    (Talks.say_last (f := fun _ => returns sys.server) _ (.pure _)) ⟨rfl, rfl⟩

theorem understood_getNumUpdates : Understood feature worker sys .getNumUpdates :=
  understood_word .getNumUpdates [] (by decide) rfl rfl rfl
    (Talks.say_last (f := fun _ => returns sys.server) _ (.pure _)) ⟨rfl, rfl⟩

theorem understood_register (taskId timeLeftSecs : UInt32) :
    Understood feature worker sys (.register taskId timeLeftSecs) := by
  have announced : Announced worker.now sys (.register taskId timeLeftSecs)
      [.uint (TaskRegistry.processRegisterTask sys.server.tasks taskId timeLeftSecs worker.now true).2]
      { sys with server := { sys.server with
          tasks := (TaskRegistry.processRegisterTask sys.server.tasks taskId timeLeftSecs worker.now true).1 } } := by
    have reply := step_reply sys.server.tasks (.register taskId timeLeftSecs worker.now true) taskId
      (by simp [Op.asks, Op.registers])
    have after := step_life sys.server.tasks (.register taskId timeLeftSecs worker.now true) taskId
    simp only [step, Life.step, if_true] at reply after
    cases before : life sys.server.tasks taskId <;> simp_all [Announced]
  exact understood_word .registerTask _ (by simp) rfl rfl rfl
    (processRegisterTask_talks (wire feature) worker sys.server taskId timeLeftSecs) announced

theorem understood_deregister (taskId : UInt32) : Understood feature worker sys (.deregister taskId) := by
  have announced : Announced worker.now sys (.deregister taskId)
      [.uint (TaskRegistry.processDeregisterTask sys.server.tasks taskId).2]
      { sys with server := { sys.server with
          tasks := (TaskRegistry.processDeregisterTask sys.server.tasks taskId).1 } } := by
    have reply := step_reply sys.server.tasks (.deregister taskId) taskId (by simp [Op.asks, Op.deregisters])
    have after := step_life sys.server.tasks (.deregister taskId) taskId
    simp only [step, Life.step, if_true] at reply after
    cases before : life sys.server.tasks taskId <;> simp_all [Announced]
  exact understood_word .deregisterTask _ (by simp) rfl rfl rfl
    (processDeregisterTask_talks (wire feature) worker sys.server taskId) announced

/-- The error port sends three doubles, where the client unpacks four. -/
theorem getLastTimeError_misread : ¬ Understood feature worker sys .getLastTimeError := by
  rintro ⟨after, reply, values, received, read, _⟩
  cases received with
  | server tcp => exact tcp rfl
  | killed tcp => exact tcp rfl
  | errorPort answers =>
    have size := errorResponse_length answers
    simp [unpackReply, unpack, Format.size, size] at read

theorem sendKillSignal_refused : ¬ Understood feature worker sys .sendKillSignal := by
  rintro ⟨after, reply, values, received, _, _⟩
  have bytes : message .sendKillSignal = (wire feature).u32.put PsOp.killSignal.code := rfl
  cases received with
  | server _ talks => exact turn_refuses rfl (bytes ▸ talks)
  | killed _ talks => exact turn_refuses rfl (bytes ▸ talks)

/-- Of the requests of the frontend, the servers understand all but two. -/
theorem requests_understood_iff (feature : Codec UInt8 F 4) (worker : Worker UInt8) (sys : System F)
    (request : Request) : Understood feature worker sys request ↔
      request ≠ .getLastTimeError ∧ request ≠ .sendKillSignal := by
  constructor
  · intro understood
    constructor
    · rintro rfl
      exact getLastTimeError_misread understood
    · rintro rfl
      exact sendKillSignal_refused understood
  · rintro ⟨known, dispatched⟩
    cases request with
    | register taskId timeLeftSecs => exact understood_register taskId timeLeftSecs
    | deregister taskId => exact understood_deregister taskId
    | getNumLambdas => exact understood_getNumLambdas
    | getNumUpdates => exact understood_getNumUpdates
    | getLastTimeError => exact absurd rfl known
    | sendKillSignal => exact absurd rfl dispatched

end Understanding

def startedSystem : System UInt32 where
  server := Server.start 1 0 0 (.sgd 0) 0
  errorTask := { lastTime := 0, lastError := 0, currError := 0 }

theorem kill_and_error_requests_fail :
    ¬ Understood Wire.littleEndian.feature (Worker.fresh Wire.littleEndian) startedSystem .sendKillSignal ∧
      ¬ Understood Wire.littleEndian.feature (Worker.fresh Wire.littleEndian) startedSystem .getLastTimeError :=
  ⟨sendKillSignal_refused, getLastTimeError_misread⟩

end Receivers

end PythonClients

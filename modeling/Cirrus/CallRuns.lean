import Cirrus.Calls
import Cirrus.Exact

/-!
Whole runs of a client that makes its calls one after the other over one
connection. The bytes of the connection come in pieces of any size, and the
server handles requests of other connections in between.
-/
namespace Calls
open Gradients SparseLR MF ServerTask ServerInterface Session Stream Stream.Prog
variable {B F : Type}

/-- What the handling of a request depends on besides: the worker thread that it comes to, and
what the requests of other connections have made of the server since the last request of this one. -/
structure Pick (B F : Type) (shape : Shape) where
  worker : Worker B
  meanwhile : Server B F → Server B F
  keeps : ∀ s, HasShape shape s → HasShape shape (meanwhile s)

section Runs
variable [DecidableEq B] [Zero F] [One F] [Add F] [Sub F] [Mul F] [Div F] [FloatOps F] [OfScientific F]

def service (w : Wire B F) (shape : Shape) :
    Session.Service B (Call F) (Returned F) (Served B F) (Pick B F shape) where
  ask := ask w
  serve pick s := gradientF w pick.worker (pick.meanwhile s.server)

def contract (w : Wire B F) (shape : Shape) : Session.Contract (service w shape) where
  accepts s c := HasShape shape s.server ∧ Allowed shape c ∧ Inside shape c
  message := message w
  reply pick s c := reply w pick.worker (pick.meanwhile s.server) c
  value pick s c := value pick.worker (pick.meanwhile s.server) c
  next pick s c := { server := next pick.worker (pick.meanwhile s.server) c }
  some_message := some_message w
  speaks_first := speaks_first w
  asks := by
    intro s c pick ⟨shaped, allowed, inside⟩
    exact asks w pick.worker (pick.keeps _ shaped) allowed inside
  serves := by
    intro s c pick ⟨shaped, allowed, inside⟩
    exact serves w pick.worker (pick.keeps _ shaped) allowed inside

variable {w : Wire B F} {shape : Shape} {picks : Nat → Pick B F shape} {start : Server B F} {calls : List (Call F)}

theorem after_shaped (shaped : HasShape shape start) (each : ∀ c ∈ calls, Allowed shape c ∧ Inside shape c) (n : Nat) :
    HasShape shape ((contract w shape).after picks { server := start } calls n).server := by
  induction n with
  | zero => exact shaped
  | succ n ih =>
    cases here : calls[n]? with
    | none =>
      rw [Contract.after, here]
      exact ih
    | some c =>
      obtain ⟨allowed, inside⟩ := each c (List.mem_of_getElem? here)
      rw [after_succ here]
      exact next_shaped _ ((picks n).keeps _ ih) allowed inside

theorem accepted (shaped : HasShape shape start) (each : ∀ c ∈ calls, Allowed shape c ∧ Inside shape c) :
    (contract w shape).Accepted picks { server := start } calls := by
  intro h member
  obtain ⟨k, bound, rfl⟩ := List.mem_mapIdx.mp member
  exact ⟨after_shaped shaped each k, each _ (List.getElem_mem bound)⟩

/-- The two ends of a connection are in step: the server has taken the messages of the requests it
has handled, the client has taken the replies to the calls that have returned, each call has returned
the value that belongs to the state its request met, and there is always a next step. -/
structure Framed (w : Wire B F) (picks : Nat → Pick B F shape) (start : Server B F) (calls : List (Call F))
    (t : Session.State B (Returned F) (Served B F)) : Prop where
  takenUp : t.serving = none → t.takenUp = (calls.take t.handled).flatMap (message w)
  takenDown : t.asking = none →
    t.takenDown = (contract w shape).replies picks { server := start } calls t.returned.length
  returned : t.returned = (contract w shape).values picks { server := start } calls t.returned.length
  server : t.server = (contract w shape).after picks { server := start } calls t.handled
  goesOn : ¬ (t.returned.length = calls.length ∧ t.asking = none ∧ t.handled = calls.length ∧ t.serving = none) →
    ∃ t', Step (service w shape) picks calls t t'

/-- Calls that stay inside the vectors and arrays of both ends keep the connection in step, however
its bytes are split and whatever requests of other connections come between. -/
theorem calls_framed (w : Wire B F) (shape : Shape) (picks : Nat → Pick B F shape) (start : Server B F)
    (shaped : HasShape shape start) (calls : List (Call F)) (each : ∀ c ∈ calls, Allowed shape c ∧ Inside shape c)
    (t : Session.State B (Returned F) (Served B F))
    (run : Relation.ReflTransGen (Step (service w shape) picks calls) { server := { server := start } } t) :
    Framed w picks start calls t := by
  have ok : (contract w shape).Accepted picks { server := start } calls := accepted shaped each
  have inv := inStep_of_run ok run
  constructor
  · intro idle
    rw [(inv.between idle).1]
    exact messages_eq ..
  · intro idle
    exact (inv.idle idle).1
  · exact inv.values
  · exact inv.server
  · exact inv.not_stuck

end Runs

section Examples
open Exact

def alone (shape : Shape) : Nat → Pick ℚ ℚ shape := fun _ =>
  { worker := .fresh wire
    meanwhile := id
    keeps := fun _ shaped => shaped }

def oneByOne : Shape := ⟨1, 1, 1⟩

theorem oneItem_shaped : HasShape oneByOne (MFReply.oneItem 1) where
  lrModel := ⟨rfl, rfl⟩
  mfModel := MFReply.oneItem_formed (by decide)
  users := rfl
  items := rfl

def threeCalls : List (Call ℚ) := [.registerTask 1 5, .sendLrGradient { weights := [(0, 1)] }, .getFullModel false]

theorem threeCalls_each : ∀ c ∈ threeCalls, Allowed oneByOne c ∧ Inside oneByOne c := by
  refine List.forall_mem_cons.mpr ⟨⟨trivial, trivial⟩, ?_⟩
  refine List.forall_mem_cons.mpr ⟨⟨⟨by decide, by decide⟩, List.forall_mem_singleton.mpr (by decide)⟩, ?_⟩
  exact List.forall_mem_singleton.mpr ⟨⟨by decide, by decide⟩, trivial⟩

theorem calls_framed_three : Framed wire (alone oneByOne) (MFReply.oneItem 1) threeCalls
    ((contract wire oneByOne).over (alone oneByOne) { server := MFReply.oneItem 1 } threeCalls 3) :=
  calls_framed wire oneByOne (alone oneByOne) (MFReply.oneItem 1) oneItem_shaped threeCalls threeCalls_each _
    (plays (accepted oneItem_shaped threeCalls_each) (by decide))

def outside : LRSparseGradient ℚ := { weights := [(1, 1)] }

theorem outside_served (worker : Worker ℚ) : run (gradientF wire worker (MFReply.oneItem 1)) (lrMessage wire outside) =
    { result := some (.error .undefined), unread := [], sent := [] } := by
  have decoded : LRSparseGradient.loadSerialized wire (overwrite worker.threadBuffer (outside.serialize wire)) =
      .ok (outside.received, worker.threadBuffer.drop (outside.serialize wire).length) :=
    outside.loadSerialized_serialize wire (by decide) (by decide) _
  have length := outside.serialize_length wire
  have positive : 0 < (outside.serialize wire).length := by
    rw [length]
    decide
  have fits : (outside.serialize wire).length ≤ threadBufferSize := by
    rw [length]
    decide
  have handled : run (processSendLrGradient wire worker (MFReply.oneItem 1))
      (wire.u32.put (UInt32.ofNat (outside.serialize wire).length) ++ (outside.serialize wire ++ [])) =
        { result := some (.error .undefined), unread := [], sent := [] } := by
    unfold processSendLrGradient
    rw [bodyRequest_run positive fits]
    rotate_left
    · exact decoded
    · rfl
  rw [List.append_nil, length] at handled
  rw [lrMessage, gradientF_run _ _ rfl]
  exact handled

theorem outside_stuck : ¬ ∀ (shape : Shape) (picks : Nat → Pick ℚ ℚ shape) (start : Server ℚ ℚ) (calls : List (Call ℚ))
    (t : Session.State ℚ (Returned ℚ) (Served ℚ ℚ)), HasShape shape start → (∀ c ∈ calls, Allowed shape c) →
    Relation.ReflTransGen (Step (service wire shape) picks calls) { server := { server := start } } t →
    Framed wire picks start calls t := by
  intro always
  have sends := Talks.map (fun _ => (Returned.nothing : Returned ℚ)) (sendLrGradient_asks wire outside (by decide))
  obtain ⟨_, same, moves⟩ := moves_of_run (sends [])
  obtain ⟨taken, all, moves'⟩ := moves_of_run (outside_served (.fresh wire))
  rw [List.append_nil, List.append_nil] at same
  rw [List.append_nil] at all
  subst same all
  have framed := always oneByOne (alone oneByOne) (MFReply.oneItem 1) [.sendLrGradient outside] _ oneItem_shaped
    (List.forall_mem_singleton.mpr ⟨by decide, by decide⟩)
    (.head (.call rfl rfl) (.trans (client_moves moves rfl rfl) (.head (.back rfl rfl)
      (.head (.request rfl (some_message wire (.sendLrGradient outside)))
        (worker_moves moves' rfl (List.append_nil _).symm)))))
  obtain ⟨_, step⟩ := framed.goesOn nofun
  cases step with
  | call idle here => cases here
  | client busy => cases busy
  | back busy => cases busy
  | request idle => cases idle
  | worker busy moved =>
    cases busy
    cases moved
  | finish busy ended =>
    cases busy
    cases ended

end Examples
end Calls

import Cirrus.Lib.Transition
import Cirrus.TaskRegistry
import Mathlib.Algebra.GroupWithZero.Nat

/-!
The invocations of `handler.run` for one task id, and the parameter server they
register with. An exchange with the server is a request that is in flight, is
handled at any later time, and is answered; the client may stop waiting for the
answer before or after the request is handled.
-/
namespace Handler
open TaskRegistry Transition

/-- The three calls an invocation can make: `register`, the `deregister` at the
end of the `try` block, and the `deregister` of the `except` clause. -/
inductive Kind
  | register
  | deregister
  | cleanup
  deriving DecidableEq

inductive Call
  | unsent
  | inFlight
  | handled (reply : UInt32)
  deriving DecidableEq

inductive Place
  | registering
  | awaitingRegister
  /-- Another invocation has won; this one has returned. -/
  | declined
  | writing
  | starting
  /-- Relaying the worker's output, then polling for its exit. -/
  | running
  | deregistering
  | awaitingDeregister
  /-- In the `except` clause. -/
  | failed
  | awaitingCleanup
  | ended
  deriving DecidableEq

/-- `won` is whether `register` has returned success, `working` whether the worker
process runs, which it may do after the invocation has left off waiting for it. -/
structure Invocation where
  place : Place := .registering
  call : Kind → Call := fun _ => .unsent
  timeLeftSecs : UInt32 := 0
  won : Bool := false
  working : Bool := false

inductive Event
  | connectFails
  | sends (timeLeftSecs : UInt32)
  | timesOut
  | receives
  | writes
  | writeFails
  | starts
  | startFails
  | ends
  /-- The invocation has read all of the output and learns the exit code. -/
  | exits (code : Int)
  /-- An exception while the output is relayed or the exit is polled for. -/
  | relayFails
  deriving DecidableEq

namespace Invocation

def goes (v : Invocation) (place : Place) : Invocation := { v with place }

def send (v : Invocation) (kind : Kind) (place : Place) : Invocation :=
  { v with call := Function.update v.call kind .inFlight, place }

def answered (v : Invocation) (kind : Kind) (reply : UInt32) : Invocation :=
  { v with call := Function.update v.call kind (.handled reply) }

def registered (v : Invocation) (reply : UInt32) : Invocation :=
  if reply = 0 then { v with won := true, place := .writing } else v.goes .declined

/-- One event of `handler.run`. An exception in the `try` block leads to the
`except` clause, whoever raised it; one in the `except` clause ends the run. -/
def act (v : Invocation) : Event → Option Invocation
  | .connectFails => match v.place with
    | .registering | .deregistering => some (v.goes .failed)
    | .failed => some (v.goes .ended)
    | _ => none
  | .sends timeLeftSecs => match v.place with
    | .registering => some { v.send .register .awaitingRegister with timeLeftSecs }
    | .deregistering => some (v.send .deregister .awaitingDeregister)
    | .failed => some (v.send .cleanup .awaitingCleanup)
    | _ => none
  | .timesOut => match v.place with
    | .awaitingRegister | .awaitingDeregister => some (v.goes .failed)
    | .awaitingCleanup => some (v.goes .ended)
    | _ => none
  | .receives => match v.place, v.call .register, v.call .deregister, v.call .cleanup with
    | .awaitingRegister, .handled reply, _, _ => some (v.registered reply)
    | .awaitingDeregister, _, .handled _, _ => some (v.goes .ended)
    | .awaitingCleanup, _, _, .handled _ => some (v.goes .ended)
    | _, _, _, _ => none
  | .writes => if v.place = .writing then some (v.goes .starting) else none
  | .writeFails => if v.place = .writing then some (v.goes .failed) else none
  | .starts => if v.place = .starting then some { v.goes .running with working := true } else none
  | .startFails => if v.place = .starting then some (v.goes .failed) else none
  | .ends => if v.working then some { v with working := false } else none
  | .exits code =>
    if v.place = .running ∧ v.working = false then
      some (v.goes (if code = 0 then .deregistering else .failed))
    else none
  | .relayFails => if v.place = .running then some (v.goes .failed) else none

end Invocation

structure Sys (I : Type) where
  registry : Registry
  invocation : I → Invocation := fun _ => {}

inductive Label (I : Type)
  | client (i : I) (event : Event)
  | handle (i : I) (kind : Kind) (now : Int)
  | elsewhere (op : Op)

def serve (id : UInt32) (s : Registry) (v : Invocation) (now : Int) : Kind → Registry × UInt32
  | .register => processRegisterTask s id v.timeLeftSecs now true
  | .deregister | .cleanup => processDeregisterTask s id

def Other (id : UInt32) : Op → Bool
  | .register taskId _ _ _ => taskId ≠ id
  | .deregister taskId => taskId ≠ id
  | .lifetime _ _ => false

variable {I : Type}

/-- No invocation has begun; the server may be in any state. -/
def AtStart (s : Sys I) : Prop := ∀ i, s.invocation i = {}

variable [DecidableEq I]

def step (id : UInt32) (s : Sys I) : Label I → Option (Sys I)
  | .client i event => ((s.invocation i).act event).map fun v =>
      { s with invocation := Function.update s.invocation i v }
  | .handle i kind now =>
    let v := s.invocation i
    if v.call kind = .inFlight then
      let (registry, reply) := serve id s.registry v now kind
      some { registry, invocation := Function.update s.invocation i (v.answered kind reply) }
    else none
  | .elsewhere op =>
    if Other id op then some { s with registry := (TaskRegistry.step s.registry op).1 } else none

/-- An invocation deregisters only what it registered, and once, and the task of
an invocation whose worker process runs is alive. -/
structure Safe (id : UInt32) (s : Sys I) : Prop where
  own : ∀ i, (s.invocation i).call .deregister ≠ .unsent ∨ (s.invocation i).call .cleanup ≠ .unsent →
    (s.invocation i).won = true
  once : ∀ i, (s.invocation i).call .deregister = .unsent ∨ (s.invocation i).call .cleanup = .unsent
  alive : ∀ i, (s.invocation i).working = true → ∃ remaining start, life s.registry id = .running remaining start

/-- `register` raises nothing, the `deregister` of the `try` block raises nothing
once it has sent its request, and neither does the wait for a worker that runs. -/
def Clean (s : Sys I) : Label I → Prop
  | .client i .connectFails => (s.invocation i).place ≠ .registering
  | .client i .timesOut =>
    (s.invocation i).place ≠ .awaitingRegister ∧ (s.invocation i).place ≠ .awaitingDeregister
  | .client i .relayFails => (s.invocation i).working = false
  | _ => True

section Invariant

namespace Invocation

/-- The server has told the invocation, or is about to, that it has won. -/
def Granted (v : Invocation) : Prop := v.call .register = .handled 0

def Silent (v : Invocation) : Prop := v.call .deregister = .unsent ∧ v.call .cleanup = .unsent

def Fits (v : Invocation) : Prop :=
  match v.place with
  | .registering => v.call .register = .unsent ∧ v.Silent
  | .awaitingRegister => v.Silent
  | .declined => v.Silent
  | .writing | .starting | .running | .deregistering | .failed => v.Granted ∧ v.won = true ∧ v.Silent
  | .awaitingDeregister => v.Granted ∧ v.won = true ∧ v.call .cleanup = .unsent
  | .awaitingCleanup => v.Granted ∧ v.won = true ∧ v.call .deregister = .unsent
  | .ended => v.Granted ∧ v.won = true ∧ (v.call .deregister = .unsent ∨ v.call .cleanup = .unsent)

section Goes
variable (v : Invocation) (place : Place)

@[simp] theorem goes_place : (v.goes place).place = place := rfl

@[simp] theorem goes_call : (v.goes place).call = v.call := rfl

@[simp] theorem goes_won : (v.goes place).won = v.won := rfl

@[simp] theorem goes_working : (v.goes place).working = v.working := rfl

@[simp] theorem granted_goes : (v.goes place).Granted ↔ v.Granted := Iff.rfl

@[simp] theorem silent_goes : (v.goes place).Silent ↔ v.Silent := Iff.rfl

end Goes

def CleanEvent (v : Invocation) : Event → Prop
  | .connectFails => v.place ≠ .registering
  | .timesOut => v.place ≠ .awaitingRegister ∧ v.place ≠ .awaitingDeregister
  | .relayFails => v.working = false
  | _ => True

theorem act_cases {v v' : Invocation} {event : Event} (acted : v.act event = some v') :
    match event with
    | .connectFails => (v.place = .registering ∨ v.place = .deregistering) ∧ v' = v.goes .failed ∨
        v.place = .failed ∧ v' = v.goes .ended
    | .sends timeLeftSecs =>
        v.place = .registering ∧ v' = { v.send .register .awaitingRegister with timeLeftSecs } ∨
        v.place = .deregistering ∧ v' = v.send .deregister .awaitingDeregister ∨
        v.place = .failed ∧ v' = v.send .cleanup .awaitingCleanup
    | .timesOut =>
        (v.place = .awaitingRegister ∨ v.place = .awaitingDeregister) ∧ v' = v.goes .failed ∨
        v.place = .awaitingCleanup ∧ v' = v.goes .ended
    | .receives =>
        (∃ reply, v.place = .awaitingRegister ∧ v.call .register = .handled reply ∧ v' = v.registered reply) ∨
        (v.place = .awaitingDeregister ∨ v.place = .awaitingCleanup) ∧ v' = v.goes .ended
    | .writes => v.place = .writing ∧ v' = v.goes .starting
    | .writeFails => v.place = .writing ∧ v' = v.goes .failed
    | .starts => v.place = .starting ∧ v' = { v.goes .running with working := true }
    | .startFails => v.place = .starting ∧ v' = v.goes .failed
    | .ends => v.working = true ∧ v' = { v with working := false }
    | .exits code => (v.place = .running ∧ v.working = false) ∧
        v' = v.goes (if code = 0 then .deregistering else .failed)
    | .relayFails => v.place = .running ∧ v' = v.goes .failed := by
  cases event <;> simp only [act] at acted ⊢ <;> split at acted <;> simp_all

theorem fits_act {v v' : Invocation} {event : Event} (fits : v.Fits) (clean : v.CleanEvent event)
    (acted : v.act event = some v') : v'.Fits := by
  have cases := act_cases acted
  cases event with
  | connectFails =>
    rcases cases with ⟨here | here, rfl⟩ | ⟨here, rfl⟩
    · exact absurd here clean
    · simpa [Fits, here] using fits
    · simp only [Fits, here] at fits
      exact ⟨fits.1, fits.2.1, .inl fits.2.2.1⟩
  | sends timeLeftSecs =>
    rcases cases with ⟨here, rfl⟩ | ⟨here, rfl⟩ | ⟨here, rfl⟩ <;> simp_all [Fits, Silent, Granted, send]
  | timesOut =>
    rcases cases with ⟨here | here, rfl⟩ | ⟨here, rfl⟩
    · exact absurd here clean.1
    · exact absurd here clean.2
    · simp only [Fits, here] at fits
      exact ⟨fits.1, fits.2.1, .inl fits.2.2⟩
  | receives =>
    rcases cases with ⟨reply, here, replied, rfl⟩ | ⟨here | here, rfl⟩
    · simp only [Fits, here] at fits
      unfold registered
      split
      next zero =>
        rw [zero] at replied
        exact ⟨replied, rfl, fits⟩
      next other => exact fits
    · simp only [Fits, here] at fits
      exact ⟨fits.1, fits.2.1, .inr fits.2.2⟩
    · simp only [Fits, here] at fits
      exact ⟨fits.1, fits.2.1, .inl fits.2.2⟩
  | writes =>
    obtain ⟨here, rfl⟩ := cases
    simpa [Fits, here] using fits
  | writeFails =>
    obtain ⟨here, rfl⟩ := cases
    simpa [Fits, here] using fits
  | starts =>
    obtain ⟨here, rfl⟩ := cases
    simp only [Fits, here] at fits
    exact fits
  | startFails =>
    obtain ⟨here, rfl⟩ := cases
    simpa [Fits, here] using fits
  | ends =>
    obtain ⟨_, rfl⟩ := cases
    exact fits
  | exits code =>
    obtain ⟨⟨here, _⟩, rfl⟩ := cases
    split <;> simpa [Fits, here] using fits
  | relayFails =>
    obtain ⟨here, rfl⟩ := cases
    simpa [Fits, here] using fits

/-- An invocation waits for its worker as long as it runs. -/
def Attends (v : Invocation) : Prop := v.working = true → v.place = .running

theorem attends_act {v v' : Invocation} {event : Event} (attends : v.Attends) (clean : v.CleanEvent event)
    (acted : v.act event = some v') : v'.Attends := by
  intro works
  have cases := act_cases acted
  cases event with
  | starts => exact cases.2 ▸ rfl
  | ends =>
    rw [cases.2] at works
    cases works
  | exits code =>
    rw [cases.2, goes_working, cases.1.2] at works
    cases works
  | relayFails =>
    rw [cases.2, goes_working, clean] at works
    cases works
  | connectFails | sends timeLeftSecs | timesOut | receives | writes | writeFails | startFails =>
    -- at none of these places does a worker run
    have idle : v.working = true := by
      simp only [registered] at cases
      grind [goes, send]
    have here := attends idle
    grind

theorem call_act {v v' : Invocation} {event : Event} (acted : v.act event = some v') :
    v'.call = v.call ∨ ∃ kind, v'.call = Function.update v.call kind .inFlight ∧
      (kind = .register → v.place = .registering) := by
  have cases := act_cases acted
  cases event with
  | connectFails => rcases cases with ⟨_, rfl⟩ | ⟨_, rfl⟩ <;> exact .inl rfl
  | sends timeLeftSecs =>
    rcases cases with ⟨here, rfl⟩ | ⟨_, rfl⟩ | ⟨_, rfl⟩
    · exact .inr ⟨.register, rfl, fun _ => here⟩
    · exact .inr ⟨.deregister, rfl, by simp⟩
    · exact .inr ⟨.cleanup, rfl, by simp⟩
  | timesOut => rcases cases with ⟨_, rfl⟩ | ⟨_, rfl⟩ <;> exact .inl rfl
  | receives =>
    rcases cases with ⟨reply, _, _, rfl⟩ | ⟨_, rfl⟩
    · unfold registered
      split <;> exact .inl rfl
    · exact .inl rfl
  | writes => exact .inl (cases.2 ▸ rfl)
  | writeFails => exact .inl (cases.2 ▸ rfl)
  | starts => exact .inl (cases.2 ▸ rfl)
  | startFails => exact .inl (cases.2 ▸ rfl)
  | ends => exact .inl (cases.2 ▸ rfl)
  | exits code => exact .inl (cases.2 ▸ rfl)
  | relayFails => exact .inl (cases.2 ▸ rfl)

theorem granted_act {v v' : Invocation} {event : Event} (fits : v.Fits) (acted : v.act event = some v') :
    v'.Granted ↔ v.Granted := by
  unfold Granted
  rcases call_act acted with same | ⟨kind, same, first⟩
  · rw [same]
  · rw [same]
    cases kind with
    | register =>
      have unsent : v.call .register = .unsent := by
        have fits := fits
        simp only [Fits, first rfl] at fits
        exact fits.1
      simp [unsent]
    | deregister => simp
    | cleanup => simp

theorem silent_act {v v' : Invocation} {event : Event} (acted : v.act event = some v') (silent : v'.Silent) :
    v.Silent := by
  rcases call_act acted with same | ⟨kind, same, _⟩
  · unfold Silent at silent ⊢
    rwa [same] at silent
  · unfold Silent at silent ⊢
    rw [same] at silent
    cases kind <;> simp_all

theorem fits_answered {v : Invocation} (fits : v.Fits) {kind : Kind} (sent : v.call kind = .inFlight)
    (reply : UInt32) : (v.answered kind reply).Fits := by
  unfold Fits at fits ⊢
  cases kind <;> cases here : v.place <;> simp_all [answered, Granted, Silent]

theorem granted_of_deregisters {v : Invocation} (fits : v.Fits) (loud : ¬ v.Silent) : v.Granted ∧ v.won = true := by
  unfold Fits at fits
  split at fits
  case h_1 => exact absurd fits.2 loud
  case h_2 => exact absurd fits loud
  case h_3 => exact absurd fits loud
  all_goals exact ⟨fits.1, fits.2.1⟩

end Invocation

/-- At most one invocation is granted the task, and until it deregisters the task is alive. -/
structure Inv (id : UInt32) (s : Sys I) : Prop where
  fits : ∀ i, (s.invocation i).Fits
  attends : ∀ i, (s.invocation i).Attends
  one : ∀ i j, (s.invocation i).Granted → (s.invocation j).Granted → i = j
  known : ∀ i, (s.invocation i).Granted → life s.registry id ≠ .unseen
  alive : ∀ i, (s.invocation i).Granted → (s.invocation i).Silent →
    ∃ remaining start, life s.registry id = .running remaining start

variable {id : UInt32} {s t : Sys I}

omit [DecidableEq I] in
theorem inv_start (initial : AtStart s) : Inv id s := by
  have ungranted : ∀ i, ¬ (s.invocation i).Granted := by
    intro i granted
    rw [initial i] at granted
    cases granted
  constructor
  · intro i
    rw [initial i]
    exact ⟨rfl, rfl, rfl⟩
  · intro i works
    rw [initial i] at works
    cases works
  · intro i j granted
    exact absurd granted (ungranted i)
  · intro i granted
    exact absurd granted (ungranted i)
  · intro i granted
    exact absurd granted (ungranted i)

theorem inv_client (inv : Inv id s) {i : I} {event : Event} (clean : (s.invocation i).CleanEvent event)
    {v : Invocation} (acted : (s.invocation i).act event = some v) :
    Inv id { s with invocation := Function.update s.invocation i v } := by
  have granted : ∀ j, (Function.update s.invocation i v j).Granted ↔ (s.invocation j).Granted := by
    intro j
    by_cases same : j = i
    · subst same
      rw [Function.update_self]
      exact Invocation.granted_act (inv.fits j) acted
    · rw [Function.update_of_ne same]
  have silent : ∀ j, (Function.update s.invocation i v j).Silent → (s.invocation j).Silent := by
    intro j quiet
    by_cases same : j = i
    · subst same
      rw [Function.update_self] at quiet
      exact Invocation.silent_act acted quiet
    · rwa [Function.update_of_ne same] at quiet
  constructor
  · intro j
    by_cases same : j = i
    · subst same
      simp only [Function.update_self]
      exact Invocation.fits_act (inv.fits j) clean acted
    · simp only [Function.update_of_ne same]
      exact inv.fits j
  · intro j
    by_cases same : j = i
    · subst same
      simp only [Function.update_self]
      exact Invocation.attends_act (inv.attends j) clean acted
    · simp only [Function.update_of_ne same]
      exact inv.attends j
  · intro j k grantedJ grantedK
    exact inv.one j k ((granted j).mp grantedJ) ((granted k).mp grantedK)
  · intro j grantedJ
    exact inv.known j ((granted j).mp grantedJ)
  · intro j grantedJ quiet
    exact inv.alive j ((granted j).mp grantedJ) (silent j quiet)

theorem granted_answered_register (v : Invocation) (reply : UInt32) :
    (v.answered .register reply).Granted ↔ reply = 0 := by
  simp [Invocation.Granted, Invocation.answered]

theorem fits_handled (inv : Inv id s) {i : I} {kind : Kind} (sent : (s.invocation i).call kind = .inFlight)
    (reply : UInt32) (j : I) : (Function.update s.invocation i ((s.invocation i).answered kind reply) j).Fits := by
  by_cases same : j = i
  · subst same
    rw [Function.update_self]
    exact Invocation.fits_answered (inv.fits j) sent reply
  · rw [Function.update_of_ne same]
    exact inv.fits j

theorem attends_handled (inv : Inv id s) (i : I) (kind : Kind) (reply : UInt32) (j : I) :
    (Function.update s.invocation i ((s.invocation i).answered kind reply) j).Attends := by
  by_cases same : j = i
  · subst same
    rw [Function.update_self]
    exact inv.attends j
  · rw [Function.update_of_ne same]
    exact inv.attends j

theorem inv_handle_register (inv : Inv id s) {i : I} (sent : (s.invocation i).call .register = .inFlight)
    (now : Int) : Inv id
      { registry := (processRegisterTask s.registry id (s.invocation i).timeLeftSecs now true).1
        invocation := Function.update s.invocation i ((s.invocation i).answered .register
          (processRegisterTask s.registry id (s.invocation i).timeLeftSecs now true).2) } := by
  have after := life_registered s.registry id (s.invocation i).timeLeftSecs now true
  have reply := register_reply s.registry id (s.invocation i).timeLeftSecs now true
  rw [reply]
  by_cases fresh : life s.registry id = .unseen
  · rw [if_pos fresh] at after ⊢
    have winner : ∀ j, (Function.update s.invocation i ((s.invocation i).answered .register 0) j).Granted →
        j = i := by
      intro j granted
      by_cases same : j = i
      · exact same
      · rw [Function.update_of_ne same] at granted
        exact absurd fresh (inv.known j granted)
    constructor
    · exact fits_handled inv sent 0
    · exact attends_handled inv i _ _
    · intro j k grantedJ grantedK
      rw [winner j grantedJ, winner k grantedK]
    · intro j _
      rw [after]
      simp
    · intro j _ _
      exact ⟨_, _, after⟩
  · rw [if_neg fresh] at after ⊢
    have before : ∀ j, (Function.update s.invocation i ((s.invocation i).answered .register 1) j).Granted →
        j ≠ i ∧ (s.invocation j).Granted := by
      intro j granted
      by_cases same : j = i
      · subst same
        rw [Function.update_self, granted_answered_register] at granted
        cases granted
      · rw [Function.update_of_ne same] at granted
        exact ⟨same, granted⟩
    constructor
    · exact fits_handled inv sent 1
    · exact attends_handled inv i _ _
    · intro j k grantedJ grantedK
      exact inv.one j k (before j grantedJ).2 (before k grantedK).2
    · intro j granted
      rw [after]
      exact fresh
    · intro j granted quiet
      obtain ⟨other, granted⟩ := before j granted
      simp only [Function.update_of_ne other] at quiet
      rw [after]
      exact inv.alive j granted quiet

theorem inv_handle_deregister (inv : Inv id s) {i : I} {kind : Kind} (other : kind ≠ .register)
    (sent : (s.invocation i).call kind = .inFlight) : Inv id
      { registry := (processDeregisterTask s.registry id).1
        invocation := Function.update s.invocation i ((s.invocation i).answered kind
          (processDeregisterTask s.registry id).2) } := by
  have loud : ¬ (s.invocation i).Silent := by
    rintro ⟨first, last⟩
    cases kind <;> simp_all
  obtain ⟨winner, _⟩ := Invocation.granted_of_deregisters (inv.fits i) loud
  have granted : ∀ j reply, (Function.update s.invocation i ((s.invocation i).answered kind reply) j).Granted →
      (s.invocation j).Granted := by
    intro j reply granted
    by_cases same : j = i
    · subst same
      exact winner
    · rwa [Function.update_of_ne same] at granted
  constructor
  · exact fits_handled inv sent _
  · exact attends_handled inv i _ _
  · intro j k grantedJ grantedK
    exact inv.one j k (granted j _ grantedJ) (granted k _ grantedK)
  · intro j _
    rw [life_deregistered, if_neg (inv.known i winner)]
    simp
  · intro j grantedJ quiet
    obtain rfl := inv.one j i (granted j _ grantedJ) winner
    simp only [Function.update_self] at quiet
    refine absurd ?_ loud
    unfold Invocation.Silent Invocation.answered at quiet
    cases kind <;> simp_all

theorem life_elsewhere {op : Op} (other : Other id op = true) (registry : Registry) :
    life (TaskRegistry.step registry op).1 id = life registry id := by
  rw [step_life]
  cases op <;> simp_all [Other, Life.step]

omit [DecidableEq I] in
theorem inv_elsewhere (inv : Inv id s) {op : Op} (other : Other id op = true) :
    Inv id { s with registry := (TaskRegistry.step s.registry op).1 } := by
  constructor
  · exact inv.fits
  · exact inv.attends
  · exact inv.one
  · intro i granted
    rw [life_elsewhere other]
    exact inv.known i granted
  · intro i granted quiet
    rw [life_elsewhere other]
    exact inv.alive i granted quiet

theorem inv_step {l : Label I} (inv : Inv id s) (clean : Clean s l) (taken : step id s l = some t) :
    Inv id t := by
  cases l with
  | client i event =>
    obtain ⟨v, acted, rfl⟩ := Option.map_eq_some_iff.mp taken
    apply inv_client inv _ acted
    cases event <;> exact clean
  | handle i kind now =>
    simp only [step] at taken
    split at taken
    · rename_i sent
      obtain rfl := Option.some.inj taken
      cases kind with
      | register => exact inv_handle_register inv sent now
      | deregister => exact inv_handle_deregister inv (by decide) sent
      | cleanup => exact inv_handle_deregister inv (by decide) sent
    · cases taken
  | elsewhere op =>
    simp only [step] at taken
    split at taken
    · rename_i other
      obtain rfl := Option.some.inj taken
      exact inv_elsewhere inv other
    · cases taken

omit [DecidableEq I] in
theorem Inv.safe (inv : Inv id s) : Safe id s := by
  constructor
  · intro i sent
    apply (Invocation.granted_of_deregisters (inv.fits i) _).2
    rintro ⟨first, last⟩
    rcases sent with sent | sent
    · exact sent first
    · exact sent last
  · intro i
    have fits := inv.fits i
    unfold Invocation.Fits Invocation.Silent at fits
    split at fits <;> simp_all
  · intro i works
    have fits := inv.fits i
    simp only [Invocation.Fits, inv.attends i works] at fits
    exact inv.alive i fits.1 fits.2.2

end Invariant

/-- Where no `register` raises an exception, no `deregister` of a `try` block after
its request is sent, and nothing while a running worker is waited for, only the
winner deregisters, only once, and not while its worker runs. -/
theorem only_the_winner_deregisters (id : UInt32) {s : Sys I} (reached : Reachable (step id) AtStart Clean s) :
    Safe id s :=
  (reached.invariant (fun _ initial => inv_start initial) fun _ _ _ inv clean taken => inv_step inv clean taken).safe

section Runs

local instance invocations_neZero : NeZero 2 := ⟨by decide⟩

def twoInvocations : Sys (Fin 2) := { registry := {} }

def firstWins : List (Label (Fin 2)) :=
  [.client 0 (.sends 60), .handle 0 .register 0, .client 0 .receives, .client 0 .writes, .client 0 .starts]

def secondDeclines : List (Label (Fin 2)) := [.client 1 (.sends 60), .handle 1 .register 0, .client 1 .receives]

def firstFinishes : List (Label (Fin 2)) :=
  [.client 0 .ends, .client 0 (.exits 0), .client 0 (.sends 0), .handle 0 .deregister 0, .client 0 .receives]

theorem only_the_winner_of_two_deregisters :
    ∃ s, follow (step 7) twoInvocations (firstWins ++ secondDeclines ++ firstFinishes) = some s ∧ Safe 7 s := by
  have done : (follow (step 7) twoInvocations (firstWins ++ secondDeclines ++ firstFinishes)).isSome := by decide
  obtain ⟨s, followed⟩ := Option.isSome_iff_exists.mp done
  have reached : Reachable (step 7) AtStart Clean s :=
    Reachable.follow_permitted (.start fun _ => rfl) (by simp [firstWins, secondDeclines, firstFinishes, Clean]) followed
  exact ⟨s, followed, only_the_winner_deregisters 7 reached⟩

def secondFails : List (Label (Fin 2)) :=
  [.client 1 .connectFails, .client 1 (.sends 0), .handle 1 .cleanup 0]

def relayingFails : List (Label (Fin 2)) := [.client 0 .relayFails, .client 0 (.sends 0), .handle 0 .cleanup 0]

/-- The worker of the first invocation runs, and its task has been declared dead. -/
def Abandoned (s : Sys (Fin 2)) : Prop := (s.invocation 0).working = true ∧ life s.registry 7 = .ended

theorem abandoned_not_safe {s : Sys (Fin 2)} (abandoned : Abandoned s) : ¬ Safe 7 s := by
  intro safe
  obtain ⟨_, _, alive⟩ := safe.alive 0 abandoned.1
  rw [abandoned.2] at alive
  cases alive

theorem abandoned_reached {labels : List (Label (Fin 2))}
    (outcome : (follow (step 7) twoInvocations labels).map
      (fun s => ((s.invocation 0).working, life s.registry 7)) = some (true, .ended)) :
    ∃ s, follow (step 7) twoInvocations labels = some s ∧ Reachable (step 7) AtStart anyStep s ∧ Abandoned s ∧
      ¬ Safe 7 s := by
  obtain ⟨s, followed, facts⟩ := Option.map_eq_some_iff.mp outcome
  have abandoned : Abandoned s := Prod.mk.inj facts
  exact ⟨s, followed, Reachable.follow (.start fun _ => rfl) followed, abandoned, abandoned_not_safe abandoned⟩

theorem running_task_declared_dead :
    (∃ s, follow (step 7) twoInvocations (firstWins ++ secondFails) = some s ∧
      Reachable (step 7) AtStart anyStep s ∧ Abandoned s ∧ ¬ Safe 7 s) ∧
    (∃ s, follow (step 7) twoInvocations (firstWins ++ relayingFails) = some s ∧
      Reachable (step 7) AtStart anyStep s ∧ Abandoned s ∧ ¬ Safe 7 s) := by
  constructor
  · exact abandoned_reached (by decide)
  · exact abandoned_reached (by decide)

end Runs

end Handler

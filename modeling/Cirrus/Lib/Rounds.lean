import Cirrus.Lib.Asynchronous

/- Clients of a server, each with a connection for requests and one for updates. In a round a client asks
   for what it needs, and makes an update of the reply. The server handles what comes on a connection message
   by message, and the connections in any order. Where clients and server keep to a protocol, what happens is
   a run of actors that read and update a shared model. Nothing here mentions a particular protocol. -/
namespace Rounds
open Transition
variable {I B S T W K E M V U : Type}

structure Connection (B : Type) where
  up : List B := []
  down : List B := []

inductive Socket (I : Type)
  | requests (i : I)
  | updates (i : I)
  deriving DecidableEq

/-- The code of the clients and of the server. What is `none` has to wait. -/
structure System (I B S T W K E : Type) where
  /-- What a client sends to ask for a reply. -/
  ask : I → T → Option (T × List B)
  /-- What a client does with a reply: what it leaves on the connection, and what it sends on the other one. -/
  push : I → T → List B → Option (T × List B × List B)
  /-- What a thread of the server does with what a connection brings: what it leaves of that, and what it replies. -/
  serve : W → S → List B → Option (Except E (S × List B × List B))
  /-- Whatever else changes the server. -/
  other : K → S → S

/-- An error of a handler ends the server. -/
structure State (I B S T E : Type) where
  server : Except E S
  task : I → T
  connection : Socket I → Connection B

inductive Label (I W K : Type)
  | ask (i : I)
  | push (i : I)
  | serve (socket : Socket I) (worker : W)
  | other (k : K)

section Steps
variable [DecidableEq I]

def State.withTask (s : State I B S T E) (i : I) (task : T) : State I B S T E :=
  { s with task := Function.update s.task i task }

def State.withConnection (s : State I B S T E) (socket : Socket I) (c : Connection B) : State I B S T E :=
  { s with connection := Function.update s.connection socket c }

section Frames
variable (s : State I B S T E) (i : I) (task : T) (socket : Socket I) (c : Connection B)

@[simp] theorem withTask_server : (s.withTask i task).server = s.server := rfl

@[simp] theorem withTask_connection : (s.withTask i task).connection = s.connection := rfl

@[simp] theorem withTask_self : (s.withTask i task).task i = task := Function.update_self ..

@[simp] theorem withTask_other {j : I} (apart : j ≠ i) : (s.withTask i task).task j = s.task j :=
  Function.update_of_ne apart ..

@[simp] theorem withConnection_server : (s.withConnection socket c).server = s.server := rfl

@[simp] theorem withConnection_task : (s.withConnection socket c).task = s.task := rfl

@[simp] theorem withConnection_self : (s.withConnection socket c).connection socket = c := Function.update_self ..

@[simp] theorem withConnection_other {other : Socket I} (apart : other ≠ socket) :
    (s.withConnection socket c).connection other = s.connection other := Function.update_of_ne apart ..

end Frames

namespace System

def moveAsk (c : System I B S T W K E) (s : State I B S T E) (i : I) : Option (State I B S T E) :=
  (c.ask i (s.task i)).map fun (task, sent) =>
    let get := s.connection (.requests i)
    (s.withTask i task).withConnection (.requests i) { get with up := get.up ++ sent }

def movePush (c : System I B S T W K E) (s : State I B S T E) (i : I) : Option (State I B S T E) :=
  (c.push i (s.task i) (s.connection (.requests i)).down).map fun (task, unread, sent) =>
    let s := (s.withTask i task).withConnection (.requests i) { s.connection (.requests i) with down := unread }
    let put := s.connection (.updates i)
    s.withConnection (.updates i) { put with up := put.up ++ sent }

def moveServe (c : System I B S T W K E) (s : State I B S T E) (server : S) (socket : Socket I) (worker : W) :
    Option (State I B S T E) :=
  (c.serve worker server (s.connection socket).up).map fun
    | .error e => { s with server := .error e }
    | .ok (server, unread, sent) =>
      { s with server := .ok server }.withConnection socket { up := unread, down := (s.connection socket).down ++ sent }

def step (c : System I B S T W K E) (s : State I B S T E) (l : Label I W K) : Option (State I B S T E) :=
  match s.server with
  | .error _ => none
  | .ok server =>
    match l with
    | .ask i => c.moveAsk s i
    | .push i => c.movePush s i
    | .serve socket worker => c.moveServe s server socket worker
    | .other k => some { s with server := .ok (c.other k server) }

end System
end Steps

/-- How far a client is in its rounds, what a server with a model is, and what the messages are. -/
structure Protocol (I B S T E M V U : Type) where
  Ready : I → Nat → T → Prop
  Asked : I → Nat → T → Prop
  Exited : T → Prop
  Holds : M → S → Prop
  Told : V → Prop
  Fits : U → Prop
  message : I → Nat → List B
  reply : I → Nat → V → List B
  bytes : U → List B
  Ends : U → E → Prop

/-- The code carries out a scheme with the messages of a protocol. -/
structure Carries (c : System I B S T W K E) (x : Asynchronous.Scheme I M V U) (p : Protocol I B S T E M V U) : Prop where
  asks : ∀ {i round t}, p.Ready i round t → ∃ t', c.ask i t = some (t', p.message i round) ∧ p.Asked i round t'
  readyWaits : ∀ {i round t down}, p.Ready i round t → c.push i t down = none
  askedOnce : ∀ {i round t}, p.Asked i round t → c.ask i t = none
  askedWaits : ∀ {i round t}, p.Asked i round t → c.push i t [] = none
  exited : ∀ {i t} down, p.Exited t → c.ask i t = none ∧ c.push i t down = none
  pushes : ∀ {i round t v u}, p.Asked i round t → p.Told v → x.update i round v = some u →
    ∃ t', c.push i t (p.reply i round v) = some (t', [], p.bytes u) ∧ (p.Ready i (round + 1) t' ∨ p.Exited t') ∧ p.Fits u
  stops : ∀ {i round t v}, p.Asked i round t → p.Told v → x.update i round v = none →
    ∃ t', c.push i t (p.reply i round v) = some (t', [], []) ∧ p.Exited t'
  idle : ∀ {worker s}, c.serve worker s [] = none
  reads : ∀ {m s} worker i round, p.Holds m s →
    c.serve worker s (p.message i round) = some (.ok (s, [], p.reply i round (x.read m))) ∧ p.Told (x.read m)
  takes : ∀ {m s u} worker, p.Holds m s → p.Fits u →
    (∃ s', p.Holds (x.apply m u) s' ∧ ∀ rest, c.serve worker s (p.bytes u ++ rest) = some (.ok (s', rest, []))) ∨
      ∃ e, p.Ends u e ∧ ∀ rest, c.serve worker s (p.bytes u ++ rest) = some (.error e)
  others : ∀ {m s} k, p.Holds m s → p.Holds m (c.other k s)

/-- What the actors see of a step: a request only shows when it is served. -/
def Label.seen : Label I W K → Option (Asynchronous.Label I)
  | .ask _ => none
  | .other _ => none
  | .push i => some (.send i)
  | .serve (.requests i) _ => some (.read i)
  | .serve (.updates i) _ => some (.apply i)

section Simulation
variable [DecidableEq I]

inductive At (p : Protocol I B S T E M V U) (i : I) (round : Nat) : Option (V × Nat) → T → Connection B → Prop
  | ready {t : T} (here : p.Ready i round t) : At p i round none t {}
  | asked {t : T} (here : p.Asked i round t) : At p i round none t { up := p.message i round }
  | answered {t : T} {v : V} {n : Nat} (here : p.Asked i round t) (told : p.Told v) :
      At p i round (some (v, n)) t { down := p.reply i round v }
  | exited {t : T} (here : p.Exited t) : At p i round none t {}

structure Paired (p : Protocol I B S T E M V U) (s : State I B S T E) (a : Asynchronous.State I M V U) (i : I) : Prop where
  place : At p i (a.rounds i) (a.view i) (s.task i) (s.connection (.requests i))
  queue : (s.connection (.updates i)).up = (a.queue i).flatMap p.bytes
  fits : ∀ u ∈ a.queue i, p.Fits u

structure Together (p : Protocol I B S T E M V U) (s : State I B S T E) (a : Asynchronous.State I M V U) (server : S) :
    Prop where
  serving : s.server = .ok server
  holds : p.Holds a.model server
  paired : ∀ i, Paired p s a i

def Ended (p : Protocol I B S T E M V U) (s : State I B S T E) (a : Asynchronous.State I M V U) : Prop :=
  ∃ e i u, s.server = .error e ∧ a.applied.getLast? = some (i, u) ∧ p.Ends u e

variable {c : System I B S T W K E} {x : Asynchronous.Scheme I M V U} {p : Protocol I B S T E M V U}
  {s s' : State I B S T E} {a a' : Asynchronous.State I M V U} {server server' : S} {i : I}

omit [DecidableEq I] in
theorem Together.with (together : Together p s a server) (serving : s'.server = .ok server') (holds : p.Holds a'.model server')
    (here : Paired p s' a' i) (task : ∀ j ≠ i, s'.task j = s.task j)
    (get : ∀ j ≠ i, s'.connection (.requests j) = s.connection (.requests j))
    (put : ∀ j ≠ i, s'.connection (.updates j) = s.connection (.updates j))
    (others : ∀ j ≠ i, a'.rounds j = a.rounds j ∧ a'.view j = a.view j ∧ a'.queue j = a.queue j) :
    Together p s' a' server' := by
  refine ⟨serving, holds, fun j => ?_⟩
  by_cases same : j = i
  · exact same ▸ here
  · obtain ⟨rounds, view, queue⟩ := others j same
    obtain ⟨place, sent, fits⟩ := together.paired j
    constructor
    · rwa [rounds, view, task j same, get j same]
    · rwa [queue, put j same]
    · rwa [queue]

theorem step_serving (serving : s.server = .ok server) (l : Label I W K) : c.step s l =
    match l with
    | .ask i => c.moveAsk s i
    | .push i => c.movePush s i
    | .serve socket worker => c.moveServe s server socket worker
    | .other k => some { s with server := .ok (c.other k server) } := by
  rw [System.step, serving]

theorem ask_moves (carries : Carries c x p) (together : Together p s a server) (taken : c.step s (.ask i) = some s') :
    Together p s' a server := by
  obtain ⟨place, queue, fits⟩ := together.paired i
  rw [step_serving together.serving] at taken
  obtain ⟨⟨task, sent⟩, asks, rfl⟩ := Option.map_eq_some_iff.mp taken
  generalize round_ : a.rounds i = round at place
  generalize view_ : a.view i = view at place
  generalize task_ : s.task i = t at place asks
  generalize get_ : s.connection (.requests i) = get at place
  cases place with
  | ready here =>
    obtain ⟨t', asks', asked⟩ := carries.asks here
    cases asks.symm.trans asks'
    refine together.with (i := i) together.serving together.holds ?_ ?_ ?_ ?_ (fun _ _ => ⟨rfl, rfl, rfl⟩)
    · constructor
      · rw [round_, view_]
        simpa using .asked asked
      · simpa using queue
      · exact fits
    · intro j apart
      simp [apart]
    · intro j apart
      simp [apart]
    · intro j apart
      simp
  | asked here => cases asks.symm.trans (carries.askedOnce here)
  | answered here => cases asks.symm.trans (carries.askedOnce here)
  | exited here => cases asks.symm.trans (carries.exited [] here).1

theorem push_moves (carries : Carries c x p) (together : Together p s a server) (taken : c.step s (.push i) = some s') :
    ∃ a', x.step a (.send i) = some a' ∧ Together p s' a' server := by
  obtain ⟨place, queue, fits⟩ := together.paired i
  rw [step_serving together.serving] at taken
  obtain ⟨⟨task, unread, sent⟩, pushes, rfl⟩ := Option.map_eq_some_iff.mp taken
  generalize round_ : a.rounds i = round at place
  generalize view_ : a.view i = view at place
  generalize task_ : s.task i = t at place pushes
  generalize get_ : s.connection (.requests i) = get at place pushes
  cases place with
  | ready here => cases pushes.symm.trans (carries.readyWaits here)
  | exited here => cases pushes.symm.trans (carries.exited _ here).2
  | asked here => cases pushes.symm.trans (carries.askedWaits here)
  | @answered _ v n here told =>
    have sends : x.step a (.send i) = some { a with
        rounds := Function.update a.rounds i (round + 1)
        view := Function.update a.view i none
        queue := Function.update a.queue i (a.queue i ++ (x.update i round v).toList)
        sent := Function.update a.sent i (a.sent i ++ (x.update i round v).toList.map fun u => ⟨u, round, n⟩) } := by
      rw [Asynchronous.Scheme.step, view_, round_]
      rfl
    refine ⟨_, sends, ?_⟩
    cases made : x.update i round v with
    | none =>
      obtain ⟨t', pushes', exited⟩ := carries.stops here told made
      cases pushes.symm.trans pushes'
      refine together.with (i := i) together.serving together.holds ?_ (fun j apart => by simp [apart])
        (fun j apart => by simp [apart]) (fun j apart => by simp [apart]) (fun j apart => by simp [apart])
      constructor
      · simpa using .exited exited
      · simpa using queue
      · simpa using fits
    | some u =>
      obtain ⟨t', pushes', next, fit⟩ := carries.pushes here told made
      cases pushes.symm.trans pushes'
      refine together.with (i := i) together.serving together.holds ?_ (fun j apart => by simp [apart])
        (fun j apart => by simp [apart]) (fun j apart => by simp [apart]) (fun j apart => by simp [apart])
      constructor
      · rcases next with ready | exited
        · simpa using .ready ready
        · simpa using .exited exited
      · simp [queue]
      · simpa [or_imp, forall_and] using ⟨fits, fit⟩

/-- Serving a request is when the actor reads the model. -/
theorem serve_requests_moves (carries : Carries c x p) (together : Together p s a server) {worker : W}
    (taken : c.step s (.serve (.requests i) worker) = some s') :
    ∃ a', x.step a (.read i) = some a' ∧ Together p s' a' server := by
  obtain ⟨place, queue, fits⟩ := together.paired i
  rw [step_serving together.serving] at taken
  obtain ⟨result, serves, same⟩ := Option.map_eq_some_iff.mp taken
  generalize round_ : a.rounds i = round at place
  generalize view_ : a.view i = view at place
  generalize task_ : s.task i = t at place
  generalize get_ : s.connection (.requests i) = get at place serves same
  cases place with
  | ready => cases serves.symm.trans carries.idle
  | answered => cases serves.symm.trans carries.idle
  | exited => cases serves.symm.trans carries.idle
  | asked here =>
    obtain ⟨served, told⟩ := carries.reads worker i round together.holds
    cases serves.symm.trans served
    subst same
    have reads : x.step a (.read i) = some { a with
        view := Function.update a.view i (some (x.read a.model, a.applied.length)) } := by
      rw [Asynchronous.Scheme.step, view_]
    refine ⟨_, reads, together.with (i := i) rfl together.holds ?_ (fun j apart => by simp) (fun j apart => by simp [apart])
      (fun j apart => by simp) (fun j apart => by simp [apart])⟩
    constructor
    · rw [round_, withConnection_task, task_]
      simpa using .answered here told
    · simpa using queue
    · exact fits

theorem serve_updates_moves (carries : Carries c x p) (together : Together p s a server) {worker : W}
    (taken : c.step s (.serve (.updates i) worker) = some s') :
    ∃ a', x.step a (.apply i) = some a' ∧ ((∃ server', Together p s' a' server') ∨ Ended p s' a') := by
  obtain ⟨place, queue, fits⟩ := together.paired i
  rw [step_serving together.serving] at taken
  obtain ⟨result, serves, same⟩ := Option.map_eq_some_iff.mp taken
  cases queue_ : a.queue i with
  | nil =>
    rw [queue, queue_, List.flatMap_nil] at serves
    cases serves.symm.trans carries.idle
  | cons u rest =>
    rw [queue_] at queue fits
    obtain ⟨fit, fits⟩ := List.forall_mem_cons.mp fits
    rw [queue, List.flatMap_cons] at serves
    have applied : x.step a (.apply i) = some { a with
        model := x.apply a.model u
        queue := Function.update a.queue i rest
        applied := a.applied ++ [(i, u)] } := by
      rw [Asynchronous.Scheme.step, queue_]
    refine ⟨_, applied, ?_⟩
    rcases carries.takes worker together.holds fit with ⟨server', holds, served⟩ | ⟨e, ends, served⟩
    · left
      cases serves.symm.trans (served _)
      subst same
      refine ⟨server', together.with (i := i) rfl holds ?_ (fun j apart => by simp) (fun j apart => by simp)
        (fun j apart => by simp [apart]) (fun j apart => by simp [apart])⟩
      constructor
      · simpa using place
      · simp
      · simpa using fits
    · right
      cases serves.symm.trans (served _)
      subst same
      exact ⟨e, i, u, rfl, List.getLast?_concat .., ends⟩

theorem other_moves (carries : Carries c x p) (together : Together p s a server) {k : K}
    (taken : c.step s (.other k) = some s') : Together p s' a (c.other k server) := by
  rw [step_serving together.serving] at taken
  obtain rfl := Option.some.inj taken
  refine ⟨rfl, carries.others k together.holds, fun i => ?_⟩
  obtain ⟨place, queue, fits⟩ := together.paired i
  exact ⟨place, queue, fits⟩

theorem step_moves (carries : Carries c x p) {l : Label I W K} (related : (∃ server, Together p s a server) ∨ Ended p s a)
    (taken : c.step s l = some s') :
    ∃ a', follow x.step a l.seen.toList = some a' ∧ ((∃ server, Together p s' a' server) ∨ Ended p s' a') := by
  rcases related with ⟨server, together⟩ | ⟨e, i, u, ended, _⟩
  · cases l with
    | ask i => exact ⟨a, rfl, .inl ⟨server, ask_moves carries together taken⟩⟩
    | push i =>
      obtain ⟨a', sends, together'⟩ := push_moves carries together taken
      exact ⟨a', follow_cons sends [], .inl ⟨server, together'⟩⟩
    | serve socket worker =>
      cases socket with
      | requests i =>
        obtain ⟨a', reads, together'⟩ := serve_requests_moves carries together taken
        exact ⟨a', follow_cons reads [], .inl ⟨server, together'⟩⟩
      | updates i =>
        obtain ⟨a', applies, related'⟩ := serve_updates_moves carries together taken
        exact ⟨a', follow_cons applies [], related'⟩
    | other k => exact ⟨a, rfl, .inl ⟨_, other_moves carries together taken⟩⟩
  · rw [System.step, ended] at taken
    cases taken

theorem client_goes (carries : Carries c x p) (together : Together p s a server) (i : I) : p.Exited (s.task i) ∨
    (∃ s', c.step s (.ask i) = some s') ∨ (∃ s', c.step s (.push i) = some s') ∨
      ∀ worker, ∃ s', c.step s (.serve (.requests i) worker) = some s' := by
  have place := (together.paired i).place
  simp only [step_serving together.serving, System.moveAsk, System.movePush, System.moveServe]
  generalize a.view i = view at place
  generalize s.connection (.requests i) = get at place
  cases place with
  | ready here =>
    obtain ⟨t', asks, _⟩ := carries.asks here
    exact .inr (.inl ⟨_, congrArg (Option.map _) asks⟩)
  | asked here => exact .inr (.inr (.inr fun worker => ⟨_, congrArg (Option.map _) (carries.reads worker i _ together.holds).1⟩))
  | @answered _ v _ here told =>
    cases made : x.update i (a.rounds i) v with
    | none =>
      obtain ⟨t', pushes, _⟩ := carries.stops here told made
      exact .inr (.inr (.inl ⟨_, congrArg (Option.map _) pushes⟩))
    | some u =>
      obtain ⟨t', pushes, _⟩ := carries.pushes here told made
      exact .inr (.inr (.inl ⟨_, congrArg (Option.map _) pushes⟩))
  | exited here => exact .inl here

theorem queue_goes (carries : Carries c x p) (together : Together p s a server) (waiting : a.queue i ≠ []) (worker : W) :
    ∃ s', c.step s (.serve (.updates i) worker) = some s' := by
  obtain ⟨_, queue, fits⟩ := together.paired i
  simp only [step_serving together.serving, System.moveServe]
  rw [queue]
  cases queue_ : a.queue i with
  | nil => exact (waiting queue_).elim
  | cons u rest =>
    rw [List.flatMap_cons]
    rcases carries.takes worker together.holds (fits u (queue_ ▸ List.mem_cons_self)) with
      ⟨server', _, served⟩ | ⟨e, _, served⟩
    · exact ⟨_, congrArg (Option.map _) (served _)⟩
    · exact ⟨_, congrArg (Option.map _) (served _)⟩

/-- The server has the model that the actors share, the updates that it has not taken are on the connections
as they were sent, and every client that has not exited can go on. -/
structure Running (c : System I B S T W K E) (p : Protocol I B S T E M V U) (s : State I B S T E)
    (a : Asynchronous.State I M V U) (server : S) : Prop where
  serving : s.server = .ok server
  holds : p.Holds a.model server
  inFlight : ∀ i, (s.connection (.updates i)).up = (a.queue i).flatMap p.bytes
  goesOn : ∀ i, p.Exited (s.task i) ∨ (∃ s', c.step s (.ask i) = some s') ∨ (∃ s', c.step s (.push i) = some s') ∨
    ∀ worker, ∃ s', c.step s (.serve (.requests i) worker) = some s'
  taken : ∀ i, a.queue i ≠ [] → ∀ worker, ∃ s', c.step s (.serve (.updates i) worker) = some s'

theorem Together.running (carries : Carries c x p) (together : Together p s a server) : Running c p s a server where
  serving := together.serving
  holds := together.holds
  inFlight i := (together.paired i).queue
  goesOn := client_goes carries together
  taken _ waiting worker := queue_goes carries together waiting worker

def start (server : S) (task : I → T) : State I B S T E := ⟨.ok server, task, fun _ => {}⟩

variable {m : M} {task : I → T}

omit [DecidableEq I] in
theorem together_start (holds : p.Holds m server) (ready : ∀ i, p.Ready i 0 (task i)) :
    Together p (start server task) { model := m } server where
  serving := rfl
  holds := holds
  paired i :=
    { place := .ready (ready i)
      queue := rfl
      fits := fun _ none => absurd none List.not_mem_nil }

/-- Every run of the clients and the server is a run of the actors. -/
theorem follow_carried (carries : Carries c x p) (holds : p.Holds m server) (ready : ∀ i, p.Ready i 0 (task i))
    {labels : List (Label I W K)} (taken : follow c.step (start server task) labels = some s) :
    ∃ a, follow x.step { model := m } (labels.filterMap Label.seen) = some a ∧
      ((∃ server, Together p s a server) ∨ Ended p s a) :=
  Asynchronous.follow_simulated (R := fun s a => (∃ server, Together p s a server) ∨ Ended p s a) Label.seen
    (fun _ _ _ _ related taken => step_moves carries related taken) (.inl ⟨server, together_start holds ready⟩) taken

theorem round_goes (carries : Carries c x p) (holds : p.Holds m server) (ready : ∀ i, p.Ready i 0 (task i)) (i : I) {u : U}
    (made : x.update i 0 (x.read m) = some u) (worker : W) : ∃ s, follow c.step (start server task)
      [.ask i, .serve (.requests i) worker, .push i, .serve (.updates i) worker] = some s := by
  obtain ⟨t₁, asks, asked⟩ := carries.asks (ready i)
  obtain ⟨served, told⟩ := carries.reads worker i 0 holds
  obtain ⟨t₂, pushes, _, fits⟩ := carries.pushes asked told made
  have taken := carries.takes worker holds fits
  let s₀ : State I B S T E := start server task
  let s₁ := (s₀.withTask i t₁).withConnection (.requests i) { up := [] ++ p.message i 0 }
  let s₂ := s₁.withConnection (.requests i) { down := [] ++ p.reply i 0 (x.read m) }
  let s₃ := ((s₂.withTask i t₂).withConnection (.requests i) {}).withConnection (.updates i) { up := [] ++ p.bytes u }
  have first : c.step s₀ (.ask i) = some s₁ := congrArg (Option.map _) asks
  have second : c.step s₁ (.serve (.requests i) worker) = some s₂ := by
    have up : (s₁.connection (.requests i)).up = p.message i 0 := congrArg Connection.up (withConnection_self ..)
    have down : (s₁.connection (.requests i)).down = [] := congrArg Connection.down (withConnection_self ..)
    rw [step_serving rfl]
    dsimp only [System.moveServe]
    rw [up, down, served]
    rfl
  have third : c.step s₂ (.push i) = some s₃ := by
    have down : (s₂.connection (.requests i)).down = p.reply i 0 (x.read m) :=
      congrArg Connection.down (withConnection_self ..)
    have there : s₂.task i = t₁ := withTask_self ..
    have get : s₂.connection (.requests i) = { down := [] ++ p.reply i 0 (x.read m) } := withConnection_self ..
    have put : ((s₂.withTask i t₂).withConnection (.requests i) {}).connection (.updates i) = {} := by
      simp [s₂, s₁, s₀, start]
    rw [step_serving rfl]
    dsimp only [System.movePush]
    rw [down, there, pushes]
    dsimp only [Option.map_some]
    rw [get]
    dsimp only
    rw [put]
  have up : (s₃.connection (.updates i)).up = p.bytes u ++ [] := by
    rw [List.append_nil]
    exact congrArg Connection.up (withConnection_self ..)
  have last : ∃ s₄, c.step s₃ (.serve (.updates i) worker) = some s₄ := by
    rw [step_serving rfl]
    dsimp only [System.moveServe]
    rw [up]
    rcases taken with ⟨server', _, taken⟩ | ⟨e, _, taken⟩
    · exact ⟨_, congrArg (Option.map _) (taken [])⟩
    · exact ⟨_, congrArg (Option.map _) (taken [])⟩
  obtain ⟨s₄, fourth⟩ := last
  exact ⟨s₄, by rw [follow_cons first, follow_cons second, follow_cons third, follow_cons fourth, follow_nil]⟩

end Simulation
end Rounds

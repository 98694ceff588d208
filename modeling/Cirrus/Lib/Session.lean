import Cirrus.Lib.Stream
import Mathlib.Logic.Relation

/- A client that makes calls one after the other and a server that answers requests one after the
   other, over one connection. A call that expects no answer may return before it is served. -/
namespace Session
open Stream
variable {B C V S P : Type}

/-- What the two ends run: a call of the client, and the server's handling of one request. A `P` is
what else the handling of a request depends on, such as the time or the state of a worker. -/
structure Service (B C V S P : Type) where
  ask : C → Prog B V
  serve : P → S → Prog B S

structure State (B V S : Type) where
  returned : List V := []
  asking : Option (End B V) := none
  server : S
  handled : Nat := 0
  serving : Option (End B S) := none
  up : List B := []
  down : List B := []
  takenUp : List B := []
  takenDown : List B := []

/-- One step of a session in which the client makes `calls` and request `k` is handled with `picks k`. -/
inductive Step (svc : Service B C V S P) (picks : Nat → P) (calls : List C) :
    State B V S → State B V S → Prop
  | call {s : State B V S} {c : C} (idle : s.asking = none)
      (here : calls[s.returned.length]? = some c) :
      Step svc picks calls s { s with asking := some (.fresh (svc.ask c)) }
  | client {s : State B V S} {e e' : End B V} {taken pushed rest : List B}
      (busy : s.asking = some e) (moved : Move e taken pushed e') (arrived : s.down = taken ++ rest) :
      Step svc picks calls s
        { s with
          asking := some e'
          down := rest
          takenDown := s.takenDown ++ taken
          up := s.up ++ pushed }
  | back {s : State B V S} {e : End B V} {v : V} (busy : s.asking = some e)
      (ended : e.prog = .done v) :
      Step svc picks calls s { s with asking := none, returned := s.returned ++ [v] }
  /-- The server looks at a connection once there is something to read. -/
  | request {s : State B V S} (idle : s.serving = none) (readable : s.up ≠ []) :
      Step svc picks calls s
        { s with serving := some (.fresh (svc.serve (picks s.handled) s.server)) }
  | worker {s : State B V S} {e e' : End B S} {taken pushed rest : List B}
      (busy : s.serving = some e) (moved : Move e taken pushed e') (arrived : s.up = taken ++ rest) :
      Step svc picks calls s
        { s with
          serving := some e'
          up := rest
          takenUp := s.takenUp ++ taken
          down := s.down ++ pushed }
  | finish {s : State B V S} {e : End B S} {t : S} (busy : s.serving = some e)
      (ended : e.prog = .done t) :
      Step svc picks calls s { s with serving := none, server := t, handled := s.handled + 1 }

/-- What each call is for: the message it sends, what the server replies to it and how its state
changes, and what the client makes of the reply. The two ends keep to it on accepted calls. -/
structure Contract (svc : Service B C V S P) where
  accepts : S → C → Prop
  message : C → List B
  reply : P → S → C → List B
  value : P → S → C → V
  next : P → S → C → S
  some_message : ∀ c, message c ≠ []
  speaks_first : ∀ c, Prog.SpeaksFirst (svc.ask c)
  asks : ∀ {s c} p, accepts s c → Prog.Talks (svc.ask c) (reply p s c) (message c) (value p s c)
  serves : ∀ {s c} p, accepts s c →
    Prog.Talks (svc.serve p s) (message c) (reply p s c) (next p s c)

section History
variable {svc : Service B C V S P} (con : Contract svc) (picks : Nat → P) (start : S) (calls : List C)

def Contract.after : Nat → S
  | 0 => start
  | n + 1 =>
    match calls[n]? with
    | some c => con.next (picks n) (Contract.after n) c
    | none => Contract.after n

def Contract.history : List (P × S × C) :=
  calls.mapIdx fun k c => (picks k, con.after picks start calls k, c)

def Contract.messages (n : Nat) : List B :=
  ((con.history picks start calls).take n).flatMap fun h => con.message h.2.2

def Contract.replies (n : Nat) : List B :=
  ((con.history picks start calls).take n).flatMap fun h => con.reply h.1 h.2.1 h.2.2

def Contract.values (n : Nat) : List V :=
  ((con.history picks start calls).take n).map fun h => con.value h.1 h.2.1 h.2.2

def Contract.Accepted : Prop := ∀ h ∈ con.history picks start calls, con.accepts h.2.1 h.2.2

end History

section Prefixes
variable {svc : Service B C V S P} {con : Contract svc} {picks : Nat → P} {start : S}
  {calls : List C} {n : Nat} {c : C}

theorem after_succ (here : calls[n]? = some c) :
    con.after picks start calls (n + 1) = con.next (picks n) (con.after picks start calls n) c := by
  simp [Contract.after, here]

theorem history_take_succ (here : calls[n]? = some c) :
    (con.history picks start calls).take (n + 1) =
      (con.history picks start calls).take n ++ [(picks n, con.after picks start calls n, c)] := by
  simp [Contract.history, List.take_add_one, here]

theorem messages_succ (here : calls[n]? = some c) :
    con.messages picks start calls (n + 1) = con.messages picks start calls n ++ con.message c := by
  simp [Contract.messages, history_take_succ here]

theorem replies_succ (here : calls[n]? = some c) :
    con.replies picks start calls (n + 1) =
      con.replies picks start calls n ++ con.reply (picks n) (con.after picks start calls n) c := by
  simp [Contract.replies, history_take_succ here]

theorem values_succ (here : calls[n]? = some c) :
    con.values picks start calls (n + 1) =
      con.values picks start calls n ++ [con.value (picks n) (con.after picks start calls n) c] := by
  simp [Contract.values, history_take_succ here]

theorem messages_eq (con : Contract svc) (picks : Nat → P) (start : S) (calls : List C) (n : Nat) :
    con.messages picks start calls n = (calls.take n).flatMap con.message := by
  have listed : (con.history picks start calls).map (fun h => h.2.2) = calls := by
    apply List.ext_getElem?
    intro k
    rw [Contract.history, List.getElem?_map, List.getElem?_mapIdx, Option.map_map]
    exact congrFun Option.map_id _
  rw [Contract.messages, ← List.flatMap_map (fun h : P × S × C => h.2.2) con.message, List.map_take, listed]

theorem accepts_at (ok : con.Accepted picks start calls) (here : calls[n]? = some c) :
    con.accepts (con.after picks start calls n) c := by
  apply ok (picks n, con.after picks start calls n, c)
  apply List.mem_of_getElem? (i := n)
  simp [Contract.history, here]

theorem flatMap_take_agree {X : Type} (l : List X) (f : X → List B) (m n : Nat) :
    ∃ x y, (l.take m).flatMap f ++ x = (l.take n).flatMap f ++ y := by
  refine ⟨(l.drop m).flatMap f, (l.drop n).flatMap f, ?_⟩
  rw [← List.flatMap_append, ← List.flatMap_append, List.take_append_drop, List.take_append_drop]

theorem flatMap_take_mono {X : Type} (l : List X) (f : X → List B) {m n : Nat} (le : m ≤ n) :
    ((l.take m).flatMap f).length ≤ ((l.take n).flatMap f).length := by
  obtain ⟨more, eq⟩ := List.take_prefix_take_left le
  rw [← eq, List.flatMap_append, List.length_append]
  exact Nat.le_add_right _ _

end Prefixes

section Turns
variable {svc : Service B C V S P} {picks : Nat → P} {calls : List C}

theorem client_moves {s : State B V S} {e e' : End B V} {taken pushed rest : List B}
    (moves : Moves e taken pushed e') (busy : s.asking = some e) (arrived : s.down = taken ++ rest) :
    Relation.ReflTransGen (Step svc picks calls) s
      { s with
        asking := some e'
        down := rest
        takenDown := s.takenDown ++ taken
        up := s.up ++ pushed } := by
  induction moves generalizing s with
  | stay e =>
    rw [List.nil_append] at arrived
    simp only [← busy, ← arrived, List.append_nil]
    exact .refl
  | more moved _ ih =>
    rw [List.append_assoc] at arrived
    refine .head (.client busy moved arrived) ?_
    rw [← List.append_assoc, ← List.append_assoc]
    exact ih rfl rfl

theorem worker_moves {s : State B V S} {e e' : End B S} {taken pushed rest : List B}
    (moves : Moves e taken pushed e') (busy : s.serving = some e) (arrived : s.up = taken ++ rest) :
    Relation.ReflTransGen (Step svc picks calls) s
      { s with
        serving := some e'
        up := rest
        takenUp := s.takenUp ++ taken
        down := s.down ++ pushed } := by
  induction moves generalizing s with
  | stay e =>
    rw [List.nil_append] at arrived
    simp only [← busy, ← arrived, List.append_nil]
    exact .refl
  | more moved _ ih =>
    rw [List.append_assoc] at arrived
    refine .head (.worker busy moved arrived) ?_
    rw [← List.append_assoc, ← List.append_assoc]
    exact ih rfl rfl

end Turns

section Invariant
variable {svc : Service B C V S P} (con : Contract svc) (picks : Nat → P) (start : S) (calls : List C)

structure Serving (s : State B V S) (e : End B S) : Prop where
  known : s.handled < calls.length
  left : ∃ takes sends, Left e takes sends (con.after picks start calls (s.handled + 1)) ∧
    s.takenUp ++ takes = con.messages picks start calls (s.handled + 1) ∧
    s.takenDown ++ s.down ++ sends = con.replies picks start calls (s.handled + 1)
  begun : (con.messages picks start calls s.handled).length < (s.takenUp ++ s.up).length

structure Calling (s : State B V S) (e : End B V) : Prop where
  left : ∃ c takes sends, calls[s.returned.length]? = some c ∧
    Left e takes sends (con.value (picks s.returned.length) (con.after picks start calls s.returned.length) c) ∧
    s.takenDown ++ takes = con.replies picks start calls (s.returned.length + 1) ∧
    s.takenUp ++ s.up ++ sends = con.messages picks start calls (s.returned.length + 1)
  speaks : Prog.SpeaksFirst e.prog

structure InStep (s : State B V S) : Prop where
  server : s.server = con.after picks start calls s.handled
  handled : s.handled ≤ calls.length
  returned : s.returned.length ≤ calls.length
  values : s.returned = con.values picks start calls s.returned.length
  between : s.serving = none → s.takenUp = con.messages picks start calls s.handled ∧
    s.takenDown ++ s.down = con.replies picks start calls s.handled
  serving : ∀ e, s.serving = some e → Serving con picks start calls s e
  idle : s.asking = none → s.takenDown = con.replies picks start calls s.returned.length ∧
    s.takenUp ++ s.up = con.messages picks start calls s.returned.length
  calling : ∀ e, s.asking = some e → Calling con picks start calls s e

variable {con picks start calls}

theorem InStep.upstream {s : State B V S} (inv : InStep con picks start calls s) :
    ∃ unsent i, i ≤ calls.length ∧ s.takenUp ++ s.up ++ unsent = con.messages picks start calls i := by
  cases asking : s.asking with
  | none => exact ⟨[], _, inv.returned, by rw [List.append_nil, (inv.idle asking).2]⟩
  | some e =>
    obtain ⟨c, takes, sends, here, _, _, up⟩ := (inv.calling e asking).left
    exact ⟨sends, _, (List.getElem?_eq_some_iff.mp here).1, up⟩

theorem InStep.downstream {s : State B V S} (inv : InStep con picks start calls s) :
    ∃ unsent k, s.takenDown ++ s.down ++ unsent = con.replies picks start calls k := by
  cases serving : s.serving with
  | none => exact ⟨[], _, by rw [List.append_nil, (inv.between serving).2]⟩
  | some e =>
    obtain ⟨takes, sends, _, _, down⟩ := (inv.serving e serving).left
    exact ⟨sends, _, down⟩

theorem inStep_start : InStep con picks start calls ({ server := start } : State B V S) where
  server := rfl
  handled := Nat.zero_le _
  returned := Nat.zero_le _
  values := rfl
  between := fun _ => ⟨rfl, rfl⟩
  serving := nofun
  idle := fun _ => ⟨rfl, rfl⟩
  calling := nofun

theorem inStep_call {s : State B V S} {c : C} (inv : InStep con picks start calls s)
    (ok : con.Accepted picks start calls) (idle : s.asking = none)
    (here : calls[s.returned.length]? = some c) :
    InStep con picks start calls { s with asking := some (.fresh (svc.ask c)) } := by
  obtain ⟨down, up⟩ := inv.idle idle
  refine { inv with idle := nofun, calling := ?_, serving := ?_ }
  · intro e busy
    exact { inv.serving e busy with }
  · intro e busy
    cases busy
    refine ⟨⟨c, _, _, here, con.asks _ (accepts_at ok here), ?_, ?_⟩, con.speaks_first c⟩
    · rw [replies_succ here]
      exact congrArg (· ++ _) down
    · rw [messages_succ here]
      exact congrArg (· ++ _) up

theorem move_speaksFirst {A : Type} {e e' : End B A} {taken pushed : List B}
    (first : Prog.SpeaksFirst e.prog) (moved : Move e taken pushed e') :
    Prog.SpeaksFirst e'.prog := by
  cases moved with
  | read => exact first
  | received => exact Prog.speaksFirst_of_mute (first _)
  | write => exact first
  | written => exact first

theorem inStep_client {s : State B V S} {e e' : End B V} {taken pushed rest : List B}
    (inv : InStep con picks start calls s) (busy : s.asking = some e)
    (moved : Move e taken pushed e') (arrived : s.down = taken ++ rest) :
    InStep con picks start calls
      { s with
        asking := some e'
        down := rest
        takenDown := s.takenDown ++ taken
        up := s.up ++ pushed } := by
  have down_same : s.takenDown ++ taken ++ rest = s.takenDown ++ s.down := by
    rw [arrived, List.append_assoc]
  obtain ⟨⟨c, takes, sends, here, left, down, up⟩, speaks⟩ := inv.calling e busy
  obtain ⟨unsent, k, downstream⟩ := inv.downstream
  obtain ⟨x, y, agree⟩ := flatMap_take_agree (con.history picks start calls)
    (fun h => con.reply h.1 h.2.1 h.2.2) k (s.returned.length + 1)
  have same_front : taken ++ (rest ++ unsent ++ x) = takes ++ y := by
    change con.replies picks start calls k ++ x =
      con.replies picks start calls (s.returned.length + 1) ++ y at agree
    rw [← down, ← downstream, arrived] at agree
    simpa only [List.append_assoc, List.append_cancel_left_eq] using agree
  obtain ⟨takes', sends', rfl, rfl, left'⟩ := left.move moved same_front
  refine { inv with between := ?_, serving := ?_, idle := nofun, calling := ?_ }
  · intro idle
    obtain ⟨taken_up, taken_down⟩ := inv.between idle
    exact ⟨taken_up, down_same.trans taken_down⟩
  · intro w serving
    obtain ⟨known, ⟨t, o, left, taken_up, taken_down⟩, begun⟩ := inv.serving w serving
    refine ⟨known, ⟨t, o, left, taken_up, ?_⟩, ?_⟩
    · rw [down_same, taken_down]
    · simp only [List.length_append] at begun ⊢
      omega
  · intro w calling
    cases calling
    refine ⟨⟨c, takes', sends', here, left', ?_, ?_⟩, move_speaksFirst speaks moved⟩
    · rw [← down, List.append_assoc]
    · rw [← up]
      simp only [List.append_assoc]

theorem inStep_back {s : State B V S} {e : End B V} {v : V}
    (inv : InStep con picks start calls s) (busy : s.asking = some e) (ended : e.prog = .done v) :
    InStep con picks start calls { s with asking := none, returned := s.returned ++ [v] } := by
  obtain ⟨⟨c, takes, sends, here, left, down, up⟩, speaks⟩ := inv.calling e busy
  obtain ⟨rfl, rfl, rfl⟩ := left.done ended
  rw [List.append_nil] at down up
  have length : (s.returned ++ [con.value (picks s.returned.length) (con.after picks start calls s.returned.length) c]).length =
      s.returned.length + 1 := by simp
  refine { inv with returned := ?_, values := ?_, serving := ?_, idle := ?_, calling := nofun }
  · rw [length]
    exact (List.getElem?_eq_some_iff.mp here).1
  · rw [length, values_succ here, ← inv.values]
  · intro w serving
    exact { inv.serving w serving with }
  · intro _
    rw [length]
    exact ⟨down, up⟩

theorem inStep_request {s : State B V S} (inv : InStep con picks start calls s)
    (ok : con.Accepted picks start calls) (idle : s.serving = none) (readable : s.up ≠ []) :
    InStep con picks start calls
      { s with serving := some (.fresh (svc.serve (picks s.handled) s.server)) } := by
  obtain ⟨taken_up, taken_down⟩ := inv.between idle
  have more : (con.messages picks start calls s.handled).length < (s.takenUp ++ s.up).length := by
    rw [← taken_up, List.length_append]
    have := List.length_pos_iff.mpr readable
    omega
  have known : s.handled < calls.length := by
    obtain ⟨unsent, i, bound, upstream⟩ := inv.upstream
    apply Decidable.byContradiction
    intro beyond
    have fewer := flatMap_take_mono (con.history picks start calls)
      (fun h => con.message h.2.2) (Nat.le_trans bound (Nat.le_of_not_lt beyond))
    change (con.messages picks start calls i).length ≤
      (con.messages picks start calls s.handled).length at fewer
    rw [← upstream, List.length_append] at fewer
    omega
  have here : calls[s.handled]? = some calls[s.handled] := List.getElem?_eq_getElem known
  have serves := con.serves (picks s.handled) (accepts_at ok here)
  rw [← after_succ here, ← inv.server] at serves
  refine { inv with between := nofun, serving := ?_, calling := ?_ }
  · intro w serving
    cases serving
    refine ⟨known, ⟨_, _, serves, ?_, ?_⟩, more⟩
    · rw [messages_succ here]
      exact congrArg (· ++ _) taken_up
    · rw [replies_succ here, inv.server]
      exact congrArg (· ++ _) taken_down
  · intro e busy
    exact { inv.calling e busy with }

theorem inStep_worker {s : State B V S} {e e' : End B S} {taken pushed rest : List B}
    (inv : InStep con picks start calls s) (busy : s.serving = some e)
    (moved : Move e taken pushed e') (arrived : s.up = taken ++ rest) :
    InStep con picks start calls
      { s with
        serving := some e'
        up := rest
        takenUp := s.takenUp ++ taken
        down := s.down ++ pushed } := by
  have up_same : s.takenUp ++ taken ++ rest = s.takenUp ++ s.up := by
    rw [arrived, List.append_assoc]
  obtain ⟨known, ⟨takes, sends, left, taken_up, taken_down⟩, begun⟩ := inv.serving e busy
  obtain ⟨unsent, i, _, upstream⟩ := inv.upstream
  obtain ⟨x, y, agree⟩ := flatMap_take_agree (con.history picks start calls)
    (fun h => con.message h.2.2) i (s.handled + 1)
  have same_front : taken ++ (rest ++ unsent ++ x) = takes ++ y := by
    change con.messages picks start calls i ++ x =
      con.messages picks start calls (s.handled + 1) ++ y at agree
    rw [← taken_up, ← upstream, arrived] at agree
    simpa only [List.append_assoc, List.append_cancel_left_eq] using agree
  obtain ⟨takes', sends', rfl, rfl, left'⟩ := left.move moved same_front
  refine { inv with between := nofun, serving := ?_, idle := ?_, calling := ?_ }
  · intro w serving
    cases serving
    refine ⟨known, ⟨takes', sends', left', ?_, ?_⟩, ?_⟩
    · rw [← taken_up, List.append_assoc]
    · rw [← taken_down]
      simp only [List.append_assoc]
    · rwa [up_same]
  · intro idle
    obtain ⟨down, up⟩ := inv.idle idle
    exact ⟨down, up_same.trans up⟩
  · intro w calling
    obtain ⟨⟨c, t, o, here, left, down, up⟩, speaks⟩ := inv.calling w calling
    refine ⟨⟨c, t, o, here, left, down, ?_⟩, speaks⟩
    rw [up_same, up]

theorem inStep_finish {s : State B V S} {e : End B S} {t : S}
    (inv : InStep con picks start calls s) (busy : s.serving = some e) (ended : e.prog = .done t) :
    InStep con picks start calls { s with serving := none, server := t, handled := s.handled + 1 } := by
  obtain ⟨known, ⟨takes, sends, left, taken_up, taken_down⟩, begun⟩ := inv.serving e busy
  obtain ⟨rfl, rfl, rfl⟩ := left.done ended
  rw [List.append_nil] at taken_up taken_down
  refine { inv with server := rfl, handled := known, between := ?_, serving := nofun, calling := ?_ }
  · exact fun _ => ⟨taken_up, taken_down⟩
  · intro w calling
    exact { inv.calling w calling with }

theorem inStep_step {s t : State B V S} (ok : con.Accepted picks start calls)
    (inv : InStep con picks start calls s) (step : Step svc picks calls s t) :
    InStep con picks start calls t := by
  cases step with
  | call idle here => exact inStep_call inv ok idle here
  | client busy moved arrived => exact inStep_client inv busy moved arrived
  | back busy ended => exact inStep_back inv busy ended
  | request idle readable => exact inStep_request inv ok idle readable
  | worker busy moved arrived => exact inStep_worker inv busy moved arrived
  | finish busy ended => exact inStep_finish inv busy ended

theorem inStep_of_run {s : State B V S} (ok : con.Accepted picks start calls)
    (run : Relation.ReflTransGen (Step svc picks calls) { server := start } s) :
    InStep con picks start calls s := by
  induction run with
  | refl => exact inStep_start
  | tail _ step ih => exact inStep_step ok ih step

variable (con picks start) in
theorem messages_strict {m n : Nat} (lt : m < n) (bound : n ≤ calls.length) :
    (con.messages picks start calls m).length < (con.messages picks start calls n).length := by
  have here : calls[m]? = some calls[m] := List.getElem?_eq_getElem (by omega)
  have one : con.messages picks start calls (m + 1) = _ := messages_succ here
  replace one := congrArg List.length one
  have some_cell := List.length_pos_iff.mpr (con.some_message calls[m])
  have more := flatMap_take_mono (con.history picks start calls) (fun h => con.message h.2.2) lt
  change (con.messages picks start calls (m + 1)).length ≤
    (con.messages picks start calls n).length at more
  rw [List.length_append] at one
  omega

theorem waiting_sent {A : Type} {e : End B A} {takes sends : List B} {a : A}
    (left : Left e takes sends a) (first : Prog.SpeaksFirst e.prog)
    (waits : ∃ n next, e.prog = .recv n next) : sends = [] := by
  obtain ⟨n, next, here⟩ := waits
  have mute : Prog.Mute e.prog := by
    rw [here] at first ⊢
    exact first
  have sent := congrArg Prog.Progress.sent (left [])
  rw [Prog.mute_sends_nothing mute] at sent
  exact sent.symm

theorem calling_moves {s : State B V S} {e : End B V} (inv : InStep con picks start calls s)
    (busy : s.asking = some e) :
    (∃ t, Step svc picks calls s t) ∨ (s.down = [] ∧ s.returned.length < calls.length ∧
      s.takenUp ++ s.up = con.messages picks start calls (s.returned.length + 1) ∧
      s.takenDown ≠ con.replies picks start calls (s.returned.length + 1)) := by
  obtain ⟨⟨c, takes, sends, here, left, down, up⟩, speaks⟩ := inv.calling e busy
  rcases left.can_move with ⟨v, ended⟩ | ⟨e', pushed, moved⟩ | ⟨some_cells, waits, reads⟩
  · exact Or.inl ⟨_, .back busy ended⟩
  · exact Or.inl ⟨_, .client busy moved rfl⟩
  · cases arrived : s.down with
    | cons cell rest =>
      obtain ⟨e', moved⟩ := reads cell
      exact Or.inl ⟨_, .client busy moved arrived⟩
    | nil =>
      have all := waiting_sent left speaks waits
      rw [all, List.append_nil] at up
      refine Or.inr ⟨rfl, (List.getElem?_eq_some_iff.mp here).1, up, ?_⟩
      rw [← down]
      intro same
      exact some_cells (List.append_cancel_left ((List.append_nil _).trans same)).symm

theorem InStep.not_stuck {s : State B V S} (inv : InStep con picks start calls s)
    (unfinished : ¬ (s.returned.length = calls.length ∧ s.asking = none ∧
      s.handled = calls.length ∧ s.serving = none)) :
    ∃ t, Step svc picks calls s t := by
  have returned := inv.returned
  have handled := inv.handled
  cases serving : s.serving with
  | some w =>
    obtain ⟨known, ⟨takes, sends, left, taken_up, taken_down⟩, begun⟩ := inv.serving w serving
    rcases left.can_move with ⟨t, ended⟩ | ⟨w', pushed, moved⟩ | ⟨some_cells, _, reads⟩
    · exact ⟨_, .finish serving ended⟩
    · exact ⟨_, .worker serving moved rfl⟩
    · cases arrived : s.up with
      | cons cell rest =>
        obtain ⟨w', moved⟩ := reads cell
        exact ⟨_, .worker serving moved arrived⟩
      | nil =>
        -- the worker waits for cells, so the client has not sent this whole message yet
        have absent : ∀ i ≤ calls.length,
            s.takenUp ++ s.up ≠ con.messages picks start calls i := by
          intro i bound same
          have lengths := congrArg List.length taken_up
          rw [same] at begun
          rw [arrived, List.append_nil] at same
          rw [List.length_append, same] at lengths
          have some_cell := List.length_pos_iff.mpr some_cells
          rcases Nat.lt_or_ge s.handled i with before | after
          · have fewer := flatMap_take_mono (con.history picks start calls)
              (fun h => con.message h.2.2) before
            change (con.messages picks start calls (s.handled + 1)).length ≤
              (con.messages picks start calls i).length at fewer
            omega
          · have fewer := flatMap_take_mono (con.history picks start calls)
              (fun h => con.message h.2.2) after
            change (con.messages picks start calls i).length ≤
              (con.messages picks start calls s.handled).length at fewer
            omega
        cases asking : s.asking with
        | none => exact (absent _ returned (inv.idle asking).2).elim
        | some e =>
          rcases calling_moves inv asking with goes | ⟨_, bound, up, _⟩
          · exact goes
          · exact (absent _ bound up).elim
  | none =>
    cases arrived : s.up with
    | cons cell rest => exact ⟨_, .request serving (by rw [arrived]; exact List.cons_ne_nil _ _)⟩
    | nil =>
      obtain ⟨taken_up, taken_down⟩ := inv.between serving
      have caught_up : ∀ i ≤ calls.length,
          s.takenUp ++ s.up = con.messages picks start calls i → i = s.handled := by
        intro i bound same
        rw [arrived, List.append_nil, taken_up] at same
        have lengths := congrArg List.length same
        rcases Nat.lt_trichotomy i s.handled with before | rfl | after
        · have := messages_strict con picks start before handled
          omega
        · rfl
        · have := messages_strict con picks start after bound
          omega
      cases asking : s.asking with
      | none =>
        have even := caught_up _ returned (inv.idle asking).2
        have known : s.returned.length < calls.length := by
          apply Decidable.byContradiction
          intro beyond
          exact unfinished ⟨by omega, asking, by omega, serving⟩
        exact ⟨_, .call asking (List.getElem?_eq_getElem known)⟩
      | some e =>
        rcases calling_moves inv asking with goes | ⟨down, bound, up, missing⟩
        · exact goes
        · have even := caught_up _ bound up
          rw [down, List.append_nil, ← even] at taken_down
          exact (missing taken_down).elim

end Invariant

section Playing
variable {svc : Service B C V S P} {con : Contract svc} {picks : Nat → P} {start : S} {calls : List C}

def Contract.over (con : Contract svc) (picks : Nat → P) (start : S) (calls : List C) (n : Nat) : State B V S where
  returned := con.values picks start calls n
  server := con.after picks start calls n
  handled := n
  takenUp := con.messages picks start calls n
  takenDown := con.replies picks start calls n

theorem values_length {n : Nat} (bound : n ≤ calls.length) : (con.values picks start calls n).length = n := by
  rw [Contract.values, List.length_map, List.length_take, Contract.history, List.length_mapIdx, Nat.min_eq_left bound]

theorem exchange {n : Nat} {c : C} (here : calls[n]? = some c) (accepted : con.accepts (con.after picks start calls n) c) :
    Relation.ReflTransGen (Step svc picks calls) (con.over picks start calls n) (con.over picks start calls (n + 1)) := by
  obtain ⟨bound, _⟩ := List.getElem?_eq_some_iff.mp here
  have length : (con.values picks start calls n).length = n := values_length (Nat.le_of_lt bound)
  obtain ⟨q, speaks, hears⟩ := (con.asks (picks n) accepted).turns (con.speaks_first c)
  have served := con.serves (picks n) accepted []
  have heard := hears []
  rw [List.append_nil] at served heard
  obtain ⟨request, same, serves⟩ := Stream.moves_of_run served
  rw [List.append_nil] at same
  subst same
  obtain ⟨answer, same, listens⟩ := Stream.moves_of_run heard
  rw [List.append_nil] at same
  subst same
  have over_succ : con.over picks start calls (n + 1) =
      { returned := con.values picks start calls n ++ [con.value (picks n) (con.after picks start calls n) c]
        server := con.next (picks n) (con.after picks start calls n) c
        handled := n + 1
        takenUp := con.messages picks start calls n ++ con.message c
        takenDown := con.replies picks start calls n ++ [] ++ con.reply (picks n) (con.after picks start calls n) c } := by
    rw [Contract.over, values_succ here, after_succ here, messages_succ here, replies_succ here, List.append_nil]
  rw [over_succ]
  -- the client calls and sends all, the server serves the request, and the client takes the reply
  refine .head (.call rfl (by rw [show (con.over picks start calls n).returned.length = n from length, here])) ?_
  refine (client_moves speaks rfl rfl).trans ?_
  refine .head (.request rfl (con.some_message c)) ?_
  refine (worker_moves serves rfl (List.append_nil _).symm).trans ?_
  refine .head (.finish rfl rfl) ?_
  refine (client_moves listens rfl (List.append_nil _).symm).trans ?_
  exact .single (.back rfl rfl)

theorem plays (ok : con.Accepted picks start calls) {n : Nat} (bound : n ≤ calls.length) :
    Relation.ReflTransGen (Step svc picks calls) { server := start } (con.over picks start calls n) := by
  induction n with
  | zero => exact .refl
  | succ n ih =>
    have here : calls[n]? = some calls[n] := List.getElem?_eq_getElem bound
    exact (ih (Nat.le_of_lt bound)).trans (exchange here (accepts_at ok here))

end Playing

end Session
